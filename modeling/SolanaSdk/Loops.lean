import Mathlib.Data.List.Basic
import Mathlib.Logic.Relation

/-!
Loops as step functions. A loop terminates when some number of turns reaches
its stop. A measure that every turn lowers gives termination; a set of states
that no turn leaves and in which no turn stops refutes it. Where the measure
drops outside such a set, the loop terminates from exactly the states that do
not reach the set.
-/

namespace SolanaSdk.Loops

universe u v

inductive Step (State : Type u) (Result : Type v) where
  | next (state : State)
  | stop (result : Result)

/-- The turn of a loop whose body may fail, which ends the loop. -/
def attempt {State Problem Result : Type} (body : State → Except Problem (Step State Result))
    (state : State) : Step State (Except Problem Result) :=
  match body state with
  | .error problem => .stop (.error problem)
  | .ok (.next later) => .next later
  | .ok (.stop result) => .stop (.ok result)

variable {State : Type u} {Result : Type v} (step : State → Step State Result)

/-- At most `fuel` turns; `none` when they are used up. -/
def run : Nat → State → Option Result
  | 0, _ => none
  | fuel + 1, state =>
      match step state with
      | .next later => run fuel later
      | .stop result => some result

def Returns (state : State) (result : Result) : Prop := ∃ fuel, run step fuel state = some result

def Terminates (state : State) : Prop := ∃ result, Returns step state result

theorem attempt_next {State Problem Result : Type}
    (body : State → Except Problem (Step State Result)) (state later : State) :
    attempt body state = .next later ↔ body state = .ok (.next later) := by
  unfold attempt
  cases body state with
  | error problem => simp
  | ok turn => cases turn <;> simp

theorem attempt_stop {State Problem Result : Type}
    (body : State → Except Problem (Step State Result)) (state : State) (result : Result) :
    attempt body state = .stop (.ok result) ↔ body state = .ok (.stop result) := by
  unfold attempt
  cases body state with
  | error problem => simp
  | ok turn => cases turn <;> simp

def Turn (state later : State) : Prop := step state = .next later

/-- The states that the loop comes to, its first one included. -/
def Reaches : State → State → Prop := Relation.ReflTransGen (Turn step)

theorem returns_stop (state : State) (result : Result) (stops : step state = .stop result) :
    Returns step state result := ⟨1, by rw [run, stops]⟩

theorem returns_next (state later : State) (result : Result) (turn : Turn step state later)
    (rest : Returns step later result) : Returns step state result := by
  obtain ⟨fuel, ran⟩ := rest
  exact ⟨fuel + 1, by rw [run, turn]; exact ran⟩

theorem terminates_next (state later : State) (turn : Turn step state later) :
    Terminates step state ↔ Terminates step later := by
  constructor
  · rintro ⟨result, fuel, ran⟩
    cases fuel with
    | zero => cases ran
    | succ fuel =>
        rw [run, turn] at ran
        exact ⟨result, fuel, ran⟩
  · rintro ⟨result, rest⟩
    exact ⟨result, returns_next step state later result turn rest⟩

theorem run_more (fuel : Nat) (state : State) (result : Result)
    (ran : run step fuel state = some result) (more : Nat) (enough : fuel ≤ more) :
    run step more state = some result := by
  induction fuel generalizing state more with
  | zero => cases ran
  | succ fuel ih =>
      cases more with
      | zero => exact absurd enough (Nat.not_succ_le_zero fuel)
      | succ more =>
          rw [run] at ran ⊢
          cases turn : step state with
          | stop result => rwa [turn] at ran
          | next later =>
              rw [turn] at ran
              exact ih later ran more (Nat.le_of_succ_le_succ enough)

/-- What holds of each of some rows from some fuel on holds of all of them from some fuel on. -/
theorem enough_for_all (holds : Nat → Nat → Prop) (count : Nat)
    (each : ∀ i < count, ∃ least, ∀ fuel, least ≤ fuel → holds i fuel) :
    ∃ least, ∀ fuel, least ≤ fuel → ∀ i < count, holds i fuel := by
  induction count with
  | zero => exact ⟨0, fun _ _ i never => absurd never (Nat.not_lt_zero i)⟩
  | succ count ih =>
      obtain ⟨least, before⟩ := ih fun i inside => each i (Nat.lt_succ_of_lt inside)
      obtain ⟨last, here⟩ := each count (Nat.lt_succ_self count)
      refine ⟨max least last, fun fuel enough i inside => ?_⟩
      rcases Nat.lt_succ_iff_lt_or_eq.mp inside with below | rfl
      · exact before fuel (by omega) i below
      · exact here fuel (by omega)

theorem returns_unique (state : State) (left right : Result) (first : Returns step state left)
    (second : Returns step state right) : left = right := by
  obtain ⟨few, one⟩ := first
  obtain ⟨many, two⟩ := second
  have left := run_more step few state left one (few + many) (by omega)
  have right := run_more step many state right two (few + many) (by omega)
  exact Option.some.inj (left.symm.trans right)

/-- What a loop returns is the stop of a state that it comes to. -/
theorem returns_reached (state : State) (result : Result) (returns : Returns step state result) :
    ∃ last, Reaches step state last ∧ step last = .stop result := by
  obtain ⟨fuel, ran⟩ := returns
  induction fuel generalizing state with
  | zero => cases ran
  | succ fuel ih =>
      rw [run] at ran
      cases turn : step state with
      | stop result =>
          rw [turn] at ran
          cases ran
          exact ⟨state, .refl, turn⟩
      | next later =>
          rw [turn] at ran
          obtain ⟨last, path, stops⟩ := ih later ran
          exact ⟨last, .head turn path, stops⟩

theorem reached_returns (state last : State) (path : Reaches step state last) (result : Result)
    (stops : step last = .stop result) : Returns step state result := by
  induction path using Relation.ReflTransGen.head_induction_on with
  | refl => exact returns_stop step last result stops
  | head turn _ ih => exact returns_next step _ _ result turn ih

/-- A loop over counted turns, each of which may also never end. -/
def Counted (step : Nat → Step Nat Result) : Prop :=
  ∀ turn later, Turn step turn later → later = turn ∨ later = turn + 1

theorem counted_passed (step : Nat → Step Nat Result) (counted : Counted step) (last : Nat) :
    Reaches step 0 last ↔ ∀ turn < last, Turn step turn (turn + 1) := by
  constructor
  · intro path
    induction path with
    | refl => exact fun turn never => absurd never (Nat.not_lt_zero turn)
    | tail _ turned ih =>
        rename_i here there _
        rcases counted here there turned with rfl | rfl
        · exact ih
        · intro turn before
          rcases Nat.lt_succ_iff_lt_or_eq.mp before with earlier | rfl
          · exact ih turn earlier
          · exact turned
  · intro passed
    induction last with
    | zero => exact .refl
    | succ last ih =>
        exact .tail (ih fun turn before => passed turn (Nat.lt_succ_of_lt before))
          (passed last (Nat.lt_succ_self last))

/-- A loop whose body never fails does not return a problem. -/
theorem attempt_returned {State Problem Result : Type}
    (body : State → Except Problem (Step State Result))
    (total : ∀ state, ∃ turn, body state = .ok turn) (state : State)
    (result : Except Problem Result) (returns : Returns (attempt body) state result) :
    ∃ value, result = .ok value := by
  obtain ⟨last, -, stops⟩ := returns_reached (attempt body) state result returns
  obtain ⟨turn, body⟩ := total last
  unfold attempt at stops
  rw [body] at stops
  cases turn with
  | next later => cases stops
  | stop value =>
      cases stops
      exact ⟨value, rfl⟩

/-- More turns than the measure are enough, when every turn lowers it. -/
theorem run_measure (measure : State → Nat) (invariant : State → Prop)
    (kept : ∀ state later, invariant state → Turn step state later → invariant later)
    (lower : ∀ state later, invariant state → Turn step state later →
      measure later < measure state)
    (state : State) (holds : invariant state) (fuel : Nat) (enough : measure state < fuel) :
    ∃ result, run step fuel state = some result := by
  induction fuel generalizing state with
  | zero => exact absurd enough (Nat.not_lt_zero _)
  | succ fuel ih =>
      rw [run]
      cases turn : step state with
      | stop result => exact ⟨result, rfl⟩
      | next later =>
          -- Each turn uses one unit of fuel and at least one of the measure.
          have smaller := lower state later holds turn
          exact ih later (kept state later holds turn) (by omega)

/-- What a loop returns that is known to need no more turns than `fuel`. -/
def outcome (fuel : Nat) (state : State) (ends : ∃ result, run step fuel state = some result) :
    Result :=
  (run step fuel state).get (Option.isSome_iff_exists.mpr ends)

theorem outcome_returns (fuel : Nat) (state : State)
    (ends : ∃ result, run step fuel state = some result) :
    Returns step state (outcome step fuel state ends) := ⟨fuel, (Option.some_get _).symm⟩

theorem outcome_unique (fuel : Nat) (state : State)
    (ends : ∃ result, run step fuel state = some result) (result : Result)
    (returns : Returns step state result) : outcome step fuel state ends = result :=
  returns_unique step state _ result (outcome_returns step fuel state ends) returns

/-- A set that no turn leaves and in which no turn stops. -/
def Trap (stuck : State → Prop) : Prop :=
  ∀ state, stuck state → ∃ later, Turn step state later ∧ stuck later

theorem trap_diverges (stuck : State → Prop) (trap : Trap step stuck) (state : State)
    (inside : stuck state) : ¬ Terminates step state := by
  rintro ⟨result, fuel, ran⟩
  induction fuel generalizing state with
  | zero => cases ran
  | succ fuel ih =>
      -- A run that returns has a last turn, but every turn here has a next one.
      obtain ⟨later, turn, still⟩ := trap state inside
      rw [run, turn] at ran
      exact ih later still ran

theorem reaches_terminates (state later : State) (path : Reaches step state later) :
    Terminates step state ↔ Terminates step later := by
  induction path with
  | refl => rfl
  | tail _ turn ih => exact ih.trans (terminates_next step _ _ turn)

/-- When only trapped states keep a turn from lowering the measure, the loop
terminates exactly if it comes to no trapped state. -/
theorem terminates_iff (measure : State → Nat) (stuck : State → Prop) (trap : Trap step stuck)
    (lower : ∀ state later, ¬ stuck state → Turn step state later →
      measure later < measure state) (state : State) :
    Terminates step state ↔ ∀ later, Reaches step state later → ¬ stuck later := by
  constructor
  · intro ends later path inside
    exact trap_diverges step stuck trap later inside
      ((reaches_terminates step state later path).mp ends)
  · intro free
    -- That no trapped state lies ahead is kept by every turn.
    obtain ⟨result, ran⟩ := run_measure step measure
      (fun here => ∀ later, Reaches step here later → ¬ stuck later)
      (fun here later clear turn last path => clear last (.head turn path))
      (fun here later clear turn => lower here later (clear here .refl) turn)
      state free (measure state + 1) (Nat.lt_succ_self _)
    exact ⟨result, _, ran⟩

end SolanaSdk.Loops
