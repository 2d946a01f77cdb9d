import SolanaSdk.Loops

/-!
Streams that are moved by calls of which each takes a part of what is left, or
fails. How a stream is cut is up to the environment. Whatever it does, what has
been moved is a prefix of the stream at every moment, and it only grows.
-/

namespace SolanaSdk.Streams

open Loops

universe u
variable {Symbol : Type u}

/-- What the call of a turn returns for the number of symbols that are left: how
many it has taken, and zero or less for a failure. -/
structure Flow where
  count : Nat → Nat → Int
  bounded : ∀ turn left, count turn left ≤ left

structure Moving (Symbol : Type u) where
  turn : Nat
  moved : List Symbol
  rest : List Symbol

structure Moved (Symbol : Type u) where
  moved : List Symbol
  rest : List Symbol

namespace Moving

def start (stream : List Symbol) : Moving Symbol := ⟨0, [], stream⟩

def after (state : Moving Symbol) (count : Nat) : Moving Symbol where
  turn := state.turn + 1
  moved := state.moved ++ state.rest.take count
  rest := state.rest.drop count

end Moving

section Loop
variable (flow : Flow)

/-- One call, unless nothing is left. -/
def moveTurn (state : Moving Symbol) : Step (Moving Symbol) (Moved Symbol) :=
  if 0 < state.rest.length then
    let count := flow.count state.turn state.rest.length
    if count ≤ 0 then .stop ⟨state.moved, state.rest⟩ else .next (state.after count.toNat)
  else .stop ⟨state.moved, state.rest⟩

theorem move_turn_next (state later : Moving Symbol) (turn : Turn (moveTurn flow) state later) :
    0 < state.rest.length ∧ 0 < flow.count state.turn state.rest.length ∧
      later = state.after (flow.count state.turn state.rest.length).toNat := by
  unfold Turn moveTurn at turn
  split at turn
  next some =>
    dsimp only at turn
    split at turn
    next => cases turn
    next positive =>
      cases turn
      exact ⟨some, Int.not_le.mp positive, rfl⟩
  next => cases turn

theorem move_turn_stop (state : Moving Symbol) (result : Moved Symbol)
    (stops : moveTurn flow state = .stop result) :
    result = ⟨state.moved, state.rest⟩ ∧
      (0 < state.rest.length → flow.count state.turn state.rest.length ≤ 0) := by
  unfold moveTurn at stops
  split at stops
  next =>
    dsimp only at stops
    split at stops
    next failed =>
      cases stops
      exact ⟨rfl, fun _ => failed⟩
    next => cases stops
  next none =>
    cases stops
    exact ⟨rfl, fun some => absurd some none⟩

theorem move_turn_lower (state later : Moving Symbol) (turn : Turn (moveTurn flow) state later) :
    later.rest.length < state.rest.length := by
  obtain ⟨some, positive, rfl⟩ := move_turn_next flow state later turn
  change (state.rest.drop _).length < _
  rw [List.length_drop]
  omega

theorem moves_end (stream : List Symbol) :
    ∃ result, run (moveTurn flow) (stream.length + 1) (Moving.start stream) = some result :=
  run_measure (moveTurn flow) (·.rest.length) (fun _ => True) (fun _ _ _ _ => trivial)
    (fun state later _ turn => move_turn_lower flow state later turn) _ trivial _
    (Nat.lt_succ_self _)

/-- The whole loop. No more calls are made than there are symbols. -/
def transfer (stream : List Symbol) : Moved Symbol := outcome _ _ _ (moves_end flow stream)

/-- From one moment to a later one the moved part grows by what the rest loses. -/
theorem reaches_grows (state later : Moving Symbol) (path : Reaches (moveTurn flow) state later) :
    ∃ more, later.moved = state.moved ++ more ∧ state.rest = more ++ later.rest := by
  induction path with
  | refl => exact ⟨[], (List.append_nil _).symm, rfl⟩
  | tail _ turn ih =>
      rename_i here there _
      obtain ⟨more, grown, left⟩ := ih
      obtain ⟨-, -, rfl⟩ := move_turn_next flow here there turn
      refine ⟨more ++ here.rest.take (flow.count here.turn here.rest.length).toNat, ?_, ?_⟩
      · rw [← List.append_assoc, ← grown]
        rfl
      · rw [List.append_assoc, left]
        exact congrArg (more ++ ·) (List.take_append_drop _ _).symm

/-- No symbol is lost, repeated or moved out of its order. -/
theorem start_splits (stream : List Symbol) (state : Moving Symbol)
    (path : Reaches (moveTurn flow) (Moving.start stream) state) :
    state.moved ++ state.rest = stream := by
  obtain ⟨more, grown, left⟩ := reaches_grows flow _ state path
  have moved : state.moved = more := grown
  have whole : stream = more ++ state.rest := left
  rw [moved, whole]

theorem transfer_stopped (stream : List Symbol) :
    ∃ last, Reaches (moveTurn flow) (Moving.start stream) last ∧
      transfer flow stream = ⟨last.moved, last.rest⟩ ∧
      (0 < last.rest.length → flow.count last.turn last.rest.length ≤ 0) := by
  obtain ⟨last, path, stops⟩ :=
    returns_reached _ _ _ (outcome_returns _ _ _ (moves_end flow stream))
  obtain ⟨same, failed⟩ := move_turn_stop flow last _ stops
  exact ⟨last, path, same, failed⟩

theorem transfer_splits (stream : List Symbol) :
    (transfer flow stream).moved ++ (transfer flow stream).rest = stream := by
  obtain ⟨last, path, same, -⟩ := transfer_stopped flow stream
  rw [same]
  exact start_splits flow stream last path

/-- The calls on the way all take something. -/
def Unfailing (stream : List Symbol) : Prop :=
  ∀ state, Reaches (moveTurn flow) (Moving.start stream) state → 0 < state.rest.length →
    0 < flow.count state.turn state.rest.length

/-- Everything has been moved exactly when no call on the way has failed. -/
theorem transfer_all_iff (stream : List Symbol) :
    (transfer flow stream).rest = [] ↔ Unfailing flow stream := by
  obtain ⟨last, path, same, failed⟩ := transfer_stopped flow stream
  constructor
  · intro all state reached left
    by_contra stuck
    -- A failed call ends the loop, so its state is the last one.
    have stops : moveTurn flow state = .stop ⟨state.moved, state.rest⟩ := by
      rw [moveTurn, if_pos left]
      exact if_pos (Int.not_lt.mp stuck)
    have ended : Returns (moveTurn flow) (Moving.start stream) ⟨state.moved, state.rest⟩ :=
      reached_returns _ _ _ reached _ stops
    have result := outcome_unique _ _ _ (moves_end flow stream) _ ended
    change transfer flow stream = _ at result
    rw [result] at all
    change state.rest = [] at all
    rw [all] at left
    exact absurd left (Nat.lt_irrefl 0)
  · intro unfailing
    rw [same]
    by_contra left
    have some := List.length_pos_iff.mpr left
    exact absurd (unfailing last path some) (Int.not_lt.mpr (failed some))

theorem transfer_all (stream : List Symbol) (all : (transfer flow stream).rest = []) :
    (transfer flow stream).moved = stream := by
  have split := transfer_splits flow stream
  rwa [all, List.append_nil] at split

/-- A flow that never fails while something is left. -/
def Sure : Prop := ∀ turn left, 0 < left → 0 < flow.count turn left

theorem transfer_sure (sure : Sure flow) (stream : List Symbol) :
    (transfer flow stream).rest = [] :=
  (transfer_all_iff flow stream).mpr fun state _ left => sure state.turn state.rest.length left

end Loop

/-- One symbol at a time. -/
def single : Flow where
  count _ left := if left = 0 then 0 else 1
  bounded _ left := by
    split <;> omega

theorem single_sure : Sure single := by
  intro turn left some
  change (0 : Int) < if left = 0 then 0 else 1
  rw [if_neg (by omega)]
  decide

end SolanaSdk.Streams
