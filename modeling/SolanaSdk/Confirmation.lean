import Mathlib.Data.Int.GCD
import SolanaSdk.JsonBounds
import SolanaSdk.JsonWriting
import SolanaSdk.RpcErrors

/-!
`confirmTransaction` polls the status of a signature until a node reports one of
three levels or the time is up, and swallows whatever a poll throws. The elapsed
milliseconds are cut to 32 bits before they are compared. The clock, the transport
and so the answers of each turn are the environment.
-/

namespace SolanaSdk.Confirmation

open ByteData JsonText JsonTokens JsonTexts JsonAccess JsonGrammar JsonNavigation JsonDocuments
open JsonBounds RpcClient RpcErrors AccountResponses JsonWriting Loops

section Polling

def confirmationStatusKey : CString := ⟨ofLiteral "confirmationStatus", by decide⟩

def statusPath : List Access := [.key resultKey, .key valueKey, .index 0]

def levels : List Text := [ofLiteral "finalized", ofLiteral "confirmed", ofLiteral "processed"]

/-- What stands inside `try`. -/
def poll (rpcPost : Text → Call Text) (signature : Text) : Call Bool := do
  let resp ← getSignatureStatuses rpcPost [signature]
  let root ← reading (parse (cStr resp) resp.length)
  let status ← reading (walk (cStr resp) root statusPath)
  if status.isNull then return false
  else
    let cs ← field (cStr resp) status confirmationStatusKey (JsonValue.asString (cStr resp))
    return cs ∈ levels

/-- In nanoseconds. -/
def millisecond : Nat := 10 ^ 6

/-- `start` is the reading `0` of the clock, and `turn + 1` the one in a turn. -/
structure Surroundings where
  clock : Nat → Nat
  begun : clock 0 ≤ clock 1
  slept : ∀ turn, clock (turn + 1) + 2000 * millisecond ≤ clock (turn + 2)
  rpcPost : Nat → Text → Call Text

variable (around : Surroundings) (signature : Text) (timeoutMs : UInt32)

/-- `duration_cast` cuts the fraction off. -/
def Surroundings.elapsed (turn : Nat) : Nat :=
  (around.clock (turn + 1) - around.clock 0) / millisecond

def confirmTurn (turn : Nat) : Step Nat (Except Fault Bool) :=
  if timeoutMs ≤ UInt32.ofNat (around.elapsed turn) then .stop (.ok false)
  else
    match (poll (around.rpcPost turn) signature).run with
    | none => .next turn
    | some (.ok true) => .stop (.ok true)
    -- Reading outside a text is no exception.
    | some (.error (.fault .outside)) => .stop (.error .outside)
    | some _ => .next (turn + 1)

def confirmTransaction (fuel : Nat) : Option (Except Fault Bool) :=
  run (confirmTurn around signature timeoutMs) fuel 0

end Polling

section Turns

/-- A post that returns or throws. -/
def Settles (call : Call Text) : Prop :=
  ∃ answer : Except Text Text, call = ExceptT.mk (some (answer.mapError Problem.runtimeError))

theorem as_string_inside (text : Text) (limit : Nat) (value : JsonValue)
    (reached : Reachable text limit value) : value.asString (cStr text) ≠ .error .outside := by
  have cells : (cStr text).length = text.length + 1 := by simp [cStr]
  have short := reachable_limit text limit value reached
  rcases reachable_placed text limit value reached with rfl | ⟨inside, c, here, token⟩
  · intro never
    cases never
  · have ranged := token_ranged _ c _ limit value inside here token
    unfold JsonValue.asString
    dsimp only
    split
    · intro never
      cases never
    · split
      · intro never
        cases never
      · obtain ⟨unescaped, read⟩ := unescape_total (cStr text) (value._start + 1) (value._end - 1)
          (by omega)
        rw [read]
        intro never
        cases never

/-- A poll of a text ends, without reading outside of it. -/
theorem poll_text (resp signature : Text) :
    ∃ outcome, poll (answering resp) signature = ExceptT.mk (some outcome) ∧
      outcome ≠ .error (.fault .outside) := by
  obtain ⟨root, parsed, start⟩ := parse_total resp
  obtain ⟨limit, status, walked, reached⟩ := walk_total resp statusPath _ root start
  have answered : poll (answering resp) signature =
      if status.isNull then pure false
      else do
        let cs ← field (cStr resp) status confirmationStatusKey (JsonValue.asString (cStr resp))
        return cs ∈ levels := by
    rw [poll, getSignatureStatuses, answering, pure_bind, parsed, reading_ok, pure_bind, walked,
      reading_ok, pure_bind]
  rw [answered]
  split
  · exact ⟨.ok false, rfl, fun never => by cases never⟩
  · obtain ⟨cs, accessed⟩ := access_total resp limit status reached (.key confirmationStatusKey)
    have inside := as_string_inside resp _ cs
      (.step limit status cs (.key confirmationStatusKey) reached accessed)
    change member (cStr resp) status confirmationStatusKey = _ at accessed
    rw [field, accessed, reading_ok, pure_bind]
    cases read : cs.asString (cStr resp) with
    | ok text => exact ⟨.ok (decide (text ∈ levels)), rfl, fun never => by cases never⟩
    | error fault =>
        refine ⟨.error (.fault fault), rfl, fun same => inside ?_⟩
        rw [read]
        cases same
        rfl

theorem poll_settles (rpcPost : Text → Call Text) (signature : Text)
    (settles : ∀ body, Settles (rpcPost body)) :
    ∃ outcome, poll rpcPost signature = ExceptT.mk (some outcome) ∧
      outcome ≠ .error (.fault .outside) := by
  obtain ⟨answer, posted⟩ := settles (request "getSignatureStatuses"
    (quotedList [signature] ++ ofLiteral ", " ++ history))
  cases answer with
  | ok resp =>
      obtain ⟨outcome, polled, inside⟩ := poll_text resp signature
      refine ⟨outcome, ?_, inside⟩
      rw [← polled, poll, poll, getSignatureStatuses, posted]
      rfl
  | error what =>
      refine ⟨.error (.runtimeError what), ?_, fun never => by cases never⟩
      rw [poll, getSignatureStatuses, posted]
      rfl

variable (around : Surroundings) (signature : Text) (timeoutMs : UInt32)

def Expired (turn : Nat) : Prop := timeoutMs.toNat ≤ around.elapsed turn % 2 ^ 32

/-- The poll of the turn finds one of the levels. -/
def Confirms (turn : Nat) : Prop := poll (around.rpcPost turn) signature = pure true

theorem expired_iff (turn : Nat) :
    timeoutMs ≤ UInt32.ofNat (around.elapsed turn) ↔ Expired around timeoutMs turn := by
  rw [UInt32.le_iff_toNat_le, UInt32.toNat_ofNat']
  rfl

theorem turn_expired (turn : Nat) (expired : Expired around timeoutMs turn) :
    confirmTurn around signature timeoutMs turn = .stop (.ok false) := by
  rw [confirmTurn, if_pos ((expired_iff around timeoutMs turn).mpr expired)]

theorem turn_confirms (turn : Nat) (early : ¬ Expired around timeoutMs turn)
    (confirms : Confirms around signature turn) :
    confirmTurn around signature timeoutMs turn = .stop (.ok true) := by
  rw [confirmTurn, if_neg (fun late => early ((expired_iff around timeoutMs turn).mp late)), confirms]
  rfl

theorem turn_goes_on (settles : ∀ turn body, Settles (around.rpcPost turn body)) (turn : Nat)
    (early : ¬ Expired around timeoutMs turn) (unconfirmed : ¬ Confirms around signature turn) :
    confirmTurn around signature timeoutMs turn = .next (turn + 1) := by
  obtain ⟨outcome, polled, inside⟩ := poll_settles (around.rpcPost turn) signature (settles turn)
  rw [confirmTurn, if_neg (fun late => early ((expired_iff around timeoutMs turn).mp late)), polled]
  rw [Confirms, polled] at unconfirmed
  cases outcome with
  | ok confirmed =>
      cases confirmed with
      | true => exact absurd rfl unconfirmed
      | false => rfl
  | error problem =>
      cases problem with
      | runtimeError what => rfl
      | fault fault =>
          cases fault with
          | outside => exact absurd rfl inside
          | lengthError => rfl

end Turns

section Runs
variable (around : Surroundings) (signature : Text) (timeoutMs : UInt32)

/-- The loop gets to the turn, and ends there. -/
structure Ends (turn : Nat) (confirmed : Bool) : Prop where
  reached : Reaches (confirmTurn around signature timeoutMs) 0 turn
  stops : confirmTurn around signature timeoutMs turn = .stop (.ok confirmed)

/-- In time and without a level in sight. -/
def Waits (turn : Nat) : Prop :=
  ¬ Expired around timeoutMs turn ∧ ¬ Confirms around signature turn

/-- What the call returns, given enough turns, is what its loop returns. -/
theorem confirm_returns_iff (answer : Except Fault Bool) :
    (∃ fuel, confirmTransaction around signature timeoutMs fuel = some answer) ↔
      Returns (confirmTurn around signature timeoutMs) 0 answer := Iff.rfl

theorem ends_returned (turn : Nat) (confirmed : Bool)
    (ends : Ends around signature timeoutMs turn confirmed) :
    ∃ fuel, confirmTransaction around signature timeoutMs fuel = some (.ok confirmed) :=
  (confirm_returns_iff around signature timeoutMs _).mpr
    (reached_returns _ _ _ ends.reached _ ends.stops)

theorem turns_counted : Counted (confirmTurn around signature timeoutMs) := by
  intro turn later turned
  unfold Turn confirmTurn at turned
  split at turned
  · cases turned
  · split at turned
    · cases turned
      exact .inl rfl
    · cases turned
    · cases turned
    · cases turned
      exact .inr rfl

variable (settles : ∀ turn body, Settles (around.rpcPost turn body))
include settles

theorem turn_next_iff (turn : Nat) :
    Turn (confirmTurn around signature timeoutMs) turn (turn + 1) ↔
      Waits around signature timeoutMs turn := by
  constructor
  · intro turned
    have early : ¬ Expired around timeoutMs turn := by
      intro expired
      rw [Turn, turn_expired around signature timeoutMs turn expired] at turned
      cases turned
    refine ⟨early, fun confirms => ?_⟩
    rw [Turn, turn_confirms around signature timeoutMs turn early confirms] at turned
    cases turned
  · rintro ⟨early, unconfirmed⟩
    exact turn_goes_on around signature timeoutMs settles turn early unconfirmed

theorem reached_iff (turn : Nat) :
    Reaches (confirmTurn around signature timeoutMs) 0 turn ↔
      ∀ earlier < turn, Waits around signature timeoutMs earlier := by
  rw [counted_passed _ (turns_counted around signature timeoutMs)]
  exact forall₂_congr fun earlier _ => turn_next_iff around signature timeoutMs settles earlier

theorem ends_true_iff (turn : Nat) :
    Ends around signature timeoutMs turn true ↔
      (∀ earlier < turn, Waits around signature timeoutMs earlier) ∧
        ¬ Expired around timeoutMs turn ∧ Confirms around signature turn := by
  rw [← reached_iff around signature timeoutMs settles]
  constructor
  · rintro ⟨reached, stops⟩
    have early : ¬ Expired around timeoutMs turn := by
      intro expired
      rw [turn_expired around signature timeoutMs turn expired] at stops
      cases stops
    refine ⟨reached, early, ?_⟩
    by_contra unconfirmed
    rw [turn_goes_on around signature timeoutMs settles turn early unconfirmed] at stops
    cases stops
  · rintro ⟨reached, early, confirms⟩
    exact ⟨reached, turn_confirms around signature timeoutMs turn early confirms⟩

theorem ends_false_iff (turn : Nat) :
    Ends around signature timeoutMs turn false ↔
      (∀ earlier < turn, Waits around signature timeoutMs earlier) ∧
        Expired around timeoutMs turn := by
  rw [← reached_iff around signature timeoutMs settles]
  constructor
  · rintro ⟨reached, stops⟩
    refine ⟨reached, ?_⟩
    by_contra early
    by_cases confirms : Confirms around signature turn
    · rw [turn_confirms around signature timeoutMs turn early confirms] at stops
      cases stops
    · rw [turn_goes_on around signature timeoutMs settles turn early confirms] at stops
      cases stops
  · rintro ⟨reached, expired⟩
    exact ⟨reached, turn_expired around signature timeoutMs turn expired⟩

/-- No run ends in undefined behaviour. -/
theorem returns_ends (answer : Except Fault Bool)
    (returns : Returns (confirmTurn around signature timeoutMs) 0 answer) :
    ∃ turn confirmed, answer = .ok confirmed ∧ Ends around signature timeoutMs turn confirmed := by
  obtain ⟨turn, reached, stops⟩ := returns_reached _ _ _ returns
  by_cases expired : Expired around timeoutMs turn
  · have stopped := turn_expired around signature timeoutMs turn expired
    cases stops.symm.trans stopped
    exact ⟨turn, false, rfl, reached, stopped⟩
  · by_cases confirms : Confirms around signature turn
    · have stopped := turn_confirms around signature timeoutMs turn expired confirms
      cases stops.symm.trans stopped
      exact ⟨turn, true, rfl, reached, stopped⟩
    · have goes := turn_goes_on around signature timeoutMs settles turn expired confirms
      cases stops.symm.trans goes

/-- The loop ends as soon as some turn would not wait. -/
theorem returned_iff (confirmed : Bool) :
    Returns (confirmTurn around signature timeoutMs) 0 (.ok confirmed) ↔
      ∃ turn, (∀ earlier < turn, Waits around signature timeoutMs earlier) ∧
        if confirmed then ¬ Expired around timeoutMs turn ∧ Confirms around signature turn
        else Expired around timeoutMs turn := by
  have ended : Returns (confirmTurn around signature timeoutMs) 0 (.ok confirmed) ↔
      ∃ turn, Ends around signature timeoutMs turn confirmed := by
    constructor
    · intro returns
      obtain ⟨turn, other, same, ends⟩ :=
        returns_ends around signature timeoutMs settles _ returns
      cases same
      exact ⟨turn, ends⟩
    · rintro ⟨turn, reached, stops⟩
      exact reached_returns _ _ _ reached _ stops
  rw [ended]
  refine exists_congr fun turn => ?_
  cases confirmed with
  | true => exact ends_true_iff around signature timeoutMs settles turn
  | false => exact ends_false_iff around signature timeoutMs settles turn

theorem ends_of_stop (turn : Nat) (stuck : ¬ Waits around signature timeoutMs turn) :
    ∃ last ≤ turn, ∃ confirmed, Ends around signature timeoutMs last confirmed := by
  classical
  have given : ∃ turn, ¬ Waits around signature timeoutMs turn := ⟨turn, stuck⟩
  let last := Nat.find given
  have here : ¬ Waits around signature timeoutMs last := Nat.find_spec given
  have passed : ∀ earlier < last, Waits around signature timeoutMs earlier :=
    fun earlier before => not_not.mp (Nat.find_min given before)
  have bound : last ≤ turn := Nat.find_min' given stuck
  by_cases expired : Expired around timeoutMs last
  · exact ⟨last, bound, false, (ends_false_iff around signature timeoutMs settles last).mpr
      ⟨passed, expired⟩⟩
  · have confirms : Confirms around signature last := by
      by_contra unconfirmed
      exact here ⟨expired, unconfirmed⟩
    exact ⟨last, bound, true, (ends_true_iff around signature timeoutMs settles last).mpr
      ⟨passed, expired, confirms⟩⟩

end Runs

section Timing
variable (around : Surroundings)

theorem clock_slept (turn : Nat) :
    around.clock 0 + turn * (2000 * millisecond) ≤ around.clock (turn + 1) := by
  induction turn with
  | zero =>
      rw [Nat.zero_mul]
      exact around.begun
  | succ turn ih =>
      have slept := around.slept turn
      change _ ≤ around.clock (turn + 2)
      rw [Nat.succ_mul]
      omega

theorem elapsed_grows (turn : Nat) : 2000 * turn ≤ around.elapsed turn := by
  have slept := clock_slept around turn
  rw [Surroundings.elapsed, Nat.le_div_iff_mul_le (by decide)]
  rw [show turn * (2000 * millisecond) = 2000 * turn * millisecond by rw [← Nat.mul_assoc,
    Nat.mul_comm turn]] at slept
  omega

theorem clock_onward (before after : Nat) (later : before ≤ after) :
    around.clock before ≤ around.clock after := by
  refine monotone_nat_of_le_succ (fun turn => ?_) later
  cases turn with
  | zero => exact around.begun
  | succ turn => exact Nat.le_of_add_right_le (around.slept turn)

/-- No turn takes longer than `span` nanoseconds. -/
structure Paced (span : Nat) : Prop where
  begun : around.clock 1 ≤ around.clock 0 + span
  turn : ∀ turn, around.clock (turn + 2) ≤ around.clock (turn + 1) + span

/-- The first reading past the timeout comes before the elapsed time wraps. -/
theorem first_past (span : Nat) (paced : Paced around span) (timeout : Nat)
    (small : timeout * millisecond + span ≤ 2 ^ 32 * millisecond) :
    ∃ turn ≤ (timeout + 1999) / 2000, timeout ≤ around.elapsed turn % 2 ^ 32 ∧
      around.clock (turn + 1) ≤ around.clock 0 + (timeout * millisecond + span) := by
  rcases Nat.eq_zero_or_pos timeout with rfl | positive
  · have begun : around.clock (0 + 1) ≤ around.clock 0 + span := paced.begun
    exact ⟨0, Nat.zero_le _, Nat.zero_le _, by omega⟩
  have grows := elapsed_grows around ((timeout + 1999) / 2000)
  have late : timeout ≤ around.elapsed ((timeout + 1999) / 2000) := by omega
  have given : ∃ turn, timeout ≤ around.elapsed turn := ⟨_, late⟩
  obtain ⟨turn, past, first⟩ : ∃ turn, timeout ≤ around.elapsed turn ∧
      ∀ before < turn, ¬ timeout ≤ around.elapsed before :=
    ⟨Nat.find given, Nat.find_spec given, fun before => Nat.find_min given⟩
  have bound : turn ≤ (timeout + 1999) / 2000 := by
    by_contra beyond
    exact first _ (by omega) late
  have reading : around.clock (turn + 1) < around.clock 0 + (timeout * millisecond + span) := by
    cases turn with
    | zero =>
        have begun : around.clock (0 + 1) ≤ around.clock 0 + span := paced.begun
        have some : 0 < timeout * millisecond := Nat.mul_pos positive (by decide)
        omega
    | succ before =>
        -- The reading of the turn before is less than the timeout behind the start.
        have early := first before (Nat.lt_succ_self before)
        have step : around.clock (before + 1 + 1) ≤ around.clock (before + 1) + span :=
          paced.turn before
        rw [Surroundings.elapsed, Nat.le_div_iff_mul_le (by decide)] at early
        omega
  refine ⟨turn, bound, ?_, Nat.le_of_lt reading⟩
  have below : around.elapsed turn < 2 ^ 32 := by
    have unit : 0 < millisecond := by decide
    rw [Surroundings.elapsed, Nat.div_lt_iff_lt_mul unit]
    omega
  rwa [Nat.mod_eq_of_lt below]

variable (signature : Text) (timeoutMs : UInt32)

/-- Where a turn leaves the timeout before `2^32` milliseconds, the call returns
in time, with a post for each two seconds at most. -/
theorem confirmed_in_time (settles : ∀ turn body, Settles (around.rpcPost turn body)) (span : Nat)
    (paced : Paced around span)
    (small : timeoutMs.toNat * millisecond + span ≤ 2 ^ 32 * millisecond) :
    ∃ turn confirmed,
      (∃ fuel, confirmTransaction around signature timeoutMs fuel = some (.ok confirmed)) ∧
      Ends around signature timeoutMs turn confirmed ∧
      turn + confirmed.toNat ≤ (timeoutMs.toNat + 1999) / 2000 ∧
      around.clock (turn + 1) ≤ around.clock 0 + (timeoutMs.toNat * millisecond + span) := by
  obtain ⟨final, bound, expired, reading⟩ := first_past around span paced timeoutMs.toNat small
  have stuck : ¬ Waits around signature timeoutMs final := fun waits => waits.1 expired
  obtain ⟨turn, within, confirmed, ends⟩ :=
    ends_of_stop around signature timeoutMs settles final stuck
  have earlier : around.clock (turn + 1) ≤ around.clock (final + 1) :=
    clock_onward around (turn + 1) (final + 1) (by omega)
  refine ⟨turn, confirmed, ends_returned around signature timeoutMs turn confirmed ends, ends, ?_,
    Nat.le_trans earlier reading⟩
  cases confirmed with
  | false => exact Nat.le_trans within bound
  | true =>
      -- A poll is only made in a turn that is not the expired one.
      obtain ⟨-, early, -⟩ := (ends_true_iff around signature timeoutMs settles turn).mp ends
      have other : turn ≠ final := fun same => early (same ▸ expired)
      change turn + 1 ≤ _
      omega

/-- The multiples of `gap` come as close to the modulus as the greatest common
divisor lets them. -/
theorem multiple_past_iff (gap modulus bound : Nat) (positive : 0 < modulus) :
    (∃ turn, bound ≤ gap * turn % modulus) ↔ bound + Nat.gcd gap modulus ≤ modulus := by
  have divides : Nat.gcd gap modulus ∣ modulus := Nat.gcd_dvd_right gap modulus
  constructor
  · rintro ⟨turn, past⟩
    have multiple : Nat.gcd gap modulus ∣ gap * turn % modulus :=
      (Nat.dvd_mod_iff divides).mpr (Dvd.dvd.mul_right (Nat.gcd_dvd_left gap modulus) turn)
    have below := Nat.mod_lt (gap * turn) positive
    have room := Nat.le_of_dvd (Nat.sub_pos_of_lt below) (Nat.dvd_sub divides multiple)
    omega
  · intro room
    rcases Nat.lt_or_eq_of_le (Nat.le_of_dvd positive divides) with smaller | whole
    · obtain ⟨turn, -, meets⟩ := Nat.exists_mul_mod_eq_gcd smaller
      obtain ⟨count, split⟩ := divides
      -- The last multiple below the modulus is `count - 1` times the divisor.
      refine ⟨turn * (count - 1), ?_⟩
      have last : Nat.gcd gap modulus * (count - 1) = modulus - Nat.gcd gap modulus := by
        rw [Nat.mul_sub_one, ← split]
      have divisor : 0 < Nat.gcd gap modulus := Nat.gcd_pos_of_pos_right gap positive
      rw [← Nat.mul_assoc, Nat.mul_mod, meets, Nat.mul_mod_mod, last, Nat.mod_eq_of_lt (by omega)]
      omega
    · exact ⟨0, by omega⟩

/-- The polls start every `gap` milliseconds. -/
def Steady (gap : Nat) : Prop :=
  ∀ turn, around.clock (turn + 1) = around.clock 0 + gap * turn * millisecond

theorem steady_elapsed (gap : Nat) (steady : Steady around gap) (turn : Nat) :
    around.elapsed turn = gap * turn := by
  rw [Surroundings.elapsed, steady turn, Nat.add_sub_cancel_left, Nat.mul_div_cancel _ (by decide)]

/-- At a steady pace and without any confirmation, the call returns exactly when
the common divisor of the pace and `2^32` leaves room for the timeout. -/
theorem times_out_iff (settles : ∀ turn body, Settles (around.rpcPost turn body)) (gap : Nat)
    (steady : Steady around gap) (unconfirmed : ∀ turn, ¬ Confirms around signature turn) :
    (∃ answer fuel, confirmTransaction around signature timeoutMs fuel = some answer) ↔
      timeoutMs.toNat + Nat.gcd gap (2 ^ 32) ≤ 2 ^ 32 := by
  simp only [confirm_returns_iff]
  rw [← multiple_past_iff gap (2 ^ 32) timeoutMs.toNat (by decide)]
  have expired_at : ∀ turn, Expired around timeoutMs turn ↔ timeoutMs.toNat ≤ gap * turn % 2 ^ 32 := by
    intro turn
    rw [Expired, steady_elapsed around gap steady]
  constructor
  · rintro ⟨answer, returns⟩
    obtain ⟨turn, confirmed, -, ends⟩ :=
      returns_ends around signature timeoutMs settles answer returns
    cases confirmed with
    | true =>
        obtain ⟨-, -, confirms⟩ := (ends_true_iff around signature timeoutMs settles turn).mp ends
        exact absurd confirms (unconfirmed turn)
    | false =>
        obtain ⟨-, expired⟩ := (ends_false_iff around signature timeoutMs settles turn).mp ends
        exact ⟨turn, (expired_at turn).mp expired⟩
  · rintro ⟨turn, past⟩
    obtain ⟨last, -, confirmed, ends⟩ := ends_of_stop around signature timeoutMs settles turn
      fun waits => waits.1 ((expired_at turn).mpr past)
    exact ⟨_, ends_returned around signature timeoutMs last confirmed ends⟩

/-- A turn each two seconds, with the answers of the posts. -/
def everyTwoSeconds (answers : Nat → Except Text Text) : Surroundings where
  clock reading := (reading - 1) * (2000 * millisecond)
  begun := Nat.le_refl _
  slept turn := Nat.le_of_eq (Nat.succ_mul turn (2000 * millisecond)).symm
  rpcPost turn _ := ExceptT.mk (some ((answers turn).mapError Problem.runtimeError))

theorem two_seconds_steady (answers : Nat → Except Text Text) :
    Steady (everyTwoSeconds answers) 2000 := by
  intro turn
  change turn * (2000 * millisecond) = 0 * (2000 * millisecond) + 2000 * turn * millisecond
  rw [Nat.zero_mul, Nat.zero_add, ← Nat.mul_assoc, Nat.mul_comm turn]

/-- The default timeout of 30 seconds leaves room for fifteen turns. -/
theorem two_seconds_early (answers : Nat → Except Text Text) (turn : Nat) (soon : turn < 15) :
    ¬ Expired (everyTwoSeconds answers) 30000 turn := by
  change ¬ 30000 ≤ (everyTwoSeconds answers).elapsed turn % 2 ^ 32
  rw [steady_elapsed _ 2000 (two_seconds_steady answers), Nat.mod_eq_of_lt (by omega)]
  omega

def outage : Nat → Except Text Text := fun _ => .error (ofLiteral "recv() failed")

theorem outage_settles (turn : Nat) (body : Text) :
    Settles ((everyTwoSeconds outage).rpcPost turn body) := ⟨outage turn, rfl⟩

theorem outage_ends_in_time :
    ∃ turn confirmed,
      (∃ fuel, confirmTransaction (everyTwoSeconds outage) (ofLiteral "1") 30000 fuel =
        some (.ok confirmed)) ∧
      Ends (everyTwoSeconds outage) (ofLiteral "1") 30000 turn confirmed ∧
      turn + confirmed.toNat ≤ ((30000 : UInt32).toNat + 1999) / 2000 ∧
      (everyTwoSeconds outage).clock (turn + 1) ≤ (everyTwoSeconds outage).clock 0 +
        ((30000 : UInt32).toNat * millisecond + 2000 * millisecond) :=
  confirmed_in_time (everyTwoSeconds outage) (ofLiteral "1") 30000 outage_settles
    (2000 * millisecond) ⟨Nat.zero_le _, fun turn => Nat.le_of_eq (Nat.succ_mul _ _)⟩ (by decide)

theorem outage_times_out :
    (∃ answer fuel,
        confirmTransaction (everyTwoSeconds outage) (ofLiteral "1") 30000 fuel = some answer) ↔
      (30000 : UInt32).toNat + Nat.gcd 2000 (2 ^ 32) ≤ 2 ^ 32 :=
  times_out_iff (everyTwoSeconds outage) (ofLiteral "1") 30000 outage_settles 2000
    (two_seconds_steady outage)
    fun _ never => by cases never

end Timing

section Documents

def levelPath : List Access := statusPath ++ [.key confirmationStatusKey]

/-- Nothing else of a status matters, not even its error. -/
def level (document : Document plainWords) : Text :=
  match look document.root levelPath with
  | none => []
  | some seen => seen.text

theorem no_level (document : Document plainWords) (missing : document.root.follow levelPath = none) :
    level document = [] := by
  rw [level, look, missing]
  rfl

theorem level_here (document : Document plainWords) (node : Doc plainWords)
    (here : document.root.follow levelPath = some node) : level document = string node := by
  rw [level, look, here]
  rfl

theorem follow_level (root : Doc plainWords) :
    root.follow levelPath = (root.follow statusPath).bind (Doc.child · (.key confirmationStatusKey)) := by
  rw [levelPath, Doc.follow, List.foldlM_append]
  change (root.follow statusPath).bind (fun status => [_].foldlM Doc.child status) = _
  congr 1
  funext status
  rw [List.foldlM_cons]
  exact bind_pure _

theorem null_level (document : Document plainWords) (status : JsonValue)
    (agrees : Agrees (cStr document.text) status (document.root.follow statusPath))
    (null : status.isNull = true) : level document = [] := by
  refine no_level document ?_
  rw [follow_level]
  cases here : document.root.follow statusPath with
  | none => rfl
  | some node =>
      rw [here] at agrees
      have kind : node.kind = .null := agrees.type.symm.trans (beq_iff_eq.mp null)
      cases node with
      | null => rfl
      | _ => cases kind

theorem poll_document (document : Document plainWords) (signature : Text) :
    poll (answering document.text) signature = pure (decide (level document ∈ levels)) := by
  obtain ⟨status, walked, agrees⟩ := plain_walked document statusPath
  obtain ⟨cs, walked', shown⟩ := plain_walked document levelPath
  rw [levelPath, walk, List.foldlM_append] at walked'
  change (walk _ _ statusPath >>= fun status => [_].foldlM (access _) status) = _ at walked'
  rw [walked] at walked'
  change (access _ status (.key confirmationStatusKey) >>= pure) = _ at walked'
  rw [bind_pure] at walked'
  change member _ status confirmationStatusKey = _ at walked'
  have text : cs.asString (cStr document.text) = .ok (level document) := by
    cases here : document.root.follow levelPath with
    | none =>
        rw [here] at shown
        cases (show cs = .absent from shown)
        rw [no_level document here]
        rfl
    | some node =>
        rw [here] at shown
        rw [level_here document node here]
        exact shown.asString
  rw [poll, getSignatureStatuses, answering, pure_bind, plain_parsed, reading_ok, pure_bind, walked,
    reading_ok, pure_bind]
  split
  next null =>
    rw [null_level document status agrees null]
    rfl
  next =>
    rw [field, walked', reading_ok, pure_bind, text]
    rfl

variable (around : Surroundings) (signature : Text) (timeoutMs : UInt32)
variable (answers : Nat → Except Text (Document plainWords))

/-- In each turn the post returns a document or throws. -/
def Answered : Prop :=
  ∀ turn body, around.rpcPost turn body =
    ExceptT.mk (some (((answers turn).map Document.text).mapError Problem.runtimeError))

def Reports : Except Text (Document plainWords) → Prop
  | .ok document => level document ∈ levels
  | .error _ => False

theorem answered_settles (answered : Answered around answers) :
    ∀ turn body, Settles (around.rpcPost turn body) :=
  fun turn body => ⟨_, answered turn body⟩

theorem confirms_iff (answered : Answered around answers) (turn : Nat) :
    Confirms around signature turn ↔ Reports (answers turn) := by
  have posted := answered turn
  cases given : answers turn with
  | ok document =>
      rw [given] at posted
      have same : around.rpcPost turn = answering document.text := funext posted
      rw [Confirms, same, poll_document, Reports]
      constructor
      · intro confirmed
        exact of_decide_eq_true (Except.ok.inj (Option.some.inj confirmed))
      · intro reported
        rw [decide_eq_true reported]
  | error what =>
      rw [given] at posted
      rw [Confirms, poll, getSignatureStatuses, posted]
      constructor
      · intro never
        cases never
      · exact False.elim

/-- What the call returns where every answer is a document that the reader handles
completely: true at the first level that the node reports, and false at the first
turn past the timeout, whatever else such answers say. -/
theorem confirmation_decided (answered : Answered around answers) (confirmed : Bool) :
    (∃ fuel, confirmTransaction around signature timeoutMs fuel = some (.ok confirmed)) ↔
      ∃ turn, (∀ earlier < turn, ¬ Expired around timeoutMs earlier ∧ ¬ Reports (answers earlier)) ∧
        if confirmed then ¬ Expired around timeoutMs turn ∧ Reports (answers turn)
        else Expired around timeoutMs turn := by
  have reports := confirms_iff around signature answers answered
  rw [confirm_returns_iff,
    returned_iff around signature timeoutMs (answered_settles around answers answered)]
  simp only [Waits, reports]

/-- A failed transaction that is processed: `err` is not empty. -/
def failedStatus : Document plainWords where
  before := noSpace
  root := objectOf "result" (objectOf "value" (arrayOf noSpace [objectOf "err"
    (textDoc (ofLiteral "AccountInUse")) [("confirmationStatus", textDoc (ofLiteral "processed"))]]) []) []
  after := noSpace

/-- An outage, and then the status of the failed transaction. -/
def laterFailed : Nat → Except Text (Document plainWords)
  | 0 => .error (ofLiteral "recv() failed")
  | _ + 1 => .ok failedStatus

/-- The second poll confirms it. -/
theorem failed_confirmed :
    ∃ fuel, confirmTransaction (everyTwoSeconds fun turn => (laterFailed turn).map Document.text)
      (ofLiteral "1") 30000 fuel = some (.ok true) := by
  refine (confirmation_decided _ (ofLiteral "1") 30000 laterFailed (fun _ _ => rfl) true).mpr
    ⟨1, fun turn earlier => ?_, two_seconds_early _ 1 (by decide),
      (by decide +kernel : level failedStatus ∈ levels)⟩
  cases Nat.lt_one_iff.mp earlier
  exact ⟨two_seconds_early _ 0 (by decide), id⟩

end Documents
end SolanaSdk.Confirmation
