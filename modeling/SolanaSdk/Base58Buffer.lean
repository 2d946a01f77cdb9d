import SolanaSdk.Base58Inverse
import SolanaSdk.Loops

/-!
`Base58::encode` as it runs: one buffer that is allocated before the first byte
is read, the number of its digits in use, and a carry. The buffer allows 1.37
digits for a byte, a little more than log 256 / log 58. It never overflows, and
the run ends with the text that the encoding is defined as.
-/

namespace SolanaSdk.Base58Buffer

open ByteData Base58 Base58Inverse PositionalDigits Loops

/-- An access behind the end of the buffer. -/
structure OutOfBounds where
  index : Nat
  deriving DecidableEq

/-- Where in `encode` the run is; `gather` and `store` are the two halves of the
body of the loop over the digits, around the carry at its largest. -/
inductive Control where
  | fetch
  | gather
  | store
  | spill
  | trim
  | print
  deriving DecidableEq

/-- `carry` and `digitslen` are natural numbers: that they stay within their types is to prove. -/
structure State where
  control : Control
  rest : Bytes
  digits : Bytes
  digitslen : Nat
  carry : Nat
  j : Nat
  result : Text

section Machine

def digitAt (digits : Bytes) (index : Nat) : Except OutOfBounds UInt8 :=
  match digits[index]? with
  | some digit => .ok digit
  | none => .error ⟨index⟩

def putDigit (digits : Bytes) (index : Nat) (digit : UInt8) : Except OutOfBounds Bytes :=
  if index < digits.length then .ok (digits.set index digit) else .error ⟨index⟩

/-- `input.size()*137/100+1`, in `size_t`. -/
def bufferSize (input : Bytes) : Nat := input.length * 137 % 2 ^ 64 / 100 + 1

def leadingOnes (input : Bytes) : Text :=
  List.replicate (input.takeWhile fun byte => byte == 0).length 49

def letterOf (digit : UInt8) : UInt8 := alphabet.getD digit.toNat 0

def start (input : Bytes) : State where
  control := .fetch
  rest := input
  digits := List.replicate (bufferSize input) 0
  digitslen := 1
  carry := 0
  j := 0
  result := []

def body (input : Bytes) (state : State) : Except OutOfBounds (Step State Text) :=
  match state.control with
  | .fetch =>
      match state.rest with
      | byte :: rest =>
          return .next { state with control := .gather, rest := rest, carry := byte.toNat, j := 0 }
      | [] => return .next { state with control := .trim, result := leadingOnes input }
  | .gather =>
      if state.j < state.digitslen then do
        let digit ← digitAt state.digits state.j
        return .next { state with control := .store, carry := state.carry + digit.toNat <<< 8 }
      else return .next { state with control := .spill }
  | .store => do
      let digits ← putDigit state.digits state.j (UInt8.ofNat (state.carry % 58))
      return .next { state with
        control := .gather, digits := digits, carry := state.carry / 58, j := state.j + 1 }
  | .spill =>
      if 0 < state.carry then do
        let digits ← putDigit state.digits state.digitslen (UInt8.ofNat (state.carry % 58))
        return .next { state with
          digits := digits, digitslen := state.digitslen + 1, carry := state.carry / 58 }
      else return .next { state with control := .fetch }
  | .trim =>
      if 0 < state.digitslen then do
        let digit ← digitAt state.digits (state.digitslen - 1)
        if digit = 0 then return .next { state with digitslen := state.digitslen - 1 }
        else return .next { state with control := .print, j := state.digitslen }
      else return .next { state with control := .print, j := 0 }
  | .print =>
      -- `j` is one more than the `i` of the source, which counts down to -1.
      if 0 < state.j then do
        let digit ← digitAt state.digits (state.j - 1)
        return .next { state with j := state.j - 1, result := state.result ++ [letterOf digit] }
      else return .stop state.result

end Machine

/-- What no step may violate. The index of every access is below the size of the
buffer, as the turn would fail otherwise. -/
structure Safe (input : Bytes) (state : State) : Prop where
  size : state.digits.length = input.length * 137 / 100 + 1
  count : state.digitslen ≤ input.length * 137 / 100 + 1
  small : ∀ digit ∈ state.digits, digit < 58
  carry : state.carry < 2 ^ 32
  inInt : state.digitslen < 2 ^ 31
  inside : ∃ turn, body input state = .ok turn

/-- The product fits `size_t`, and the digit count `int`. -/
structure Fits (input : Bytes) : Prop where
  product : input.length * 137 < 2 ^ 64
  count : input.length * 137 / 100 + 1 < 2 ^ 31

section Digits

/-- The digits in use once all of the byte has been carried through. -/
def finish (carry : Nat) (digits : Bytes) : Bytes :=
  (shiftAdd carry digits).1 ++ pushDigits (shiftAdd carry digits).2

theorem finish_nil (carry : Nat) : finish carry [] = pushDigits carry := rfl

theorem finish_cons (carry : Nat) (digit : UInt8) (rest : Bytes) :
    finish carry (digit :: rest) =
      UInt8.ofNat ((carry + digit.toNat <<< 8) % 58) ::
        finish ((carry + digit.toNat <<< 8) / 58) rest := rfl

theorem push_digits_more (carry : Nat) (more : 0 < carry) :
    pushDigits carry = UInt8.ofNat (carry % 58) :: pushDigits (carry / 58) := by
  rw [pushDigits, if_neg (Nat.pos_iff_ne_zero.mp more)]

theorem digit_small (carry : Nat) : UInt8.ofNat (carry % 58) < 58 := by
  have small := Nat.mod_lt carry (by decide : 0 < 58)
  have value : (UInt8.ofNat (carry % 58)).toNat = carry % 58 :=
    UInt8.toNat_ofNat_of_lt (Nat.lt_trans small (by decide))
  rw [UInt8.lt_iff_toNat_lt, value]
  exact small

def converted (read : Bytes) : Bytes := read.foldl encodeStep [0]

/-- The digits of the bytes read so far fit the buffer for the whole input. -/
theorem converted_length (read rest : Bytes) :
    (converted read).length ≤ (read ++ rest).length * 137 / 100 + 1 := by
  have refines := congrArg List.length (encode_fold_refines read [0])
  have small : ∀ digit ∈ read.map UInt8.toNat, digit < 256 := by
    intro digit member
    obtain ⟨byte, -, rfl⟩ := List.mem_map.mp member
    exact byte.toNat_lt
  have bound : 256 ^ 100 ≤ 58 ^ 137 := by decide
  rw [List.length_map] at refines
  rw [converted, refines]
  refine absorb_all_length 58 256 137 100 (by decide) (by decide) (by decide) bound _ small _ ?_
  rw [List.length_map, List.length_append]
  exact Nat.le_add_right _ _

end Digits

section Buffer

theorem take_put (digits : Bytes) (index : Nat) (digit : UInt8) (inside : index < digits.length) :
    (digits.set index digit).take (index + 1) = digits.take index ++ [digit] := by
  have written : index < (digits.set index digit).length := by
    rw [List.length_set]
    exact inside
  rw [List.take_succ_eq_append_getElem written, List.getElem_set_self,
    List.take_set_of_le (Nat.le_refl _)]

theorem behind_put (digits : Bytes) (index count : Nat) (digit : UInt8) :
    ((digits.set index digit).take count).drop (index + 1) =
      (digits.take count).drop (index + 1) := by
  rw [List.drop_take, List.drop_take, List.drop_set_of_lt (Nat.lt_succ_self _)]

theorem next_digit (digits : Bytes) (index count : Nat) (digit : UInt8) (before : index < count)
    (here : digits[index]? = some digit) :
    (digits.take count).drop index = digit :: (digits.take count).drop (index + 1) := by
  have taken : (digits.take count)[index]? = some digit := by
    rw [List.getElem?_take_of_lt before, here]
  obtain ⟨inside, same⟩ := List.getElem?_eq_some_iff.mp taken
  rw [List.drop_eq_getElem_cons inside, same]

theorem put_length (digits later : Bytes) (index : Nat) (digit : UInt8)
    (written : putDigit digits index digit = .ok later) : later.length = digits.length := by
  unfold putDigit at written
  split at written
  · cases written
    exact List.length_set
  · cases written

theorem put_small (digits : Bytes) (index carry : Nat) (small : ∀ digit ∈ digits, digit < 58) :
    ∀ digit ∈ digits.set index (UInt8.ofNat (carry % 58)), digit < 58 := by
  intro digit member
  rcases List.mem_or_eq_of_mem_set member with old | rfl
  · exact small digit old
  · exact digit_small carry

end Buffer

section Invariants

/-- The digits in use when the byte at hand has been dealt with. -/
def pending (state : State) : Bytes :=
  let inUse := state.digits.take state.digitslen
  match state.control with
  | .gather => state.digits.take state.j ++ finish state.carry (inUse.drop state.j)
  | .store =>
      state.digits.take state.j ++ UInt8.ofNat (state.carry % 58) ::
        finish (state.carry / 58) (inUse.drop (state.j + 1))
  | .spill => inUse ++ pushDigits state.carry
  | .fetch | .trim | .print => inUse

/-- The conversion of the bytes read so far is under way, or the text is being written. -/
def Progress (input : Bytes) (state : State) : Prop :=
  match state.control with
  | .fetch | .gather | .store | .spill =>
      ∃ read, input = read ++ state.rest ∧ pending state = converted read
  | .trim =>
      state.result ++
          ((pending state).rdropWhile fun digit => digit == 0).reverse.map letterOf =
        encode input
  | .print => state.j ≤ state.digits.length ∧
      state.result ++ (state.digits.take state.j).reverse.map letterOf = encode input

/-- A carry is a byte between the digits, and one digit more at its largest. -/
def Bounds (state : State) : Prop :=
  match state.control with
  | .gather => state.carry < 256 ∧ state.j ≤ state.digitslen
  | .store => state.carry < 58 * 256 ∧ state.j < state.digitslen
  | .fetch | .spill | .trim | .print => state.carry < 256

structure Invariant (input : Bytes) (state : State) : Prop where
  size : state.digits.length = input.length * 137 / 100 + 1
  count : state.digitslen ≤ state.digits.length
  small : ∀ digit ∈ state.digits, digit < 58
  bounds : Bounds state
  progress : Progress input state

theorem start_invariant (input : Bytes) (fits : Fits input) : Invariant input (start input) where
  size := by
    rw [start, List.length_replicate, bufferSize, Nat.mod_eq_of_lt fits.product]
  count := by
    rw [start, List.length_replicate, bufferSize]
    exact Nat.succ_le_succ (Nat.zero_le _)
  small digit member := by
    rw [List.eq_of_mem_replicate member]
    decide
  bounds := by
    change 0 < 256
    decide
  progress := by
    refine ⟨[], rfl, ?_⟩
    change (List.replicate (bufferSize input) 0).take 1 = [0]
    rw [List.take_replicate, bufferSize, Nat.min_eq_left (Nat.succ_le_succ (Nat.zero_le _))]
    rfl

/-- The text of an input from its digits. -/
theorem encode_converted (input : Bytes) :
    leadingOnes input ++
        ((converted input).rdropWhile fun digit => digit == 0).reverse.map letterOf =
      encode input := by
  cases input with
  | nil => rfl
  | cons byte rest => rfl

theorem last_digit (digits : Bytes) (count : Nat) (positive : 0 < count)
    (within : count ≤ digits.length) :
    ∃ digit, digits[count - 1]? = some digit ∧
      digits.take count = digits.take (count - 1) ++ [digit] := by
  obtain ⟨before, rfl⟩ := Nat.exists_eq_succ_of_ne_zero (Nat.pos_iff_ne_zero.mp positive)
  exact ⟨digits[before], List.getElem?_eq_getElem within,
    List.take_succ_eq_append_getElem within⟩

variable (input : Bytes) (state : State) (invariant : Invariant input state)
include invariant

theorem fetch_keeps (control : state.control = .fetch) :
    ∃ later, body input state = .ok (.next later) ∧ Invariant input later := by
  obtain ⟨size, count, small, bounds, progress⟩ := invariant
  simp only [Bounds, Progress, pending, control] at bounds progress
  obtain ⟨read, split, same⟩ := progress
  rw [body, control]
  cases rest : state.rest with
  | cons byte rest' =>
      refine ⟨_, rfl, size, count, small, ⟨byte.toNat_lt, Nat.zero_le _⟩, read ++ [byte], ?_, ?_⟩
      · rw [split, rest, List.append_assoc]
        rfl
      · rw [converted, List.foldl_append, ← converted, ← same]
        rfl
  | nil =>
      rw [rest, List.append_nil] at split
      refine ⟨_, rfl, size, count, small, bounds, ?_⟩
      have text := encode_converted input
      rw [split, ← same, ← split] at text
      exact text

theorem gather_keeps (control : state.control = .gather) :
    ∃ later, body input state = .ok (.next later) ∧ Invariant input later := by
  obtain ⟨size, count, small, bounds, progress⟩ := invariant
  simp only [Bounds, Progress, pending, control] at bounds progress
  obtain ⟨read, split, same⟩ := progress
  rw [body, control]
  by_cases inside : state.j < state.digitslen
  · obtain ⟨digit, here⟩ : ∃ digit, state.digits[state.j]? = some digit :=
      ⟨_, List.getElem?_eq_getElem (Nat.lt_of_lt_of_le inside count)⟩
    have low : digit.toNat < 58 :=
      UInt8.lt_iff_toNat_lt.mp (small digit (List.mem_of_getElem? here))
    have shifted : digit.toNat <<< 8 = digit.toNat * 256 := Nat.shiftLeft_eq ..
    simp only [if_pos inside, digitAt, here]
    refine ⟨_, rfl, size, count, small, ⟨?_, inside⟩, read, split, ?_⟩
    · change state.carry + digit.toNat <<< 8 < 58 * 256
      omega
    · rw [← same, next_digit state.digits state.j state.digitslen digit inside here, finish_cons]
      rfl
  · have last : state.j = state.digitslen := by omega
    simp only [if_neg inside]
    refine ⟨_, rfl, size, count, small, bounds.1, read, split, ?_⟩
    rw [← same, last, List.drop_of_length_le (List.length_take_le _ _), finish_nil]
    rfl

theorem store_keeps (control : state.control = .store) :
    ∃ later, body input state = .ok (.next later) ∧ Invariant input later := by
  obtain ⟨size, count, small, bounds, progress⟩ := invariant
  simp only [Bounds, Progress, pending, control] at bounds progress
  obtain ⟨read, split, same⟩ := progress
  have inside : state.j < state.digits.length := by omega
  rw [body, control]
  simp only [putDigit, if_pos inside]
  refine ⟨_, rfl, ?_, ?_, put_small _ _ _ small, ⟨?_, bounds.2⟩, read, split, ?_⟩
  · rw [List.length_set]
    exact size
  · rw [List.length_set]
    exact count
  · change state.carry / 58 < 256
    omega
  · rw [← same]
    change _ ++ finish _ (List.drop (state.j + 1) _) = _
    rw [take_put _ _ _ inside, behind_put, List.append_assoc]
    rfl

/-- The one place where the buffer could be too short: it is not, because the
digit that is put behind the ones in use belongs to the value of the bytes read. -/
theorem spill_keeps (control : state.control = .spill) :
    ∃ later, body input state = .ok (.next later) ∧ Invariant input later := by
  obtain ⟨size, count, small, bounds, progress⟩ := invariant
  simp only [Bounds, Progress, pending, control] at bounds progress
  obtain ⟨read, split, same⟩ := progress
  rw [body, control]
  by_cases more : 0 < state.carry
  · have inside : state.digitslen < state.digits.length := by
      have room := converted_length read state.rest
      rw [← same, ← split, ← size, push_digits_more _ more, List.length_append, List.length_cons,
        List.length_take_of_le count] at room
      omega
    simp only [if_pos more, putDigit, if_pos inside]
    refine ⟨_, rfl, ?_, ?_, put_small _ _ _ small, ?_, read, split, ?_⟩
    · rw [List.length_set]
      exact size
    · rw [List.length_set]
      exact inside
    · change state.carry / 58 < 256
      omega
    · rw [← same, push_digits_more _ more]
      change List.take (state.digitslen + 1) _ ++ _ = _
      rw [take_put _ _ _ inside, List.append_assoc]
      rfl
  · have none : state.carry = 0 := by omega
    simp only [if_neg more]
    refine ⟨_, rfl, size, count, small, bounds, read, split, ?_⟩
    rw [← same, none, pushDigits, if_pos rfl, List.append_nil]
    rfl

theorem trim_keeps (control : state.control = .trim) :
    ∃ later, body input state = .ok (.next later) ∧ Invariant input later := by
  obtain ⟨size, count, small, bounds, progress⟩ := invariant
  simp only [Bounds, Progress, pending, control] at bounds progress
  rw [body, control]
  by_cases more : 0 < state.digitslen
  · obtain ⟨digit, here, split⟩ := last_digit state.digits state.digitslen more count
    simp only [if_pos more, digitAt, here]
    change ∃ later, (if digit = 0 then _ else _) = _ ∧ _
    rw [split] at progress
    by_cases zero : digit = 0
    · rw [if_pos zero]
      rw [List.rdropWhile_concat_pos _ _ _ (by simp [zero])] at progress
      exact ⟨_, rfl, size, Nat.le_trans (Nat.sub_le _ _) count, small, bounds, progress⟩
    · rw [if_neg zero]
      rw [List.rdropWhile_concat_neg _ _ _ (by simp [zero]), ← split] at progress
      exact ⟨_, rfl, size, count, small, bounds, count, progress⟩
  · have none : state.digitslen = 0 := by omega
    rw [none] at progress
    simp only [if_neg more]
    exact ⟨_, rfl, size, count, small, bounds, Nat.zero_le _, progress⟩

theorem print_keeps (control : state.control = .print) :
    body input state = .ok (.stop (encode input)) ∨
      ∃ later, body input state = .ok (.next later) ∧ Invariant input later := by
  obtain ⟨size, count, small, bounds, progress⟩ := invariant
  simp only [Bounds, Progress, control] at bounds progress
  obtain ⟨within, text⟩ := progress
  rw [body, control]
  by_cases more : 0 < state.j
  · obtain ⟨digit, here, split⟩ := last_digit state.digits state.j more within
    simp only [if_pos more, digitAt, here]
    right
    refine ⟨_, rfl, size, count, small, bounds, Nat.le_trans (Nat.sub_le _ _) within, ?_⟩
    rw [split, List.reverse_append, List.map_append, ← List.append_assoc] at text
    exact text
  · have none : state.j = 0 := by omega
    rw [none, List.take_zero, List.reverse_nil, List.map_nil, List.append_nil] at text
    simp only [if_neg more]
    left
    rw [text]
    rfl

/-- Every turn succeeds; the only one that stops returns the text. -/
theorem turn_keeps : body input state = .ok (.stop (encode input)) ∨
    ∃ later, body input state = .ok (.next later) ∧ Invariant input later := by
  cases control : state.control with
  | fetch => exact .inr (fetch_keeps input state invariant control)
  | gather => exact .inr (gather_keeps input state invariant control)
  | store => exact .inr (store_keeps input state invariant control)
  | spill => exact .inr (spill_keeps input state invariant control)
  | trim => exact .inr (trim_keeps input state invariant control)
  | print => exact print_keeps input state invariant control

theorem invariant_safe (fits : Fits input) : Safe input state where
  size := invariant.size
  count := invariant.size ▸ invariant.count
  small := invariant.small
  carry := by
    have bounds := invariant.bounds
    unfold Bounds at bounds
    split at bounds <;> omega
  inInt := by
    have size := invariant.size
    exact Nat.lt_of_le_of_lt (size ▸ invariant.count) fits.count
  inside := by
    rcases turn_keeps input state invariant with stops | ⟨later, turn, -⟩
    · exact ⟨_, stops⟩
    · exact ⟨_, turn⟩

end Invariants

section Runs

theorem invariant_kept (input : Bytes) (state later : State) (invariant : Invariant input state)
    (turn : Turn (attempt (body input)) state later) : Invariant input later := by
  have ran := (attempt_next (body input) state later).mp turn
  rcases turn_keeps input state invariant with stops | ⟨same, next, still⟩
  · rw [stops] at ran
    cases ran
  · rw [next] at ran
    cases ran
    exact still

theorem reached_invariant (input : Bytes) (fits : Fits input) (state : State)
    (reached : Reaches (attempt (body input)) (start input) state) : Invariant input state := by
  induction reached with
  | refl => exact start_invariant input fits
  | tail _ turn ih => exact invariant_kept input _ _ ih turn

/-- The turns that are left, at most. A byte takes two for each digit in use,
and fewer than its carry for the digits that are new. -/
def turnsLeft (state : State) : Nat :=
  let size := state.digits.length
  let bytes := state.rest.length * (2 * size + 300) + (2 * size + 3)
  match state.control with
  | .fetch => bytes
  | .gather => bytes + 258 + 2 * (state.digitslen - state.j)
  | .store => bytes + 257 + 2 * (state.digitslen - state.j)
  | .spill => bytes + 1 + state.carry
  | .trim => size + 2 + state.digitslen
  | .print => state.j + 1

theorem turns_lower (input : Bytes) (state later : State) (invariant : Invariant input state)
    (turn : Turn (attempt (body input)) state later) : turnsLeft later < turnsLeft state := by
  have ran := (attempt_next (body input) state later).mp turn
  have count := invariant.count
  have bounds := invariant.bounds
  unfold body at ran
  cases control : state.control with
  | fetch =>
      cases rest : state.rest with
      | cons byte rest' =>
          simp only [control, rest] at ran
          cases ran
          have small := byte.toNat_lt
          simp only [turnsLeft, control, rest, List.length_cons, Nat.succ_mul]
          omega
      | nil =>
          simp only [control, rest] at ran
          cases ran
          simp only [turnsLeft, control, rest]
          omega
  | gather =>
      simp only [control, Bounds] at ran bounds
      split at ran
      next inside =>
        obtain ⟨digit, -, ran⟩ := bind_returned _ _ _ ran
        cases ran
        simp only [turnsLeft, control]
        omega
      next =>
        cases ran
        simp only [turnsLeft, control]
        omega
  | store =>
      simp only [control, Bounds] at ran bounds
      obtain ⟨digits, written, ran⟩ := bind_returned _ _ _ ran
      cases ran
      have same := put_length _ _ _ _ written
      simp only [turnsLeft, control, same]
      omega
  | spill =>
      simp only [control, Bounds] at ran bounds
      split at ran
      next more =>
        obtain ⟨digits, written, ran⟩ := bind_returned _ _ _ ran
        cases ran
        have same := put_length _ _ _ _ written
        simp only [turnsLeft, control, same]
        omega
      next =>
        cases ran
        simp only [turnsLeft, control]
        omega
  | trim =>
      simp only [control] at ran
      split at ran
      next more =>
        obtain ⟨digit, -, ran⟩ := bind_returned _ _ _ ran
        split at ran
        next =>
          cases ran
          simp only [turnsLeft, control]
          omega
        next =>
          cases ran
          simp only [turnsLeft, control]
          omega
      next =>
        cases ran
        simp only [turnsLeft, control]
        omega
  | print =>
      simp only [control] at ran
      split at ran
      next more =>
        obtain ⟨digit, -, ran⟩ := bind_returned _ _ _ ran
        cases ran
        simp only [turnsLeft, control]
        omega
      next => cases ran

/-- The run on the buffer ends with the text of the encoding. -/
theorem encode_returns (input : Bytes) (fits : Fits input) :
    Returns (attempt (body input)) (start input) (.ok (encode input)) := by
  obtain ⟨result, ran⟩ := run_measure (attempt (body input)) turnsLeft (Invariant input)
    (invariant_kept input) (turns_lower input) (start input) (start_invariant input fits) _
    (Nat.lt_succ_self _)
  obtain ⟨last, reached, stops⟩ := returns_reached _ _ _ ⟨_, ran⟩
  have invariant := reached_invariant input fits last reached
  rcases turn_keeps input last invariant with returned | ⟨later, next, -⟩
  · rw [attempt, returned] at stops
    cases stops
    exact ⟨_, ran⟩
  · rw [attempt, next] at stops
    cases stops

/-- No step of an encoding leaves the buffer, however many bytes there are. -/
theorem buffer_never_overrun (input : Bytes) (fits : Fits input) (state : State)
    (reached : Reaches (attempt (body input)) (start input) state) : Safe input state :=
  invariant_safe input state (reached_invariant input fits state reached) fits

def threeBytes : Bytes := [255, 255, 255]

/-- With one more byte to come, a second digit is about to be stored. -/
def storing : State := ⟨.store, [255], [53, 4, 0, 0, 0], 2, 1129, 1, []⟩

/-- Two turns later the carry that is left needs a third one. -/
def spilling : State := ⟨.spill, [255], [53, 27, 0, 0, 0], 2, 19, 2, []⟩

theorem storing_reached : Reaches (attempt (body threeBytes)) (start threeBytes) storing :=
  .head rfl <| .head rfl <| .head rfl <| .head rfl <| .head rfl <| .head rfl <| .head rfl <|
    .head rfl <| .head rfl <| .head rfl .refl

theorem three_bytes_never_overrun : Safe threeBytes storing ∧ Safe threeBytes spilling :=
  ⟨buffer_never_overrun threeBytes ⟨by decide, by decide⟩ storing storing_reached,
    buffer_never_overrun threeBytes ⟨by decide, by decide⟩ spilling
      ((storing_reached.tail rfl).tail rfl)⟩

end Runs
end SolanaSdk.Base58Buffer
