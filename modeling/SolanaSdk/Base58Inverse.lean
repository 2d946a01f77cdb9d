import SolanaSdk.Base58
import SolanaSdk.PositionalDigits

/-!
`Base58::encode` and `Base58::decode` as conversions of digit strings between
the bases 256 and 58, and so as inverses of each other.
-/

namespace SolanaSdk.Base58Inverse

open ByteData Base58 PositionalDigits

section Letters

/-- What `digitValue` may say about a char. -/
def LetterOutcome (c : UInt8) : Except Failure Nat → Prop
  | .ok digit => digit < 58 ∧ alphabet.getD digit 0 = c ∧ c ∈ alphabet ∧ (c = 49 ↔ digit = 0)
  | .error failure => failure = .invalidArgument "Invalid Base58 character" ∧ c ∉ alphabet

instance (c : UInt8) (outcome : Except Failure Nat) : Decidable (LetterOutcome c outcome) :=
  match outcome with
  | .ok _ => inferInstanceAs (Decidable (_ ∧ _))
  | .error _ => inferInstanceAs (Decidable (_ ∧ _))

/-- A char is the letter of one digit below 58, or it is refused. -/
theorem digit_value_cases (c : UInt8) :
    (∃ digit, digit < 58 ∧ digitValue c = .ok digit ∧ alphabet.getD digit 0 = c ∧
      c ∈ alphabet ∧ (c = 49 ↔ digit = 0)) ∨
    (digitValue c = .error (.invalidArgument "Invalid Base58 character") ∧ c ∉ alphabet) := by
  have every : ∀ code : Fin 256, LetterOutcome (UInt8.ofNat code) (digitValue (UInt8.ofNat code)) :=
    by decide +kernel
  have here := every ⟨c.toNat, c.toNat_lt⟩
  rw [UInt8.ofNat_toNat] at here
  cases outcome : digitValue c with
  | ok digit =>
      rw [outcome] at here
      obtain ⟨small, letter, listed, zero⟩ := here
      exact Or.inl ⟨digit, small, rfl, letter, listed, zero⟩
  | error failure =>
      rw [outcome] at here
      obtain ⟨rfl, absent⟩ := here
      exact Or.inr ⟨rfl, absent⟩

theorem letter_digit (digit : Nat) (small : digit < 58) :
    digitValue (alphabet.getD digit 0) = .ok digit := by
  have every : ∀ digit : Fin 58, digitValue (alphabet.getD digit.val 0) = .ok digit.val := by
    decide +kernel
  exact every ⟨digit, small⟩

/-- The digits of a text, and the letters of a digit string. -/
def digitsOf (input : Text) : Except Failure (List Nat) := input.mapM digitValue

def lettersOf (digits : List Nat) : Text := digits.map fun digit => alphabet.getD digit 0

theorem digits_of_letters (digits : List Nat) (small : ∀ digit ∈ digits, digit < 58) :
    digitsOf (lettersOf digits) = .ok digits := by
  have total := map_m_total (m := Except Failure)
    (fun digit => digitValue (alphabet.getD digit 0)) id digits
    fun digit member => letter_digit digit (small digit member)
  rw [List.map_id] at total
  rw [digitsOf, lettersOf, List.mapM_map]
  exact total

theorem digits_of_cases (input : Text) :
    (∃ digits, digitsOf input = .ok digits ∧ lettersOf digits = input ∧
      (∀ digit ∈ digits, digit < 58) ∧ (∀ c ∈ input, c ∈ alphabet) ∧
      (input.takeWhile fun c => c == 49).length = leadingZeros digits) ∨
    (digitsOf input = .error (.invalidArgument "Invalid Base58 character") ∧
      ∃ c ∈ input, c ∉ alphabet) := by
  induction input with
  | nil => exact Or.inl ⟨[], rfl, rfl, by simp, by simp, rfl⟩
  | cons c rest ih =>
      rcases digit_value_cases c with ⟨digit, small, read, letter, listed, one⟩ | ⟨refused, absent⟩
      · -- The first char is a letter, so the outcome is that of the rest.
        rcases ih with ⟨digits, tail, letters, below, members, zeros⟩ | ⟨failed, later⟩
        · refine Or.inl ⟨digit :: digits, ?_, ?_, ?_, ?_, ?_⟩
          · rw [digitsOf] at tail
            rw [digitsOf, List.mapM_cons, read, tail]
            rfl
          · rw [← letters, ← letter]
            rfl
          · simpa using ⟨small, below⟩
          · simpa using ⟨listed, members⟩
          · rw [leadingZeros] at zeros ⊢
            by_cases zero : digit = 0
            · simp [one.mpr zero, zero, zeros]
            · simp [mt one.mp zero, zero]
        · obtain ⟨bad, member, absent⟩ := later
          refine Or.inr ⟨?_, bad, List.mem_cons_of_mem c member, absent⟩
          rw [digitsOf] at failed
          rw [digitsOf, List.mapM_cons, read, failed]
          rfl
      · -- The loop throws at the first char outside the alphabet.
        refine Or.inr ⟨?_, c, List.mem_cons_self, absent⟩
        rw [digitsOf, List.mapM_cons, refused]
        rfl

end Letters

section Accumulators

/-- Byte arithmetic on the accumulator is digit arithmetic on the naturals. -/
theorem mul_add_refines (carry : Nat) (result : Bytes) :
    (mulAdd carry result).1.map UInt8.toNat =
        (carryThrough 256 58 carry (result.map UInt8.toNat)).1 ∧
      (mulAdd carry result).2 = (carryThrough 256 58 carry (result.map UInt8.toNat)).2 := by
  induction result generalizing carry with
  | nil => exact ⟨rfl, rfl⟩
  | cons byte rest ih =>
      obtain ⟨digits, left⟩ := ih ((carry + byte.toNat * 58) / 256)
      simp only [mulAdd, carryThrough, List.map_cons]
      refine ⟨congrArg₂ List.cons ?_ digits, left⟩
      exact UInt8.toNat_ofNat_of_lt (Nat.mod_lt _ (by decide))

theorem shift_add_refines (carry : Nat) (digits : Bytes) :
    (shiftAdd carry digits).1.map UInt8.toNat =
        (carryThrough 58 256 carry (digits.map UInt8.toNat)).1 ∧
      (shiftAdd carry digits).2 = (carryThrough 58 256 carry (digits.map UInt8.toNat)).2 := by
  induction digits generalizing carry with
  | nil => exact ⟨rfl, rfl⟩
  | cons digit rest ih =>
      obtain ⟨tail, left⟩ := ih ((carry + digit.toNat * 256) / 58)
      have shifted : digit.toNat <<< 8 = digit.toNat * 256 := Nat.shiftLeft_eq ..
      simp only [shiftAdd, carryThrough, List.map_cons, shifted]
      refine ⟨congrArg₂ List.cons ?_ tail, left⟩
      exact UInt8.toNat_ofNat_of_lt
        (Nat.lt_trans (Nat.mod_lt _ (by decide : 0 < 58)) (by decide))

theorem push_carry_digits (carry : Nat) :
    (pushCarry carry).map UInt8.toNat = Nat.digits 256 carry := by
  induction carry using pushCarry.induct with
  | case1 => simp [pushCarry]
  | case2 carry more ih =>
      rw [pushCarry, if_neg more, Nat.digits_def' (by decide) (Nat.pos_of_ne_zero more),
        List.map_cons, ih]
      exact congrArg₂ List.cons (UInt8.toNat_ofNat_of_lt (Nat.mod_lt _ (by decide))) rfl

theorem push_digits_digits (carry : Nat) :
    (pushDigits carry).map UInt8.toNat = Nat.digits 58 carry := by
  induction carry using pushDigits.induct with
  | case1 => simp [pushDigits]
  | case2 carry more ih =>
      rw [pushDigits, if_neg more, Nat.digits_def' (by decide) (Nat.pos_of_ne_zero more),
        List.map_cons, ih]
      refine congrArg₂ List.cons (UInt8.toNat_ofNat_of_lt ?_) rfl
      exact Nat.lt_trans (Nat.mod_lt _ (by decide : 0 < 58)) (by decide)

theorem encode_step_refines (digits : Bytes) (byte : UInt8) :
    (encodeStep digits byte).map UInt8.toNat =
      absorb 58 256 (digits.map UInt8.toNat) byte.toNat := by
  obtain ⟨low, left⟩ := shift_add_refines byte.toNat digits
  rw [encodeStep, absorb, List.map_append, push_digits_digits, low, left]

theorem encode_fold_refines (input digits : Bytes) :
    (input.foldl encodeStep digits).map UInt8.toNat =
      (input.map UInt8.toNat).foldl (absorb 58 256) (digits.map UInt8.toNat) := by
  induction input generalizing digits with
  | nil => rfl
  | cons byte rest ih => rw [List.foldl_cons, ih, encode_step_refines, List.map_cons, List.foldl_cons]

/-- One decoding step on a digit that has been read. -/
def absorbDigit (result : Bytes) (digit : Nat) : Bytes :=
  (mulAdd digit result).1 ++ pushCarry (mulAdd digit result).2

theorem absorb_digit_refines (result : Bytes) (digit : Nat) :
    (absorbDigit result digit).map UInt8.toNat = absorb 256 58 (result.map UInt8.toNat) digit := by
  obtain ⟨low, left⟩ := mul_add_refines digit result
  rw [absorbDigit, absorb, List.map_append, push_carry_digits, low, left]

theorem absorb_digits_refines (digits : List Nat) (result : Bytes) :
    (digits.foldl absorbDigit result).map UInt8.toNat =
      digits.foldl (absorb 256 58) (result.map UInt8.toNat) := by
  induction digits generalizing result with
  | nil => rfl
  | cons digit rest ih => rw [List.foldl_cons, ih, absorb_digit_refines, List.foldl_cons]

/-- The decoding loop reads all the digits, or fails at the first refused char. -/
theorem decode_fold_refines (input : Text) (result : Bytes) :
    input.foldlM decodeStep result =
      (digitsOf input).map fun digits => digits.foldl absorbDigit result := by
  induction input generalizing result with
  | nil => rfl
  | cons c rest ih =>
      rw [digitsOf] at ih
      rw [List.foldlM_cons, digitsOf, List.mapM_cons, decodeStep]
      cases digitValue c with
      | error failure => rfl
      | ok digit =>
          change List.foldlM decodeStep (absorbDigit result digit) rest = _
          rw [ih]
          cases rest.mapM digitValue with
          | error failure => rfl
          | ok digits => rfl

end Accumulators

section Conversions

theorem strip_bytes (digits : Bytes) :
    (digits.rdropWhile fun digit => digit == 0).map UInt8.toNat =
      (digits.map UInt8.toNat).rdropWhile (· == 0) := by
  have same : ((fun digit : Nat => digit == 0) ∘ UInt8.toNat) = fun digit => digit == 0 := by
    funext digit
    rw [Bool.eq_iff_iff]
    simp [← UInt8.toNat_inj]
  rw [List.rdropWhile, List.rdropWhile, ← List.map_reverse, List.dropWhile_map, same,
    List.map_reverse]

theorem leading_zero_bytes (input : Bytes) :
    (input.takeWhile fun byte => byte == 0).length = leadingZeros (input.map UInt8.toNat) := by
  have same : ((fun digit : Nat => digit == 0) ∘ UInt8.toNat) = fun digit => digit == 0 := by
    funext digit
    rw [Bool.eq_iff_iff]
    simp [← UInt8.toNat_inj]
  rw [leadingZeros, List.takeWhile_map, same, List.length_map]

/-- `Base58::encode` writes the bytes as digits of base 58. -/
theorem encode_recode (input : Bytes) :
    encode input = lettersOf (recode 58 256 (input.map UInt8.toNat)) := by
  cases input with
  | nil => rfl
  | cons byte rest =>
      have digits := encode_fold_refines (byte :: rest) [0]
      have letters : ∀ stripped : Bytes,
          (stripped.reverse.map fun digit => alphabet.getD digit.toNat 0) =
            lettersOf (stripped.map UInt8.toNat).reverse := by
        intro stripped
        rw [lettersOf, ← List.map_reverse, List.map_map]
        rfl
      have zeros : List.replicate (leadingZeros ((byte :: rest).map UInt8.toNat)) (49 : UInt8) =
          lettersOf (List.replicate (leadingZeros ((byte :: rest).map UInt8.toNat)) 0) := by
        rw [lettersOf, List.map_replicate]
        rfl
      simp only [encode, List.isEmpty_cons, Bool.false_eq_true, if_false, letters, strip_bytes,
        digits, leading_zero_bytes, zeros, recode]
      exact List.map_append.symm

theorem bytes_of_digits (bytes : Bytes) : (bytes.map UInt8.toNat).map UInt8.ofNat = bytes := by
  rw [List.map_map]
  exact (List.map_congr_left fun byte _ => UInt8.ofNat_toNat).trans (List.map_id bytes)

theorem digits_of_bytes (digits : List Nat) (small : ∀ digit ∈ digits, digit < 256) :
    (digits.map UInt8.ofNat).map UInt8.toNat = digits := by
  rw [List.map_map]
  refine (List.map_congr_left fun digit member => ?_).trans (List.map_id digits)
  exact UInt8.toNat_ofNat_of_lt (small digit member)

/-- `Base58::decode` writes the letters' digits as bytes. -/
theorem decode_recode (input : Text) (digits : List Nat) (read : digitsOf input = .ok digits)
    (ones : (input.takeWhile fun c => c == 49).length = leadingZeros digits) :
    decode input = .ok ((recode 256 58 digits).map UInt8.ofNat) := by
  cases input with
  | nil =>
      cases read
      rfl
  | cons c rest =>
      have result := absorb_digits_refines digits [0]
      have stripped : ∀ accumulated : Bytes, (accumulated.rdropWhile fun byte => byte == 0) =
          ((accumulated.map UInt8.toNat).rdropWhile (· == 0)).map UInt8.ofNat := by
        intro accumulated
        rw [← strip_bytes, bytes_of_digits]
      have fold := decode_fold_refines (c :: rest) [0]
      rw [read] at fold
      simp only [decode, List.isEmpty_cons, Bool.false_eq_true, if_false, fold, ones]
      change Except.ok _ = Except.ok _
      rw [stripped, result, recode, List.map_append, List.map_reverse, List.map_replicate]
      rfl

end Conversions

theorem decode_encode (input : Bytes) : decode (encode input) = .ok input := by
  have small : ∀ digit ∈ input.map UInt8.toNat, digit < 256 := by
    intro digit member
    obtain ⟨byte, _, rfl⟩ := List.mem_map.mp member
    exact byte.toNat_lt
  have read := digits_of_letters (recode 58 256 (input.map UInt8.toNat))
    (recode_lt 58 256 (by decide) _)
  rw [encode_recode]
  rcases digits_of_cases (lettersOf (recode 58 256 (input.map UInt8.toNat))) with
    ⟨digits, again, _, _, _, ones⟩ | ⟨failed, _⟩
  · rw [read] at again
    cases again
    rw [decode_recode _ _ read ones, recode_recode 58 256 (by decide) (by decide) _ small,
      bytes_of_digits]
  · rw [read] at failed
    cases failed

theorem encode_decode (input : Text) (listed : ∀ c ∈ input, c ∈ alphabet) :
    ∃ output, decode input = .ok output ∧ encode output = input := by
  rcases digits_of_cases input with ⟨digits, read, letters, small, _, ones⟩ | ⟨_, c, member, absent⟩
  · refine ⟨_, decode_recode input digits read ones, ?_⟩
    rw [encode_recode, digits_of_bytes _ (recode_lt 256 58 (by decide) digits),
      recode_recode 256 58 (by decide) (by decide) digits small, letters]
  · exact absurd (listed c member) absent

theorem decode_refuses (input : Text) :
    decode input = .error (.invalidArgument "Invalid Base58 character") ↔
      ∃ c ∈ input, c ∉ alphabet := by
  constructor
  · intro refused
    by_contra legal
    obtain ⟨output, decoded, _⟩ := encode_decode input fun c member => by
      by_contra absent
      exact legal ⟨c, member, absent⟩
    rw [refused] at decoded
    cases decoded
  · rintro ⟨c, member, absent⟩
    rcases digits_of_cases input with ⟨_, _, _, _, listed, _⟩ | ⟨failed, _⟩
    · exact absurd (listed c member) absent
    · cases input with
      | nil => cases member
      | cons first rest =>
          have fold := decode_fold_refines (first :: rest) [0]
          rw [failed] at fold
          simp only [decode, List.isEmpty_cons, Bool.false_eq_true, if_false, fold]
          rfl

theorem encode_decoded (input : Text) (output : Bytes) (decoded : decode input = .ok output) :
    encode output = input := by
  have listed : ∀ c ∈ input, c ∈ alphabet := by
    by_contra foreign
    push Not at foreign
    rw [(decode_refuses input).mpr foreign] at decoded
    cases decoded
  obtain ⟨again, same, letters⟩ := encode_decode input listed
  rw [decoded] at same
  cases same
  exact letters

theorem decode_injective (left right : Text) (output : Bytes) (first : decode left = .ok output)
    (second : decode right = .ok output) : left = right :=
  (encode_decoded left output first).symm.trans (encode_decoded right output second)

/-- `decode` inverts `encode` on all bytes, refuses exactly the texts with a
foreign char, and is inverted by `encode` on all the others. -/
theorem encode_bijective :
    (∀ bytes, decode (encode bytes) = .ok bytes) ∧
    (∀ text, decode text = .error (.invalidArgument "Invalid Base58 character") ↔
      ∃ c ∈ text, c ∉ alphabet) ∧
    (∀ text, (∀ c ∈ text, c ∈ alphabet) ↔
      ∃ bytes, decode text = .ok bytes ∧ encode bytes = text) := by
  refine ⟨decode_encode, decode_refuses, fun text => ⟨encode_decode text, ?_⟩⟩
  rintro ⟨bytes, decoded, _⟩
  by_contra foreign
  push Not at foreign
  rw [(decode_refuses text).mpr foreign] at decoded
  cases decoded

end SolanaSdk.Base58Inverse
