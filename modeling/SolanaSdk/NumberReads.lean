import Mathlib.Algebra.Order.Field.Basic
import Mathlib.Algebra.Order.Field.Power
import Mathlib.Data.Rat.Cast.Order
import Mathlib.Tactic.FieldSimp
import Mathlib.Tactic.Linarith
import Mathlib.Tactic.Positivity
import SolanaSdk.JsonTexts

/-!
Integer reads of number tokens. The parser takes a fraction and an exponent into
the token, and the accessors read the digits before them. The two agree where
what they leave out changes nothing, and where they clamp to the right value.
-/

namespace SolanaSdk.NumberReads

open ByteData JsonText JsonScanners JsonAccess JsonGrammar JsonScanning JsonPlaces
open JsonDocuments JsonTexts Segments

section Scaled

/-- A decimal number is its whole part exactly where the fraction is zero and no power of ten
scales it, or where it is zero. -/
theorem scaled_eq_whole_iff (whole fraction places : Nat) (exponent : Int)
    (below : fraction < 10 ^ places) :
    ((whole : Rat) + fraction / 10 ^ places) * 10 ^ exponent = whole ↔
      fraction = 0 ∧ (whole = 0 ∨ exponent = 0) := by
  have power : (0 : Rat) < 10 ^ places := by positivity
  have small : (fraction : Rat) / 10 ^ places < 1 := by
    rw [div_lt_one power]
    exact_mod_cast below
  have nonneg : (0 : Rat) ≤ (fraction : Rat) / 10 ^ places := by positivity
  have positive : (0 : Rat) ≤ whole := Nat.cast_nonneg whole
  have none : (fraction : Rat) / 10 ^ places = 0 ↔ fraction = 0 := by
    rw [div_eq_zero_iff]
    simp
  have scale : (0 : Rat) < 10 ^ exponent := by positivity
  constructor
  · intro same
    -- A scaled number can only be its whole part where both are zero.
    have vanish (zero : whole = 0) : fraction = 0 ∧ (whole = 0 ∨ exponent = 0) := by
      rw [zero, Nat.cast_zero, zero_add, mul_eq_zero] at same
      exact ⟨none.mp (same.resolve_right (ne_of_gt scale)), .inl zero⟩
    rcases lt_trichotomy exponent 0 with negative | zero | large
    · apply vanish
      have tenth : (10 : Rat) ^ exponent ≤ 1 / 10 := by
        have step : (10 : Rat) ^ exponent ≤ 10 ^ (-1 : Int) :=
          zpow_le_zpow_right₀ (by norm_num) (by omega)
        rwa [zpow_neg_one, ← one_div] at step
      have less : (whole : Rat) ≤ (whole + fraction / 10 ^ places) * (1 / 10) := by
        calc (whole : Rat) = (whole + fraction / 10 ^ places) * 10 ^ exponent := same.symm
          _ ≤ _ := mul_le_mul_of_nonneg_left tenth (by linarith)
      have bound : (whole : Rat) < 1 := by linarith
      exact Nat.lt_one_iff.mp (by exact_mod_cast bound)
    · rw [zero, zpow_zero, mul_one] at same
      exact ⟨none.mp (by linarith), .inr zero⟩
    · apply vanish
      have ten : (10 : Rat) ≤ 10 ^ exponent := by
        have step : (10 : Rat) ^ (1 : Int) ≤ 10 ^ exponent :=
          zpow_le_zpow_right₀ (by norm_num) (by omega)
        rwa [zpow_one] at step
      have more : (whole : Rat) * 10 ≤ whole := by
        calc (whole : Rat) * 10 ≤ (whole + fraction / 10 ^ places) * 10 ^ exponent :=
              mul_le_mul (by linarith) ten (by norm_num) (by linarith)
          _ = whole := same
      have bound : (whole : Rat) < 1 := by linarith
      exact Nat.lt_one_iff.mp (by exact_mod_cast bound)
  · rintro ⟨rfl, rfl | rfl⟩
    · simp
    · simp

end Scaled

section Tokens

def digitsValue (digits : Text) : Nat := digits.foldl (fun acc c => acc * 10 + (c.toNat - 48)) 0

structure ExponentPart where
  mark : UInt8
  marks : mark = 101 ∨ mark = 69
  sign : Text
  signs : sign = [] ∨ sign = [plus] ∨ sign = [minus]
  digits : Text
  digital : Digits digits

/-- What the parser takes for a number: leading zeros and a mark without digits
behind it are allowed, unlike in JSON. -/
structure NumberToken where
  negative : Bool
  whole : Text
  wholeDigits : Digits whole
  wholeSome : whole ≠ []
  fraction : Option { digits : Text // Digits digits }
  exponent : Option ExponentPart

namespace NumberToken

def sign (token : NumberToken) : Text := if token.negative then [minus] else []

def fractionText (token : NumberToken) : Text :=
  match token.fraction with
  | none => []
  | some digits => point :: digits.val

def exponentText (token : NumberToken) : Text :=
  match token.exponent with
  | none => []
  | some exponent => exponent.mark :: (exponent.sign ++ exponent.digits)

def text (token : NumberToken) : Text :=
  token.sign ++ (token.whole ++ (token.fractionText ++ token.exponentText))

def fractionDigits (token : NumberToken) : Text :=
  match token.fraction with
  | none => []
  | some digits => digits.val

def exponentDigits (token : NumberToken) : Text :=
  match token.exponent with
  | none => []
  | some exponent => exponent.digits

/-- The power of ten; no digits count as zero. -/
def power (token : NumberToken) : Int :=
  match token.exponent with
  | none => 0
  | some exponent =>
      if exponent.sign = [minus] then -digitsValue exponent.digits else digitsValue exponent.digits

/-- The number that the token spells. -/
def value (token : NumberToken) : Rat :=
  (if token.negative then -1 else 1) *
    ((digitsValue token.whole +
      digitsValue token.fractionDigits / 10 ^ token.fractionDigits.length) * 10 ^ token.power)

/-- Nothing but zeros stands behind the whole part, unless it is the power of a zero. -/
def Plain (token : NumberToken) : Prop :=
  (∀ c ∈ token.fractionDigits, c = 48) ∧
    ((∀ c ∈ token.whole, c = 48) ∨ ∀ c ∈ token.exponentDigits, c = 48)

/-- No integer that one of the accessors has to return. -/
def Unasked (token : NumberToken) : Prop :=
  ∀ number : Int, -2 ^ 63 ≤ number → number < 2 ^ 64 → token.value ≠ number

/-- The accessor clamps the whole part to the value at one end of its range. -/
def Clamped (token : NumberToken) : Prop :=
  token.value = 2 ^ 64 - 1 ∧ 2 ^ 64 ≤ digitsValue token.whole ∨
    token.value = -2 ^ 63 ∧ 2 ^ 63 < digitsValue token.whole

end NumberToken

/-- A token in a text, with a delimiter or the end of the text behind it. -/
structure Occurrence where
  before : Text
  token : NumberToken
  rest : Text
  delimited : ∀ c ∈ rest.head?, Delimiter c

namespace Occurrence

def text (occurrence : Occurrence) : Text :=
  occurrence.before ++ (occurrence.token.text ++ occurrence.rest)

/-- The parser takes the token as one number, and the accessors return its
value where it is an integer of their range. -/
def Agrees (occurrence : Occurrence) : Prop :=
  let src := cStr occurrence.text
  let start := occurrence.before.length
  ∃ value, parseValue src start occurrence.text.length =
      .ok (value, start + occurrence.token.text.length) ∧
    value._type = .number ∧
    (∀ number : Nat, number < 2 ^ 64 → occurrence.token.value = number →
      value.asUint src = .ok number) ∧
    ∀ number : Int, -2 ^ 63 ≤ number → number < 2 ^ 63 → occurrence.token.value = number →
      value.asInt src = .ok number

end Occurrence
end Tokens

section Values
variable (token : NumberToken)

theorem digits_fold (digits : Text) (acc : Nat) :
    digits.foldl (fun acc c => acc * 10 + (c.toNat - 48)) acc =
      acc * 10 ^ digits.length + digitsValue digits := by
  induction digits generalizing acc with
  | nil => simp [digitsValue]
  | cons c rest ih =>
      rw [digitsValue, List.foldl_cons, List.foldl_cons, ih, ih (0 * 10 + _), List.length_cons,
        Nat.pow_succ]
      ring

theorem digits_value_cons (c : UInt8) (rest : Text) :
    digitsValue (c :: rest) = (c.toNat - 48) * 10 ^ rest.length + digitsValue rest := by
  have fold := digits_fold rest (c.toNat - 48)
  rw [digitsValue, List.foldl_cons, Nat.zero_mul, Nat.zero_add]
  exact fold

theorem digits_value_lt (digits : Text) (digital : Digits digits) :
    digitsValue digits < 10 ^ digits.length := by
  induction digits with
  | nil => exact Nat.one_pos
  | cons c rest ih =>
      have tail := ih fun c member => digital c (List.mem_cons_of_mem _ member)
      have bounds := digit_bounds c (digital c List.mem_cons_self)
      have digit : c.toNat - 48 ≤ 9 := by omega
      rw [digits_value_cons, List.length_cons, Nat.pow_succ]
      nlinarith [Nat.mul_le_mul_right (10 ^ rest.length) digit]

theorem digits_value_zero (digits : Text) (digital : Digits digits) :
    digitsValue digits = 0 ↔ ∀ c ∈ digits, c = 48 := by
  induction digits with
  | nil => exact iff_of_true rfl (List.forall_mem_nil _)
  | cons c rest ih =>
      have tail := ih fun c member => digital c (List.mem_cons_of_mem _ member)
      have bounds := digit_bounds c (digital c List.mem_cons_self)
      have first : c.toNat - 48 = 0 ↔ c = 48 := by
        rw [← UInt8.toNat_inj]
        change c.toNat - 48 = 0 ↔ c.toNat = 48
        omega
      rw [digits_value_cons, Nat.add_eq_zero_iff, Nat.mul_eq_zero, tail, first,
        List.forall_mem_cons]
      simp

theorem fraction_digital : Digits token.fractionDigits := by
  unfold NumberToken.fractionDigits
  split
  · exact List.forall_mem_nil _
  · rename_i digits _
    exact digits.property

theorem power_zero : token.power = 0 ↔ ∀ c ∈ token.exponentDigits, c = 48 := by
  unfold NumberToken.power NumberToken.exponentDigits
  cases token.exponent with
  | none => exact iff_of_true rfl (List.forall_mem_nil _)
  | some exponent =>
      have zero := digits_value_zero exponent.digits exponent.digital
      change ((if exponent.sign = [minus] then -(digitsValue exponent.digits : Int)
        else digitsValue exponent.digits) = 0 ↔ ∀ c ∈ exponent.digits, c = 48)
      rw [← zero]
      split <;> omega

/-- The value up to its sign. -/
def size (token : NumberToken) : Rat :=
  (digitsValue token.whole +
    digitsValue token.fractionDigits / 10 ^ token.fractionDigits.length) * 10 ^ token.power

theorem size_nonneg : 0 ≤ size token := by
  unfold size
  positivity

theorem value_size :
    token.value = if token.negative then -size token else size token := by
  unfold NumberToken.value
  change (if token.negative = true then -1 else 1) * size token = _
  split
  · exact neg_one_mul _
  · exact one_mul _

theorem plain_iff : token.Plain ↔ size token = digitsValue token.whole := by
  have below := digits_value_lt _ (fraction_digital token)
  rw [size, scaled_eq_whole_iff _ _ _ _ below, power_zero,
    digits_value_zero _ (fraction_digital token), digits_value_zero _ token.wholeDigits]
  rfl

end Values

section Reads

theorem token_number (token : NumberToken) :
    NumberText token.sign token.whole token.fractionText token.exponentText where
  signed := by
    unfold NumberToken.sign
    cases token.negative with
    | true => exact .inr rfl
    | false => exact .inl rfl
  digits := token.wholeDigits
  some := token.wholeSome
  fraction := by
    unfold NumberToken.fractionText
    cases token.fraction with
    | none => exact .inl rfl
    | some digits => exact .inr ⟨digits.val, digits.property, rfl⟩
  exponent := by
    unfold NumberToken.exponentText
    cases token.exponent with
    | none => exact .inl rfl
    | some exponent =>
        exact .inr ⟨exponent.mark, exponent.sign, exponent.digits, exponent.marks,
          exponent.signs, exponent.digital, rfl⟩

/-- Documents whose numbers are any tokens. -/
def tokenWords : Lexicon := { plainWords with
  Number := NumberToken
  numberText := NumberToken.text }

theorem token_scanned : Scanned tokenWords where
  key := key_body
  content := parts_body
  number token := ⟨token.sign, token.whole, token.fractionText, token.exponentText,
    token_number token, rfl⟩

/-- What ends the whole digits: the fraction, the exponent or the delimiter. -/
theorem whole_ends (token : NumberToken) (next : UInt8) (rest : Text) (delimits : Delimiter next) :
    ∃ c later, token.fractionText ++ token.exponentText ++ next :: rest = c :: later ∧
      isDigit c = false := by
  unfold NumberToken.fractionText NumberToken.exponentText
  cases token.fraction with
  | some digits => exact ⟨point, _, rfl, by decide⟩
  | none =>
      cases token.exponent with
      | some exponent =>
          refine ⟨exponent.mark, _, rfl, ?_⟩
          rcases exponent.marks with same | same <;> rw [same] <;> decide
      | none => exact ⟨next, rest, rfl, (delimiter_stops next delimits).1⟩

/-- What `strtoull` makes of a sign and digits. -/
def unsignedOf (negative : Bool) (digits : Text) : Nat :=
  if 2 ^ 64 ≤ digitsValue digits then 2 ^ 64 - 1
  else if negative then (2 ^ 64 - digitsValue digits) % 2 ^ 64
  else digitsValue digits

/-- The three steps of both C functions on a sign, digits and another char. -/
theorem digit_steps (negative : Bool) (digits rest : Text) (next : UInt8)
    (digital : Digits digits) (some : negative = true ∨ digits ≠ [])
    (stops : isDigit next = false) :
    skipIsspace ((if negative then [minus] else []) ++ (digits ++ next :: rest)) =
        .ok ((if negative then [minus] else []) ++ (digits ++ next :: rest)) ∧
      readSign ((if negative then [minus] else []) ++ (digits ++ next :: rest)) =
        .ok (negative, digits ++ next :: rest) ∧
      readMagnitude 0 (digits ++ next :: rest) = .ok (digitsValue digits) := by
  have read := magnitude_read digits rest next 0 digital stops
  rcases some with rfl | some
  · exact ⟨rfl, rfl, read⟩
  · obtain ⟨spaces, signed⟩ := sign_steps negative digits (next :: rest) digital some
    exact ⟨spaces, signed, read⟩

theorem strtoull_digits (negative : Bool) (digits rest : Text) (next : UInt8)
    (digital : Digits digits) (some : negative = true ∨ digits ≠ [])
    (stops : isDigit next = false) :
    strtoull ((if negative then [minus] else []) ++ (digits ++ next :: rest)) =
      .ok (unsignedOf negative digits) := by
  obtain ⟨spaces, signed, read⟩ := digit_steps negative digits rest next digital some stops
  rw [strtoull, spaces]
  change (readSign _ >>= _) = _
  rw [signed]
  change (readMagnitude 0 (digits ++ next :: rest) >>= _) = _
  rw [read, unsignedOf]
  change (if 2 ^ 64 ≤ digitsValue digits then _ else if negative = true then _ else _) = _
  split
  · rfl
  · split <;> rfl

theorem token_spelled (token : NumberToken) (next : UInt8) (rest : Text)
    (delimits : Delimiter next) :
    ∃ c later, token.text ++ next :: rest =
        (if token.negative then [minus] else []) ++ (token.whole ++ c :: later) ∧
      isDigit c = false := by
  obtain ⟨c, later, behind, stops⟩ := whole_ends token next rest delimits
  refine ⟨c, later, ?_, stops⟩
  rw [NumberToken.text, List.append_assoc, List.append_assoc, ← behind]
  rfl

/-- What `asUint` makes of a token. -/
def uintOf (token : NumberToken) : Nat :=
  if 2 ^ 64 ≤ digitsValue token.whole then 2 ^ 64 - 1
  else if token.negative then (2 ^ 64 - digitsValue token.whole) % 2 ^ 64
  else digitsValue token.whole

/-- What `asInt` makes of a token. -/
def intOf (token : NumberToken) : Int :=
  max (-2 ^ 63) (min (2 ^ 63 - 1)
    (if token.negative then -(digitsValue token.whole : Int) else digitsValue token.whole))

theorem strtoull_token (token : NumberToken) (next : UInt8) (rest : Text)
    (delimits : Delimiter next) :
    strtoull (token.text ++ next :: rest) = .ok (uintOf token) := by
  obtain ⟨c, later, spelled, stops⟩ := token_spelled token next rest delimits
  rw [spelled]
  exact strtoull_digits _ _ later c token.wholeDigits (.inr token.wholeSome) stops

theorem strtoll_token (token : NumberToken) (next : UInt8) (rest : Text)
    (delimits : Delimiter next) :
    strtoll (token.text ++ next :: rest) = .ok (intOf token) := by
  obtain ⟨c, later, spelled, stops⟩ := token_spelled token next rest delimits
  obtain ⟨spaces, signed, digits⟩ := digit_steps token.negative token.whole later c
    token.wholeDigits (.inr token.wholeSome) stops
  rw [spelled, strtoll, spaces]
  change (readSign _ >>= _) = _
  rw [signed]
  change (readMagnitude 0 (token.whole ++ c :: later) >>= _) = _
  rw [digits]
  rfl

/-- The value that the parser gives for the token, and what the accessors make of it. -/
theorem occurrence_read (occurrence : Occurrence) :
    ∃ value, parseValue (cStr occurrence.text) occurrence.before.length occurrence.text.length =
        .ok (value, occurrence.before.length + occurrence.token.text.length) ∧
      value._type = .number ∧
      value.asUint (cStr occurrence.text) = .ok (uintOf occurrence.token) ∧
      value.asInt (cStr occurrence.text) = .ok (intOf occurrence.token) := by
  obtain ⟨before, token, rest, delimited⟩ := occurrence
  obtain ⟨next, later, ends, delimits⟩ : ∃ next later, rest ++ [0] = next :: later ∧
      Delimiter next := by
    cases rest with
    | nil => exact ⟨0, [], rfl, .inr (.inr (.inr (.inr rfl)))⟩
    | cons c others => exact ⟨c, others ++ [0], rfl, delimited c rfl⟩
  have behind : (cStr (before ++ (token.text ++ rest))).drop before.length =
      token.text ++ next :: later := by
    rw [cStr, List.append_assoc, List.append_assoc, ends, List.drop_left]
  have here : Here (cStr (before ++ (token.text ++ rest))) before.length
      (token.text ++ [next]) := by
    rw [Here, behind]
    exact ⟨later, List.append_assoc _ _ _⟩
  obtain ⟨spelled, after⟩ := (here_append _ _ _ _).mp here
  have located : Located (cStr (before ++ (token.text ++ rest))) before.length
      (.number token : Doc tokenWords) :=
    ⟨spelled, next, ((here_cons _ _ _ _).mp after).1, delimits⟩
  have parsed := doc_parsed _ token_scanned noSpace (.number token) trivial before.length
    (before ++ (token.text ++ rest)).length (here_nil _ _) located
    (by simp only [noSpace, List.length_nil, Nat.add_zero, List.length_append, Doc.text,
      tokenWords]; omega) (c_str_fits _)
  refine ⟨_, parsed, rfl, ?_, ?_⟩
  · rw [← strtoull_token token next later delimits, ← behind]
    rfl
  · rw [← strtoll_token token next later delimits, ← behind]
    rfl

end Reads

section Agreement
variable (token : NumberToken)

/-- `asUint` returns the value wherever it has to, and so does `asInt`. -/
def Exact (token : NumberToken) : Prop :=
  (∀ number : Nat, number < 2 ^ 64 → token.value = number → uintOf token = number) ∧
    ∀ number : Int, -2 ^ 63 ≤ number → number < 2 ^ 63 → token.value = number →
      intOf token = number

theorem agrees_exact (occurrence : Occurrence) :
    occurrence.Agrees ↔ Exact occurrence.token := by
  obtain ⟨value, parsed, kind, unsigned, signed⟩ := occurrence_read occurrence
  constructor
  · rintro ⟨same, again, -, asUint, asInt⟩
    cases parsed.symm.trans again
    refine ⟨fun number small shows => ?_, fun number low high shows => ?_⟩
    · exact Except.ok.inj (unsigned.symm.trans (asUint number small shows))
    · exact Except.ok.inj (signed.symm.trans (asInt number low high shows))
  · rintro ⟨asUint, asInt⟩
    refine ⟨value, parsed, kind, fun number small shows => ?_, fun number low high shows => ?_⟩
    · rw [unsigned, asUint number small shows]
    · rw [signed, asInt number low high shows]

/-- The value, where it is an integer, as the whole digits and the sign have it. -/
theorem spells_size (number : Int) (spells : token.value = number) :
    size token = ((if token.negative then -number else number : Int) : Rat) := by
  rw [value_size] at spells
  split at spells
  next negative =>
    rw [if_pos negative, Int.cast_neg, ← spells, neg_neg]
  next positive => rw [if_neg positive, spells]

theorem exact_spelled (number : Int) (spells : token.value = number) :
    Exact token ↔
      (0 ≤ number → number < 2 ^ 64 → (uintOf token : Int) = number) ∧
        (-2 ^ 63 ≤ number → number < 2 ^ 63 → intOf token = number) := by
  unfold Exact
  rw [spells]
  constructor
  · rintro ⟨asUint, asInt⟩
    refine ⟨fun low high => ?_, fun low high => asInt number low high rfl⟩
    obtain ⟨natural, rfl⟩ := Int.eq_ofNat_of_zero_le low
    exact congrArg Nat.cast (asUint natural (by omega) (Int.cast_natCast natural))
  · rintro ⟨asUint, asInt⟩
    refine ⟨fun natural small same => ?_, fun other low high same => ?_⟩
    · have equal : number = natural := by exact_mod_cast same
      exact Int.natCast_inj.mp ((asUint (by omega) (by omega)).trans equal)
    · have equal : number = other := Int.cast_inj.mp same
      rw [← equal]
      exact asInt (by omega) (by omega)

theorem clamped_spelled (number : Int) (spells : token.value = number) :
    token.Clamped ↔ number = 2 ^ 64 - 1 ∧ 2 ^ 64 ≤ digitsValue token.whole ∨
      number = -2 ^ 63 ∧ 2 ^ 63 < digitsValue token.whole := by
  have top : (number : Rat) = 2 ^ 64 - 1 ↔ number = 2 ^ 64 - 1 := by
    rw [← Int.cast_inj (α := Rat)]
    norm_num
  have bottom : (number : Rat) = -2 ^ 63 ↔ number = -2 ^ 63 := by
    rw [← Int.cast_inj (α := Rat)]
    norm_num
  unfold NumberToken.Clamped
  rw [spells, top, bottom]

/-- For a token that spells an integer in the range of one of the accessors. -/
theorem exact_asked (number : Int) (spells : token.value = number) (low : -2 ^ 63 ≤ number)
    (high : number < 2 ^ 64) : Exact token ↔ token.Plain ∨ token.Clamped := by
  have sized := spells_size token number spells
  have nonneg : (0 : Int) ≤ if token.negative then -number else number := by
    have size := size_nonneg token
    rw [sized] at size
    exact_mod_cast size
  have plain : token.Plain ↔
      (if token.negative then -number else number) = (digitsValue token.whole : Int) := by
    rw [plain_iff, sized, ← Int.cast_natCast (R := Rat), Int.cast_inj]
  rw [exact_spelled token number spells, plain, clamped_spelled token number spells]
  unfold uintOf intOf
  generalize digitsValue token.whole = whole
  cases sign : token.negative with
  | true =>
      simp only [sign, if_true] at nonneg ⊢
      split <;> omega
  | false =>
      simp only [sign, Bool.false_eq_true, if_false] at nonneg ⊢
      split <;> omega

/-- The integer reads agree with the value of a token exactly where nothing but
zeros stands behind its whole part, where it is no integer of their range, and
where they clamp to the value. -/
theorem reads_agree_iff (occurrence : Occurrence) :
    occurrence.Agrees ↔ occurrence.token.Plain ∨ occurrence.token.Unasked ∨
      occurrence.token.Clamped := by
  rw [agrees_exact]
  generalize occurrence.token = token
  by_cases asked : token.Unasked
  · refine iff_of_true ⟨fun number small shows => ?_, fun number low high shows => ?_⟩
      (.inr (.inl asked))
    · exact absurd (shows.trans (Int.cast_natCast number).symm) (asked number (by omega) (by omega))
    · exact absurd shows (asked number low (by omega))
  · obtain ⟨number, low, high, spells⟩ : ∃ number : Int, -2 ^ 63 ≤ number ∧ number < 2 ^ 64 ∧
        token.value = number := by
      unfold NumberToken.Unasked at asked
      push Not at asked
      exact asked
    rw [or_iff_right asked]
    exact exact_asked token number spells low high

/-- `1e3`. -/
def thousand : NumberToken where
  negative := false
  whole := [49]
  wholeDigits := List.forall_mem_singleton.mpr rfl
  wholeSome := List.cons_ne_nil _ _
  fraction := none
  exponent := some ⟨101, .inl rfl, [], .inl rfl, [51], List.forall_mem_singleton.mpr rfl⟩

theorem thousand_misread : ¬ ∀ occurrence : Occurrence, occurrence.Agrees := by
  intro every
  have agrees := (agrees_exact _).mp (every ⟨[], thousand, [], by simp⟩)
  have spells : thousand.value = ((1000 : Nat) : Rat) := by
    have whole : digitsValue thousand.whole = 1 := rfl
    have power : thousand.power = 3 := rfl
    have fraction : digitsValue thousand.fractionDigits = 0 := rfl
    have sign : thousand.negative = false := rfl
    rw [NumberToken.value, whole, power, fraction, sign]
    norm_num
  exact absurd (agrees.1 1000 (by decide) spells) (by decide)

end Agreement
end SolanaSdk.NumberReads
