import Mathlib.Data.List.DropRight
import Mathlib.Data.List.TakeWhile
import Mathlib.Data.Nat.Digits.Lemmas

/-!
Conversion of digit strings between two bases, most significant digit first.
The accumulator is little-endian: it is multiplied by the old base for each
input digit, and its high zeros are dropped at the end. Leading zeros of the
input have no value, so they are counted and put back. Converting there and
back again is then the identity on digit strings of any length.
-/

namespace SolanaSdk.PositionalDigits

section Carry
variable (base factor : Nat)

/-- One pass `carry += digit * factor` over the accumulator, which returns the
carry left over behind its last digit. -/
def carryThrough : Nat → List Nat → List Nat × Nat
  | carry, [] => ([], carry)
  | carry, digit :: rest =>
      let total := carry + digit * factor
      let tail := carryThrough (total / base) rest
      (total % base :: tail.1, tail.2)

def absorb (digits : List Nat) (input : Nat) : List Nat :=
  let next := carryThrough base factor input digits
  next.1 ++ Nat.digits base next.2

theorem carry_through_length (carry : Nat) (digits : List Nat) :
    (carryThrough base factor carry digits).1.length = digits.length := by
  induction digits generalizing carry with
  | nil => rfl
  | cons digit rest ih => simp [carryThrough, ih]

theorem carry_through_value (carry : Nat) (digits : List Nat) :
    Nat.ofDigits base (carryThrough base factor carry digits).1 +
      base ^ digits.length * (carryThrough base factor carry digits).2 =
      carry + factor * Nat.ofDigits base digits := by
  induction digits generalizing carry with
  | nil => simp [carryThrough]
  | cons digit rest ih =>
      have tail := ih ((carry + digit * factor) / base)
      have split := Nat.mod_add_div (carry + digit * factor) base
      simp only [carryThrough, Nat.ofDigits_cons, List.length_cons, pow_succ]
      calc _ = (carry + digit * factor) % base + base *
              (Nat.ofDigits base (carryThrough base factor ((carry + digit * factor) / base) rest).1 +
                base ^ rest.length *
                  (carryThrough base factor ((carry + digit * factor) / base) rest).2) := by ring
        _ = (carry + digit * factor) % base + base * ((carry + digit * factor) / base) +
              base * (factor * Nat.ofDigits base rest) := by rw [tail]; ring
        _ = carry + factor * (digit + base * Nat.ofDigits base rest) := by rw [split]; ring

theorem absorb_value (digits : List Nat) (input : Nat) :
    Nat.ofDigits base (absorb base factor digits input) =
      input + factor * Nat.ofDigits base digits := by
  rw [absorb, Nat.ofDigits_append, Nat.ofDigits_digits, carry_through_length,
    carry_through_value]

/-- Reading the input digit by digit computes its value in the old base. -/
theorem absorb_all_value (input digits : List Nat) :
    Nat.ofDigits base (input.foldl (absorb base factor) digits) =
      Nat.ofDigits factor input.reverse +
        factor ^ input.length * Nat.ofDigits base digits := by
  induction input generalizing digits with
  | nil => simp
  | cons digit rest ih =>
      rw [List.foldl_cons, ih, absorb_value, Nat.ofDigits_reverse_cons, List.length_cons, pow_succ]
      ring

variable (large : 1 < base)
include large

theorem carry_through_lt (carry : Nat) (digits : List Nat) (digit : Nat)
    (member : digit ∈ (carryThrough base factor carry digits).1) : digit < base := by
  induction digits generalizing carry with
  | nil => simp [carryThrough] at member
  | cons first rest ih =>
      rcases List.mem_cons.mp member with rfl | later
      · exact Nat.mod_lt _ (Nat.lt_of_succ_lt large)
      · exact ih _ later

theorem absorb_lt (digits : List Nat) (input digit : Nat)
    (member : digit ∈ absorb base factor digits input) : digit < base := by
  rcases List.mem_append.mp member with inner | spilled
  · exact carry_through_lt base factor large _ _ digit inner
  · exact Nat.digits_lt_base large spilled

theorem absorb_all_lt (input digits : List Nat) (small : ∀ digit ∈ digits, digit < base)
    (digit : Nat) (member : digit ∈ input.foldl (absorb base factor) digits) : digit < base := by
  induction input generalizing digits with
  | nil => exact small digit member
  | cons first rest ih =>
      exact ih _ (fun digit member => absorb_lt base factor large digits first digit member) member

end Carry

section Canonical

/-- Dropping the high zeros leaves the canonical digits of the value. -/
theorem strip_digits (base : Nat) (large : 1 < base) (digits : List Nat)
    (small : ∀ digit ∈ digits, digit < base) :
    digits.rdropWhile (· == 0) = Nat.digits base (Nat.ofDigits base digits) := by
  induction digits using List.reverseRecOn with
  | nil => simp
  | append_singleton rest digit ih =>
      by_cases zero : digit = 0
      · subst zero
        rw [List.rdropWhile_concat_pos _ _ _ (by simp), Nat.ofDigits_append_zero]
        exact ih fun digit member => small digit (List.mem_append_left _ member)
      · rw [List.rdropWhile_concat_neg _ _ _ (by simpa using zero)]
        refine (Nat.digits_ofDigits base large _ small fun _ => ?_).symm
        simpa using zero

def leadingZeros (input : List Nat) : Nat := (input.takeWhile (· == 0)).length

theorem leading_zeros_split (input : List Nat) :
    input = List.replicate (leadingZeros input) 0 ++ input.dropWhile (· == 0) := by
  have zeros : input.takeWhile (· == 0) = List.replicate (leadingZeros input) 0 := by
    refine List.eq_replicate_iff.mpr ⟨rfl, fun digit member => ?_⟩
    simpa using List.mem_takeWhile_imp member
  rw [← zeros, List.takeWhile_append_dropWhile]

theorem leading_zeros_put (count : Nat) (digits : List Nat)
    (top : ∀ digit, digits.head? = some digit → digit ≠ 0) :
    leadingZeros (List.replicate count 0 ++ digits) = count := by
  induction count with
  | zero =>
      cases digits with
      | nil => rfl
      | cons digit rest => simp [leadingZeros, top digit rfl]
  | succ count ih =>
      rw [List.replicate_succ, List.cons_append, leadingZeros, List.takeWhile_cons_of_pos rfl]
      exact congrArg Nat.succ ih

/-- The canonical digits begin with a digit that is not zero. -/
theorem digits_head (base value digit : Nat)
    (first : (Nat.digits base value).reverse.head? = some digit) : digit ≠ 0 := by
  rw [List.head?_reverse] at first
  have nonzero : value ≠ 0 := by
    rintro rfl
    simp at first
  have filled : Nat.digits base value ≠ [] := Nat.digits_ne_nil_iff_ne_zero.mpr nonzero
  rw [List.getLast?_eq_some_getLast filled, Option.some.injEq] at first
  exact first ▸ Nat.getLast_digit_ne_zero base nonzero

end Canonical

section Recode

/-- The digits of an input in base `factor`, in base `base`. -/
def recode (base factor : Nat) (input : List Nat) : List Nat :=
  List.replicate (leadingZeros input) 0 ++
    ((input.foldl (absorb base factor) [0]).rdropWhile (· == 0)).reverse

theorem recode_digits (base factor : Nat) (large : 1 < base) (input : List Nat) :
    recode base factor input = List.replicate (leadingZeros input) 0 ++
      (Nat.digits base (Nat.ofDigits factor input.reverse)).reverse := by
  have small : ∀ digit ∈ [0], digit < base := by
    intro digit member
    rw [List.mem_singleton.mp member]
    exact Nat.lt_of_succ_lt large
  have value := absorb_all_value base factor input [0]
  rw [Nat.ofDigits_singleton, Nat.mul_zero, Nat.add_zero] at value
  rw [recode, strip_digits base large _ (absorb_all_lt base factor large input [0] small), value]

theorem recode_lt (base factor : Nat) (large : 1 < base) (input : List Nat) (digit : Nat)
    (member : digit ∈ recode base factor input) : digit < base := by
  rw [recode_digits base factor large] at member
  rcases List.mem_append.mp member with padding | digits
  · rw [List.eq_of_mem_replicate padding]
    exact Nat.lt_of_succ_lt large
  · exact Nat.digits_lt_base large (List.mem_reverse.mp digits)

/-- Converting to another base and back is the identity. -/
theorem recode_recode (base factor : Nat) (large : 1 < base) (wide : 1 < factor)
    (input : List Nat) (small : ∀ digit ∈ input, digit < factor) :
    recode factor base (recode base factor input) = input := by
  have there := recode_digits base factor large input
  have zeros : leadingZeros (recode base factor input) = leadingZeros input := by
    rw [there]
    exact leading_zeros_put _ _ (digits_head base _)
  have value : Nat.ofDigits base (recode base factor input).reverse =
      Nat.ofDigits factor input.reverse := by
    rw [there, List.reverse_append, List.reverse_reverse, List.reverse_replicate,
      Nat.ofDigits_append_replicate_zero, Nat.ofDigits_digits]
  have split := leading_zeros_split input
  -- Behind its leading zeros the input is canonical, so the digits of its value are the input.
  have canonical : (Nat.digits factor (Nat.ofDigits factor input.reverse)).reverse =
      input.dropWhile (· == 0) := by
    rw [← strip_digits factor wide input.reverse fun digit member =>
      small digit (List.mem_reverse.mp member), List.rdropWhile_reverse, List.reverse_reverse]
  rw [recode_digits factor base wide, zeros, value, canonical]
  exact split.symm

end Recode

section Capacity
variable (base factor : Nat)

/-- No more digits than the value has, and at least one. -/
def Tight (digits : List Nat) : Prop :=
  base ^ (digits.length - 1) ≤ max 1 (Nat.ofDigits base digits)

theorem absorb_tight (large : 1 < base) (wide : 0 < factor) (digits : List Nat) (input : Nat)
    (tight : Tight base digits) : Tight base (absorb base factor digits input) := by
  have value := absorb_value base factor digits input
  have through := carry_through_value base factor input digits
  rw [Tight, value]
  rw [absorb, List.length_append, carry_through_length]
  generalize (carryThrough base factor input digits).2 = carry at through ⊢
  by_cases none : carry = 0
  · -- No new digit, and the value has not become smaller.
    have grown : Nat.ofDigits base digits ≤ input + factor * Nat.ofDigits base digits :=
      Nat.le_add_left_of_le (Nat.le_mul_of_pos_left _ wide)
    rw [none, Nat.digits_zero, List.length_nil, Nat.add_zero]
    exact Nat.le_trans tight (max_le_max (Nat.le_refl 1) grown)
  · -- The carry stands above the old digits, so its own digits count in full.
    have count : 0 < (Nat.digits base carry).length :=
      List.length_pos_iff.mpr (Nat.digits_ne_nil_iff_ne_zero.mpr none)
    have top : base ^ ((Nat.digits base carry).length - 1) ≤ carry := by
      have power := Nat.base_pow_length_digits_le' (base - 2) carry none
      have same : base - 2 + 2 = base := by omega
      rw [same] at power
      have split : (Nat.digits base carry).length - 1 + 1 = (Nat.digits base carry).length := by
        omega
      rw [← split, Nat.pow_succ, Nat.mul_comm] at power
      exact Nat.le_of_mul_le_mul_left power (Nat.lt_of_succ_lt large)
    have places : digits.length + (Nat.digits base carry).length - 1 =
        digits.length + ((Nat.digits base carry).length - 1) := by omega
    calc base ^ (digits.length + (Nat.digits base carry).length - 1)
        = base ^ digits.length * base ^ ((Nat.digits base carry).length - 1) := by
          rw [places, Nat.pow_add]
      _ ≤ base ^ digits.length * carry := Nat.mul_le_mul_left _ top
      _ ≤ input + factor * Nat.ofDigits base digits := by omega
      _ ≤ max 1 (input + factor * Nat.ofDigits base digits) := Nat.le_max_right _ _

theorem absorb_all_tight (large : 1 < base) (wide : 0 < factor) (input digits : List Nat)
    (tight : Tight base digits) : Tight base (input.foldl (absorb base factor) digits) := by
  induction input generalizing digits with
  | nil => exact tight
  | cons first rest ih =>
      exact ih _ (absorb_tight base factor large wide digits first tight)

/-- A rational bound on how many digits of one base a digit of another needs. -/
theorem capacity (places per : Nat) (positive : 0 < per) (large : 1 < base)
    (bound : factor ^ per ≤ base ^ places) (count : Nat) :
    factor ^ count < base ^ (count * places / per + 1) := by
  have room : count * places < (count * places / per + 1) * per :=
    Nat.lt_mul_of_div_lt (Nat.lt_succ_self _) positive
  refine lt_of_pow_lt_pow_left₀ per (Nat.zero_le _) ?_
  calc (factor ^ count) ^ per = (factor ^ per) ^ count := Nat.pow_right_comm ..
    _ ≤ (base ^ places) ^ count := Nat.pow_le_pow_left bound count
    _ = base ^ (count * places) := by rw [← Nat.pow_mul, Nat.mul_comm]
    _ < base ^ ((count * places / per + 1) * per) := Nat.pow_lt_pow_right large room
    _ = (base ^ (count * places / per + 1)) ^ per := Nat.pow_mul ..

/-- The digits of an input fit a buffer of that size. -/
theorem absorb_all_length (places per : Nat) (positive : 0 < per) (large : 1 < base)
    (wide : 1 < factor) (bound : factor ^ per ≤ base ^ places) (input : List Nat)
    (small : ∀ digit ∈ input, digit < factor) (count : Nat) (within : input.length ≤ count) :
    (input.foldl (absorb base factor) [0]).length ≤ count * places / per + 1 := by
  have tight := absorb_all_tight base factor large (Nat.lt_of_succ_lt wide) input [0]
    (by simp [Tight])
  have value := absorb_all_value base factor input [0]
  rw [Nat.ofDigits_singleton, Nat.mul_zero, Nat.add_zero] at value
  have below : Nat.ofDigits factor input.reverse < factor ^ input.length := by
    have reversed := Nat.ofDigits_lt_base_pow_length' (b := factor - 2) (l := input.reverse)
      fun {digit} member => by
        have digitSmall := small digit (List.mem_reverse.mp member)
        omega
    have same : factor - 2 + 2 = factor := by omega
    rwa [same, List.length_reverse] at reversed
  rw [Tight, value] at tight
  have powers : base ^ ((input.foldl (absorb base factor) [0]).length - 1) <
      base ^ (count * places / per + 1) := by
    refine Nat.lt_of_le_of_lt tight (Nat.lt_of_le_of_lt ?_
      (capacity base factor places per positive large bound count))
    have most : factor ^ input.length ≤ factor ^ count :=
      Nat.pow_le_pow_right (Nat.lt_of_succ_lt wide) within
    have one : 1 ≤ factor ^ count := Nat.one_le_pow _ _ (Nat.lt_of_succ_lt wide)
    exact Nat.max_le.mpr ⟨one, Nat.le_of_lt (Nat.lt_of_lt_of_le below most)⟩
  have length := (Nat.pow_lt_pow_iff_right large).mp powers
  omega

end Capacity

section Lengths
variable (base factor : Nat) (large : 1 < base) (input : List Nat)
include large

/-- The zeros in front are copied, and the rest is the digits of the value. -/
theorem recode_length :
    (recode base factor input).length = leadingZeros input +
      (Nat.digits base (Nat.ofDigits factor (input.dropWhile (· == 0)).reverse)).length := by
  have value : Nat.ofDigits factor input.reverse =
      Nat.ofDigits factor (input.dropWhile (· == 0)).reverse := by
    conv_lhs => rw [leading_zeros_split input]
    rw [List.reverse_append, List.reverse_replicate, Nat.ofDigits_append_replicate_zero]
  rw [recode_digits base factor large, List.length_append, List.length_replicate, List.length_reverse,
    value]

theorem recode_length_ge (wide : base ≤ factor) : input.length ≤ (recode base factor input).length := by
  have split := congrArg List.length (leading_zeros_split input)
  rw [List.length_append, List.length_replicate] at split
  rw [recode_length base factor large]
  cases rest : input.dropWhile (· == 0) with
  | nil =>
      rw [rest, List.length_nil] at split
      omega
  | cons first others =>
      have nonzero : first ≠ 0 := by
        have head := List.head?_dropWhile_not (· == 0) input
        rw [rest] at head
        simpa using head
      have value : base ^ others.length ≤ Nat.ofDigits factor (first :: others).reverse := by
        rw [List.reverse_cons, Nat.ofDigits_append, Nat.ofDigits_singleton, List.length_reverse]
        calc base ^ others.length ≤ factor ^ others.length := Nat.pow_le_pow_left wide _
          _ ≤ factor ^ others.length * first := Nat.le_mul_of_pos_right _ (Nat.pos_of_ne_zero nonzero)
          _ ≤ _ := Nat.le_add_left _ _
      have digits := (Nat.lt_digits_length_iff large _).mpr value
      rw [rest, List.length_cons] at split
      omega

theorem recode_length_le (places per : Nat) (positive : 0 < per) (more : per ≤ places)
    (wide : 1 < factor) (bound : factor ^ per ≤ base ^ places)
    (small : ∀ digit ∈ input, digit < factor) :
    (recode base factor input).length ≤ input.length * places / per + 1 := by
  have split := congrArg List.length (leading_zeros_split input)
  rw [List.length_append, List.length_replicate] at split
  rw [recode_length base factor large]
  generalize held : input.dropWhile (· == 0) = rest at split ⊢
  have below : Nat.ofDigits factor rest.reverse < factor ^ rest.length := by
    rw [← List.length_reverse]
    refine Nat.ofDigits_lt_base_pow_length wide fun digit member => small digit ?_
    rw [← held] at member
    exact (List.dropWhile_sublist _).subset (List.mem_reverse.mp member)
  have digits : (Nat.digits base (Nat.ofDigits factor rest.reverse)).length ≤
      rest.length * places / per + 1 := by
    rw [Nat.digits_length_le_iff large]
    exact Nat.lt_trans below (capacity base factor places per positive large bound _)
  have zeros : leadingZeros input + rest.length * places / per ≤ input.length * places / per := by
    calc leadingZeros input + rest.length * places / per
        = (rest.length * places + per * leadingZeros input) / per := by
          rw [Nat.add_mul_div_left _ _ positive, Nat.add_comm]
      _ ≤ input.length * places / per := by
          apply Nat.div_le_div_right
          rw [split, Nat.add_mul, Nat.add_comm, Nat.mul_comm per]
          exact Nat.add_le_add_right (Nat.mul_le_mul_left _ more) _
  omega

end Lengths

end SolanaSdk.PositionalDigits
