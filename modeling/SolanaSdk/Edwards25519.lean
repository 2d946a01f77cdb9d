import Mathlib.Data.Nat.Digits.Defs
import Mathlib.Tactic.NormNum.Prime
import SolanaSdk.ByteData
import SolanaSdk.LucasPrimes
import SolanaSdk.TwistedEdwards

/-!
The curve edwards25519, the 32-byte encodings of its points, and the two kinds
of point that the documentation of libsodium's `crypto_core_ed25519_is_valid_point`
tells apart: those of the prime-order subgroup that are not of small order, and
the others.
-/

namespace SolanaSdk.Edwards25519

open ByteData LucasPrimes TwistedEdwards

def fieldPrime : Nat := 2 ^ 255 - 19

/-! A chain of Lucas witnesses down to factors that trial division settles. -/

theorem prime_31757755568855353 : Nat.Prime 31757755568855353 := by
  apply prime_of_witness 31757755568855353 10 [2, 2, 2, 3, 31, 107, 223, 4153, 430751]
  · decide
  · norm_num
  · decide
  · decide +kernel
  · decide +kernel

theorem prime_2773320623 : Nat.Prime 2773320623 := by
  apply prime_of_witness 2773320623 5 [2, 2437, 569003]
  · decide
  · norm_num
  · decide
  · decide +kernel
  · decide +kernel

theorem prime_72106336199 : Nat.Prime 72106336199 := by
  apply prime_of_witness 72106336199 7 [2, 13, 2773320623]
  · decide
  · simp only [List.forall_mem_cons, prime_2773320623]
    norm_num
  · decide
  · decide +kernel
  · decide +kernel

theorem prime_1919519569386763 : Nat.Prime 1919519569386763 := by
  apply prime_of_witness 1919519569386763 2 [2, 3, 7, 19, 47, 47, 127, 8574133]
  · decide
  · norm_num
  · decide
  · decide +kernel
  · decide +kernel

theorem prime_75445702479781427272750846543864801 :
    Nat.Prime 75445702479781427272750846543864801 := by
  apply prime_of_witness 75445702479781427272750846543864801 7
    [2, 2, 2, 2, 2, 3, 3, 5, 5, 75707, 72106336199, 1919519569386763]
  · decide
  · simp only [List.forall_mem_cons, prime_72106336199, prime_1919519569386763]
    norm_num
  · decide
  · decide +kernel
  · decide +kernel

/-- The large prime factor of `fieldPrime - 1`. -/
def fieldFactor : Nat := 74058212732561358302231226437062788676166966415465897661863160754340907

theorem field_factor_prime : fieldFactor.Prime := by
  apply prime_of_witness fieldFactor 2 [2, 3, 353, 57467, 132049, 1923133, 31757755568855353,
    75445702479781427272750846543864801]
  · decide
  · simp only [List.forall_mem_cons, prime_31757755568855353,
      prime_75445702479781427272750846543864801]
    norm_num
  · decide
  · decide +kernel
  · decide +kernel

instance field_prime : Fact fieldPrime.Prime := by
  refine ⟨prime_of_witness fieldPrime 2 [2, 2, 3, 65147, fieldFactor] ?_ ?_ ?_ ?_ ?_⟩
  · decide
  · simp only [List.forall_mem_cons, field_factor_prime]
    norm_num
  · decide
  · decide +kernel
  · decide +kernel

abbrev Coordinate := ZMod fieldPrime

def curve : Curve Coordinate := ⟨-1, -121665 / 121666⟩

/-- The prime order of the subgroup that the base point generates. -/
def subgroupOrder : Nat := 2 ^ 252 + 27742317777372353535851937790883648493

def cofactor : Nat := 8

def InPrimeSubgroup (point : Point Coordinate) : Prop := curve.Torsion subgroupOrder point

def SmallOrder (point : Point Coordinate) : Prop := curve.Torsion cofactor point

def leValue (bytes : Bytes) : Nat := Nat.ofDigits 256 (bytes.map UInt8.toNat)

/-- The canonical encoding: the ordinate in the low 255 bits, the parity of the
abscissa in the top bit. -/
def Encodes (bytes : Bytes) (point : Point Coordinate) : Prop :=
  bytes.length = 32 ∧ leValue bytes = point.y.val + 2 ^ 255 * (point.x.val % 2)

/-- The bytes encode some point of the curve, in the subgroup or not. -/
def OnCurve (bytes : Bytes) : Prop := ∃ point, curve.Contains point ∧ Encodes bytes point

/-- What the documented contract of the libsodium check accepts. -/
def ValidPoint (bytes : Bytes) : Prop :=
  ∃ point, curve.Contains point ∧ Encodes bytes point ∧ InPrimeSubgroup point ∧ ¬ SmallOrder point

/-- The bytes encode a point that lies outside the prime-order subgroup or is
of small order. -/
def TorsionPoint (bytes : Bytes) : Prop :=
  ∃ point, curve.Contains point ∧ Encodes bytes point ∧ ¬ (InPrimeSubgroup point ∧ ¬ SmallOrder point)

theorem field_prime_lt : fieldPrime < 2 ^ 255 := by decide

theorem parity_neg (x : Coordinate) (nonzero : x ≠ 0) : (-x).val % 2 ≠ x.val % 2 := by
  have small := x.val_lt
  have odd : fieldPrime % 2 = 1 := by decide
  rw [ZMod.neg_val, if_neg nonzero]
  omega

theorem coefficients_apart : curve.a ≠ curve.d := by
  have nonzero : (121666 : Coordinate) ≠ 0 := by
    intro zero
    have divides := (ZMod.natCast_eq_zero_iff 121666 fieldPrime).mp (by exact_mod_cast zero)
    exact absurd (Nat.le_of_dvd (by decide) divides) (by decide)
  intro same
  have crossed : (-1 : Coordinate) * 121666 = -121665 := (eq_div_iff nonzero).mp same
  have one : (1 : Coordinate) = 0 := by linear_combination -crossed
  exact one_ne_zero one

/-- A byte string encodes at most one point of the curve. -/
theorem encodes_unique (bytes : Bytes) (left right : Point Coordinate)
    (onLeft : curve.Contains left) (onRight : curve.Contains right)
    (fromLeft : Encodes bytes left) (fromRight : Encodes bytes right) : left = right := by
  have equal := fromLeft.2.symm.trans fromRight.2
  have leftSmall := Nat.lt_trans left.y.val_lt field_prime_lt
  have rightSmall := Nat.lt_trans right.y.val_lt field_prime_lt
  have ordinate : left.y = right.y := by
    apply ZMod.val_injective
    omega
  have parity : left.x.val % 2 = right.x.val % 2 := by
    rw [ordinate] at equal
    omega
  have abscissa : left.x = right.x := by
    rcases curve.abscissa_unique coefficients_apart left right onLeft onRight ordinate with
      same | mirrored
    · exact same
    · by_cases zero : right.x = 0
      · rw [mirrored, zero, neg_zero]
      · rw [mirrored] at parity
        exact absurd parity (parity_neg right.x zero)
  exact Point.ext abscissa ordinate

/-- Every point is either accepted by the check or a torsion point. -/
theorem on_curve_split (bytes : Bytes) : OnCurve bytes ↔ ValidPoint bytes ∨ TorsionPoint bytes := by
  constructor
  · rintro ⟨point, contains, encodes⟩
    by_cases valid : InPrimeSubgroup point ∧ ¬ SmallOrder point
    · exact Or.inl ⟨point, contains, encodes, valid⟩
    · exact Or.inr ⟨point, contains, encodes, valid⟩
  · rintro (⟨point, contains, encodes, _⟩ | ⟨point, contains, encodes, _⟩)
    · exact ⟨point, contains, encodes⟩
    · exact ⟨point, contains, encodes⟩

theorem torsion_not_valid (bytes : Bytes) (torsion : TorsionPoint bytes) : ¬ ValidPoint bytes := by
  rintro ⟨right, onRight, fromRight, valid⟩
  obtain ⟨left, onLeft, fromLeft, degenerate⟩ := torsion
  rw [encodes_unique bytes left right onLeft onRight fromLeft fromRight] at degenerate
  exact degenerate valid

end SolanaSdk.Edwards25519
