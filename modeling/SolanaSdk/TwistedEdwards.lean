import Mathlib.Algebra.Field.Basic
import Mathlib.Algebra.Ring.Commute
import Mathlib.Tactic.LinearCombination
import Mathlib.Tactic.FieldSimp

/-!
Twisted Edwards curves `a x² + y² = 1 + d x² y²` over a field, with the unified
addition law and repeated addition. The ordinate of a point fixes its abscissa
up to sign.
-/

namespace SolanaSdk.TwistedEdwards

universe u
variable {F : Type u} [Field F]

structure Curve (F : Type u) where
  a : F
  d : F

@[ext] structure Point (F : Type u) where
  x : F
  y : F

/-- The neutral point of every curve. -/
def identity : Point F := ⟨0, 1⟩

/-- The point opposite to the neutral one, of order two. -/
def halfTurn : Point F := ⟨0, -1⟩

namespace Curve

def Contains (curve : Curve F) (point : Point F) : Prop :=
  curve.a * point.x ^ 2 + point.y ^ 2 = 1 + curve.d * point.x ^ 2 * point.y ^ 2

def add (curve : Curve F) (left right : Point F) : Point F where
  x := (left.x * right.y + left.y * right.x) / (1 + curve.d * left.x * right.x * left.y * right.y)
  y := (left.y * right.y - curve.a * left.x * right.x) /
    (1 - curve.d * left.x * right.x * left.y * right.y)

def smul (curve : Curve F) : Nat → Point F → Point F
  | 0, _ => identity
  | count + 1, point => curve.add (curve.smul count point) point

/-- The points that `count` additions bring to the neutral one. -/
def Torsion (curve : Curve F) (count : Nat) (point : Point F) : Prop :=
  curve.smul count point = identity

variable (curve : Curve F)

theorem contains_half_turn : curve.Contains (halfTurn : Point F) := by
  simp [Contains, halfTurn]

theorem identity_add (point : Point F) : curve.add identity point = point := by
  ext <;> simp [add, identity]

theorem half_turn_twice : curve.add halfTurn halfTurn = (identity : Point F) := by
  ext <;> simp [add, identity, halfTurn]

/-- An even number of half turns is none. -/
theorem torsion_half_turn (count : Nat) : curve.Torsion (2 * count) (halfTurn : Point F) := by
  induction count with
  | zero => rfl
  | succ count ih =>
      unfold Torsion at ih ⊢
      rw [Nat.mul_succ]
      change curve.add (curve.add (curve.smul (2 * count) halfTurn) halfTurn) halfTurn = identity
      rw [ih, identity_add, half_turn_twice]

/-- Two points with one ordinate are mirror images or equal. -/
theorem abscissa_unique (apart : curve.a ≠ curve.d) (left right : Point F)
    (onLeft : curve.Contains left) (onRight : curve.Contains right) (same : left.y = right.y) :
    left.x = right.x ∨ left.x = -right.x := by
  unfold Contains at onLeft onRight
  rw [← same] at onRight
  have scale : curve.a - curve.d * left.y ^ 2 ≠ 0 := by
    intro zero
    -- Then the curve equation leaves `y ^ 2 = 1`, and the scale is `a - d`.
    have unit : left.y ^ 2 = 1 := by linear_combination onLeft - left.x ^ 2 * zero
    rw [unit, mul_one] at zero
    exact apart (sub_eq_zero.mp zero)
  have squares : left.x ^ 2 = right.x ^ 2 := by
    apply mul_left_cancel₀ scale
    linear_combination onLeft - onRight
  exact sq_eq_sq_iff_eq_or_eq_neg.mp squares

end Curve
end SolanaSdk.TwistedEdwards
