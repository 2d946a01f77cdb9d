import Mathlib.Algebra.Order.Ring.Nat

/-!
Base-128 variable-length numbers, low group first: seven value bits in a byte
and a top bit that says whether another byte follows. A reader that accepts at
most `width` bytes recovers every number below `128 ^ width` and leaves the
bytes behind it untouched.
-/

namespace SolanaSdk.Varints

def groups (value : Nat) : List UInt8 :=
  if value < 128 then [UInt8.ofNat value]
  else UInt8.ofNat (value % 128 + 128) :: groups (value / 128)
termination_by value
decreasing_by omega

def readGroups : Nat → List UInt8 → Option (Nat × List UInt8)
  | 0, _ => none
  | _ + 1, [] => none
  | width + 1, byte :: rest =>
      if byte.toNat < 128 then some (byte.toNat, rest)
      else (readGroups width rest).map fun high => (byte.toNat - 128 + 128 * high.1, high.2)

theorem groups_last (value : Nat) (small : value < 128) : groups value = [UInt8.ofNat value] := by
  rw [groups, if_pos small]

theorem groups_more (value : Nat) (large : 128 ≤ value) :
    groups value = UInt8.ofNat (value % 128 + 128) :: groups (value / 128) := by
  rw [groups, if_neg (Nat.not_lt.mpr large)]

/-- Reading undoes writing, whatever bytes come behind. -/
theorem read_groups (width value : Nat) (rest : List UInt8) (wide : 0 < width)
    (fits : value < 128 ^ width) : readGroups width (groups value ++ rest) = some (value, rest) := by
  induction width generalizing value with
  | zero => exact absurd wide (Nat.lt_irrefl 0)
  | succ width ih =>
      by_cases small : value < 128
      · have exact : (UInt8.ofNat value).toNat = value :=
          UInt8.toNat_ofNat_of_lt (Nat.lt_trans small (by decide))
        simp [groups_last value small, readGroups, exact, small]
      · have exact : (UInt8.ofNat (value % 128 + 128)).toNat = value % 128 + 128 :=
          UInt8.toNat_ofNat_of_lt (by unfold UInt8.size; omega)
        have smaller : value / 128 < 128 ^ width := by
          rw [Nat.div_lt_iff_lt_mul (by decide), ← Nat.pow_succ]
          exact fits
        -- A second group was written, so the reader has width left for it.
        have left : 0 < width := by
          rcases Nat.eq_zero_or_pos width with rfl | positive
          · exact absurd fits (by simpa using small)
          · exact positive
        have high := ih (value / 128) left smaller
        rw [groups_more value (by omega), List.cons_append, readGroups, exact, if_neg (by omega),
          high]
        simp only [Option.map_some, Nat.add_sub_cancel]
        rw [Nat.mod_add_div]

end SolanaSdk.Varints
