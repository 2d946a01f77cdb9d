import Mathlib.Algebra.Order.Ring.Nat
import Mathlib.Data.List.Basic

/-!
Numbers as little-endian byte strings of a fixed width. Writing drops what does
not fit the width; every byte string is what is written for its value.
-/

namespace SolanaSdk.LittleEndian

def bytesOf : Nat → Nat → List UInt8
  | 0, _ => []
  | width + 1, value => UInt8.ofNat (value % 256) :: bytesOf width (value / 256)

def valueOf : List UInt8 → Nat
  | [] => 0
  | byte :: rest => byte.toNat + 256 * valueOf rest

@[simp] theorem bytes_of_length (width value : Nat) : (bytesOf width value).length = width := by
  induction width generalizing value with
  | zero => rfl
  | succ width ih => rw [bytesOf, List.length_cons, ih]

theorem bytes_of_places (width value : Nat) :
    bytesOf width value = (List.range width).map fun i => UInt8.ofNat (value / 256 ^ i % 256) := by
  induction width generalizing value with
  | zero => rfl
  | succ width ih =>
      have later : ∀ i, value / 256 / 256 ^ i = value / 256 ^ (i + 1) := by
        intro i
        rw [Nat.div_div_eq_div_mul, Nat.pow_succ']
      rw [bytesOf, ih, List.range_succ_eq_map, List.map_cons, List.map_map, Nat.pow_zero,
        Nat.div_one]
      simp only [later]
      rfl

theorem value_of_lt (bytes : List UInt8) : valueOf bytes < 256 ^ bytes.length := by
  induction bytes with
  | nil => exact Nat.one_pos
  | cons byte rest ih =>
      have low := byte.toNat_lt
      rw [valueOf, List.length_cons, Nat.pow_succ]
      omega

theorem bytes_of_value (bytes : List UInt8) : bytesOf bytes.length (valueOf bytes) = bytes := by
  induction bytes with
  | nil => rfl
  | cons byte rest ih =>
      have low := byte.toNat_lt
      have first : (byte.toNat + 256 * valueOf rest) % 256 = byte.toNat := by omega
      have others : (byte.toNat + 256 * valueOf rest) / 256 = valueOf rest := by omega
      rw [valueOf, List.length_cons, bytesOf, first, others, ih, UInt8.ofNat_toNat]

theorem value_of_bytes (width value : Nat) (small : value < 256 ^ width) :
    valueOf (bytesOf width value) = value := by
  induction width generalizing value with
  | zero =>
      rw [Nat.pow_zero, Nat.lt_one_iff] at small
      rw [small, bytesOf, valueOf]
  | succ width ih =>
      rw [Nat.pow_succ] at small
      have low : (UInt8.ofNat (value % 256)).toNat = value % 256 :=
        UInt8.toNat_ofNat_of_lt (Nat.mod_lt _ (by decide))
      rw [bytesOf, valueOf, ih (value / 256) (by omega), low]
      omega

end SolanaSdk.LittleEndian
