import Mathlib.Data.List.TakeWhile
import SolanaSdk.DecoderArithmetic
import SolanaSdk.Repacking

/-!
What the RPC base64 decoder makes of any text. It reads the letters in front of
the first other char, whether they are full groups or not, as one number. The
word it holds them in wraps, but only bits that have been written are lost.
-/

namespace SolanaSdk.Base64Reading

open ByteData Base64 DecoderArithmetic Repacking

/-- The sextets of the letters in front of the first other char. -/
def sextets (input : Text) : List Nat := (letters input).map fun c => (sextetOf c).toNat

theorem sextets_small (input : Text) : ∀ digit ∈ sextets input, digit < 2 ^ 6 := by
  intro digit member
  obtain ⟨c, listed, rfl⟩ := List.mem_map.mp member
  have letter := List.mem_takeWhile_imp (p := fun c => sextetOf c ≠ -1) listed
  have inside : sextetOf c ≠ -1 := of_decide_eq_true letter
  have range := sextet_range c inside
  change (sextetOf c).toNat < 64
  omega

theorem sextets_length (input : Text) : (sextets input).length = (letters input).length :=
  List.length_map _

/-- A byte is read off the low bits of the word, which are those of the number. -/
theorem shifted_byte_held (held valb : Nat) (low : valb ≤ 24) :
    (shiftedByte (BitVec.ofNat 32 held) valb).toNat = held / 2 ^ valb % 2 ^ 8 := by
  have inside : valb + 8 ≤ 32 := by omega
  have apart : 2 ^ 32 = 2 ^ valb * 2 ^ 8 * 2 ^ (24 - valb) := by
    rw [← Nat.pow_add, ← Nat.pow_add]
    congr 1
    omega
  rw [shifted_byte_value _ _ low, BitVec.toNat_ofNat, apart, Nat.mul_assoc,
    Nat.mod_mul_right_div_self]
  exact Nat.mod_mul_right_mod _ _ _

theorem held_shifted (held digit : Nat) :
    BitVec.ofNat 32 held <<< 6 + BitVec.ofInt 32 digit = BitVec.ofNat 32 (held * 2 ^ 6 + digit) := by
  apply BitVec.eq_of_toNat_eq
  have moved := shifted_value (BitVec.ofNat 32 held) digit
  rw [shifted] at moved
  rw [moved, BitVec.toNat_ofNat, BitVec.toNat_ofNat]
  omega

/-- The decoding loop packs six bits into eight. -/
theorem loop_repacks (input : Text) (held pending : Nat) (few : pending < 8) :
    (decodeLoop (BitVec.ofNat 32 held) (pending - 8) input).map UInt8.toNat =
      repack 6 8 held pending (sextets input) := by
  induction input generalizing held pending with
  | nil => rfl
  | cons c rest ih =>
      rw [decodeLoop]
      change List.map _ (if sextetOf c = -1 then [] else _) = _
      by_cases foreign : sextetOf c = -1
      · rw [if_pos foreign, sextets, letters_stop c rest foreign]
        rfl
      · obtain ⟨low, high, -⟩ := sextet_range c foreign
        obtain ⟨digit, value⟩ := Int.eq_ofNat_of_zero_le low
        have listed : sextets (c :: rest) = digit :: sextets rest := by
          rw [sextets, letters_step c rest foreign, List.map_cons, value]
          rfl
        have word : BitVec.ofNat 32 held <<< 6 + BitVec.ofInt 32 (decodeTable.getD c.toNat (-1)) =
            BitVec.ofNat 32 (held * 2 ^ 6 + digit) := by
          rw [← held_shifted, ← value]
          rfl
        rw [if_neg foreign, listed, repack]
        simp only [word]
        by_cases full : 8 ≤ pending + 6
        · have shift : ((pending : Int) - 8 + 6).toNat = pending + 6 - 8 := by omega
          have next : (pending : Int) - 8 + 6 - 8 = ((pending + 6 - 8 : Nat) : Int) - 8 := by omega
          rw [if_pos (by omega), if_pos full, List.map_cons, shift, next,
            shifted_byte_held _ _ (by omega), ih _ _ (by omega)]
        · have next : (pending : Int) - 8 + 6 = ((pending + 6 : Nat) : Int) - 8 := by omega
          rw [if_neg (by omega), if_neg full, next, ih _ _ (by omega)]

/-- Every text decodes to one list of bytes, which has a byte for each eight bits
of its letters: their number, without the bits that fill no byte. -/
theorem decoded_iff (input : Text) (bytes : Bytes) :
    base64DecodeRpc input = bytes ↔
      bytes.length = 6 * (letters input).length / 8 ∧
        number 8 (bytes.map UInt8.toNat) =
          number 6 (sextets input) / 2 ^ (6 * (letters input).length % 8) := by
  have packed := loop_repacks input 0 0 (by decide)
  change (base64DecodeRpc input).map UInt8.toNat = _ at packed
  obtain ⟨length, value⟩ := repacked 6 8 (by decide) (by decide) (sextets input)
    (sextets_small input)
  rw [← packed, sextets_length, List.length_map] at length
  rw [← packed, sextets_length] at value
  constructor
  · rintro rfl
    exact ⟨length, value⟩
  · rintro ⟨size, spelled⟩
    have small : ∀ bytes : Bytes, ∀ digit ∈ bytes.map UInt8.toNat, digit < 2 ^ 8 := by
      intro bytes digit member
      obtain ⟨byte, -, rfl⟩ := List.mem_map.mp member
      exact byte.toNat_lt
    refine List.map_injective_iff.mpr (fun _ _ => UInt8.toNat_inj.mp) ?_
    refine number_injective 8 _ _ (small _) (small _) ?_ (value.trans spelled.symm)
    rw [List.length_map, List.length_map, length, size]

end SolanaSdk.Base64Reading
