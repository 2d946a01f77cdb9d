import SolanaSdk.Base58Inverse
import SolanaSdk.PublicKeys
import SolanaSdk.SystemProgramDecoding

/-!
Public keys as texts and as numbers. A text is read as a key exactly if it is
what the key prints as. `unique` counts, and its counter wraps.
-/

namespace SolanaSdk.KeyTexts

open ByteData PublicKeys PositionalDigits LittleEndian Base58 Base58Inverse

section Texts

theorem letters_length (digits : List Nat) : (lettersOf digits).length = digits.length :=
  List.length_map _

/-- Base58 takes at least a char for each byte, and at most 137 for each 100. -/
theorem encode_length (bytes : Bytes) :
    bytes.length ≤ (encode bytes).length ∧
      (encode bytes).length ≤ bytes.length * 137 / 100 + 1 := by
  have small : ∀ digit ∈ bytes.map UInt8.toNat, digit < 256 := by
    intro digit member
    obtain ⟨byte, -, rfl⟩ := List.mem_map.mp member
    exact byte.toNat_lt
  have least := recode_length_ge 58 256 (by decide) (bytes.map UInt8.toNat) (by decide)
  have most := recode_length_le 58 256 (by decide) (bytes.map UInt8.toNat) 137 100 (by decide)
    (by decide) (by decide) (by norm_num) small
  rw [List.length_map] at least most
  rw [encode_recode, letters_length]
  exact ⟨least, most⟩

theorem key_text_length (key : PublicKey) :
    32 ≤ key.toBase58.length ∧ key.toBase58.length ≤ 44 := by
  obtain ⟨least, most⟩ := encode_length key.toBytes
  rw [key.toBytes_length] at least most
  exact ⟨least, most⟩

theorem of_base58_iff (text : Text) (key : PublicKey) :
    PublicKey.ofBase58 text = .ok key ↔ text = key.toBase58 := by
  rw [PublicKey.ofBase58]
  constructor
  · intro returned
    obtain ⟨bytes, decoded, built⟩ := bind_returned _ _ _ returned
    split at built
    · cases built
      exact (encode_decoded text bytes decoded).symm
    · cases built
  · rintro rfl
    rw [PublicKey.toBase58, decode_encode]
    exact dif_pos key.toBytes_length

/-- What reading a text as a key comes to. -/
inductive Reading (text : Text) : Except Failure PublicKey → Prop
  | key (key : PublicKey) (prints : text = key.toBase58) (least : 32 ≤ text.length)
      (most : text.length ≤ 44) : Reading text (.ok key)
  | foreign (c : UInt8) (member : c ∈ text) (absent : c ∉ alphabet) :
      Reading text (.error (.invalidArgument "Invalid Base58 character"))
  | size (listed : ∀ c ∈ text, c ∈ alphabet) (never : ∀ key : PublicKey, text ≠ key.toBase58) :
      Reading text (.error (.runtimeError "Invalid public key input"))

/-- The three ends are apart: a text prints a key, has a foreign char, or is the
Base58 of another number of bytes than 32. -/
theorem text_read (text : Text) : Reading text (PublicKey.ofBase58 text) := by
  by_cases foreign : ∃ c ∈ text, c ∉ alphabet
  · obtain ⟨c, member, absent⟩ := foreign
    rw [PublicKey.ofBase58, (decode_refuses text).mpr ⟨c, member, absent⟩]
    exact .foreign c member absent
  · push Not at foreign
    obtain ⟨bytes, decoded, -⟩ := encode_decode text foreign
    by_cases size : bytes.length = publicKeyLength
    · have read : PublicKey.ofBase58 text = .ok ⟨⟨bytes, size⟩⟩ := by
        rw [PublicKey.ofBase58, decoded]
        exact dif_pos size
      have prints := (of_base58_iff text _).mp read
      obtain ⟨least, most⟩ := key_text_length ⟨⟨bytes, size⟩⟩
      rw [read]
      exact .key _ prints (prints ▸ least) (prints ▸ most)
    · have refused : PublicKey.ofBase58 text =
          .error (.runtimeError "Invalid public key input") := by
        rw [PublicKey.ofBase58, decoded]
        exact dif_neg size
      rw [refused]
      refine .size foreign fun key prints => ?_
      rw [(of_base58_iff text key).mpr prints] at refused
      cases refused

example : PublicKey.default.toBase58.length = 32 ∧ (PublicKey.filled 255).toBase58.length = 44 := by
  decide +kernel

end Texts

section Numbers

/-- `_bytes[PUBLIC_KEY_LENGTH - 1 - i] = value >> (8 * i)` for the eight lowest bytes. -/
def numberBytes (value : UInt64) : Bytes :=
  (List.range 8).foldl (fun bytes i =>
    bytes.set (publicKeyLength - 1 - i) (value >>> (8 * UInt64.ofNat i)).toUInt8)
    (List.replicate publicKeyLength 0)

theorem number_bytes (value : UInt64) :
    numberBytes value = List.replicate 24 0 ++ (bytesOf 8 value.toNat).reverse := by
  have written := SystemProgramDecoding.write_u64 [] value
  rw [List.nil_append] at written
  rw [← written]
  rfl

/-- `PublicKey(uint64_t)`: big-endian, in the last eight bytes. -/
def ofNumber (value : UInt64) : PublicKey :=
  ⟨⟨numberBytes value, by
    rw [number_bytes, List.length_append, List.length_replicate, List.length_reverse,
      bytes_of_length]
    rfl⟩⟩

theorem of_number_injective (left right : UInt64) (same : ofNumber left = ofNumber right) :
    left = right := by
  have bytes : numberBytes left = numberBytes right := congrArg PublicKey.toBytes same
  rw [number_bytes, number_bytes, List.append_right_inj, List.reverse_inj] at bytes
  have values := congrArg valueOf bytes
  rw [value_of_bytes 8 _ left.toNat_lt, value_of_bytes 8 _ right.toNat_lt] at values
  exact UInt64.toNat_inj.mp values

theorem of_number_zero : ofNumber 0 = .default := rfl

/-- The function's `static` counter before and after a call. -/
def unique (counter : UInt64) : PublicKey × UInt64 := (ofNumber counter, counter + 1)

/-- The keys of a number of calls in turn. -/
def issued : Nat → UInt64 → List PublicKey
  | 0, _ => []
  | calls + 1, counter => (unique counter).1 :: issued calls (unique counter).2

theorem issued_numbers (calls : Nat) (counter : UInt64) :
    issued calls counter =
      (List.range calls).map fun i => ofNumber (counter + UInt64.ofNat i) := by
  induction calls generalizing counter with
  | zero => rfl
  | succ calls ih =>
      have next : ∀ i, counter + 1 + UInt64.ofNat i = counter + UInt64.ofNat (i + 1) := by
        intro i
        rw [UInt64.ofNat_add, UInt64.add_assoc, UInt64.add_comm 1]
        rfl
      rw [issued, unique, ih, List.range_succ_eq_map, List.map_cons, List.map_map]
      simp only [next]
      rw [show counter + UInt64.ofNat 0 = counter from UInt64.add_zero counter]
      rfl

theorem count_reaches (counter value : UInt64) (i : Nat) :
    counter + UInt64.ofNat i = value ↔ i % 2 ^ 64 = (2 ^ 64 - counter.toNat + value.toNat) % 2 ^ 64 := by
  have here := counter.toNat_lt
  have there := value.toNat_lt
  rw [← UInt64.toNat_inj, UInt64.toNat_add, UInt64.toNat_ofNat']
  omega

/-- `unique` repeats itself, and returns the default key, only when its counter
has gone through all its values. -/
theorem issued_distinct (calls : Nat) :
    ((issued calls 1).Nodup ↔ calls ≤ 2 ^ 64) ∧ (.default ∈ issued calls 1 ↔ 2 ^ 64 ≤ calls) := by
  rw [issued_numbers]
  constructor
  · rw [List.nodup_map_iff_inj_on List.nodup_range]
    constructor
    · intro distinct
      by_contra more
      have first : 0 ∈ List.range calls := List.mem_range.mpr (by omega)
      have again : 2 ^ 64 ∈ List.range calls := List.mem_range.mpr (by omega)
      have same := distinct 0 first (2 ^ 64) again rfl
      omega
    · intro few i left j right same
      have equal := (count_reaches 1 _ i).mp (of_number_injective _ _ same)
      have other := (count_reaches 1 _ j).mp rfl
      have low := List.mem_range.mp left
      have high := List.mem_range.mp right
      omega
  · rw [List.mem_map, ← of_number_zero]
    have zero : (1 : UInt64).toNat = 1 ∧ (0 : UInt64).toNat = 0 := ⟨rfl, rfl⟩
    constructor
    · rintro ⟨i, listed, same⟩
      have reached := (count_reaches 1 0 i).mp (of_number_injective _ _ same)
      have inside := List.mem_range.mp listed
      rw [zero.1, zero.2] at reached
      omega
    · intro many
      refine ⟨2 ^ 64 - 1, List.mem_range.mpr (by omega), congrArg ofNumber ?_⟩
      rw [count_reaches, zero.1, zero.2]
      rfl

end Numbers

end SolanaSdk.KeyTexts
