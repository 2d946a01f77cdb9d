import Mathlib.Data.List.Nodup
import SolanaSdk.Base58

/-! Public keys, their constructors and the linear key search that every
compiler and signer loop of the source repeats. -/

namespace SolanaSdk.PublicKeys

open ByteData

def publicKeyLength : Nat := 32

structure PublicKey where
  buffer : FixedBytes publicKeyLength
  deriving DecidableEq

namespace PublicKey

/-- `PublicKey()`: all zero bytes. -/
def default : PublicKey := ⟨.fill publicKeyLength 0⟩

instance : Inhabited PublicKey := ⟨default⟩

/-- A key whose 32 bytes are equal, for concrete inputs. -/
def filled (byte : UInt8) : PublicKey := ⟨.fill publicKeyLength byte⟩

def toBytes (key : PublicKey) : Bytes := key.buffer.bytes

def toBase58 (key : PublicKey) : Text := Base58.encode key.toBytes

def toBuffer (key : PublicKey) : FixedBytes publicKeyLength := key.buffer

def equals (key other : PublicKey) : Bool := key.buffer == other.buffer

/-- `PublicKey(const std::vector<uint8_t> &)`. -/
def ofBytes (bytes : Bytes) : Except Failure PublicKey :=
  if size : bytes.length = publicKeyLength then pure ⟨⟨bytes, size⟩⟩
  else throw (.runtimeError "Invalid public key length")

/-- `PublicKey(const std::string &base58)`. -/
def ofBase58 (base58 : Text) : Except Failure PublicKey := do
  let decoded ← Base58.decode base58
  if size : decoded.length = publicKeyLength then pure ⟨⟨decoded, size⟩⟩
  else throw (.runtimeError "Invalid public key input")

theorem equals_iff (key other : PublicKey) : key.equals other = true ↔ key = other := by
  cases key
  cases other
  simp [equals]

@[simp] theorem equals_eq_decide (key other : PublicKey) :
    key.equals other = decide (key = other) := by
  rw [Bool.eq_iff_iff, equals_iff, decide_eq_true_eq]

theorem toBytes_length (key : PublicKey) : key.toBytes.length = publicKeyLength := key.buffer.size

end PublicKey

/-- The loop `for (i ...) if (keys[i].equals(pk))` up to its first hit. -/
def position (keys : List PublicKey) (pk : PublicKey) : Option Nat :=
  keys.findIdx? fun key => key.equals pk

theorem position_eq_some (keys : List PublicKey) (pk : PublicKey) (index : Nat) :
    position keys pk = some index ↔
      ∃ inside : index < keys.length, keys[index] = pk ∧
        ∀ earlier (before : earlier < index), keys[earlier] ≠ pk := by
  simp [position, List.findIdx?_eq_some_iff_getElem]

theorem position_eq_none (keys : List PublicKey) (pk : PublicKey) :
    position keys pk = none ↔ pk ∉ keys := by
  simp only [position, List.findIdx?_eq_none_iff, PublicKey.equals_eq_decide,
    decide_eq_false_iff_not]
  constructor
  · intro apart member
    exact apart pk member rfl
  · rintro absent key member rfl
    exact absent member

theorem position_of_mem (keys : List PublicKey) (pk : PublicKey) (member : pk ∈ keys) :
    ∃ index, position keys pk = some index := by
  cases found : position keys pk with
  | none => exact absurd member ((position_eq_none keys pk).mp found)
  | some index => exact ⟨index, rfl⟩

theorem position_append_left (left right : List PublicKey) (pk : PublicKey) (member : pk ∈ left) :
    position (left ++ right) pk = position left pk := by
  obtain ⟨index, found⟩ := position_of_mem left pk member
  simp only [position] at found ⊢
  rw [List.findIdx?_append, found, Option.some_or]

theorem position_append_right (left right : List PublicKey) (pk : PublicKey) (absent : pk ∉ left) :
    position (left ++ right) pk = (position right pk).map (· + left.length) := by
  have missed := (position_eq_none left pk).mpr absent
  simp only [position] at missed ⊢
  rw [List.findIdx?_append, missed, Option.none_or]

/-- Without duplicates the search finds the only place a key can be. -/
theorem position_of_nodup (keys : List PublicKey) (unique : keys.Nodup) (index : Nat)
    (inside : index < keys.length) : position keys keys[index] = some index := by
  refine (position_eq_some keys _ index).mpr ⟨inside, rfl, fun earlier before same => ?_⟩
  have equal := (List.Nodup.getElem_inj_iff unique).mp same
  omega

/-- The index byte that a search loop writes for a key it finds. -/
def byteIndex (keys : List PublicKey) (pk : PublicKey) : UInt8 :=
  UInt8.ofNat ((position keys pk).getD 0)

theorem byte_index_toNat (keys : List PublicKey) (pk : PublicKey) (index : Nat)
    (found : position keys pk = some index) (fits : keys.length ≤ 256) :
    (byteIndex keys pk).toNat = index := by
  obtain ⟨inside, _⟩ := (position_eq_some keys pk index).mp found
  rw [byteIndex, found]
  exact UInt8.toNat_ofNat_of_lt (Nat.lt_of_lt_of_le inside fits)

/-- A byte numbers the keys of a list with at most 256 entries. -/
theorem byte_index_inverts (keys : List PublicKey) (fits : keys.length ≤ 256) (pk : PublicKey)
    (member : pk ∈ keys) : keys[(byteIndex keys pk).toNat]? = some pk := by
  obtain ⟨index, found⟩ := position_of_mem keys pk member
  obtain ⟨inside, same, _⟩ := (position_eq_some keys pk index).mp found
  rw [byte_index_toNat keys pk index found fits, List.getElem?_eq_getElem inside, same]

end SolanaSdk.PublicKeys
