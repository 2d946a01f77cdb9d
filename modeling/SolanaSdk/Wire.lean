import SolanaSdk.Varints
import SolanaSdk.LegacyMessage
import SolanaSdk.VersionedMessage

/-!
The message bytes of both formats. The two source files declare the same static
`writeCompactU16`, and every count is narrowed to sixteen bits before it is
written. A message fails to serialize only on its blockhash.
-/

namespace SolanaSdk.Wire

open ByteData PublicKeys Privileges Instructions LegacyMessage VersionedMessage Varints

theorem high_groups (v : UInt16) : (v >>> 7).toNat = v.toNat / 128 := by
  rw [UInt16.toNat_shiftRight]
  exact Nat.shiftRight_eq_div_pow v.toNat 7

theorem low_group (v : UInt16) : (v &&& 0x7F).toUInt8.toNat = v.toNat % 128 := by
  rw [UInt16.toNat_toUInt8, UInt16.toNat_and]
  change (v.toNat &&& (2 ^ 7 - 1)) % 2 ^ 8 = v.toNat % 128
  rw [Nat.and_two_pow_sub_one_eq_mod]
  omega

theorem top_bit (b : UInt8) (low : b.toNat < 128) : (b ||| 0x80).toNat = b.toNat + 128 := by
  rw [UInt8.toNat_or, Nat.or_comm]
  change 2 ^ 7 * 1 ||| b.toNat = b.toNat + 128
  rw [← Nat.two_pow_add_eq_or_of_lt low]
  omega

/-- The do-while loop: seven bits a byte, at least one byte. -/
def writeCompactU16 (v : UInt16) : Bytes :=
  let b := (v &&& 0x7F).toUInt8
  let rest := v >>> 7
  if 0 < rest then (b ||| 0x80) :: writeCompactU16 rest else [b]
termination_by v.toNat
decreasing_by
  rename_i more
  have smaller := high_groups v
  have positive : 0 < (v >>> 7).toNat := UInt16.lt_iff_toNat_lt.mp more
  omega

def writeCounted (bytes : Bytes) : Bytes :=
  writeCompactU16 (UInt16.ofNat bytes.length) ++ bytes

def writeHeader (header : MessageHeader) : Bytes :=
  [header.numRequiredSignatures, header.numReadonlySignedAccounts,
    header.numReadonlyUnsignedAccounts]

def writeKeys (keys : List PublicKey) : Bytes :=
  writeCompactU16 (UInt16.ofNat keys.length) ++ keys.flatMap PublicKey.toBytes

def writeInstruction (ci : CompiledInstruction) : Bytes :=
  ci.programIdIndex :: writeCounted ci.accountIndices ++ writeCounted ci.data

def writeInstructions (instructions : List CompiledInstruction) : Bytes :=
  writeCompactU16 (UInt16.ofNat instructions.length) ++ instructions.flatMap writeInstruction

def writeLookup (alt : MessageAddressTableLookup) : Bytes :=
  alt.accountKey.toBytes ++ writeCounted alt.writableIndexes ++ writeCounted alt.readonlyIndexes

def writeLookups (lookups : List MessageAddressTableLookup) : Bytes :=
  writeCompactU16 (UInt16.ofNat lookups.length) ++ lookups.flatMap writeLookup

def blockhashBytes (what : String) (recentBlockhash : Text) : Except Failure Bytes := do
  let bhBytes ← Base58.decode recentBlockhash
  if bhBytes.length = 32 then pure bhBytes else throw (.runtimeError what)

def Message.serialize (msg : Message) : Except Failure Bytes := do
  let bhBytes ← blockhashBytes "Invalid blockhash length" msg.recentBlockhash
  pure (writeHeader msg.header ++ writeKeys msg.accountKeys ++ bhBytes ++
    writeInstructions msg.instructions)

/-- The body without the 0x80 version prefix. -/
def MessageV0.serialize (msg : MessageV0) : Except Failure Bytes := do
  let bhBytes ← blockhashBytes "MessageV0: invalid blockhash length" msg.recentBlockhash
  pure (writeHeader msg.header ++ writeKeys msg.staticAccountKeys ++ bhBytes ++
    writeInstructions msg.instructions ++ writeLookups msg.addressTableLookups)

/-- A blockhash text that both serializers accept. -/
def ValidBlockhash (recentBlockhash : Text) : Prop :=
  ∃ bhBytes, Base58.decode recentBlockhash = .ok bhBytes ∧ bhBytes.length = 32

theorem blockhash_bytes_valid (what : String) (recentBlockhash : Text)
    (valid : ValidBlockhash recentBlockhash) :
    ∃ bhBytes, blockhashBytes what recentBlockhash = .ok bhBytes := by
  obtain ⟨bhBytes, decoded, size⟩ := valid
  refine ⟨bhBytes, ?_⟩
  rw [blockhashBytes, decoded]
  exact if_pos size

theorem serialize_valid (msg : Message) (valid : ValidBlockhash msg.recentBlockhash) :
    ∃ body, Message.serialize msg = .ok body := by
  obtain ⟨bhBytes, decoded⟩ := blockhash_bytes_valid _ _ valid
  exact ⟨_, by rw [Message.serialize, decoded]; rfl⟩

theorem serialize_v0_valid (msg : MessageV0) (valid : ValidBlockhash msg.recentBlockhash) :
    ∃ body, MessageV0.serialize msg = .ok body := by
  obtain ⟨bhBytes, decoded⟩ := blockhash_bytes_valid _ _ valid
  exact ⟨_, by rw [MessageV0.serialize, decoded]; rfl⟩

/-- A byte with value bits `low` and the continuation bit set. -/
theorem more_byte (v : UInt16) :
    (v &&& 0x7F).toUInt8 ||| 0x80 = UInt8.ofNat (v.toNat % 128 + 128) := by
  apply UInt8.toNat_inj.mp
  rw [top_bit _ (by rw [low_group]; omega), low_group]
  exact (UInt8.toNat_ofNat_of_lt (by unfold UInt8.size; omega)).symm

theorem last_byte (v : UInt16) (small : v.toNat < 128) :
    (v &&& 0x7F).toUInt8 = UInt8.ofNat v.toNat := by
  apply UInt8.toNat_inj.mp
  rw [low_group, Nat.mod_eq_of_lt small]
  exact (UInt8.toNat_ofNat_of_lt (Nat.lt_trans small (by decide))).symm

theorem more_groups (v : UInt16) : (0 : UInt16) < v >>> 7 ↔ 128 ≤ v.toNat := by
  rw [UInt16.lt_iff_toNat_lt, high_groups]
  change 0 < v.toNat / 128 ↔ 128 ≤ v.toNat
  omega

/-- The loop writes the base-128 groups of its value. -/
theorem write_compact_groups (v : UInt16) : writeCompactU16 v = groups v.toNat := by
  induction v using writeCompactU16.induct with
  | case1 v rest more ih =>
      have large := (more_groups v).mp more
      rw [writeCompactU16, if_pos more, ih, groups_more _ large, more_byte, high_groups]
  | case2 v rest done =>
      have small : v.toNat < 128 := Nat.not_le.mp fun large => done ((more_groups v).mpr large)
      rw [writeCompactU16, if_neg done, groups_last _ small, last_byte v small]

/-- A compact-u16 takes one to three bytes. -/
def readCompactU16 (wire : Bytes) : Option (Nat × Bytes) := readGroups 3 wire

theorem read_write_compact (v : UInt16) (rest : Bytes) :
    readCompactU16 (writeCompactU16 v ++ rest) = some (v.toNat, rest) := by
  rw [write_compact_groups]
  exact read_groups 3 v.toNat rest (by decide) (Nat.lt_trans v.toNat_lt (by decide))

end SolanaSdk.Wire
