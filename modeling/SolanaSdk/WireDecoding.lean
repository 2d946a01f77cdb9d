import SolanaSdk.Base58Inverse
import SolanaSdk.Decoders
import SolanaSdk.Wire

/-!
A decoder of the documented message formats, and that it recovers every message
whose counts fit a compact-u16. The blockhash comes back as its 32 bytes; its
text is the only one that Base58 writes for them.
-/

namespace SolanaSdk.WireDecoding

open ByteData PublicKeys Privileges Instructions LegacyMessage VersionedMessage Varints Wire
open Decoders Base58Inverse

section Fields

def readCounted : Decoder UInt8 Bytes := do
  let count ← readCompactU16
  let taken ← exactly count
  pure taken.val

def readList {Value : Type} (item : Decoder UInt8 Value) : Decoder UInt8 (List Value) := do
  let count ← readCompactU16
  repeated item count

def readHeader : Decoder UInt8 MessageHeader := do
  let numRequiredSignatures ← symbol
  let numReadonlySignedAccounts ← symbol
  let numReadonlyUnsignedAccounts ← symbol
  pure ⟨numRequiredSignatures, numReadonlySignedAccounts, numReadonlyUnsignedAccounts⟩

def readFixed (count : Nat) : Decoder UInt8 (FixedBytes count) := do
  let taken ← exactly count
  pure ⟨taken.val, taken.property⟩

def readKey : Decoder UInt8 PublicKey := do
  let buffer ← readFixed publicKeyLength
  pure ⟨buffer⟩

def readInstruction : Decoder UInt8 CompiledInstruction := do
  let programIdIndex ← symbol
  let accountIndices ← readCounted
  let data ← readCounted
  pure ⟨programIdIndex, accountIndices, data⟩

def readLookup : Decoder UInt8 MessageAddressTableLookup := do
  let accountKey ← readKey
  let writableIndexes ← readCounted
  let readonlyIndexes ← readCounted
  pure ⟨accountKey, writableIndexes, readonlyIndexes⟩

theorem recovers_length (length : Nat) (fits : length ≤ 65535) :
    Recovers readCompactU16 length (writeCompactU16 (UInt16.ofNat length)) := by
  intro rest
  have exact : (UInt16.ofNat length).toNat = length :=
    UInt16.toNat_ofNat_of_lt (by unfold UInt16.size; omega)
  have read := read_write_compact (UInt16.ofNat length) rest
  rw [exact] at read
  exact read

theorem recovers_counted (bytes : Bytes) (fits : bytes.length ≤ 65535) :
    Recovers readCounted bytes (writeCounted bytes) :=
  recovers_bind _ _ bytes.length _ _ _ (recovers_length _ fits)
    (recovers_map (exactly bytes.length) Subtype.val ⟨bytes, rfl⟩ _ (recovers_exactly _ _))

theorem recovers_list {Value : Type} (item : Decoder UInt8 Value) (write : Value → Bytes)
    (values : List Value) (fits : values.length ≤ 65535)
    (each : ∀ value ∈ values, Recovers item value (write value)) :
    Recovers (readList item) values
      (writeCompactU16 (UInt16.ofNat values.length) ++ values.flatMap write) :=
  recovers_bind _ _ values.length _ _ _ (recovers_length _ fits)
    (recovers_repeated item write values each)

theorem recovers_header (header : MessageHeader) :
    Recovers readHeader header (writeHeader header) := fun _ => rfl

theorem recovers_fixed {count : Nat} (fixed : FixedBytes count) :
    Recovers (readFixed count) fixed fixed.bytes :=
  recovers_map (exactly count) (fun taken => (⟨taken.val, taken.property⟩ : FixedBytes count))
    ⟨fixed.bytes, fixed.size⟩ _ (recovers_exactly count _)

theorem recovers_key (key : PublicKey) : Recovers readKey key key.toBytes :=
  recovers_map _ _ key.buffer _ (recovers_fixed key.buffer)

def CountedInstruction (ci : CompiledInstruction) : Prop :=
  ci.accountIndices.length ≤ 65535 ∧ ci.data.length ≤ 65535

def CountedLookup (alt : MessageAddressTableLookup) : Prop :=
  alt.writableIndexes.length ≤ 65535 ∧ alt.readonlyIndexes.length ≤ 65535

theorem recovers_instruction (ci : CompiledInstruction) (counted : CountedInstruction ci) :
    Recovers readInstruction ci (writeInstruction ci) := by
  change Recovers readInstruction ci
    ([ci.programIdIndex] ++ writeCounted ci.accountIndices ++ writeCounted ci.data)
  rw [List.append_assoc]
  refine recovers_bind _ _ ci.programIdIndex _ _ _ (recovers_symbol _) ?_
  refine recovers_bind _ _ ci.accountIndices _ _ _ (recovers_counted _ counted.1) ?_
  exact recovers_map _ _ ci.data _ (recovers_counted _ counted.2)

theorem recovers_lookup (alt : MessageAddressTableLookup) (counted : CountedLookup alt) :
    Recovers readLookup alt (writeLookup alt) := by
  rw [writeLookup, List.append_assoc]
  refine recovers_bind _ _ alt.accountKey _ _ _ (recovers_key _) ?_
  refine recovers_bind _ _ alt.writableIndexes _ _ _ (recovers_counted _ counted.1) ?_
  exact recovers_map _ _ alt.readonlyIndexes _ (recovers_counted _ counted.2)

end Fields

section Messages

/-- What the bytes of a legacy message hold. -/
structure MessageBody where
  header : MessageHeader
  accountKeys : List PublicKey
  blockhash : FixedBytes 32
  instructions : List CompiledInstruction
  deriving DecidableEq

/-- What the bytes of a V0 message hold. -/
structure MessageBodyV0 where
  fields : MessageBody
  addressTableLookups : List MessageAddressTableLookup
  deriving DecidableEq

def decodeMessage : Decoder UInt8 MessageBody := do
  let header ← readHeader
  let accountKeys ← readList readKey
  let blockhash ← readFixed 32
  let instructions ← readList readInstruction
  pure ⟨header, accountKeys, blockhash, instructions⟩

def decodeMessageV0 : Decoder UInt8 MessageBodyV0 := do
  let fields ← decodeMessage
  let addressTableLookups ← readList readLookup
  pure ⟨fields, addressTableLookups⟩

/-- Every count that is written in front of keys or instructions fits a compact-u16. -/
structure CountsFit (keys : List PublicKey) (instructions : List CompiledInstruction) : Prop where
  keys : keys.length ≤ 65535
  size : instructions.length ≤ 65535
  each : ∀ ci ∈ instructions, CountedInstruction ci

structure LookupsFit (lookups : List MessageAddressTableLookup) : Prop where
  size : lookups.length ≤ 65535
  each : ∀ alt ∈ lookups, CountedLookup alt

def MessageBody.write (body : MessageBody) : Bytes :=
  writeHeader body.header ++ writeKeys body.accountKeys ++ body.blockhash.bytes ++
    writeInstructions body.instructions

def MessageBodyV0.write (body : MessageBodyV0) : Bytes :=
  body.fields.write ++ writeLookups body.addressTableLookups

theorem recovers_body (body : MessageBody)
    (counted : CountsFit body.accountKeys body.instructions) :
    Recovers decodeMessage body body.write := by
  rw [MessageBody.write, List.append_assoc, List.append_assoc]
  refine recovers_bind _ _ body.header _ _ _ (recovers_header _) ?_
  refine recovers_bind _ _ body.accountKeys _ _ _
    (recovers_list readKey _ _ counted.keys fun key _ => recovers_key key) ?_
  refine recovers_bind _ _ body.blockhash _ _ _ (recovers_fixed _) ?_
  exact recovers_map _ _ body.instructions _
    (recovers_list readInstruction _ _ counted.size fun ci member =>
      recovers_instruction ci (counted.each ci member))

theorem recovers_body_v0 (body : MessageBodyV0)
    (counted : CountsFit body.fields.accountKeys body.fields.instructions)
    (listed : LookupsFit body.addressTableLookups) :
    Recovers decodeMessageV0 body body.write := by
  refine recovers_bind _ _ body.fields _ _ _ (recovers_body _ counted) ?_
  exact recovers_map _ _ body.addressTableLookups _
    (recovers_list readLookup _ _ listed.size fun alt member =>
      recovers_lookup alt (listed.each alt member))

/-- The content of a message, with the bytes that its blockhash text stands for. -/
def bodyOf (msg : Message) (blockhash : FixedBytes 32) : MessageBody :=
  ⟨msg.header, msg.accountKeys, blockhash, msg.instructions⟩

def bodyOfV0 (msg : MessageV0) (blockhash : FixedBytes 32) : MessageBodyV0 :=
  ⟨⟨msg.header, msg.staticAccountKeys, blockhash, msg.instructions⟩, msg.addressTableLookups⟩

theorem blockhash_bytes_ok (what : String) (recentBlockhash : Text) (blockhash : FixedBytes 32)
    (decoded : Base58.decode recentBlockhash = .ok blockhash.bytes) :
    blockhashBytes what recentBlockhash = .ok blockhash.bytes := by
  rw [blockhashBytes, decoded]
  exact if_pos blockhash.size

theorem serialize_writes (msg : Message) (blockhash : FixedBytes 32)
    (decoded : Base58.decode msg.recentBlockhash = .ok blockhash.bytes) :
    Message.serialize msg = .ok (bodyOf msg blockhash).write := by
  rw [Message.serialize, blockhash_bytes_ok _ _ blockhash decoded]
  rfl

theorem serialize_v0_writes (msg : MessageV0) (blockhash : FixedBytes 32)
    (decoded : Base58.decode msg.recentBlockhash = .ok blockhash.bytes) :
    MessageV0.serialize msg = .ok (bodyOfV0 msg blockhash).write := by
  rw [MessageV0.serialize, blockhash_bytes_ok _ _ blockhash decoded]
  rfl

/-- What the serializers return has passed their blockhash check. -/
theorem serialized_blockhash (what : String) (recentBlockhash : Text) (bhBytes : Bytes)
    (passed : blockhashBytes what recentBlockhash = .ok bhBytes) :
    ∃ blockhash : FixedBytes 32, Base58.decode recentBlockhash = .ok blockhash.bytes := by
  rw [blockhashBytes] at passed
  obtain ⟨bytes, decoded, passed⟩ := bind_returned _ _ _ passed
  by_cases size : bytes.length = 32
  · exact ⟨⟨bytes, size⟩, decoded⟩
  · exact absurd ((if_neg size).symm.trans passed) (fun refused => by cases refused)

theorem serialize_blockhash (msg : Message) (wire : Bytes)
    (serialized : Message.serialize msg = .ok wire) :
    ∃ blockhash : FixedBytes 32, Base58.decode msg.recentBlockhash = .ok blockhash.bytes := by
  obtain ⟨bhBytes, passed, -⟩ := bind_returned _ _ _ serialized
  exact serialized_blockhash _ _ bhBytes passed

theorem serialize_v0_blockhash (msg : MessageV0) (wire : Bytes)
    (serialized : MessageV0.serialize msg = .ok wire) :
    ∃ blockhash : FixedBytes 32, Base58.decode msg.recentBlockhash = .ok blockhash.bytes := by
  obtain ⟨bhBytes, passed, -⟩ := bind_returned _ _ _ serialized
  exact serialized_blockhash _ _ bhBytes passed

theorem body_injective (left right : Message) (first second : FixedBytes 32)
    (one : Base58.decode left.recentBlockhash = .ok first.bytes)
    (two : Base58.decode right.recentBlockhash = .ok second.bytes)
    (same : bodyOf left first = bodyOf right second) : left = right := by
  have hash : first = second := congrArg MessageBody.blockhash same
  subst hash
  have text := decode_injective _ _ _ one two
  cases left
  cases right
  cases same
  cases text
  rfl

theorem body_v0_injective (left right : MessageV0) (first second : FixedBytes 32)
    (one : Base58.decode left.recentBlockhash = .ok first.bytes)
    (two : Base58.decode right.recentBlockhash = .ok second.bytes)
    (same : bodyOfV0 left first = bodyOfV0 right second) : left = right := by
  have hash : first = second := congrArg (MessageBody.blockhash ∘ MessageBodyV0.fields) same
  subst hash
  have text := decode_injective _ _ _ one two
  cases left
  cases right
  cases same
  cases text
  rfl

/-- Each format has one decoder that gives a serialized message back and leaves
the bytes behind it, so no two messages share their bytes. -/
theorem serialize_decodes :
    (∀ (msg : Message) (blockhash : FixedBytes 32),
      Base58.decode msg.recentBlockhash = .ok blockhash.bytes →
      CountsFit msg.accountKeys msg.instructions →
      ∃ wire, Message.serialize msg = .ok wire ∧
        ∀ rest, decodeMessage.run (wire ++ rest) = some (bodyOf msg blockhash, rest)) ∧
    (∀ (msg : MessageV0) (blockhash : FixedBytes 32),
      Base58.decode msg.recentBlockhash = .ok blockhash.bytes →
      CountsFit msg.staticAccountKeys msg.instructions → LookupsFit msg.addressTableLookups →
      ∃ wire, MessageV0.serialize msg = .ok wire ∧
        ∀ rest, decodeMessageV0.run (wire ++ rest) = some (bodyOfV0 msg blockhash, rest)) ∧
    (∀ (left right : Message) (wire : Bytes), CountsFit left.accountKeys left.instructions →
      CountsFit right.accountKeys right.instructions → Message.serialize left = .ok wire →
      Message.serialize right = .ok wire → left = right) ∧
    (∀ (left right : MessageV0) (wire : Bytes),
      CountsFit left.staticAccountKeys left.instructions → LookupsFit left.addressTableLookups →
      CountsFit right.staticAccountKeys right.instructions → LookupsFit right.addressTableLookups →
      MessageV0.serialize left = .ok wire → MessageV0.serialize right = .ok wire →
      left = right) := by
  refine ⟨?_, ?_, ?_, ?_⟩
  · intro msg blockhash decoded counted
    exact ⟨_, serialize_writes msg blockhash decoded, recovers_body _ counted⟩
  · intro msg blockhash decoded counted listed
    exact ⟨_, serialize_v0_writes msg blockhash decoded, recovers_body_v0 _ counted listed⟩
  · intro left right wire countedLeft countedRight first second
    obtain ⟨leftHash, one⟩ := serialize_blockhash left wire first
    obtain ⟨rightHash, two⟩ := serialize_blockhash right wire second
    rw [serialize_writes left leftHash one] at first
    rw [serialize_writes right rightHash two] at second
    -- One decoder reads both bodies back from the same bytes.
    have written : (bodyOf left leftHash).write = (bodyOf right rightHash).write :=
      Except.ok.inj (first.trans second.symm)
    apply body_injective left right leftHash rightHash one two
    exact recovers_unique decodeMessage _ _ _ (recovers_body _ countedLeft)
      (written ▸ recovers_body (bodyOf right rightHash) countedRight)
  · intro left right wire countedLeft listedLeft countedRight listedRight first second
    obtain ⟨leftHash, one⟩ := serialize_v0_blockhash left wire first
    obtain ⟨rightHash, two⟩ := serialize_v0_blockhash right wire second
    rw [serialize_v0_writes left leftHash one] at first
    rw [serialize_v0_writes right rightHash two] at second
    have written : (bodyOfV0 left leftHash).write = (bodyOfV0 right rightHash).write :=
      Except.ok.inj (first.trans second.symm)
    apply body_v0_injective left right leftHash rightHash one two
    exact recovers_unique decodeMessageV0 _ _ _ (recovers_body_v0 _ countedLeft listedLeft)
      (written ▸ recovers_body_v0 (bodyOfV0 right rightHash) countedRight listedRight)

/-- One instruction with its account and two data bytes. -/
def smallMessage : Message where
  header := ⟨1, 0, 1⟩
  accountKeys := [.filled 1, .filled 9]
  recentBlockhash := Base58.encode (FixedBytes.fill 32 3).bytes
  instructions := [⟨1, [0], [7, 8]⟩]

theorem serialize_decodes_small :
    ∃ wire, Message.serialize smallMessage = .ok wire ∧ ∀ rest,
      decodeMessage.run (wire ++ rest) = some (bodyOf smallMessage (.fill 32 3), rest) :=
  serialize_decodes.1 smallMessage (.fill 32 3) (decode_encode (FixedBytes.fill 32 3).bytes)
    ⟨by decide, by decide, by simp [smallMessage, CountedInstruction]⟩

end Messages
end SolanaSdk.WireDecoding
