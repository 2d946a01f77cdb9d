import SolanaSdk.SigningCompleteness
import SolanaSdk.WireDecoding

/-!
One decoder for the envelopes of both formats. It takes the byte behind the
signatures for the version prefix when its top bit is set, so a legacy message
is recognised exactly when its first header byte, the number of required
signatures, leaves that bit clear.
-/

namespace SolanaSdk.EnvelopeDecoding

open ByteData PublicKeys Privileges Instructions RankedBlocks Varints Wire Transactions
open Decoders WireDecoding SignedMessage SigningCompleteness

inductive Version where
  | legacy
  | v0
  deriving DecidableEq

structure Received where
  version : Version
  signatures : List Signature
  body : Bytes
  deriving DecidableEq

def readSignatures : Decoder UInt8 (List Signature) := readList (readFixed signatureLength)

def decodeEnvelope (wire : Bytes) : Option Received := do
  let (signatures, rest) ← readSignatures.run wire
  let first ← rest.head?
  if first.toNat < 128 then some ⟨.legacy, signatures, rest⟩ else some ⟨.v0, signatures, rest.tail⟩

theorem recovers_signatures (signatures : List Signature) (few : signatures.length ≤ 255) :
    Recovers readSignatures signatures (signatureSection signatures) := by
  have exact : (UInt16.ofNat signatures.length).toNat = signatures.length :=
    UInt16.toNat_ofNat_of_lt (by unfold UInt16.size; omega)
  -- The hand-written count and `writeCompactU16` agree on every count of slots.
  have count : signatureCount (UInt16.ofNat signatures.length) =
      writeCompactU16 (UInt16.ofNat signatures.length) := by
    rw [signature_count_groups _ (by rw [exact]; omega), write_compact_groups]
  rw [signatureSection, count]
  exact recovers_list _ _ _ (by omega) fun signature _ => recovers_fixed signature

theorem decode_section (signatures : List Signature) (few : signatures.length ≤ 255)
    (first : UInt8) (rest : Bytes) :
    decodeEnvelope (signatureSection signatures ++ first :: rest) =
      if first.toNat < 128 then some ⟨.legacy, signatures, first :: rest⟩
      else some ⟨.v0, signatures, rest⟩ := by
  have read := recovers_signatures signatures few (first :: rest)
  rw [decodeEnvelope, read]
  rfl

section Formats
variable {Msg : Type} {format : Format Msg}

theorem slots_few (tx : Envelope format) : tx.signatures.length ≤ 255 := by
  rw [tx.size]
  have small := (format.header tx.message).numRequiredSignatures.toNat_lt
  omega

theorem envelope_body (tx : Envelope format) (wire : Bytes) (sent : tx.serialize = .ok wire) :
    ∃ body, format.serializeMessage tx.message = .ok body := by
  obtain ⟨body, serialized, -⟩ := bind_returned _ _ _ sent
  exact ⟨body, serialized⟩

end Formats

/-- A serialized message starts with its first header byte. -/
theorem serialize_head (msg : LegacyMessage.Message) (body : Bytes)
    (serialized : Message.serialize msg = .ok body) :
    ∃ rest, body = msg.header.numRequiredSignatures :: rest := by
  obtain ⟨blockhash, decoded⟩ := serialize_blockhash msg body serialized
  rw [serialize_writes msg blockhash decoded] at serialized
  exact ⟨_, (Except.ok.inj serialized).symm⟩

theorem legacy_decodes_iff (tx : Transaction) (body wire : Bytes)
    (serialized : Message.serialize tx.message = .ok body) (sent : tx.serialize = .ok wire) :
    decodeEnvelope wire = some ⟨.legacy, tx.signatures, body⟩ ↔
      tx.message.header.numRequiredSignatures.toNat < 128 := by
  obtain ⟨rest, rfl⟩ := serialize_head tx.message body serialized
  have same := (envelope_serialized tx _ serialized).symm.trans sent
  rw [← Except.ok.inj same]
  change decodeEnvelope (signatureSection tx.signatures ++
    tx.message.header.numRequiredSignatures :: rest) = _ ↔ _
  rw [decode_section tx.signatures (slots_few tx)]
  -- The top bit of the first header byte is all that tells the formats apart.
  split
  · next low => simp only [low]
  · next high => simp [high]

theorem versioned_decodes (tx : TransactionV0) (body wire : Bytes)
    (serialized : MessageV0.serialize tx.message = .ok body) (sent : tx.serialize = .ok wire) :
    decodeEnvelope wire = some ⟨.v0, tx.signatures, body⟩ := by
  have same := (envelope_serialized tx _ serialized).symm.trans sent
  rw [← Except.ok.inj same]
  change decodeEnvelope (signatureSection tx.signatures ++ 0x80 :: body) = _
  rw [decode_section tx.signatures (slots_few tx)]
  rfl

section Compiled
variable (instructions : List Instruction) (feePayer : PublicKey) (recentBlockhash : Text)

/-- The header byte counts the required signers modulo 256. -/
theorem legacy_header_byte :
    (LegacyMessage.compile instructions feePayer recentBlockhash).header.numRequiredSignatures.toNat =
      (requiredSigners instructions feePayer).card % 256 := by
  rw [LegacyLayout.compile_header, headerOf, byte_count_mod,
    ← legacy_count_required instructions feePayer recentBlockhash]
  rfl

end Compiled

/-- A V0 envelope is always recognised; a legacy envelope is recognised, and
then differs from every V0 envelope, exactly when the number of required
signers, modulo 256, is below 128. -/
theorem envelopes_decode (instructions : List Instruction) (feePayer : PublicKey)
    (recentBlockhash : Text) (tx : Transaction) (body wire : Bytes)
    (compiled : tx.message = LegacyMessage.compile instructions feePayer recentBlockhash)
    (serialized : Message.serialize tx.message = .ok body) (sent : tx.serialize = .ok wire) :
    ((decodeEnvelope wire = some ⟨.legacy, tx.signatures, body⟩ ∧
        ∀ other : TransactionV0, other.serialize ≠ .ok wire) ↔
      (requiredSigners instructions feePayer).card % 256 < 128) ∧
    ∀ (other : TransactionV0) (otherBody otherWire : Bytes),
      MessageV0.serialize other.message = .ok otherBody → other.serialize = .ok otherWire →
      decodeEnvelope otherWire = some ⟨.v0, other.signatures, otherBody⟩ := by
  refine ⟨?_, versioned_decodes⟩
  have recognised := legacy_decodes_iff tx body wire serialized sent
  rw [compiled, legacy_header_byte] at recognised
  rw [← recognised]
  refine ⟨fun both => both.1, fun decoded => ⟨decoded, ?_⟩⟩
  intro other same
  -- A V0 envelope of the same bytes would have been recognised as one.
  obtain ⟨otherBody, written⟩ := envelope_body other wire same
  have confused := (versioned_decodes other otherBody wire written same).symm.trans decoded
  cases confused

theorem envelopes_decode_signer_last :
    ∃ body wire, Message.serialize
        (LegacyMessage.compile LegacyLayout.signerLast (.filled 5) zeroBlockhash) = .ok body ∧
      (Transaction.new (LegacyMessage.compile LegacyLayout.signerLast (.filled 5)
        zeroBlockhash)).serialize = .ok wire ∧
      ((decodeEnvelope wire = some ⟨.legacy, (Transaction.new (LegacyMessage.compile
            LegacyLayout.signerLast (.filled 5) zeroBlockhash)).signatures, body⟩ ∧
          ∀ other : TransactionV0, other.serialize ≠ .ok wire) ↔
        (requiredSigners LegacyLayout.signerLast (.filled 5)).card % 256 < 128) := by
  obtain ⟨body, serialized⟩ := serialize_valid
    (LegacyMessage.compile LegacyLayout.signerLast (.filled 5) zeroBlockhash) zero_blockhash_valid
  have sent := envelope_serialized (Transaction.new (LegacyMessage.compile LegacyLayout.signerLast
    (.filled 5) zeroBlockhash)) body serialized
  exact ⟨body, _, serialized, sent, (envelopes_decode LegacyLayout.signerLast (.filled 5)
    zeroBlockhash _ body _ rfl serialized sent).1⟩

/-- One instruction with 127 signers besides the fee payer. -/
def manySigners : List Instruction :=
  [⟨.filled 200, (List.range 127).map fun index => ⟨.filled (UInt8.ofNat (index + 1)), true, true⟩,
    []⟩]

/-- With 128 required signers the first header byte is the version prefix. -/
theorem many_signers_misread :
    ∃ body wire, Message.serialize
        (LegacyMessage.compile manySigners (.filled 0) zeroBlockhash) = .ok body ∧
      (Transaction.new (LegacyMessage.compile manySigners (.filled 0) zeroBlockhash)).serialize =
        .ok wire ∧
      decodeEnvelope wire = some ⟨.v0, (Transaction.new (LegacyMessage.compile manySigners
        (.filled 0) zeroBlockhash)).signatures, body.tail⟩ := by
  obtain ⟨body, serialized⟩ := serialize_valid
    (LegacyMessage.compile manySigners (.filled 0) zeroBlockhash) zero_blockhash_valid
  obtain ⟨rest, rfl⟩ := serialize_head _ body serialized
  have sent := envelope_serialized (Transaction.new (LegacyMessage.compile manySigners (.filled 0)
    zeroBlockhash)) _ serialized
  refine ⟨_, _, serialized, sent, ?_⟩
  have topBit : (LegacyMessage.compile manySigners (.filled 0)
      zeroBlockhash).header.numRequiredSignatures = 128 := by decide +kernel
  rw [topBit]
  exact decode_section _ (slots_few (Transaction.new _)) 128 rest

end SolanaSdk.EnvelopeDecoding
