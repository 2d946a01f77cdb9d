import SolanaSdk.Wire

/-!
Transactions of both formats: zeroed signature slots, the signing loop and the
envelope bytes. libsodium's `crypto_sign_detached` is a parameter. `sign` and
`serialize` build the message bytes on separate paths; what a reader of the
envelope finds behind the signatures is compared with what was signed.
-/

namespace SolanaSdk.Transactions

open ByteData PublicKeys Privileges LegacyMessage VersionedMessage Varints Wire

def secretKeyLength : Nat := 64
def signatureLength : Nat := 64

abbrev Signature := FixedBytes signatureLength

structure Keypair where
  publicKeyBytes : FixedBytes publicKeyLength
  secretKeyBytes : FixedBytes secretKeyLength
  deriving DecidableEq

def Keypair.publicKey (kp : Keypair) : PublicKey := ⟨kp.publicKeyBytes⟩

/-- The signature slots while `sign` runs, beside the calls of `Keypair::sign`
made so far. The source keeps no such record. -/
structure Signing (count : Nat) where
  signatures : List Signature
  size : signatures.length = count
  handed : List (Keypair × Bytes)

/-- All that the two transaction classes differ in. -/
structure Format (Msg : Type) where
  header : Msg → MessageHeader
  keys : Msg → List PublicKey
  serializeMessage : Msg → Except Failure Bytes
  /-- The bytes between the signatures and the message body. -/
  version : Bytes
  noSigners : String

def legacyFormat : Format Message where
  header := Message.header
  keys := Message.accountKeys
  serializeMessage := Message.serialize
  version := []
  noSigners := "No signers provided"

def versionedFormat : Format MessageV0 where
  header := MessageV0.header
  keys := MessageV0.staticAccountKeys
  serializeMessage := MessageV0.serialize
  version := [0x80]
  noSigners := "TransactionV0: no signers provided"

/-- A message with one slot for each signature that its header requires. -/
structure Envelope {Msg : Type} (format : Format Msg) where
  message : Msg
  signatures : List Signature
  size : signatures.length = (format.header message).numRequiredSignatures.toNat

/-- The count of an envelope, written by hand in at most two bytes. -/
def signatureCount (sigCount : UInt16) : Bytes :=
  let b := (sigCount &&& 0x7F).toUInt8
  let rest := sigCount >>> 7
  if 0 < rest then [b ||| 0x80, rest.toUInt8] else [b]

def signatureSection (signatures : List Signature) : Bytes :=
  signatureCount (UInt16.ofNat signatures.length) ++ signatures.flatMap FixedBytes.bytes

namespace Envelope
variable {Msg : Type} {format : Format Msg}

/-- Every slot starts as 64 zero bytes. -/
def new (message : Msg) : Envelope format where
  message := message
  signatures := List.replicate (format.header message).numRequiredSignatures.toNat
    (.fill signatureLength 0)
  size := List.length_replicate

def serialize (tx : Envelope format) : Except Failure Bytes := do
  let msgBytes ← format.serializeMessage tx.message
  pure (signatureSection tx.signatures ++ (format.version ++ msgBytes))

end Envelope

section Sign
variable (cryptoSignDetached : Bytes → FixedBytes secretKeyLength → Signature)

def Keypair.sign (kp : Keypair) (message : Bytes) : Signature :=
  cryptoSignDetached message kp.secretKeyBytes

/-- One signer: the search stops at the end of the keys or of the slots. -/
def signSlot {count : Nat} (keys : List PublicKey) (msgBytes : Bytes) (slots : Signing count)
    (kp : Keypair) : Signing count :=
  match position (keys.take count) kp.publicKey with
  | some index =>
      { signatures := slots.signatures.set index (kp.sign cryptoSignDetached msgBytes)
        size := by rw [List.length_set, slots.size]
        handed := slots.handed ++ [(kp, msgBytes)] }
  | none => slots

def signSlots {count : Nat} (keys : List PublicKey) (msgBytes : Bytes) (signers : List Keypair)
    (slots : Signing count) : Signing count :=
  signers.foldl (signSlot cryptoSignDetached keys msgBytes) slots

namespace Envelope
variable {Msg : Type} {format : Format Msg} (tx : Envelope format) (signers : List Keypair)

def signing : Except Failure (Signing (format.header tx.message).numRequiredSignatures.toNat) :=
  if signers.isEmpty then throw (.runtimeError format.noSigners) else do
    -- Both classes sign the message body, without any version byte.
    let msgBytes ← format.serializeMessage tx.message
    pure (signSlots cryptoSignDetached (format.keys tx.message) msgBytes signers
      ⟨tx.signatures, tx.size, []⟩)

def sign : Except Failure (Envelope format) := do
  let run ← tx.signing cryptoSignDetached signers
  pure ⟨tx.message, run.signatures, run.size⟩

end Envelope
end Sign

/-! The two classes of the source. -/

abbrev Transaction := Envelope legacyFormat

namespace Transaction

abbrev new (message : Message) : Transaction := Envelope.new message

abbrev sign (cryptoSignDetached : Bytes → FixedBytes secretKeyLength → Signature)
    (tx : Transaction) (signers : List Keypair) : Except Failure Transaction :=
  Envelope.sign cryptoSignDetached tx signers

abbrev serialize (tx : Transaction) : Except Failure Bytes := Envelope.serialize tx

end Transaction

abbrev TransactionV0 := Envelope versionedFormat

namespace TransactionV0

abbrev new (message : MessageV0) : TransactionV0 := Envelope.new message

abbrev sign (cryptoSignDetached : Bytes → FixedBytes secretKeyLength → Signature)
    (tx : TransactionV0) (signers : List Keypair) : Except Failure TransactionV0 :=
  Envelope.sign cryptoSignDetached tx signers

abbrev serialize (tx : TransactionV0) : Except Failure Bytes := Envelope.serialize tx

end TransactionV0

/-! What a reader of an envelope takes for the message bytes. -/

def wireMessage (wire : Bytes) : Option Bytes := do
  let (count, rest) ← readCompactU16 wire
  if count * signatureLength ≤ rest.length then some (rest.drop (count * signatureLength)) else none

theorem signatures_length (signatures : List Signature) :
    (signatures.flatMap FixedBytes.bytes).length = signatures.length * signatureLength := by
  induction signatures with
  | nil => rfl
  | cons signature rest ih =>
      rw [List.flatMap_cons, List.length_append, ih, signature.size, List.length_cons, Nat.succ_mul,
        Nat.add_comm]

/-- Two bytes are enough for every count that a header can hold. -/
theorem signature_count_groups (sigCount : UInt16) (few : sigCount.toNat < 128 * 128) :
    signatureCount sigCount = groups sigCount.toNat := by
  have high : (sigCount >>> 7).toUInt8 = UInt8.ofNat (sigCount.toNat / 128) := by
    apply UInt8.toNat_inj.mp
    rw [UInt16.toNat_toUInt8, high_groups, UInt8.toNat_ofNat']
  unfold signatureCount
  dsimp only
  split
  · next more =>
      have large := (more_groups sigCount).mp more
      rw [groups_more _ large, groups_last _ (by omega), more_byte, high]
  · next done =>
      have small : sigCount.toNat < 128 :=
        Nat.not_le.mp fun large => done ((more_groups sigCount).mpr large)
      rw [groups_last _ small, last_byte sigCount small]

theorem wire_message_section (signatures : List Signature) (few : signatures.length ≤ 255)
    (suffix : Bytes) : wireMessage (signatureSection signatures ++ suffix) = some suffix := by
  have exact : (UInt16.ofNat signatures.length).toNat = signatures.length :=
    UInt16.toNat_ofNat_of_lt (by unfold UInt16.size; omega)
  have counted : readCompactU16 (signatureSection signatures ++ suffix) =
      some (signatures.length, signatures.flatMap FixedBytes.bytes ++ suffix) := by
    rw [signatureSection, signature_count_groups _ (by rw [exact]; omega), exact,
      List.append_assoc, readCompactU16]
    exact read_groups 3 _ _ (by decide) (by omega)
  have size := signatures_length signatures
  have enough : signatures.length * signatureLength ≤
      (signatures.flatMap FixedBytes.bytes ++ suffix).length := by
    rw [List.length_append, size]
    exact Nat.le_add_right _ _
  simp only [wireMessage, counted, Option.bind_eq_bind, Option.bind_some, if_pos enough]
  rw [← size, List.drop_left]

end SolanaSdk.Transactions
