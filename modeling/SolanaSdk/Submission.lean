import SolanaSdk.Delivery
import SolanaSdk.RemoteCalls

/-!
From the calls of a client to the calls that a node runs. The client builds and
compiles them, signs the message, and posts the transaction as Base64 in a JSON
body over HTTP. The node takes every layer off again, verifies the signatures and
runs what the programs read. libsodium's signatures are a parameter.
-/

namespace SolanaSdk.Submission

open ByteData PublicKeys Instructions JsonText JsonNavigation JsonDocuments JsonWriting Base64
open Decoders Wire WireDecoding Transactions SignedMessage SigningCompleteness EnvelopeDecoding
open ProgramCalls Delivery RpcRequests RemoteCalls HttpRequests HttpTransport HttpExchanges

section Encoding

def toBase64 {Msg : Type} {format : Format Msg} (tx : Envelope format) : Except Failure Text := do
  return base64Encode (← tx.serialize)

theorem letter_plain (digit : Nat) (small : digit < 64) : PlainByte (letter digit) := by
  have listed : letter digit ∈ base64Chars := by
    have inside : digit < base64Chars.length := small
    rw [letter, List.getD_eq_getElem?_getD, List.getElem?_eq_getElem inside]
    exact List.getElem_mem inside
  exact every_byte base64Chars (by decide) _ listed

theorem plain_cons (c : UInt8) (rest : Text) (here : PlainByte c) (later : PlainText rest) :
    PlainText (c :: rest) := List.forall_mem_cons.mpr ⟨here, later⟩

theorem canonical_plain (text : Text) (canonical : Canonical text) : PlainText text := by
  have pad : PlainByte 61 := by decide
  have done : PlainText [] := List.forall_mem_nil _
  induction canonical with
  | nothing => exact done
  | twoPads w x first second _ =>
      exact plain_cons _ _ (letter_plain w first) (plain_cons _ _ (letter_plain x second)
        (plain_cons _ _ pad (plain_cons _ _ pad done)))
  | onePad w x y first second third _ =>
      exact plain_cons _ _ (letter_plain w first) (plain_cons _ _ (letter_plain x second)
        (plain_cons _ _ (letter_plain y third) (plain_cons _ _ pad done)))
  | group w x y z first second third fourth rest _ ih =>
      exact plain_cons _ _ (letter_plain w first) (plain_cons _ _ (letter_plain x second)
        (plain_cons _ _ (letter_plain y third) (plain_cons _ _ (letter_plain z fourth) ih)))

theorem base64_plain (bytes : Bytes) : PlainText (base64Encode bytes) :=
  canonical_plain _ (encode_canonical bytes)

end Encoding

section Node
variable (cryptoSignVerifyDetached : Signature → Bytes → PublicKey → Bool) (chain : Chain)

/-- What a signature has to be of: the message with its version byte. -/
def signedBytes : Version → Bytes → Bytes
  | .legacy, body => body
  | .v0, body => 0x80 :: body

def bodyFields : Version → Bytes → Option MessageBody
  | .legacy, body => whole decodeMessage body
  | .v0, body => (whole decodeMessageV0 body).map MessageBodyV0.fields

/-- A signature for each required signer, that verifies under the key at its place. -/
def accepted (envelope : Received) : Bool :=
  match bodyFields envelope.version envelope.body with
  | none => false
  | some body =>
      envelope.signatures.length == body.header.numRequiredSignatures.toNat &&
      decide (envelope.signatures.length ≤ body.accountKeys.length) &&
      (envelope.signatures.zip body.accountKeys).all fun (signature, key) =>
        cryptoSignVerifyDetached signature (signedBytes envelope.version envelope.body) key

/-- The calls that a node runs for a call of the client. -/
def executed : ClientCall → Option (List ProgramCall)
  | .sendTransaction base64Tx => do
      let envelope ← decodeEnvelope (base64DecodeRpc base64Tx.val)
      if accepted cryptoSignVerifyDetached envelope then
        bodyCalls chain envelope.version envelope.body
      else none
  | _ => none

end Node

section Signing
variable (cryptoSignDetached : Bytes → FixedBytes secretKeyLength → Signature)
  (cryptoSignVerifyDetached : Signature → Bytes → PublicKey → Bool)
  (instructions : List Instruction) (feePayer : PublicKey) (recentBlockhash : Text)

/-- The keypair's signatures verify, as those of a generated keypair do. -/
def Genuine (kp : Keypair) : Prop :=
  ∀ message, cryptoSignVerifyDetached (kp.sign cryptoSignDetached message) message kp.publicKey = true

/-- Each slot of the signed message verifies under the key at its place. -/
def SlotsVerify (keys : List PublicKey) (body : Bytes) (signatures : List Signature) : Prop :=
  ∀ index (slot : index < signatures.length), ∃ key, keys[index]? = some key ∧
    cryptoSignVerifyDetached signatures[index] body key = true

theorem slots_verify_iff (keys : List PublicKey) (covered : Bytes) (signatures : List Signature) :
    (decide (signatures.length ≤ keys.length) && (signatures.zip keys).all fun (signature, key) =>
        cryptoSignVerifyDetached signature covered key) = true ↔
      SlotsVerify cryptoSignVerifyDetached keys covered signatures := by
  rw [Bool.and_eq_true, decide_eq_true_eq, List.all_eq_true]
  constructor
  · rintro ⟨room, all⟩ index slot
    have inside : index < (signatures.zip keys).length := by
      rw [List.length_zip]
      omega
    have verified := all _ (List.getElem_mem inside)
    rw [List.getElem_zip] at verified
    exact ⟨_, List.getElem?_eq_getElem (by omega), verified⟩
  · intro verify
    refine ⟨?_, ?_⟩
    · rcases Nat.eq_zero_or_pos signatures.length with empty | filled
      · omega
      · -- The last slot has a key.
        obtain ⟨key, placed, -⟩ := verify (signatures.length - 1) (by omega)
        obtain ⟨inside, -⟩ := List.getElem?_eq_some_iff.mp placed
        omega
    · rintro ⟨signature, key⟩ member
      obtain ⟨index, inside, same⟩ := List.getElem_of_mem member
      rw [List.getElem_zip] at same
      rw [List.length_zip] at inside
      obtain ⟨there, placed, verified⟩ := verify index (by omega)
      cases same
      rw [List.getElem?_eq_getElem (by omega)] at placed
      cases placed
      exact verified

theorem slots_accepted (msg : LegacyMessage.Message) (blockhash : FixedBytes 32)
    (counted : CountsFit msg.accountKeys msg.instructions) (signatures : List Signature)
    (size : signatures.length = msg.header.numRequiredSignatures.toNat)
    (verify : SlotsVerify cryptoSignVerifyDetached msg.accountKeys (bodyOf msg blockhash).write
      signatures) :
    accepted cryptoSignVerifyDetached ⟨.legacy, signatures, (bodyOf msg blockhash).write⟩ = true := by
  have read := recovers_whole decodeMessage _ _ (recovers_body (bodyOf msg blockhash) counted)
  have verified := (slots_verify_iff cryptoSignVerifyDetached _ _ _).mpr verify
  rw [accepted, bodyFields, read]
  dsimp only
  rw [Bool.and_assoc, Bool.and_eq_true]
  exact ⟨beq_iff_eq.mpr size, verified⟩

/-- Each slot gets a signature by the signer whose key stands at its place. -/
def SlotsSigned (msg : LegacyMessage.Message) (body : Bytes) (signers : List Keypair) : Prop :=
  ∀ index < msg.header.numRequiredSignatures.toNat,
    ∃ kp ∈ signers, msg.accountKeys[index]? = some kp.publicKey ∧
      (signSlots cryptoSignDetached msg.accountKeys body signers
        ⟨(Transaction.new msg).signatures, (Transaction.new msg).size, []⟩).signatures[index]? =
          some (kp.sign cryptoSignDetached body)

theorem leading_signed (few : (distinctAccounts instructions feePayer).card ≤ 255)
    (leading : SignersMentionedFirst instructions feePayer) (signers : List Keypair)
    (covered : Covers instructions feePayer signers) (body : Bytes) :
    SlotsSigned cryptoSignDetached (LegacyMessage.compile instructions feePayer recentBlockhash) body
      signers := by
  intro index slot
  have required : index < (requiredSigners instructions feePayer).card :=
    legacy_slots instructions feePayer recentBlockhash few ▸ slot
  have inside : index <
      (LegacyMessage.compile instructions feePayer recentBlockhash).accountKeys.length :=
    Nat.lt_of_lt_of_le required (by
      rw [← legacy_count_required instructions feePayer recentBlockhash]
      exact List.countP_le_length)
  exact leading_slots_signed instructions feePayer cryptoSignDetached _
    (LegacyLayout.compile_keys_nodup instructions feePayer recentBlockhash) body signers covered _
    index slot _ (List.getElem?_eq_getElem inside)
    ((signers_first_iff instructions feePayer recentBlockhash).mp leading index inside required)

/-- The transaction that signing a message returns, where each slot has a signer. -/
theorem message_accepted (msg : LegacyMessage.Message) (blockhash : FixedBytes 32)
    (decoded : Base58.decode msg.recentBlockhash = .ok blockhash.bytes)
    (counted : CountsFit msg.accountKeys msg.instructions)
    (low : msg.header.numRequiredSignatures.toNat < 128) (signers : List Keypair)
    (given : signers ≠ [])
    (genuine : ∀ kp ∈ signers, Genuine cryptoSignDetached cryptoSignVerifyDetached kp)
    (slots : SlotsSigned cryptoSignDetached msg (bodyOf msg blockhash).write signers) :
    ∃ (tx : Transaction) (wire : Bytes),
      (Transaction.new msg).sign cryptoSignDetached signers = .ok tx ∧ tx.serialize = .ok wire ∧
      decodeEnvelope wire = some ⟨.legacy, tx.signatures, (bodyOf msg blockhash).write⟩ ∧
      accepted cryptoSignVerifyDetached ⟨.legacy, tx.signatures, (bodyOf msg blockhash).write⟩ =
        true := by
  have serialized := serialize_writes msg blockhash decoded
  have signed := sign_serialized cryptoSignDetached (Transaction.new msg) signers given _ serialized
  let run : Signing msg.header.numRequiredSignatures.toNat :=
    signSlots cryptoSignDetached msg.accountKeys (bodyOf msg blockhash).write signers
      ⟨(Transaction.new msg).signatures, (Transaction.new msg).size, []⟩
  let tx : Transaction := ⟨msg, run.signatures, run.size⟩
  have sent := envelope_serialized tx (bodyOf msg blockhash).write serialized
  refine ⟨tx, _, signed, sent, (legacy_decodes_iff tx _ _ serialized sent).mpr low, ?_⟩
  refine slots_accepted cryptoSignVerifyDetached msg blockhash counted run.signatures run.size ?_
  intro index slot
  obtain ⟨kp, member, placed, filled⟩ := slots index (Nat.lt_of_lt_of_eq slot run.size)
  refine ⟨kp.publicKey, placed, ?_⟩
  change run.signatures[index]? = _ at filled
  rw [List.getElem?_eq_getElem slot] at filled
  rw [Option.some.inj filled]
  exact genuine kp member _

end Signing

section Submitted
variable (cryptoSignDetached : Bytes → FixedBytes secretKeyLength → Signature)
  (cryptoSignVerifyDetached : Signature → Bytes → PublicKey → Bool) (chain : Chain)
  (calls : List ProgramCall) (instructions : List Instruction) (feePayer : PublicKey)
  (recentBlockhash : Text)

/-- What the inputs of a transaction have to meet: the builders have returned, few
calls and keys, and the signers mentioned in front of all other accounts. -/
structure Sendable : Prop where
  built : calls.mapM ProgramCall.build = .ok instructions
  short : calls.length ≤ 65535
  few : (distinctAccounts instructions feePayer).card ≤ 255
  low : (requiredSigners instructions feePayer).card < 128
  leading : SignersMentionedFirst instructions feePayer
  valid : ValidBlockhash recentBlockhash

/-- The signed transaction as Base64 is run as the calls. -/
theorem signed_runs (sendable : Sendable calls instructions feePayer recentBlockhash)
    (signers : List Keypair) (covered : Covers instructions feePayer signers)
    (genuine : ∀ kp ∈ signers, Genuine cryptoSignDetached cryptoSignVerifyDetached kp) :
    ∃ (tx : Transaction) (base64Tx : Plain),
      (Transaction.new (LegacyMessage.compile instructions feePayer recentBlockhash)).sign
        cryptoSignDetached signers = .ok tx ∧ toBase64 tx = .ok base64Tx.val ∧
      (∃ body, decodeEnvelope (base64DecodeRpc base64Tx.val) =
        some ⟨.legacy, tx.signatures, body⟩) ∧
      executed cryptoSignVerifyDetached chain (.sendTransaction base64Tx) = some calls := by
  have understood := calls_built calls instructions sendable.built
  have listed :
      (LegacyMessage.compile instructions feePayer recentBlockhash).accountKeys.length ≤ 256 := by
    rw [LegacyLayout.compile_keys_length]
    exact Nat.le_succ_of_le sendable.few
  have counted := numbered_counts calls instructions understood sendable.short
    (byteIndex (LegacyMessage.compile instructions feePayer recentBlockhash).accountKeys) _ listed
  rw [← LegacyLayout.compile_instructions] at counted
  obtain ⟨body, serialized⟩ :=
    serialize_valid (LegacyMessage.compile instructions feePayer recentBlockhash) sendable.valid
  obtain ⟨blockhash, decoded⟩ := serialize_blockhash _ body serialized
  have filled := leading_signed cryptoSignDetached instructions feePayer recentBlockhash sendable.few
    sendable.leading signers covered
  have low := sendable.low
  rw [← legacy_slots instructions feePayer recentBlockhash sendable.few] at low
  obtain ⟨tx, wire, signed, sent, received, accepts⟩ := message_accepted cryptoSignDetached
    cryptoSignVerifyDetached _ blockhash decoded counted
    low signers (covers_nonempty _ _ _ covered) genuine (filled _)
  have decodes := received
  rw [← decode_loop_encode wire 0] at decodes
  change decodeEnvelope (base64DecodeRpc (base64Encode wire)) = _ at decodes
  refine ⟨tx, ⟨base64Encode wire, base64_plain wire⟩, signed, ?_, ⟨_, decodes⟩, ?_⟩
  · change (tx.serialize >>= fun wire => pure (base64Encode wire)) = _
    rw [sent]
    rfl
  · have run := legacy_body_calls chain calls instructions feePayer recentBlockhash understood
      sendable.short (Nat.le_succ_of_le sendable.few) _ (serialize_writes _ blockhash decoded)
    rw [executed, decodes]
    change (if accepted _ _ = true then _ else none) = _
    rw [if_pos accepts]
    exact run

/-- Whichever document a node reads the body as, it finds the call there. -/
theorem found_call (call : ClientCall) (document : Document plainWords)
    (same : document.text = call.body) : readCall (look document.root) = some call := by
  have looks : look document.root = look (callDoc call) :=
    funext (same_text_look document (callDocument call) (same.trans (call_text call).symm))
  rw [looks, call_read]

/-- The node hears one request and runs the calls that it reads there; the client
does with its answer what it does with that answer at hand. -/
structure Ran (network : Network) (client : Client) (node : Node) (base64Tx : Plain) : Prop where
  heard : ∃ request,
    HttpTransport.heard (rpcPost network client (ClientCall.sendTransaction base64Tx).body) =
      some request ∧
    ∀ document : Document plainWords, document.text = request.body →
      (readCall (look document.root)).bind (executed cryptoSignVerifyDetached chain) = some calls
  answered : RpcClient.sendTransaction (transport network client) base64Tx.val =
    RpcClient.sendTransaction
      (AccountResponses.answering (node.answer (.sendTransaction base64Tx))) base64Tx.val

end Submitted

section Sample

/-- For the stand-in whose signatures are the secret key, which ends in the public one. -/
def verifyRevealed (signature : Signature) (_message : Bytes) (key : PublicKey) : Bool :=
  signature.bytes.drop 32 == key.toBytes

def paymentCalls : List ProgramCall := [.system (.transfer (.filled 6) (.filled 2) 5)]

def paymentInstructions : List Instruction :=
  [⟨.default, [⟨.filled 6, true, true⟩, ⟨.filled 2, false, true⟩],
    SystemProgram.writeU64 (SystemProgram.writeU32 [] 2) 5⟩]

theorem payment_sendable : Sendable paymentCalls paymentInstructions (.filled 6) zeroBlockhash where
  built := by
    rw [paymentCalls, List.mapM_cons, List.mapM_nil]
    change (SystemProgram.transfer _ _ _ >>= fun _ => _) = _
    rw [SystemProgram.transfer, SystemProgram.sys_prog_decodes]
    rfl
  short := by decide
  few := Nat.le_trans (List.toFinset_card_le _) (by decide)
  low := Nat.lt_of_le_of_lt (Finset.card_filter_le _ _)
    (Nat.lt_of_le_of_lt (List.toFinset_card_le _) (by decide))
  leading := by decide
  valid := zero_blockhash_valid

theorem payment_covered : Covers paymentInstructions (.filled 6) [Keypair.filled 6] := by
  rintro key (rfl | ⟨am, listed, rfl, marked⟩)
  · exact ⟨Keypair.filled 6, List.mem_singleton.mpr rfl, rfl⟩
  · have only : ∀ am ∈ metas paymentInstructions, am.isSigner = true → am.pubkey = .filled 6 := by
      decide
    exact ⟨Keypair.filled 6, List.mem_singleton.mpr rfl, (only am listed marked).symm⟩

theorem payment_genuine : ∀ kp ∈ [Keypair.filled 6], Genuine revealKey verifyRevealed kp := by
  intro kp member message
  rw [List.mem_singleton.mp member]
  rfl

end Sample
end SolanaSdk.Submission
