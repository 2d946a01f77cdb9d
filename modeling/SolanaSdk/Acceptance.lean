import SolanaSdk.SigningRuns
import SolanaSdk.Submission

/-!
What a node makes of a transaction that several parties have signed, one call of
`sign` after another. Which bytes a signature has to cover is the node's choice:
the source signs the message body in both formats, without the version byte.
-/

namespace SolanaSdk.Acceptance

open ByteData PublicKeys Instructions LookupTables Wire WireDecoding Transactions SignedMessage
open SigningCompleteness SigningRuns EnvelopeDecoding ProgramCalls Delivery Base64 RpcRequests
open Submission
open VersionedMessage (MessageV0)
open VersionedResolution (combined compiled compile_returned)

section Node
variable (cryptoSignVerifyDetached : Signature → Bytes → PublicKey → Bool)
  (covers : Version → Bytes → Bytes) (chain : Chain)

/-- A signature over `covers` of the body for each required signer. -/
def acceptedOver (envelope : Received) : Bool :=
  match bodyFields envelope.version envelope.body with
  | none => false
  | some body =>
      envelope.signatures.length == body.header.numRequiredSignatures.toNat &&
      decide (envelope.signatures.length ≤ body.accountKeys.length) &&
      (envelope.signatures.zip body.accountKeys).all fun (signature, key) =>
        cryptoSignVerifyDetached signature (covers envelope.version envelope.body) key

def ranOver (wire : Bytes) : Option (List ProgramCall) := do
  let envelope ← decodeEnvelope wire
  if acceptedOver cryptoSignVerifyDetached covers envelope then
    bodyCalls chain envelope.version envelope.body
  else none

/-- The node of the submissions has the version byte covered. -/
theorem executed_over (base64Tx : Plain) :
    executed cryptoSignVerifyDetached chain (.sendTransaction base64Tx) =
      ranOver cryptoSignVerifyDetached signedBytes chain (base64DecodeRpc base64Tx.val) := rfl

/-- So it never verifies the bytes that `sign` signs in the V0 format. -/
theorem version_byte_differs (body : Bytes) : signedBytes .v0 body ≠ body :=
  List.cons_ne_self 0x80 body

theorem accepted_over_iff (envelope : Received) (fields : MessageBody)
    (read : bodyFields envelope.version envelope.body = some fields)
    (size : envelope.signatures.length = fields.header.numRequiredSignatures.toNat) :
    acceptedOver cryptoSignVerifyDetached covers envelope = true ↔
      SlotsVerify cryptoSignVerifyDetached fields.accountKeys
        (covers envelope.version envelope.body) envelope.signatures := by
  rw [acceptedOver, read, ← slots_verify_iff]
  dsimp only
  rw [Bool.and_assoc, Bool.and_eq_true]
  exact and_iff_right (beq_iff_eq.mpr size)

end Node

section Runs
variable {Msg : Type} {format : Format Msg}
  (cryptoSignDetached : Bytes → FixedBytes secretKeyLength → Signature)
  (cryptoSignVerifyDetached : Signature → Bytes → PublicKey → Bool)

/-- Once the message can be serialized, only calls without signers throw. -/
theorem passed_all (calls : List (List Keypair)) (tx : Envelope format) (body : Bytes)
    (serialized : format.serializeMessage tx.message = .ok body) :
    passed cryptoSignDetached tx calls = calls.flatten := by
  induction calls generalizing tx with
  | nil => rfl
  | cons signers later ih =>
      rw [passed, List.flatten_cons]
      rcases sign_call_cases cryptoSignDetached tx signers with
        ⟨failure, threw, failed⟩ | ⟨_, _, returned, -⟩
      · have empty : signers = [] := by
          by_contra listed
          rw [sign_serialized cryptoSignDetached tx signers listed body serialized] at failed
          cases failed
        rw [threw, empty]
        exact ih tx serialized
      · rw [returned]
        exact congrArg (signers ++ ·) (ih _ serialized)

/-- On the bytes at hand a signature verifies for what it was made of, and an
empty slot for nothing. -/
structure Scheme (signers : List Keypair) (body covered : Bytes) : Prop where
  own : ∀ kp ∈ signers,
    cryptoSignVerifyDetached (kp.sign cryptoSignDetached body) covered kp.publicKey = true ↔
      covered = body
  blank : ∀ key, cryptoSignVerifyDetached (.fill signatureLength 0) covered key = false

variable (message : Msg) (unique : (format.keys message).Nodup) (body : Bytes)
  (serialized : format.serializeMessage message = .ok body)
include unique serialized

/-- A slot is signed by a party with its key, or still empty for want of one. -/
theorem run_slot (calls : List (List Keypair)) (index : Nat) (key : PublicKey)
    (placed : (format.keys message)[index]? = some key)
    (slot : index < (format.header message).numRequiredSignatures.toNat) :
    (∃ kp ∈ calls.flatten, kp.publicKey = key ∧
      (signRun cryptoSignDetached (Envelope.new message : Envelope format) calls).signatures[index]? =
        some (kp.sign cryptoSignDetached body)) ∨
    (∀ kp ∈ calls.flatten, kp.publicKey ≠ key) ∧
      (signRun cryptoSignDetached (Envelope.new message : Envelope format) calls).signatures[index]? =
        some (.fill signatureLength 0) := by
  have passes := passed_all cryptoSignDetached calls (Envelope.new message : Envelope format) body
    serialized
  by_cases covered : ∃ kp ∈ calls.flatten, kp.publicKey = key
  · left
    rw [run_signed cryptoSignDetached calls _ body serialized, passes]
    exact sign_slots_signed cryptoSignDetached _ body unique calls.flatten _ index slot key placed
      covered
  · right
    push Not at covered
    have sound := runs_sound format cryptoSignDetached message unique
    have size := (sound.size calls).trans (Envelope.new message : Envelope format).size
    rw [List.getElem?_eq_getElem (Nat.lt_of_lt_of_eq slot size.symm)]
    refine ⟨covered, ?_⟩
    rcases sound.slots calls index _ (List.getElem?_eq_getElem (Nat.lt_of_lt_of_eq slot size.symm))
      with kept | ⟨kp, member, _, _, same, _⟩
    · rw [kept]
    · rw [placed] at same
      exact absurd (Option.some.inj same).symm (covered kp (passes ▸ member))

/-- One slot verifies exactly when its key has signed, over the bytes that the node
has covered. -/
theorem slot_verifies_iff (calls : List (List Keypair)) (covered : Bytes)
    (scheme : Scheme cryptoSignDetached cryptoSignVerifyDetached calls.flatten body covered)
    (index : Nat) (key : PublicKey) (placed : (format.keys message)[index]? = some key)
    (slot : index < (format.header message).numRequiredSignatures.toNat) (signature : Signature)
    (held : (signRun cryptoSignDetached
      (Envelope.new message : Envelope format) calls).signatures[index]? = some signature) :
    cryptoSignVerifyDetached signature covered key = true ↔
      covered = body ∧ ∃ kp ∈ calls.flatten, kp.publicKey = key := by
  rcases run_slot cryptoSignDetached message unique body serialized calls index key placed slot with
    ⟨kp, member, rfl, signed⟩ | ⟨absent, empty⟩
  · rw [Option.some.inj (held.symm.trans signed), scheme.own kp member]
    exact (and_iff_left ⟨kp, member, rfl⟩).symm
  · rw [Option.some.inj (held.symm.trans empty), scheme.blank key]
    refine iff_of_false Bool.false_ne_true ?_
    rintro ⟨-, kp, member, own⟩
    exact absent kp member own

/-- All slots verify exactly when every slot's key has signed. -/
theorem run_verifies_iff (calls : List (List Keypair)) (covered : Bytes)
    (scheme : Scheme cryptoSignDetached cryptoSignVerifyDetached calls.flatten body covered)
    (owed : 0 < (format.header message).numRequiredSignatures.toNat)
    (room : (format.header message).numRequiredSignatures.toNat ≤ (format.keys message).length) :
    SlotsVerify cryptoSignVerifyDetached (format.keys message) covered
        (signRun cryptoSignDetached (Envelope.new message : Envelope format) calls).signatures ↔
      covered = body ∧
      ∀ key ∈ (format.keys message).take (format.header message).numRequiredSignatures.toNat,
        ∃ kp ∈ calls.flatten, kp.publicKey = key := by
  have slots := slot_verifies_iff cryptoSignDetached cryptoSignVerifyDetached message unique body
    serialized calls covered scheme
  have size : (signRun cryptoSignDetached (Envelope.new message : Envelope format)
      calls).signatures.length = (format.header message).numRequiredSignatures.toNat :=
    ((runs_sound format cryptoSignDetached message unique).size calls).trans
      (Envelope.new message : Envelope format).size
  constructor
  · intro verify
    have signed : ∀ index < (format.header message).numRequiredSignatures.toNat, ∀ key,
        (format.keys message)[index]? = some key →
          covered = body ∧ ∃ kp ∈ calls.flatten, kp.publicKey = key := by
      intro index slot key placed
      have inside := Nat.lt_of_lt_of_eq slot size.symm
      obtain ⟨same, placed', verified⟩ := verify index inside
      cases placed.symm.trans placed'
      exact (slots index key placed slot _ (List.getElem?_eq_getElem inside)).mp verified
    refine ⟨(signed 0 owed _ (List.getElem?_eq_getElem (by omega))).1, fun key member => ?_⟩
    obtain ⟨index, inside, placed⟩ := List.getElem_of_mem member
    rw [List.length_take] at inside
    rw [List.getElem_take] at placed
    exact (signed index (by omega) key (placed ▸ List.getElem?_eq_getElem (by omega))).2
  · rintro ⟨same, complete⟩ index inside
    have slot := Nat.lt_of_lt_of_eq inside size
    have listed := Nat.lt_of_lt_of_le slot room
    have placed := List.getElem?_eq_getElem listed
    have led : (format.keys message)[index] ∈
        (format.keys message).take (format.header message).numRequiredSignatures.toNat :=
      List.mem_take_iff_getElem.mpr ⟨index, by omega, rfl⟩
    exact ⟨_, placed, (slots index _ placed slot _ (List.getElem?_eq_getElem inside)).mpr
      ⟨same, complete _ led⟩⟩

variable (format) in
theorem run_accepted_iff (parties : List (List Keypair)) (version : Version) (fields : MessageBody)
    (covers : Version → Bytes → Bytes) (read : bodyFields version body = some fields)
    (header : fields.header = format.header message) (keys : fields.accountKeys = format.keys message)
    (scheme : Scheme cryptoSignDetached cryptoSignVerifyDetached parties.flatten body
      (covers version body))
    (owed : 0 < (format.header message).numRequiredSignatures.toNat)
    (room : (format.header message).numRequiredSignatures.toNat ≤ (format.keys message).length) :
    acceptedOver cryptoSignVerifyDetached covers ⟨version,
        (signRun cryptoSignDetached (Envelope.new message : Envelope format) parties).signatures,
        body⟩ = true ↔
      covers version body = body ∧
      ∀ key ∈ (format.keys message).take (format.header message).numRequiredSignatures.toNat,
        ∃ kp ∈ parties.flatten, kp.publicKey = key := by
  have size := ((runs_sound format cryptoSignDetached message unique).size parties).trans
    (Envelope.new message : Envelope format).size
  rw [accepted_over_iff cryptoSignVerifyDetached covers _ fields read (by rw [header]; exact size),
    keys]
  exact run_verifies_iff cryptoSignDetached cryptoSignVerifyDetached message unique body serialized
    parties (covers version body) scheme owed room

end Runs

section Compiled
variable (instructions : List Instruction) (feePayer : PublicKey)

/-- The first of the mentioned accounts, as many as there are required signers. -/
def leaders : List PublicKey :=
  (mentions instructions feePayer).eraseDups.take (requiredSigners instructions feePayer).card

/-- What must have been signed for: every leader, whether or not it is a signer. -/
def LeadersSigned (signers : List Keypair) : Prop :=
  ∀ key ∈ leaders instructions feePayer, ∃ kp ∈ signers, kp.publicKey = key

theorem payer_required : 0 < (requiredSigners instructions feePayer).card :=
  Finset.card_pos.mpr ⟨feePayer, (mem_required_signers ..).mpr (Or.inl rfl)⟩

/-- Where only required signers lead, the leaders are the required signers. -/
theorem leading_keys (keys : List PublicKey) (unique : keys.Nodup)
    (room : (requiredSigners instructions feePayer).card ≤ keys.length)
    (lead : ∀ index (inside : index < keys.length),
      index < (requiredSigners instructions feePayer).card →
        Signs instructions feePayer keys[index]) (key : PublicKey) :
    key ∈ keys.take (requiredSigners instructions feePayer).card ↔
      Signs instructions feePayer key := by
  have within : (keys.take (requiredSigners instructions feePayer).card).toFinset ⊆
      requiredSigners instructions feePayer := by
    intro other member
    obtain ⟨index, inside, rfl⟩ := List.getElem_of_mem (List.mem_toFinset.mp member)
    rw [List.length_take] at inside
    rw [List.getElem_take]
    exact (mem_required_signers ..).mpr (lead index (by omega) (by omega))
  have size : (keys.take (requiredSigners instructions feePayer).card).toFinset.card =
      (requiredSigners instructions feePayer).card := by
    rw [List.toFinset_card_of_nodup (unique.sublist (List.take_sublist ..)), List.length_take]
    exact Nat.min_eq_left room
  have same := Finset.eq_of_subset_of_card_le within (Nat.le_of_eq size.symm)
  rw [← mem_required_signers, ← List.mem_toFinset, same]

variable (recentBlockhash : Text)

theorem legacy_room : (requiredSigners instructions feePayer).card ≤
    (LegacyMessage.compile instructions feePayer recentBlockhash).accountKeys.length := by
  rw [← legacy_count_required instructions feePayer recentBlockhash]
  exact List.countP_le_length

/-- With the signers mentioned first, these have to sign and nobody else. -/
theorem leaders_cover (leading : SignersMentionedFirst instructions feePayer)
    (signers : List Keypair) :
    LeadersSigned instructions feePayer signers ↔ Covers instructions feePayer signers := by
  have lead := leading_keys instructions feePayer _
    (LegacyLayout.compile_keys_nodup instructions feePayer [])
    (legacy_room instructions feePayer [])
    fun index inside => (signers_first_iff instructions feePayer []).mp leading index inside
  rw [LegacyLayout.compile_keys] at lead
  exact forall_congr' fun key => imp_congr_left (lead key)

variable (lookupTables : List AddressLookupTableAccount)

theorem ordered_room : (requiredSigners instructions feePayer).card ≤
    (compiled instructions feePayer recentBlockhash lookupTables).staticAccountKeys.length := by
  rw [← ordered_count_required instructions feePayer lookupTables]
  refine Nat.le_trans List.countP_le_length (Nat.le_of_eq ?_)
  exact (List.length_map _).symm

theorem ordered_leaders (key : PublicKey) :
    key ∈ (compiled instructions feePayer recentBlockhash lookupTables).staticAccountKeys.take
        (requiredSigners instructions feePayer).card ↔ Signs instructions feePayer key := by
  refine leading_keys instructions feePayer _
    (VersionedLayout.ordered_keys_nodup instructions feePayer lookupTables)
    (ordered_room instructions feePayer recentBlockhash lookupTables) ?_ key
  intro index inside slot
  have listed : index < (VersionedLayout.ordered instructions feePayer lookupTables).length :=
    Nat.lt_of_lt_of_eq inside (List.length_map _)
  have signs := (ordered_slot_iff instructions feePayer lookupTables index listed).mp slot
  change Signs _ _ (List.map _ _)[index]
  rw [List.getElem_map]
  exact signs

end Compiled

section Decisions
variable (cryptoSignDetached : Bytes → FixedBytes secretKeyLength → Signature)
  (cryptoSignVerifyDetached : Signature → Bytes → PublicKey → Bool)
  (covers : Version → Bytes → Bytes) (chain : Chain)
  (calls : List ProgramCall) (instructions : List Instruction) (feePayer : PublicKey)
  (recentBlockhash : Text)

/-- The node runs exactly the calls once `complete`, and nothing before. -/
structure Decides (complete : Prop) (wire : Bytes) : Prop where
  runs : complete → ranOver cryptoSignVerifyDetached covers chain wire = some calls
  refuses : ¬ complete → ranOver cryptoSignVerifyDetached covers chain wire = none

theorem decided (complete : Prop) (wire : Bytes) (envelope : Received)
    (received : decodeEnvelope wire = some envelope)
    (accepts : acceptedOver cryptoSignVerifyDetached covers envelope = true ↔ complete)
    (arrive : bodyCalls chain envelope.version envelope.body = some calls) :
    Decides cryptoSignVerifyDetached covers chain calls complete wire where
  runs all := by
    rw [ranOver, received]
    exact (if_pos (accepts.mpr all)).trans arrive
  refuses missing := by
    rw [ranOver, received]
    exact if_neg fun accepted => missing (accepts.mp accepted)

theorem run_message {Msg : Type} (format : Format Msg) (message : Msg) (body : Bytes)
    (serialized : format.serializeMessage message = .ok body) (parties : List (List Keypair)) :
    (signRun cryptoSignDetached (Envelope.new message : Envelope format) parties).message =
      message := by
  rw [run_signed cryptoSignDetached parties _ body serialized]
  rfl

theorem legacy_decided (understood : List.Forall₂ Understood calls instructions)
    (short : calls.length ≤ 65535) (few : (distinctAccounts instructions feePayer).card ≤ 256)
    (low : (requiredSigners instructions feePayer).card < 128) (body : Bytes)
    (serialized : Message.serialize
      (LegacyMessage.compile instructions feePayer recentBlockhash) = .ok body)
    (parties : List (List Keypair))
    (scheme : Scheme cryptoSignDetached cryptoSignVerifyDetached parties.flatten body
      (covers .legacy body)) :
    ∃ wire, (signRun cryptoSignDetached (Transaction.new
        (LegacyMessage.compile instructions feePayer recentBlockhash)) parties).serialize = .ok wire ∧
      Decides cryptoSignVerifyDetached covers chain calls
        (covers .legacy body = body ∧ LeadersSigned instructions feePayer parties.flatten) wire := by
  have unique := LegacyLayout.compile_keys_nodup instructions feePayer recentBlockhash
  have count := legacy_header_byte instructions feePayer recentBlockhash
  rw [Nat.mod_eq_of_lt (by omega)] at count
  have message := run_message cryptoSignDetached legacyFormat _ body serialized parties
  have sent := envelope_serialized (signRun cryptoSignDetached (Transaction.new
    (LegacyMessage.compile instructions feePayer recentBlockhash)) parties) body
    (by rw [message]; exact serialized)
  refine ⟨_, sent, decided cryptoSignVerifyDetached covers chain calls _ _ _
    ((legacy_decodes_iff _ body _ (by rw [message]; exact serialized) sent).mpr ?_) ?_
    (legacy_body_calls chain calls instructions feePayer recentBlockhash understood short few body
      serialized)⟩
  · rw [message, count]
    exact low
  · obtain ⟨blockhash, decoded⟩ := serialize_blockhash _ body serialized
    cases (serialize_writes _ blockhash decoded).symm.trans serialized
    have read := legacy_read calls instructions feePayer recentBlockhash understood short few
      blockhash
    have accepts := run_accepted_iff legacyFormat cryptoSignDetached cryptoSignVerifyDetached
      (LegacyMessage.compile instructions feePayer recentBlockhash) unique _ serialized parties
      .legacy _ covers read rfl rfl scheme
      (count ▸ payer_required instructions feePayer)
      (count ▸ legacy_room instructions feePayer recentBlockhash)
    rw [LeadersSigned, leaders, ← LegacyLayout.compile_keys instructions feePayer recentBlockhash,
      ← count]
    exact accepts

theorem versioned_decided (understood : List.Forall₂ Understood calls instructions)
    (short : calls.length ≤ 65535) (lookupTables : List AddressLookupTableAccount)
    (bounded : Bounded lookupTables) (holds : chain.Holds lookupTables)
    (fits : (combined instructions feePayer lookupTables).length ≤ 256)
    (few : (requiredSigners instructions feePayer).card ≤ 255) (body : Bytes)
    (serialized : MessageV0.serialize
      (compiled instructions feePayer recentBlockhash lookupTables) = .ok body)
    (parties : List (List Keypair))
    (scheme : Scheme cryptoSignDetached cryptoSignVerifyDetached parties.flatten body
      (covers .v0 body)) :
    ∃ wire, (signRun cryptoSignDetached (TransactionV0.new
        (compiled instructions feePayer recentBlockhash lookupTables)) parties).serialize = .ok wire ∧
      Decides cryptoSignVerifyDetached covers chain calls
        (covers .v0 body = body ∧ Covers instructions feePayer parties.flatten) wire := by
  have unique := VersionedLayout.ordered_keys_nodup instructions feePayer lookupTables
  have count := versioned_slots instructions feePayer recentBlockhash lookupTables few
  have message := run_message cryptoSignDetached versionedFormat _ body serialized parties
  have sent := envelope_serialized (signRun cryptoSignDetached (TransactionV0.new
    (compiled instructions feePayer recentBlockhash lookupTables)) parties) body
    (by rw [message]; exact serialized)
  refine ⟨_, sent, decided cryptoSignVerifyDetached covers chain calls _ _ _
    (versioned_decodes _ body _ (by rw [message]; exact serialized) sent) ?_
    (versioned_body_calls chain calls instructions feePayer recentBlockhash lookupTables bounded holds
      understood short fits body serialized)⟩
  obtain ⟨blockhash, decoded⟩ := serialize_v0_blockhash _ body serialized
  cases (serialize_v0_writes _ blockhash decoded).symm.trans serialized
  have read := congrArg (Option.map MessageBodyV0.fields) (versioned_read calls instructions feePayer
    recentBlockhash lookupTables understood short fits blockhash)
  have accepts := run_accepted_iff versionedFormat cryptoSignDetached cryptoSignVerifyDetached
    (compiled instructions feePayer recentBlockhash lookupTables) unique _ serialized parties
    .v0 _ covers read rfl rfl scheme
    (count ▸ payer_required instructions feePayer)
    (count ▸ ordered_room instructions feePayer recentBlockhash lookupTables)
  have leaders := ordered_leaders instructions feePayer recentBlockhash lookupTables
  rw [← count] at leaders
  rw [Covers]
  simp only [← leaders]
  exact accepts

end Decisions

section Sample

/-- A stand-in whose signatures tell messages apart by their length. -/
def stamp (message key : Bytes) : Bytes :=
  1 :: UInt8.ofNat message.length :: (List.replicate 30 0 ++ key)

def stampKey (message : Bytes) (secretKey : FixedBytes secretKeyLength) : Signature where
  bytes := stamp message (secretKey.bytes.drop 32)
  size := by
    change (secretKey.bytes.drop 32).length + 32 = 64
    rw [List.length_drop, secretKey.size]
    rfl

def verifyStamp (signature : Signature) (message : Bytes) (key : PublicKey) : Bool :=
  signature.bytes == stamp message key.toBytes

theorem stamp_scheme (signers : List Keypair)
    (filled : ∀ kp ∈ signers, kp.secretKeyBytes.bytes.drop 32 = kp.publicKey.toBytes) (body : Bytes) :
    Scheme stampKey verifyStamp signers body body where
  own kp member := by
    refine ⟨fun _ => rfl, fun _ => beq_iff_eq.mpr ?_⟩
    exact congrArg (stamp body) (filled kp member)
  blank key := rfl

/-- The sender of the tokens and the fee payer sign one after the other. -/
def sampleParties : List (List Keypair) := [[Keypair.filled 3], [], [Keypair.filled 6]]

end Sample
end SolanaSdk.Acceptance
