import Mathlib.Data.List.Induction
import SolanaSdk.Transactions

/-!
The signing loop slot by slot, and the comparison of the signed bytes with the
bytes on the wire: a legacy transaction signs exactly what follows its
signatures, a V0 transaction what follows its version byte.
-/

namespace SolanaSdk.SignedMessage

open ByteData PublicKeys Privileges LegacyMessage VersionedMessage Wire Transactions

section Slots
variable (cryptoSignDetached : Bytes → FixedBytes secretKeyLength → Signature)
  (keys : List PublicKey) (msgBytes : Bytes) {count : Nat}

theorem sign_slots_snoc (signers : List Keypair) (kp : Keypair) (slots : Signing count) :
    signSlots cryptoSignDetached keys msgBytes (signers ++ [kp]) slots =
      signSlot cryptoSignDetached keys msgBytes
        (signSlots cryptoSignDetached keys msgBytes signers slots) kp := by
  simp [signSlots]

/-- One signer changes nothing, or signs the slot of its own key. -/
theorem sign_slot_cases (slots : Signing count) (kp : Keypair) :
    (signSlot cryptoSignDetached keys msgBytes slots kp = slots ∧
      kp.publicKey ∉ keys.take count) ∨
    ∃ index, position (keys.take count) kp.publicKey = some index ∧
      (signSlot cryptoSignDetached keys msgBytes slots kp).signatures =
        slots.signatures.set index (kp.sign cryptoSignDetached msgBytes) ∧
      (signSlot cryptoSignDetached keys msgBytes slots kp).handed =
        slots.handed ++ [(kp, msgBytes)] := by
  unfold signSlot
  cases found : position (keys.take count) kp.publicKey with
  | none => exact Or.inl ⟨rfl, (position_eq_none _ _).mp found⟩
  | some index => exact Or.inr ⟨index, rfl, rfl, rfl⟩

/-- Every call that the loop makes is about the message bytes. -/
theorem sign_slots_handed (signers : List Keypair) (slots : Signing count)
    (call : Keypair × Bytes)
    (made : call ∈ (signSlots cryptoSignDetached keys msgBytes signers slots).handed) :
    call ∈ slots.handed ∨ call.2 = msgBytes := by
  induction signers using List.reverseRecOn with
  | nil => exact Or.inl made
  | append_singleton signers kp ih =>
      rw [sign_slots_snoc] at made
      rcases sign_slot_cases cryptoSignDetached keys msgBytes
        (signSlots cryptoSignDetached keys msgBytes signers slots) kp with
        ⟨same, _⟩ | ⟨_, _, _, log⟩
      · exact ih (same ▸ made)
      · rw [log] at made
        rcases List.mem_append.mp made with before | last
        · exact ih before
        · exact Or.inr (congrArg Prod.snd (List.mem_singleton.mp last))

/-- Every signer whose key has a slot is asked to sign. -/
theorem sign_slots_asked (signers : List Keypair) (slots : Signing count) (kp : Keypair)
    (member : kp ∈ signers) (slotted : kp.publicKey ∈ keys.take count) :
    (kp, msgBytes) ∈ (signSlots cryptoSignDetached keys msgBytes signers slots).handed := by
  induction signers using List.reverseRecOn with
  | nil => cases member
  | append_singleton signers last ih =>
      rw [sign_slots_snoc]
      rcases sign_slot_cases cryptoSignDetached keys msgBytes
        (signSlots cryptoSignDetached keys msgBytes signers slots) last with
        ⟨same, absent⟩ | ⟨_, _, _, log⟩
      · rw [same]
        rcases List.mem_append.mp member with before | new
        · exact ih before
        · exact absurd (List.mem_singleton.mp new ▸ slotted) absent
      · rw [log, List.mem_append, List.mem_singleton]
        rcases List.mem_append.mp member with before | new
        · exact Or.inl (ih before)
        · exact Or.inr (congrArg (·, msgBytes) (List.mem_singleton.mp new))

/-- A slot keeps its content or holds a signature by a signer whose key stands
at the slot's index. -/
theorem sign_slots_filled (signers : List Keypair) (slots : Signing count) (index : Nat)
    (signature : Signature)
    (held : (signSlots cryptoSignDetached keys msgBytes signers slots).signatures[index]? =
      some signature) :
    slots.signatures[index]? = some signature ∨
      ∃ kp ∈ signers, keys[index]? = some kp.publicKey ∧
        signature = kp.sign cryptoSignDetached msgBytes := by
  induction signers using List.reverseRecOn with
  | nil => exact Or.inl held
  | append_singleton signers kp ih =>
      have earlier : slots.signatures[index]? = some signature ∨
          (∃ kp ∈ signers, keys[index]? = some kp.publicKey ∧
            signature = kp.sign cryptoSignDetached msgBytes) →
          slots.signatures[index]? = some signature ∨
            ∃ other ∈ signers ++ [kp], keys[index]? = some other.publicKey ∧
              signature = other.sign cryptoSignDetached msgBytes := by
        rintro (kept | ⟨other, member, signed⟩)
        · exact Or.inl kept
        · exact Or.inr ⟨other, List.mem_append_left _ member, signed⟩
      rw [sign_slots_snoc] at held
      rcases sign_slot_cases cryptoSignDetached keys msgBytes
        (signSlots cryptoSignDetached keys msgBytes signers slots) kp with
        ⟨same, _⟩ | ⟨hit, found, written, _⟩
      · exact earlier (ih (same ▸ held))
      · rw [written, List.getElem?_set] at held
        split at held
        · next here =>
            subst here
            obtain ⟨inside, key, _⟩ := (position_eq_some _ _ _).mp found
            have placed : keys[hit]? = some kp.publicKey := by
              rw [← List.getElem?_take_of_lt (j := count) (by simp at inside; omega),
                List.getElem?_eq_getElem inside, key]
            split at held
            · exact Or.inr ⟨kp, by simp, placed, (Option.some.inj held).symm⟩
            · cases held
        · exact earlier (ih held)

/-- A hit of the search is a place of the searched key. -/
theorem position_take_placed (kp : Keypair) (hit : Nat)
    (found : position (keys.take count) kp.publicKey = some hit) :
    keys[hit]? = some kp.publicKey := by
  obtain ⟨inside, key, _⟩ := (position_eq_some _ _ _).mp found
  have bounded : hit < count := by
    rw [List.length_take] at inside
    omega
  rw [← List.getElem?_take_of_lt bounded, List.getElem?_eq_getElem inside, key]

theorem position_take_of_nodup (unique : keys.Nodup) (index : Nat) (bounded : index < count)
    (key : PublicKey) (placed : keys[index]? = some key) :
    position (keys.take count) key = some index := by
  obtain ⟨inside, rfl⟩ := List.getElem?_eq_some_iff.mp placed
  have first := position_of_nodup (keys.take count) (unique.sublist (List.take_sublist ..)) index
    (by rw [List.length_take]; omega)
  rwa [List.getElem_take] at first

/-- The slot of a key that some signer has ends up with a signature by such a
signer, the last one in the list. -/
theorem sign_slots_signed (unique : keys.Nodup) (signers : List Keypair) (slots : Signing count)
    (index : Nat) (bounded : index < count) (key : PublicKey) (placed : keys[index]? = some key)
    (covered : ∃ kp ∈ signers, kp.publicKey = key) :
    ∃ kp ∈ signers, kp.publicKey = key ∧
      (signSlots cryptoSignDetached keys msgBytes signers slots).signatures[index]? =
        some (kp.sign cryptoSignDetached msgBytes) := by
  induction signers using List.reverseRecOn with
  | nil =>
      obtain ⟨kp, member, _⟩ := covered
      cases member
  | append_singleton signers last ih =>
      rw [sign_slots_snoc]
      have step := sign_slot_cases cryptoSignDetached keys msgBytes
        (signSlots cryptoSignDetached keys msgBytes signers slots) last
      have size := (signSlots cryptoSignDetached keys msgBytes signers slots).size
      by_cases own : last.publicKey = key
      · -- The last signer owns the slot and overwrites whatever it held.
        subst own
        have found := position_take_of_nodup keys unique index bounded _ placed
        rcases step with ⟨_, absent⟩ | ⟨hit, again, written, _⟩
        · rw [(position_eq_none _ _).mpr absent] at found
          cases found
        · cases found.symm.trans again
          refine ⟨last, by simp, rfl, ?_⟩
          rw [written, List.getElem?_set_self (by rw [size]; exact bounded)]
      · have before : ∃ kp ∈ signers, kp.publicKey = key := by
          rcases covered with ⟨kp, member, same⟩
          rcases List.mem_append.mp member with earlier | new
          · exact ⟨kp, earlier, same⟩
          · exact absurd (List.mem_singleton.mp new ▸ same) own
        obtain ⟨kp, member, same, signed⟩ := ih before
        refine ⟨kp, List.mem_append_left _ member, same, ?_⟩
        rcases step with ⟨unchanged, _⟩ | ⟨hit, found, written, _⟩
        · rw [unchanged, signed]
        · -- The last signer writes elsewhere: distinct keys have distinct slots.
          have other : hit ≠ index := by
            rintro rfl
            rw [position_take_placed keys last hit found] at placed
            exact own (Option.some.inj placed)
          rw [written, List.getElem?_set_ne other, signed]

end Slots

section Wired
variable (cryptoSignDetached : Bytes → FixedBytes secretKeyLength → Signature)

/-- One `sign` call and the envelope after it agree: a reader finds the handed
byte string behind `version`, and every slot that the call filled holds a
signature over it. -/
def SignedAsSent (version : Bytes) (signers : List Keypair) (handed : List (Keypair × Bytes))
    (before after : List Signature) (wire : Bytes) : Prop :=
  ∃ body, wireMessage wire = some (version ++ body) ∧
    (∀ call ∈ handed, call.2 = body) ∧
    ∀ (index : Nat) (signature : Signature), after[index]? = some signature →
      before[index]? = some signature ∨
        ∃ kp ∈ signers, signature = kp.sign cryptoSignDetached body

theorem sign_slots_as_sent (version : Bytes) (keys : List PublicKey) (body : Bytes)
    (signers : List Keypair) (before : List Signature) (count : UInt8)
    (size : before.length = count.toNat) :
    SignedAsSent cryptoSignDetached version signers
      (signSlots cryptoSignDetached keys body signers ⟨before, size, []⟩).handed before
      (signSlots cryptoSignDetached keys body signers ⟨before, size, []⟩).signatures
      (signatureSection (signSlots cryptoSignDetached keys body signers
        ⟨before, size, []⟩).signatures ++ (version ++ body)) := by
  refine ⟨body, ?_, ?_, ?_⟩
  · apply wire_message_section
    rw [(signSlots cryptoSignDetached keys body signers ⟨before, size, []⟩).size]
    exact Nat.le_of_lt_succ count.toNat_lt
  · intro call made
    rcases sign_slots_handed cryptoSignDetached keys body signers _ call made with none | same
    · cases none
    · exact same
  · intro index signature held
    rcases sign_slots_filled cryptoSignDetached keys body signers _ index signature held with
      kept | ⟨kp, member, _, signed⟩
    · exact Or.inl kept
    · exact Or.inr ⟨kp, member, signed⟩

section Formats
variable {Msg : Type} {format : Format Msg} (tx : Envelope format)

omit cryptoSignDetached in
theorem envelope_serialized (body : Bytes)
    (serialized : format.serializeMessage tx.message = .ok body) :
    tx.serialize = .ok (signatureSection tx.signatures ++ (format.version ++ body)) := by
  rw [Envelope.serialize, serialized]
  rfl

variable (signers : List Keypair) (nonempty : signers ≠ [])
include nonempty

theorem signing_serialized (body : Bytes)
    (serialized : format.serializeMessage tx.message = .ok body) :
    tx.signing cryptoSignDetached signers =
      .ok (signSlots cryptoSignDetached (format.keys tx.message) body signers
        ⟨tx.signatures, tx.size, []⟩) := by
  rw [Envelope.signing, if_neg (by simpa using nonempty), serialized]
  rfl

theorem sign_serialized (body : Bytes)
    (serialized : format.serializeMessage tx.message = .ok body) :
    tx.sign cryptoSignDetached signers =
      .ok ⟨tx.message, (signSlots cryptoSignDetached (format.keys tx.message) body signers
        ⟨tx.signatures, tx.size, []⟩).signatures, Signing.size _⟩ := by
  rw [Envelope.sign, signing_serialized cryptoSignDetached tx signers nonempty body serialized]
  rfl

/-- Where the message does not serialize, signing and sending throw alike. -/
theorem envelope_as_sent :
    (∃ failure, tx.sign cryptoSignDetached signers = .error failure ∧
      tx.serialize = .error failure) ∨
    ∃ run after wire, tx.signing cryptoSignDetached signers = .ok run ∧
      tx.sign cryptoSignDetached signers = .ok after ∧ after.serialize = .ok wire ∧
      SignedAsSent cryptoSignDetached format.version signers run.handed tx.signatures
        after.signatures wire := by
  cases serialized : format.serializeMessage tx.message with
  | error failure =>
      refine Or.inl ⟨failure, ?_, ?_⟩
      · rw [Envelope.sign, Envelope.signing, if_neg (by simpa using nonempty), serialized]
        rfl
      · rw [Envelope.serialize, serialized]
        rfl
  | ok body =>
      exact Or.inr ⟨_, _, _,
        signing_serialized cryptoSignDetached tx signers nonempty body serialized,
        sign_serialized cryptoSignDetached tx signers nonempty body serialized,
        envelope_serialized _ body serialized,
        sign_slots_as_sent cryptoSignDetached format.version _ body signers tx.signatures _ tx.size⟩

end Formats

/-- What is signed is what a validator reads, but for the version byte of a V0
transaction. -/
theorem signed_as_sent (signers : List Keypair) (nonempty : signers ≠ []) :
    (∀ tx : Transaction,
      (∃ failure, tx.sign cryptoSignDetached signers = .error failure ∧
        tx.serialize = .error failure) ∨
      ∃ run after wire, tx.signing cryptoSignDetached signers = .ok run ∧
        tx.sign cryptoSignDetached signers = .ok after ∧ after.serialize = .ok wire ∧
        SignedAsSent cryptoSignDetached [] signers run.handed tx.signatures after.signatures
          wire) ∧
    (∀ tx : TransactionV0,
      (∃ failure, tx.sign cryptoSignDetached signers = .error failure ∧
        tx.serialize = .error failure) ∨
      ∃ run after wire, tx.signing cryptoSignDetached signers = .ok run ∧
        tx.sign cryptoSignDetached signers = .ok after ∧ after.serialize = .ok wire ∧
        SignedAsSent cryptoSignDetached [0x80] signers run.handed tx.signatures after.signatures
          wire) :=
  ⟨fun tx => envelope_as_sent cryptoSignDetached tx signers nonempty,
    fun tx => envelope_as_sent cryptoSignDetached tx signers nonempty⟩

end Wired

/-- Base58 for 32 zero bytes, the blockhash text of the sample transactions. -/
def zeroBlockhash : Text := ofLiteral "11111111111111111111111111111111"

theorem zero_blockhash_valid : ValidBlockhash zeroBlockhash :=
  ⟨List.replicate 32 0, by decide +kernel, rfl⟩

/-- A keypair whose key bytes are equal, for concrete inputs. -/
def Keypair.filled (byte : UInt8) : Keypair := ⟨.fill publicKeyLength byte, .fill secretKeyLength byte⟩

/-- A stand-in for the signature scheme: the secret key itself. -/
def revealKey (_message : Bytes) (secretKey : FixedBytes secretKeyLength) : Signature := secretKey

/-- A V0 message that mentions its fee payer and nothing else. -/
def payerOnly : MessageV0 := ⟨⟨1, 0, 0⟩, [.filled 5], zeroBlockhash, [], []⟩

theorem signed_as_sent_payer :
    (∀ tx : Transaction,
      (∃ failure, tx.sign revealKey [Keypair.filled 5] = .error failure ∧
        tx.serialize = .error failure) ∨
      ∃ run after wire, tx.signing revealKey [Keypair.filled 5] = .ok run ∧
        tx.sign revealKey [Keypair.filled 5] = .ok after ∧ after.serialize = .ok wire ∧
        SignedAsSent revealKey [] [Keypair.filled 5] run.handed tx.signatures after.signatures
          wire) ∧
    (∀ tx : TransactionV0,
      (∃ failure, tx.sign revealKey [Keypair.filled 5] = .error failure ∧
        tx.serialize = .error failure) ∨
      ∃ run after wire, tx.signing revealKey [Keypair.filled 5] = .ok run ∧
        tx.sign revealKey [Keypair.filled 5] = .ok after ∧ after.serialize = .ok wire ∧
        SignedAsSent revealKey [0x80] [Keypair.filled 5] run.handed tx.signatures after.signatures
          wire) :=
  signed_as_sent revealKey [Keypair.filled 5] (List.cons_ne_nil _ _)

/-- The version byte stands on the wire but is not signed. -/
theorem version_byte_unsigned :
    compile [] (.filled 5) zeroBlockhash [] = .ok payerOnly ∧
    ∃ run after wire,
      (TransactionV0.new payerOnly).signing revealKey [Keypair.filled 5] = .ok run ∧
      (TransactionV0.new payerOnly).sign revealKey [Keypair.filled 5] = .ok after ∧
      after.serialize = .ok wire ∧
      ¬ SignedAsSent revealKey [] [Keypair.filled 5] run.handed
        (TransactionV0.new payerOnly).signatures after.signatures wire := by
  obtain ⟨body, serialized⟩ := serialize_v0_valid payerOnly zero_blockhash_valid
  have listed : [Keypair.filled 5] ≠ [] := List.cons_ne_nil _ _
  refine ⟨by decide +kernel, _, _, _,
    signing_serialized revealKey (TransactionV0.new payerOnly) _ listed body serialized,
    sign_serialized revealKey (TransactionV0.new payerOnly) _ listed body serialized,
    envelope_serialized _ body serialized, ?_⟩
  rintro ⟨signed, read, handed, _⟩
  have same : body = signed :=
    handed _ (sign_slots_asked revealKey _ body _ _ (Keypair.filled 5) (by decide) (by decide))
  rw [wire_message_section _ (by rw [(signSlots ..).size]; decide)] at read
  -- A byte string is never its own tail.
  exact absurd (congrArg List.length (Option.some.inj read)) (by simp [same, versionedFormat])

end SolanaSdk.SignedMessage
