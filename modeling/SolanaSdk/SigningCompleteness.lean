import SolanaSdk.SignedMessage
import SolanaSdk.LegacyLayout
import SolanaSdk.VersionedResolution

/-!
A transaction built from a compiled message has a slot for every required
signer and signs it, whenever the signer keys stand in front of all others.
`MessageV0::compile` sorts them there; `Message::compile` leaves them where
they are first mentioned.
-/

namespace SolanaSdk.SigningCompleteness

open ByteData PublicKeys Privileges Instructions RankedBlocks Wire Transactions SignedMessage
open VersionedMessage (MessageV0 AccountInfo)

section Covered
variable (instructions : List Instruction) (feePayer : PublicKey)

/-- A keypair for the fee payer and for every account marked signer. -/
def Covers (signers : List Keypair) : Prop :=
  ∀ key, Signs instructions feePayer key → ∃ kp ∈ signers, kp.publicKey = key

theorem covers_nonempty (signers : List Keypair) (covered : Covers instructions feePayer signers) :
    signers ≠ [] := by
  obtain ⟨kp, member, _⟩ := covered feePayer (Or.inl rfl)
  exact List.ne_nil_of_mem member

variable (cryptoSignDetached : Bytes → FixedBytes secretKeyLength → Signature)

/-- Keys that must sign and have a slot get it signed. -/
theorem leading_slots_signed {count : Nat} (keys : List PublicKey) (unique : keys.Nodup)
    (body : Bytes) (signers : List Keypair) (covered : Covers instructions feePayer signers)
    (slots : Signing count) (index : Nat) (bounded : index < count)
    (key : PublicKey) (placed : keys[index]? = some key)
    (signs : Signs instructions feePayer key) :
    ∃ kp ∈ signers, keys[index]? = some kp.publicKey ∧
      (signSlots cryptoSignDetached keys body signers slots).signatures[index]? =
        some (kp.sign cryptoSignDetached body) := by
  obtain ⟨kp, member, rfl, signed⟩ := sign_slots_signed cryptoSignDetached keys body unique
    signers slots index bounded key placed (covered key signs)
  exact ⟨kp, member, placed, signed⟩

end Covered

section Legacy
variable (instructions : List Instruction) (feePayer : PublicKey) (recentBlockhash : Text)
  (cryptoSignDetached : Bytes → FixedBytes secretKeyLength → Signature)

/-- Whoever covers the required signers can complete the transaction. -/
def SigningComplete : Prop :=
  ∀ signers, Covers instructions feePayer signers →
    ∃ body after,
      Message.serialize (LegacyMessage.compile instructions feePayer recentBlockhash) = .ok body ∧
      (Transaction.new (LegacyMessage.compile instructions feePayer recentBlockhash)).sign
        cryptoSignDetached signers = .ok after ∧
      after.signatures.length = (requiredSigners instructions feePayer).card ∧
      ∀ index < after.signatures.length, ∃ kp ∈ signers,
        (LegacyMessage.compile instructions feePayer recentBlockhash).accountKeys[index]? =
          some kp.publicKey ∧
        after.signatures[index]? = some (kp.sign cryptoSignDetached body)

/-- In order of first mention, every required signer comes before every key
that need not sign. -/
def SignersMentionedFirst : Prop :=
  (mentions instructions feePayer).eraseDups.Pairwise fun before after =>
    Signs instructions feePayer after → Signs instructions feePayer before

instance : Decidable (SignersMentionedFirst instructions feePayer) :=
  inferInstanceAs (Decidable (List.Pairwise _ _))

theorem legacy_count_required :
    (LegacyMessage.compile instructions feePayer recentBlockhash).accountKeys.countP
      (fun key => decide (Signs instructions feePayer key)) =
      (requiredSigners instructions feePayer).card :=
  count_required instructions feePayer _ (LegacyLayout.compile_keys_nodup ..) fun key signs =>
    (LegacyLayout.mem_compile_keys ..).mpr (signs_mentioned instructions feePayer key signs)

theorem legacy_slots (few : (distinctAccounts instructions feePayer).card ≤ 255) :
    (LegacyMessage.compile instructions feePayer recentBlockhash).header.numRequiredSignatures.toNat =
      (requiredSigners instructions feePayer).card := by
  have fits : (LegacyMessage.compile instructions feePayer recentBlockhash).accountKeys.length ≤
      255 := by
    rw [LegacyLayout.compile_keys_length]
    exact few
  rw [LegacyLayout.compile_header, header_signatures _ _ fits]
  exact legacy_count_required instructions feePayer recentBlockhash

theorem signers_first_iff :
    SignersMentionedFirst instructions feePayer ↔
      ∀ index (inside : index <
          (LegacyMessage.compile instructions feePayer recentBlockhash).accountKeys.length),
        index < (requiredSigners instructions feePayer).card →
        Signs instructions feePayer
          (LegacyMessage.compile instructions feePayer recentBlockhash).accountKeys[index] := by
  rw [SignersMentionedFirst, ← LegacyLayout.compile_keys instructions feePayer recentBlockhash,
    ← leading_iff, legacy_count_required]

/-- A keypair with a given public key, for any signer one may need. -/
def keypairFor (key : PublicKey) : Keypair := ⟨key.buffer, .fill secretKeyLength 0⟩

theorem keypair_for_public_key (key : PublicKey) : (keypairFor key).publicKey = key := rfl

/-- One keypair for every required signer and none besides. -/
def requiredKeypairs : List Keypair :=
  ((mentions instructions feePayer).filter fun key => Signs instructions feePayer key).map keypairFor

theorem required_keypairs_cover :
    Covers instructions feePayer (requiredKeypairs instructions feePayer) := by
  intro key signs
  have mentioned := (mem_mentions ..).mpr (signs_mentioned instructions feePayer key signs)
  refine ⟨keypairFor key, List.mem_map_of_mem (List.mem_filter.mpr ⟨mentioned, ?_⟩), rfl⟩
  exact decide_eq_true signs

theorem required_keypairs_sign (kp : Keypair)
    (member : kp ∈ requiredKeypairs instructions feePayer) :
    Signs instructions feePayer kp.publicKey := by
  rcases List.mem_map.mp member with ⟨key, required, rfl⟩
  rw [keypair_for_public_key]
  exact of_decide_eq_true (List.mem_filter.mp required).2

/-- Nothing moves the signers to the front, so signing is complete exactly for
the inputs that mention them first. -/
theorem legacy_signing_complete_iff
    (few : (distinctAccounts instructions feePayer).card ≤ 255)
    (valid : ValidBlockhash recentBlockhash) :
    SigningComplete instructions feePayer recentBlockhash cryptoSignDetached ↔
      SignersMentionedFirst instructions feePayer := by
  rw [signers_first_iff instructions feePayer recentBlockhash]
  have unique := LegacyLayout.compile_keys_nodup instructions feePayer recentBlockhash
  have slots := legacy_slots instructions feePayer recentBlockhash few
  constructor
  · -- Signers who are exactly the required ones can only fill slots of required signers.
    intro complete index inside counted
    obtain ⟨body, after, _, _, size, filled⟩ :=
      complete _ (required_keypairs_cover instructions feePayer)
    obtain ⟨kp, member, placed, _⟩ := filled index (size ▸ counted)
    rw [List.getElem?_eq_getElem inside] at placed
    rw [Option.some.inj placed]
    exact required_keypairs_sign instructions feePayer kp member
  · intro leading signers covered
    obtain ⟨body, serialized⟩ := serialize_valid
      (LegacyMessage.compile instructions feePayer recentBlockhash) valid
    refine ⟨body, _, serialized, sign_serialized cryptoSignDetached _ signers
      (covers_nonempty _ _ _ covered) body serialized, (Signing.size _).trans slots,
      fun index bounded => ?_⟩
    have counted : index < (requiredSigners instructions feePayer).card :=
      Nat.lt_of_lt_of_eq bounded ((Signing.size _).trans slots)
    have inside : index <
        (LegacyMessage.compile instructions feePayer recentBlockhash).accountKeys.length :=
      Nat.lt_of_lt_of_le counted (by
        rw [← legacy_count_required instructions feePayer recentBlockhash]
        exact List.countP_le_length)
    exact leading_slots_signed instructions feePayer cryptoSignDetached _ unique body signers
      covered _ index (Nat.lt_of_lt_of_eq counted slots.symm) _ (List.getElem?_eq_getElem inside)
      (leading index inside counted)

end Legacy

section Versioned
variable (instructions : List Instruction) (feePayer : PublicKey) (recentBlockhash : Text)
  (lookupTables : List LookupTables.AddressLookupTableAccount)

/-- A required signer is a static key, whatever the tables hold. -/
theorem signs_static_key (key : PublicKey) (signs : Signs instructions feePayer key) :
    key ∈ (VersionedLayout.ordered instructions feePayer lookupTables).map AccountInfo.key := by
  apply (VersionedLayout.mem_ordered_keys ..).mpr
  rcases signs with payer | ⟨am, listed, same, marked⟩
  · exact Or.inl payer
  · exact Or.inr (Or.inr ⟨am, listed, same, Or.inl marked⟩)

theorem static_key_placed (index : Nat)
    (inside : index < (VersionedLayout.ordered instructions feePayer lookupTables).length) :
    ((VersionedLayout.ordered instructions feePayer lookupTables).map AccountInfo.key)[index]? =
      some (VersionedLayout.ordered instructions feePayer lookupTables)[index].key := by
  rw [List.getElem?_map, List.getElem?_eq_getElem inside, Option.map_some]

/-- The static half counts every required signer once. -/
theorem ordered_count_required :
    (VersionedLayout.ordered instructions feePayer lookupTables).countP
      (isSigner VersionedLayout.grant) = (requiredSigners instructions feePayer).card := by
  rw [← count_required instructions feePayer _
    (VersionedLayout.ordered_keys_nodup instructions feePayer lookupTables), List.countP_map]
  · apply List.countP_congr
    intro a member
    simp only [isSigner, VersionedLayout.grant, Function.comp_apply, decide_eq_true_eq]
    exact VersionedLayout.static_signer instructions feePayer lookupTables a
      ((VersionedLayout.ordered_perm instructions feePayer lookupTables).mem_iff.mp member)
  · exact signs_static_key instructions feePayer lookupTables

/-- A static position has a slot exactly when its key must sign. -/
theorem ordered_slot_iff (index : Nat)
    (inside : index < (VersionedLayout.ordered instructions feePayer lookupTables).length) :
    index < (requiredSigners instructions feePayer).card ↔
      Signs instructions feePayer
        (VersionedLayout.ordered instructions feePayer lookupTables)[index].key := by
  have layout : InBlocks VersionedLayout.grant
      (VersionedLayout.ordered instructions feePayer lookupTables) :=
    VersionedLayout.order_in_blocks _
  -- The signers are blocks 0 and 1, so their count is where block 2 begins.
  rw [← ordered_count_required instructions feePayer lookupTables, count_signers,
    ranked_boundary _ 2 _ layout index inside, Privilege.block_lt_two]
  exact VersionedLayout.static_signer instructions feePayer lookupTables _
    ((VersionedLayout.ordered_perm instructions feePayer lookupTables).mem_iff.mp
      (List.getElem_mem inside))

theorem versioned_slots (few : (requiredSigners instructions feePayer).card ≤ 255) :
    (VersionedResolution.compiled instructions feePayer recentBlockhash
      lookupTables).header.numRequiredSignatures.toNat =
      (requiredSigners instructions feePayer).card := by
  have counted := ordered_count_required instructions feePayer lookupTables
  rw [VersionedResolution.compiled, VersionedLayout.count_header_of, ← counted]
  exact byte_count_exact _ _ (by rw [counted]; exact few)

/-- `TransactionV0` over a compiled message gives every required signer a slot
and signs it. -/
theorem versioned_signing_complete
    (cryptoSignDetached : Bytes → FixedBytes secretKeyLength → Signature)
    (bounded : LookupTables.Bounded lookupTables)
    (few : (requiredSigners instructions feePayer).card ≤ 255)
    (valid : ValidBlockhash recentBlockhash) (signers : List Keypair)
    (covered : Covers instructions feePayer signers)
    (agree : ∀ left ∈ signers, ∀ right ∈ signers, left.publicKey = right.publicKey → left = right) :
    ∃ msg body after,
      VersionedMessage.compile instructions feePayer recentBlockhash lookupTables = .ok msg ∧
      MessageV0.serialize msg = .ok body ∧
      (TransactionV0.new msg).sign cryptoSignDetached signers = .ok after ∧
      after.signatures.length = (requiredSigners instructions feePayer).card ∧
      (∀ index < after.signatures.length, ∃ kp ∈ signers,
        msg.staticAccountKeys[index]? = some kp.publicKey ∧
        ∀ other ∈ signers, msg.staticAccountKeys[index]? = some other.publicKey →
          after.signatures[index]? = some (other.sign cryptoSignDetached body)) ∧
      ∀ key, Signs instructions feePayer key →
        ∃ index < after.signatures.length, msg.staticAccountKeys[index]? = some key := by
  have slots := versioned_slots instructions feePayer recentBlockhash lookupTables few
  have unique := VersionedLayout.ordered_keys_nodup instructions feePayer lookupTables
  have slotted := ordered_slot_iff instructions feePayer lookupTables
  obtain ⟨body, serialized⟩ := serialize_v0_valid
    (VersionedResolution.compiled instructions feePayer recentBlockhash lookupTables) valid
  refine ⟨_, body, _, VersionedResolution.compile_returns instructions feePayer recentBlockhash
    lookupTables bounded, serialized, sign_serialized cryptoSignDetached _ signers
    (covers_nonempty _ _ _ covered) body serialized, (Signing.size _).trans slots, ?_, ?_⟩
  · intro index inSlots
    have counted := Nat.lt_of_lt_of_eq inSlots ((Signing.size _).trans slots)
    have inside : index < (VersionedLayout.ordered instructions feePayer lookupTables).length :=
      Nat.lt_of_lt_of_le counted (by
        rw [← ordered_count_required instructions feePayer lookupTables]
        exact List.countP_le_length)
    have placed := static_key_placed instructions feePayer lookupTables index inside
    obtain ⟨kp, member, key, signed⟩ := leading_slots_signed instructions feePayer
      cryptoSignDetached _ unique body signers covered _ index
      (Nat.lt_of_lt_of_eq counted slots.symm) _ placed ((slotted index inside).mp counted)
    refine ⟨kp, member, key, fun other listed same => ?_⟩
    rw [agree other listed kp member (Option.some.inj (same.symm.trans key))]
    exact signed
  · intro key signs
    have static := signs_static_key instructions feePayer lookupTables key signs
    obtain ⟨index, inside, rfl⟩ := List.getElem_of_mem static
    rw [List.length_map] at inside
    rw [List.getElem_map] at signs ⊢
    refine ⟨index, ?_, static_key_placed instructions feePayer lookupTables index inside⟩
    exact Nat.lt_of_lt_of_eq ((slotted index inside).mpr signs)
      ((Signing.size _).trans slots).symm

end Versioned

section Samples
open LegacyLayout (signerLast signer_last_few)

theorem legacy_signing_complete_signer_last :
    SigningComplete signerLast (.filled 5) zeroBlockhash revealKey ↔
      SignersMentionedFirst signerLast (.filled 5) :=
  legacy_signing_complete_iff signerLast (.filled 5) zeroBlockhash revealKey signer_last_few
    zero_blockhash_valid

/-- The signer behind a plain account never gets a slot, whoever signs. -/
theorem signer_last_unsigned :
    (distinctAccounts signerLast (.filled 5)).card ≤ 255 ∧ ValidBlockhash zeroBlockhash ∧
    ¬ SigningComplete signerLast (.filled 5) zeroBlockhash revealKey := by
  refine ⟨signer_last_few, zero_blockhash_valid, fun complete => ?_⟩
  have covered : Covers signerLast (.filled 5) [Keypair.filled 5, Keypair.filled 2] := by
    rintro key (rfl | ⟨am, listed, rfl, marked⟩)
    · exact ⟨Keypair.filled 5, by simp, rfl⟩
    · have second : ∀ am ∈ metas signerLast, am.isSigner = true → am.pubkey = .filled 2 := by decide
      exact ⟨Keypair.filled 2, by simp, (second am listed marked).symm⟩
  obtain ⟨body, after, _, _, size, filled⟩ := complete _ covered
  have slots := legacy_slots signerLast (.filled 5) zeroBlockhash signer_last_few
  have two : (LegacyMessage.compile signerLast (.filled 5)
    zeroBlockhash).header.numRequiredSignatures.toNat = 2 := by decide +kernel
  obtain ⟨kp, member, placed, _⟩ := filled 1 (by omega)
  -- The key at index 1 is the plain account's.
  have plain : (LegacyMessage.compile signerLast (.filled 5) zeroBlockhash).accountKeys[1]? =
    some (.filled 1) := by decide +kernel
  rw [plain] at placed
  simp only [List.mem_cons, List.not_mem_nil, or_false] at member
  rcases member with rfl | rfl
  · exact absurd (Option.some.inj placed) (by decide)
  · exact absurd (Option.some.inj placed) (by decide)

open VersionedResolution (mixedUses sampleTable)

theorem versioned_signing_complete_mixed :
    ∃ msg body after,
      VersionedMessage.compile mixedUses (.filled 5) zeroBlockhash [sampleTable] = .ok msg ∧
      MessageV0.serialize msg = .ok body ∧
      (TransactionV0.new msg).sign revealKey
        [Keypair.filled 3, Keypair.filled 5, Keypair.filled 8] = .ok after ∧
      after.signatures.length = (requiredSigners mixedUses (.filled 5)).card ∧
      (∀ index < after.signatures.length,
        ∃ kp ∈ [Keypair.filled 3, Keypair.filled 5, Keypair.filled 8],
        msg.staticAccountKeys[index]? = some kp.publicKey ∧
        ∀ other ∈ [Keypair.filled 3, Keypair.filled 5, Keypair.filled 8],
          msg.staticAccountKeys[index]? = some other.publicKey →
          after.signatures[index]? = some (other.sign revealKey body)) ∧
      ∀ key, Signs mixedUses (.filled 5) key →
        ∃ index < after.signatures.length, msg.staticAccountKeys[index]? = some key := by
  apply versioned_signing_complete mixedUses (.filled 5) zeroBlockhash [sampleTable] revealKey
  · decide
  · exact Nat.le_trans (Finset.card_filter_le _ _) (Nat.le_trans (List.toFinset_card_le _) (by decide))
  · exact zero_blockhash_valid
  · rintro key (rfl | ⟨am, listed, rfl, marked⟩)
    · exact ⟨Keypair.filled 5, by simp, rfl⟩
    · have only : ∀ am ∈ metas mixedUses, am.isSigner = true → am.pubkey = .filled 3 := by decide
      exact ⟨Keypair.filled 3, by simp, (only am listed marked).symm⟩
  · decide

end Samples

end SolanaSdk.SigningCompleteness
