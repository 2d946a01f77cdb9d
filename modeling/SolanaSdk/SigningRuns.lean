import SolanaSdk.SigningCompleteness

/-!
Runs of `sign` calls on one transaction object, where a call that throws leaves
behind whatever it had written. A run amounts to one loop over the signers of
the calls that returned. On distinct keys its outcome depends on who signed
only, not on the order, the repetitions or the calls they came in.
-/

namespace SolanaSdk.SigningRuns

open ByteData PublicKeys Privileges Instructions Registers Wire Transactions SignedMessage
open VersionedMessage (MessageV0)

section Runs
variable {Msg : Type} {format : Format Msg}
  (cryptoSignDetached : Bytes → FixedBytes secretKeyLength → Signature)

/-- One round of the signing loop on the object itself. -/
def signOne (msgBytes : Bytes) (tx : Envelope format) (kp : Keypair) : Envelope format :=
  let slots := signSlot cryptoSignDetached (format.keys tx.message) msgBytes
    ⟨tx.signatures, tx.size, []⟩ kp
  ⟨tx.message, slots.signatures, slots.size⟩

/-- `sign` as a method: how it ends, and the object at that moment. -/
def signCall (tx : Envelope format) (signers : List Keypair) :
    Except Failure Unit × Envelope format :=
  if signers.isEmpty then (throw (.runtimeError format.noSigners), tx)
  else match format.serializeMessage tx.message with
    | .error failure => (throw failure, tx)
    | .ok msgBytes => (pure (), signers.foldl (signOne cryptoSignDetached msgBytes) tx)

def signRun (tx : Envelope format) : List (List Keypair) → Envelope format
  | [] => tx
  | signers :: later => signRun (signCall cryptoSignDetached tx signers).2 later

/-- The signers of the calls that returned, in the order of the calls. -/
def passed (tx : Envelope format) : List (List Keypair) → List Keypair
  | [] => []
  | signers :: later =>
      let call := signCall cryptoSignDetached tx signers
      match call.1 with
      | .ok _ => signers ++ passed call.2 later
      | .error _ => passed call.2 later

/-- The object after a loop over `signers` that starts from it. -/
def signedBy (msgBytes : Bytes) (tx : Envelope format) (signers : List Keypair) : Envelope format :=
  let slots := signSlots cryptoSignDetached (format.keys tx.message) msgBytes signers
    ⟨tx.signatures, tx.size, []⟩
  ⟨tx.message, slots.signatures, slots.size⟩

/-- The log of calls has no part in what the loop writes. -/
theorem sign_slots_log (keys : List PublicKey) (msgBytes : Bytes) {count : Nat}
    (signers : List Keypair) (slots other : Signing count)
    (same : slots.signatures = other.signatures) :
    (signSlots cryptoSignDetached keys msgBytes signers slots).signatures =
      (signSlots cryptoSignDetached keys msgBytes signers other).signatures := by
  induction signers generalizing slots other with
  | nil => exact same
  | cons kp rest ih =>
      apply ih
      unfold signSlot
      split
      · simp [same]
      · exact same

theorem sign_loop (msgBytes : Bytes) (signers : List Keypair) (tx : Envelope format) :
    signers.foldl (signOne cryptoSignDetached msgBytes) tx =
      signedBy cryptoSignDetached msgBytes tx signers := by
  induction signers generalizing tx with
  | nil => rfl
  | cons kp rest ih =>
      rw [List.foldl_cons, ih]
      have log := sign_slots_log cryptoSignDetached (format.keys tx.message) msgBytes rest
        ⟨(signOne cryptoSignDetached msgBytes tx kp).signatures,
          (signOne cryptoSignDetached msgBytes tx kp).size, []⟩
        (signSlot cryptoSignDetached (format.keys tx.message) msgBytes
          ⟨tx.signatures, tx.size, []⟩ kp) rfl
      simp only [signedBy, signOne, signSlots, List.foldl_cons, Envelope.mk.injEq, true_and]
      exact log

theorem signed_by_append (msgBytes : Bytes) (tx : Envelope format) (left right : List Keypair) :
    signedBy cryptoSignDetached msgBytes (signedBy cryptoSignDetached msgBytes tx left) right =
      signedBy cryptoSignDetached msgBytes tx (left ++ right) := by
  rw [← sign_loop, ← sign_loop, ← sign_loop, List.foldl_append]

/-- What one call does: it throws and writes nothing, or it runs its loop. -/
theorem sign_call_cases (tx : Envelope format) (signers : List Keypair) :
    (∃ failure, signCall cryptoSignDetached tx signers = (.error failure, tx) ∧
      tx.sign cryptoSignDetached signers = .error failure) ∨
    ∃ msgBytes, format.serializeMessage tx.message = .ok msgBytes ∧
      signCall cryptoSignDetached tx signers =
        (.ok (), signedBy cryptoSignDetached msgBytes tx signers) ∧
      tx.sign cryptoSignDetached signers =
        .ok (signedBy cryptoSignDetached msgBytes tx signers) := by
  unfold signCall Envelope.sign Envelope.signing
  by_cases empty : signers.isEmpty = true
  · rw [if_pos empty, if_pos empty]
    exact Or.inl ⟨_, rfl, rfl⟩
  · rw [if_neg empty, if_neg empty]
    cases serialized : format.serializeMessage tx.message with
    | error failure => exact Or.inl ⟨failure, rfl, rfl⟩
    | ok msgBytes => exact Or.inr ⟨msgBytes, rfl, by rw [← sign_loop]; rfl, rfl⟩

theorem run_signed (calls : List (List Keypair)) (tx : Envelope format) (msgBytes : Bytes)
    (serialized : format.serializeMessage tx.message = .ok msgBytes) :
    signRun cryptoSignDetached tx calls =
      signedBy cryptoSignDetached msgBytes tx (passed cryptoSignDetached tx calls) := by
  induction calls generalizing tx with
  | nil => rfl
  | cons signers later ih =>
      rw [signRun, passed]
      rcases sign_call_cases cryptoSignDetached tx signers with
        ⟨failure, threw, _⟩ | ⟨again, same, returned, _⟩
      · rw [threw]
        exact ih tx serialized
      · cases serialized.symm.trans same
        rw [returned]
        have tail := ih (signedBy cryptoSignDetached msgBytes tx signers) serialized
        dsimp only
        rw [tail, signed_by_append]

theorem run_unsigned (calls : List (List Keypair)) (tx : Envelope format) (failure : Failure)
    (failed : format.serializeMessage tx.message = .error failure) :
    signRun cryptoSignDetached tx calls = tx ∧ passed cryptoSignDetached tx calls = [] := by
  induction calls with
  | nil => exact ⟨rfl, rfl⟩
  | cons signers later ih =>
      rw [signRun, passed]
      rcases sign_call_cases cryptoSignDetached tx signers with
        ⟨_, threw, _⟩ | ⟨msgBytes, serialized, _, _⟩
      · rw [threw]
        exact ih
      · rw [failed] at serialized
        cases serialized

/-- With distinct keys and one keypair to a public key, the loop's outcome is a
matter of which keypairs it is run on. -/
theorem slots_determined (keys : List PublicKey) (unique : keys.Nodup) (msgBytes : Bytes)
    {count : Nat} (slots : Signing count) (left right : List Keypair)
    (same : ∀ kp, kp ∈ left ↔ kp ∈ right)
    (agree : ∀ kp ∈ left, ∀ other ∈ left, kp.publicKey = other.publicKey → kp = other) :
    (signSlots cryptoSignDetached keys msgBytes left slots).signatures =
      (signSlots cryptoSignDetached keys msgBytes right slots).signatures := by
  have sizeLeft := (signSlots cryptoSignDetached keys msgBytes left slots).size
  have sizeRight := (signSlots cryptoSignDetached keys msgBytes right slots).size
  apply List.ext_getElem?
  intro index
  by_cases bounded : index < count
  swap
  · rw [List.getElem?_eq_none (by omega), List.getElem?_eq_none (by omega)]
  by_cases covered : ∃ kp ∈ left, keys[index]? = some kp.publicKey
  · obtain ⟨kp, member, placed⟩ := covered
    obtain ⟨first, inLeft, ownLeft, signedLeft⟩ := sign_slots_signed cryptoSignDetached keys
      msgBytes unique left slots index bounded _ placed ⟨kp, member, rfl⟩
    obtain ⟨second, inRight, ownRight, signedRight⟩ := sign_slots_signed cryptoSignDetached keys
      msgBytes unique right slots index bounded _ placed ⟨kp, (same kp).mp member, rfl⟩
    -- Both signatures are made with the key of the slot, hence by one keypair.
    have one := agree first inLeft second ((same second).mpr inRight)
      (ownLeft.trans ownRight.symm)
    rw [signedLeft, signedRight, one]
  · -- No signer has the key of this slot, so either loop leaves it as it was.
    have untouched : ∀ signers : List Keypair, (∀ kp ∈ signers, kp ∈ left) →
        (signSlots cryptoSignDetached keys msgBytes signers slots).signatures[index]? =
          slots.signatures[index]? := by
      intro signers among
      have size := (signSlots cryptoSignDetached keys msgBytes signers slots).size
      rw [List.getElem?_eq_getElem (by omega)]
      rcases sign_slots_filled cryptoSignDetached keys msgBytes signers slots index _
        (List.getElem?_eq_getElem (by omega)) with kept | ⟨kp, member, placed, _⟩
      · exact kept.symm
      · exact absurd ⟨kp, among kp member, placed⟩ covered
    rw [untouched left fun kp member => member, untouched right fun kp => (same kp).mpr]

end Runs

section Sound
variable {Msg : Type} (format : Format Msg)
  (cryptoSignDetached : Bytes → FixedBytes secretKeyLength → Signature)

/-- What holds of all runs on a new transaction for a message. -/
structure RunsSound (message : Msg) : Prop where
  /-- A slot is zero, or signed by a passed keypair with the key of the slot. -/
  slots : ∀ (calls : List (List Keypair)) (index : Nat) (signature : Signature),
    (signRun cryptoSignDetached (Envelope.new message : Envelope format) calls).signatures[index]? =
      some signature →
    signature = .fill signatureLength 0 ∨
      ∃ kp ∈ passed cryptoSignDetached (Envelope.new message : Envelope format) calls,
        ∃ msgBytes, format.serializeMessage message = .ok msgBytes ∧
          (format.keys message)[index]? = some kp.publicKey ∧
          signature = kp.sign cryptoSignDetached msgBytes
  size : ∀ calls : List (List Keypair),
    (signRun cryptoSignDetached (Envelope.new message : Envelope format) calls).signatures.length =
      (Envelope.new message : Envelope format).signatures.length
  /-- A call that throws leaves the object as it was. -/
  atomic : ∀ (calls : List (List Keypair)) (signers : List Keypair) (failure : Failure),
    (signCall cryptoSignDetached
      (signRun cryptoSignDetached (Envelope.new message : Envelope format) calls) signers).1 =
        .error failure →
    (signCall cryptoSignDetached
      (signRun cryptoSignDetached (Envelope.new message : Envelope format) calls) signers).2 =
        signRun cryptoSignDetached (Envelope.new message : Envelope format) calls
  /-- The outcome is a function of the set of passed keypairs. -/
  determined : ∀ calls others : List (List Keypair),
    (∀ kp, kp ∈ passed cryptoSignDetached (Envelope.new message : Envelope format) calls ↔
      kp ∈ passed cryptoSignDetached (Envelope.new message : Envelope format) others) →
    (∀ kp ∈ passed cryptoSignDetached (Envelope.new message : Envelope format) calls,
      ∀ other ∈ passed cryptoSignDetached (Envelope.new message : Envelope format) calls,
        kp.publicKey = other.publicKey → kp = other) →
    (signRun cryptoSignDetached (Envelope.new message : Envelope format) calls).signatures =
      (signRun cryptoSignDetached (Envelope.new message : Envelope format) others).signatures

theorem runs_sound (message : Msg) (unique : (format.keys message).Nodup) :
    RunsSound format cryptoSignDetached message := by
  have run : ∀ calls, (∃ msgBytes, format.serializeMessage message = .ok msgBytes ∧
      signRun cryptoSignDetached (Envelope.new message : Envelope format) calls =
        signedBy cryptoSignDetached msgBytes (Envelope.new message)
          (passed cryptoSignDetached (Envelope.new message : Envelope format) calls)) ∨
      signRun cryptoSignDetached (Envelope.new message : Envelope format) calls =
        Envelope.new message := by
    intro calls
    cases serialized : format.serializeMessage message with
    | error failure => exact Or.inr (run_unsigned cryptoSignDetached calls _ failure serialized).1
    | ok msgBytes =>
        exact Or.inl ⟨msgBytes, rfl, run_signed cryptoSignDetached calls _ msgBytes serialized⟩
  have blank : ∀ (index : Nat) (signature : Signature),
      (Envelope.new message : Envelope format).signatures[index]? = some signature →
        signature = .fill signatureLength 0 := by
    intro index signature held
    exact List.eq_of_mem_replicate (List.mem_of_getElem? held)
  refine ⟨?_, ?_, ?_, ?_⟩
  · intro calls index signature held
    rcases run calls with ⟨msgBytes, serialized, signed⟩ | kept
    · rw [signed] at held
      rcases sign_slots_filled cryptoSignDetached _ msgBytes _ _ index signature held with
        old | ⟨kp, member, placed, new⟩
      · exact Or.inl (blank index signature old)
      · exact Or.inr ⟨kp, member, msgBytes, serialized, placed, new⟩
    · rw [kept] at held
      exact Or.inl (blank index signature held)
  · intro calls
    rcases run calls with ⟨msgBytes, _, signed⟩ | kept
    · rw [signed, (signedBy ..).size, (Envelope.new message).size]
      rfl
    · rw [kept]
  · intro calls signers failure threw
    rcases sign_call_cases cryptoSignDetached
      (signRun cryptoSignDetached (Envelope.new message : Envelope format) calls) signers with
      ⟨_, left, _⟩ | ⟨_, _, returned, _⟩
    · rw [left]
    · rw [returned] at threw
      cases threw
  · intro calls others same agree
    cases serialized : format.serializeMessage message with
    | error failure =>
        rw [(run_unsigned cryptoSignDetached calls _ failure serialized).1,
          (run_unsigned cryptoSignDetached others _ failure serialized).1]
    | ok msgBytes =>
        rw [run_signed cryptoSignDetached calls _ msgBytes serialized,
          run_signed cryptoSignDetached others _ msgBytes serialized]
        exact slots_determined cryptoSignDetached _ unique msgBytes _ _ _ same agree

end Sound

section Compiled
variable (cryptoSignDetached : Bytes → FixedBytes secretKeyLength → Signature)

/-- On compiled messages of either format signing is atomic, fills each slot for
its own key only, and does not depend on how the signers were passed. -/
theorem signing_runs :
    (∀ (instructions : List Instruction) (feePayer : PublicKey) (recentBlockhash : Text),
      RunsSound legacyFormat cryptoSignDetached
        (LegacyMessage.compile instructions feePayer recentBlockhash)) ∧
    (∀ (instructions : List Instruction) (feePayer : PublicKey) (recentBlockhash : Text)
      (lookupTables : List LookupTables.AddressLookupTableAccount) (msg : MessageV0),
      VersionedMessage.compile instructions feePayer recentBlockhash lookupTables = .ok msg →
      RunsSound versionedFormat cryptoSignDetached msg) := by
  refine ⟨?_, ?_⟩
  · intro instructions feePayer recentBlockhash
    exact runs_sound legacyFormat cryptoSignDetached _
      (LegacyLayout.compile_keys_nodup instructions feePayer recentBlockhash)
  · intro instructions feePayer recentBlockhash lookupTables msg returned
    rw [VersionedResolution.compile_returned instructions feePayer recentBlockhash lookupTables msg
      returned]
    exact runs_sound versionedFormat cryptoSignDetached _
      (VersionedLayout.ordered_keys_nodup instructions feePayer lookupTables)

end Compiled

theorem signing_runs_mixed :
    ∃ msg, VersionedMessage.compile VersionedResolution.mixedUses (.filled 6) zeroBlockhash
        [VersionedResolution.sampleTable] = .ok msg ∧ RunsSound versionedFormat revealKey msg :=
  ⟨_, VersionedResolution.compile_returns VersionedResolution.mixedUses (.filled 6) zeroBlockhash
      [VersionedResolution.sampleTable] (by decide),
    (signing_runs revealKey).2 _ _ _ _ _ (VersionedResolution.compile_returns
      VersionedResolution.mixedUses (.filled 6) zeroBlockhash [VersionedResolution.sampleTable]
      (by decide))⟩

end SolanaSdk.SigningRuns
