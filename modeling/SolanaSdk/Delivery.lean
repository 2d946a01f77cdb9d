import SolanaSdk.EnvelopeDecoding
import SolanaSdk.ProgramCalls
import SolanaSdk.TableCompression

/-!
What arrives. A node takes a transaction apart on its own: the envelope, the
body, the accounts that the chain's lookup tables give it, and the calls that the
programs read. It gets the calls that the client has built, in both formats, also
where the tables have grown since the client has read them. The two builders with
a seed are not among these calls.
-/

namespace SolanaSdk.Delivery

open ByteData PublicKeys Instructions LookupTables VersionedMessage VersionedRouting
open VersionedLayout VersionedResolution TableCompression Decoders Wire WireDecoding Transactions
open SignedMessage EnvelopeDecoding ProgramCalls

section Node

/-- The addresses that a table has by now. -/
abbrev Chain := PublicKey → List PublicKey

/-- A table keeps its addresses and may get more. -/
def Chain.Holds (chain : Chain) (lookupTables : List AddressLookupTableAccount) : Prop :=
  ∀ tbl ∈ lookupTables, tbl.addresses <+: chain tbl.key

variable (chain : Chain)

def loadSide (pick : MessageAddressTableLookup → List UInt8)
    (lookups : List MessageAddressTableLookup) : Option (List (List PublicKey)) :=
  lookups.mapM fun entry => (pick entry).mapM fun index => (chain entry.accountKey)[index.toNat]?

/-- Static keys, and then the writable and the readonly addresses of all entries. -/
def chainKeys (body : MessageBodyV0) : Option (List PublicKey) := do
  let writable ← loadSide chain MessageAddressTableLookup.writableIndexes body.addressTableLookups
  let readonly ← loadSide chain MessageAddressTableLookup.readonlyIndexes body.addressTableLookups
  pure (body.fields.accountKeys ++ writable.flatten ++ readonly.flatten)

def readCalls (keys : List PublicKey) (instructions : List CompiledInstruction) :
    Option (List ProgramCall) := do
  let resolved ← instructions.mapM (resolve keys)
  resolved.mapM understand

def bodyCalls : Version → Bytes → Option (List ProgramCall)
  | .legacy, bytes => do
      let body ← whole decodeMessage bytes
      readCalls body.accountKeys body.instructions
  | .v0, bytes => do
      let body ← whole decodeMessageV0 bytes
      let keys ← chainKeys chain body
      readCalls keys body.fields.instructions

def nodeCalls (wire : Bytes) : Option (List ProgramCall) := do
  let envelope ← decodeEnvelope wire
  bodyCalls chain envelope.version envelope.body

end Node

section Counts

theorem bytes_nodup_few (bytes : List UInt8) (nodup : bytes.Nodup) : bytes.length ≤ 256 := by
  have values : (bytes.map UInt8.toNat).Nodup := nodup.map fun _ _ => UInt8.toNat_inj.mp
  have within : bytes.map UInt8.toNat ⊆ List.range 256 := by
    intro value member
    obtain ⟨byte, -, rfl⟩ := List.mem_map.mp member
    exact List.mem_range.mpr byte.toNat_lt
  have short := (List.subperm_of_subset values within).length_le
  rwa [List.length_map, List.length_range] at short

/-- The counts in front of the fields of small instructions fit. -/
theorem numbered_counts (calls : List ProgramCall) (instructions : List Instruction)
    (understood : List.Forall₂ Understood calls instructions) (few : calls.length ≤ 65535)
    (index : PublicKey → UInt8) (keys : List PublicKey) (listed : keys.length ≤ 256) :
    CountsFit keys (instructions.map (Instruction.number index)) where
  keys := Nat.le_trans listed (by decide)
  size := by
    rw [List.length_map, ← understood.length_eq]
    exact few
  each ci member := by
    obtain ⟨instr, inside, rfl⟩ := List.mem_map.mp member
    obtain ⟨accounts, data⟩ := calls_small calls instructions understood instr inside
    refine ⟨?_, Nat.le_trans data (by decide)⟩
    change (instr.accounts.map _).length ≤ 65535
    rw [List.length_map]
    exact Nat.le_trans accounts (by decide)

end Counts

section Legacy
variable (chain : Chain) (calls : List ProgramCall) (instructions : List Instruction)
  (feePayer : PublicKey) (recentBlockhash : Text)

theorem calls_read (keys : List PublicKey) (numbered : List CompiledInstruction)
    (understood : List.Forall₂ Understood calls instructions)
    (resolved : numbered.mapM (resolve keys) = some (instructions.map Instruction.view)) :
    readCalls keys numbered = some calls := by
  rw [readCalls, resolved]
  exact calls_understood calls instructions understood

theorem legacy_read (understood : List.Forall₂ Understood calls instructions)
    (short : calls.length ≤ 65535) (few : (distinctAccounts instructions feePayer).card ≤ 256)
    (blockhash : FixedBytes 32) :
    whole decodeMessage
      (bodyOf (LegacyMessage.compile instructions feePayer recentBlockhash) blockhash).write =
      some (bodyOf (LegacyMessage.compile instructions feePayer recentBlockhash) blockhash) := by
  have listed :
      (LegacyMessage.compile instructions feePayer recentBlockhash).accountKeys.length ≤ 256 := by
    rw [LegacyLayout.compile_keys_length]
    exact few
  have counted := numbered_counts calls instructions understood short
    (byteIndex (LegacyMessage.compile instructions feePayer recentBlockhash).accountKeys) _ listed
  rw [← LegacyLayout.compile_instructions] at counted
  exact recovers_whole decodeMessage _ _ (recovers_body (bodyOf
    (LegacyMessage.compile instructions feePayer recentBlockhash) blockhash) counted)

theorem legacy_body_calls (understood : List.Forall₂ Understood calls instructions)
    (short : calls.length ≤ 65535) (few : (distinctAccounts instructions feePayer).card ≤ 256)
    (body : Bytes)
    (serialized : Message.serialize
      (LegacyMessage.compile instructions feePayer recentBlockhash) = .ok body) :
    bodyCalls chain .legacy body = some calls := by
  obtain ⟨blockhash, decoded⟩ := serialize_blockhash _ body serialized
  cases (serialize_writes _ blockhash decoded).symm.trans serialized
  rw [bodyCalls, legacy_read calls instructions feePayer recentBlockhash understood short few]
  exact calls_read calls instructions _ _ understood
    (LegacyLayout.compile_recovers instructions feePayer recentBlockhash few)

end Legacy

section Versioned
variable (chain : Chain) (calls : List ProgramCall) (instructions : List Instruction)
  (feePayer : PublicKey) (recentBlockhash : Text) (lookupTables : List AddressLookupTableAccount)

theorem lookups_counted (fits : (combined instructions feePayer lookupTables).length ≤ 256) :
    LookupsFit (compiled instructions feePayer recentBlockhash lookupTables).addressTableLookups where
  size := by
    -- Every entry names at least one of the loaded keys.
    have given : ∀ pair ∈ lookupSection lookupTables (buckets instructions feePayer lookupTables),
        1 ≤ (named pair).length := by
      intro pair member
      have proper := (entry_proper instructions feePayer lookupTables pair member).1
      rw [named, List.length_map]
      exact List.length_pos_iff.mpr proper
    have loads := (named_perm instructions feePayer lookupTables).length_eq
    rw [List.length_map, List.length_flatMap] at loads
    have count := List.length_le_sum_of_one_le
      ((lookupSection lookupTables (buckets instructions feePayer lookupTables)).map
        fun pair => (named pair).length)
      (List.forall_mem_map.mpr given)
    rw [combined_split, List.length_append] at fits
    change ((lookupSection lookupTables _).map Prod.snd).length ≤ 65535
    rw [List.length_map] at count ⊢
    omega
  each entry member := by
    obtain ⟨pair, inside, rfl⟩ := List.mem_map.mp member
    have nodup := (entry_proper instructions feePayer lookupTables pair inside).2
    have few := bytes_nodup_few _ nodup
    rw [List.length_append] at few
    exact ⟨by omega, by omega⟩

theorem versioned_read (understood : List.Forall₂ Understood calls instructions)
    (short : calls.length ≤ 65535)
    (fits : (combined instructions feePayer lookupTables).length ≤ 256) (blockhash : FixedBytes 32) :
    whole decodeMessageV0
      (bodyOfV0 (compiled instructions feePayer recentBlockhash lookupTables) blockhash).write =
      some (bodyOfV0 (compiled instructions feePayer recentBlockhash lookupTables) blockhash) := by
  have listed : (compiled instructions feePayer recentBlockhash lookupTables).staticAccountKeys.length
      ≤ 256 := by
    rw [combined_split, List.length_append] at fits
    exact Nat.le_trans (Nat.le_add_right _ _) fits
  have counted := numbered_counts calls instructions understood short
    (byteIndex (combined instructions feePayer lookupTables)) _ listed
  exact recovers_whole decodeMessageV0 _ _ (recovers_body_v0 (bodyOfV0
    (compiled instructions feePayer recentBlockhash lookupTables) blockhash) counted
    (lookups_counted instructions feePayer recentBlockhash lookupTables fits))

variable (bounded : Bounded lookupTables) (holds : chain.Holds lookupTables)
include bounded holds

/-- What the chain loads for one side of the entries. -/
theorem chain_side (flag : Bool) (pick : MessageAddressTableLookup → List UInt8)
    (picks : ∀ key bucket, pick ⟨key, bucket.writableIdx, bucket.readonlyIdx⟩ = side bucket flag) :
    loadSide chain pick
      (compiled instructions feePayer recentBlockhash lookupTables).addressTableLookups =
    some ((lookupSection lookupTables (buckets instructions feePayer lookupTables)).map
      fun (tbl, entry) => (pick entry).map (addressAt tbl)) := by
  change List.mapM _ ((lookupSection lookupTables _).map Prod.snd) = _
  rw [List.mapM_map]
  apply map_m_total
  rintro ⟨tbl, entry⟩ member
  obtain ⟨bucket, pair, rfl⟩ := mem_lookup_section _ _ tbl entry member
  obtain ⟨ti, table, rfl⟩ := mem_table_buckets instructions feePayer lookupTables tbl bucket pair
  simp only [Function.comp_apply, picks]
  apply map_m_total
  intro ai indexed
  have stored := (first_lookup_address instructions lookupTables bounded ti tbl table ai flag
    ((mem_side _ ti flag ai).mp indexed)).1
  obtain ⟨inside, -⟩ := List.getElem?_eq_some_iff.mp stored
  obtain ⟨more, grown⟩ := holds tbl (List.mem_of_getElem? table)
  change (chain tbl.key)[ai.toNat]? = some (addressAt tbl ai)
  rw [← grown, List.getElem?_append_left inside]
  exact stored

theorem chain_combined (blockhash : FixedBytes 32) :
    chainKeys chain
      (bodyOfV0 (compiled instructions feePayer recentBlockhash lookupTables) blockhash) =
      some (combined instructions feePayer lookupTables) := by
  have writable := chain_side chain instructions feePayer recentBlockhash lookupTables bounded holds
    true MessageAddressTableLookup.writableIndexes fun _ _ => rfl
  have readonly := chain_side chain instructions feePayer recentBlockhash lookupTables bounded holds
    false MessageAddressTableLookup.readonlyIndexes fun _ _ => rfl
  rw [chainKeys]
  change (loadSide chain _ (compiled instructions feePayer recentBlockhash
    lookupTables).addressTableLookups >>= fun writable => loadSide chain _ (compiled instructions
    feePayer recentBlockhash lookupTables).addressTableLookups >>= fun readonly => _) = _
  rw [writable, readonly]
  simp only [Option.bind_eq_bind, Option.bind_some, Option.pure_def, Option.some.injEq]
  rw [section_flat_map lookupTables _ _ true (fun _ _ => rfl),
    section_flat_map lookupTables _ _ false (fun _ _ => rfl)]
  rfl

theorem versioned_body_calls (understood : List.Forall₂ Understood calls instructions)
    (short : calls.length ≤ 65535)
    (fits : (combined instructions feePayer lookupTables).length ≤ 256) (body : Bytes)
    (serialized : MessageV0.serialize
      (compiled instructions feePayer recentBlockhash lookupTables) = .ok body) :
    bodyCalls chain .v0 body = some calls := by
  obtain ⟨blockhash, decoded⟩ := serialize_v0_blockhash _ body serialized
  cases (serialize_v0_writes _ blockhash decoded).symm.trans serialized
  rw [bodyCalls, versioned_read calls instructions feePayer recentBlockhash lookupTables understood
    short fits]
  change (chainKeys chain (bodyOfV0 _ blockhash) >>= _) = _
  rw [chain_combined chain instructions feePayer recentBlockhash lookupTables bounded holds]
  refine calls_read calls instructions _ _ understood (resolve_all _ _ _ fun instr listed => ?_)
  refine ⟨byte_index_inverts _ fits _ (program_combined instructions feePayer lookupTables instr
    listed), fun am member => byte_index_inverts _ fits _ ?_⟩
  exact account_combined instructions feePayer lookupTables bounded am
    (List.mem_flatMap.mpr ⟨instr, listed, member⟩)

end Versioned

section Arrival
variable (chain : Chain) (calls : List ProgramCall) (instructions : List Instruction)
  (feePayer : PublicKey) (recentBlockhash : Text)

theorem legacy_arrives (understood : List.Forall₂ Understood calls instructions)
    (short : calls.length ≤ 65535) (few : (distinctAccounts instructions feePayer).card ≤ 256)
    (signers : (requiredSigners instructions feePayer).card < 128) (tx : Transaction)
    (holds : tx.message = LegacyMessage.compile instructions feePayer recentBlockhash)
    (wire : Bytes) (sent : tx.serialize = .ok wire) : nodeCalls chain wire = some calls := by
  obtain ⟨body, serialized⟩ := envelope_body tx wire sent
  have recognised := (legacy_decodes_iff tx body wire serialized sent).mpr (by
    rw [holds, legacy_header_byte]
    omega)
  rw [nodeCalls, recognised]
  change Message.serialize tx.message = .ok body at serialized
  rw [holds] at serialized
  exact legacy_body_calls chain calls instructions feePayer recentBlockhash understood short few body
    serialized

variable (lookupTables : List AddressLookupTableAccount)

theorem versioned_arrives (understood : List.Forall₂ Understood calls instructions)
    (short : calls.length ≤ 65535) (bounded : Bounded lookupTables) (holds : chain.Holds lookupTables)
    (fits : (combined instructions feePayer lookupTables).length ≤ 256) (tx : TransactionV0)
    (compiles : compile instructions feePayer recentBlockhash lookupTables = .ok tx.message)
    (wire : Bytes) (sent : tx.serialize = .ok wire) : nodeCalls chain wire = some calls := by
  obtain ⟨body, serialized⟩ := envelope_body tx wire sent
  have same := compile_returned instructions feePayer recentBlockhash lookupTables tx.message compiles
  rw [nodeCalls, versioned_decodes tx body wire serialized sent]
  change MessageV0.serialize tx.message = .ok body at serialized
  rw [same] at serialized
  exact versioned_body_calls chain calls instructions feePayer recentBlockhash lookupTables bounded
    holds understood short fits body serialized

/-- In both formats and whatever has been signed, the node gets the calls that
were built, in their order. -/
theorem calls_arrive (built : calls.mapM ProgramCall.build = .ok instructions)
    (short : calls.length ≤ 65535) :
    (∀ (tx : Transaction) (wire : Bytes),
      tx.message = LegacyMessage.compile instructions feePayer recentBlockhash →
      tx.serialize = .ok wire → (distinctAccounts instructions feePayer).card ≤ 256 →
      (requiredSigners instructions feePayer).card < 128 → nodeCalls chain wire = some calls) ∧
    ∀ (tx : TransactionV0) (wire : Bytes),
      compile instructions feePayer recentBlockhash lookupTables = .ok tx.message →
      tx.serialize = .ok wire → Bounded lookupTables → chain.Holds lookupTables →
      (combined instructions feePayer lookupTables).length ≤ 256 →
      nodeCalls chain wire = some calls := by
  have understood := calls_built calls instructions built
  refine ⟨fun tx wire holds sent few signers => ?_,
    fun tx wire compiles sent bounded holds fits => ?_⟩
  · exact legacy_arrives chain calls instructions feePayer recentBlockhash understood short few
      signers tx holds wire sent
  · exact versioned_arrives chain calls instructions feePayer recentBlockhash lookupTables understood
      short bounded holds fits tx compiles wire sent

end Arrival

section Sample
open VersionedResolution (sampleTable)

def sampleCalls : List ProgramCall := [.token (.transfer (.filled 1) (.filled 2) (.filled 3) 5)]

def sampleInstructions : List Instruction :=
  [⟨ProgramAddresses.tokenProgramKey, [⟨.filled 1, false, true⟩, ⟨.filled 2, false, true⟩,
    ⟨.filled 3, true, false⟩], SplToken.amountData 3 5⟩]

theorem sample_built : sampleCalls.mapM ProgramCall.build = .ok sampleInstructions := by
  rw [sampleCalls, List.mapM_cons, List.mapM_nil]
  change (SplToken.instruction _ _ >>= fun _ => _) = _
  rw [token_built]
  rfl

/-- Five accounts, two of which come out of a table that has grown. -/
theorem sample_arrives :
    (∃ wire, (Transaction.new (LegacyMessage.compile sampleInstructions (.filled 6)
        zeroBlockhash)).serialize = .ok wire ∧
      nodeCalls (fun _ => []) wire = some sampleCalls) ∧
    ∃ wire, (TransactionV0.new (compiled sampleInstructions (.filled 6) zeroBlockhash
        [sampleTable])).serialize = .ok wire ∧
      nodeCalls (fun _ => sampleTable.addresses ++ [.filled 7]) wire = some sampleCalls := by
  obtain ⟨body, serialized⟩ := serialize_valid
    (LegacyMessage.compile sampleInstructions (.filled 6) zeroBlockhash) zero_blockhash_valid
  obtain ⟨other, written⟩ := serialize_v0_valid
    (compiled sampleInstructions (.filled 6) zeroBlockhash [sampleTable]) zero_blockhash_valid
  have sent := envelope_serialized (Transaction.new _) body serialized
  have sent' := envelope_serialized (TransactionV0.new _) other written
  have few : (distinctAccounts sampleInstructions (.filled 6)).card ≤ 5 :=
    Nat.le_trans (List.toFinset_card_le _) (by decide)
  have signers := Finset.card_filter_le (mentions sampleInstructions (.filled 6)).toFinset
    fun key => Signs sampleInstructions (.filled 6) key
  refine ⟨⟨_, sent, ?_⟩, ⟨_, sent', ?_⟩⟩
  · exact (calls_arrive (fun _ => []) sampleCalls sampleInstructions (.filled 6) zeroBlockhash []
      sample_built (by decide)).1 _ _ rfl sent (Nat.le_trans few (by decide))
      (Nat.lt_of_le_of_lt (Nat.le_trans signers few) (by decide))
  · refine (calls_arrive _ sampleCalls sampleInstructions (.filled 6) zeroBlockhash [sampleTable]
      sample_built (by decide)).2 _ _ (compile_returns _ _ _ _ (by decide)) sent' (by decide) ?_
      (by decide +kernel)
    intro tbl member
    rw [List.mem_singleton.mp member]
    exact List.prefix_append _ _

end Sample
end SolanaSdk.Delivery
