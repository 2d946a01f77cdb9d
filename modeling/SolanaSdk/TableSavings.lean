import Mathlib.Algebra.Order.BigOperators.Group.List
import SolanaSdk.CompilerAgreement
import SolanaSdk.SignedMessage
import SolanaSdk.TableCompression
import SolanaSdk.VersionedPrivileges
import SolanaSdk.WireDecoding

/-!
What lookup tables are worth in bytes. A key that is looked up costs an index in
place of itself, every entry of the lookup section costs its table's key and two
counts, and an account that is both static and looked up is paid for twice.
-/

namespace SolanaSdk.TableSavings

open ByteData PublicKeys Instructions LookupTables VersionedMessage VersionedRouting
open VersionedLayout VersionedResolution VersionedPrivileges TableCompression CompilerAgreement
open Varints Wire WireDecoding SignedMessage

/-- All indices of the lookup section. -/
def loads (msg : MessageV0) : Nat :=
  (msg.addressTableLookups.map fun entry =>
    entry.writableIndexes.length + entry.readonlyIndexes.length).sum

/-- The bytes of a count. -/
def countLength (count : Nat) : Nat := (writeCompactU16 (UInt16.ofNat count)).length

/-- The bytes of all counts outside the instructions. -/
def countBytes (msg : MessageV0) : Nat :=
  countLength msg.staticAccountKeys.length + countLength msg.addressTableLookups.length +
    (msg.addressTableLookups.map fun entry =>
      countLength entry.writableIndexes.length + countLength entry.readonlyIndexes.length).sum

section Lengths

theorem count_length_small (count : Nat) (small : count < 128) : countLength count = 1 := by
  have exact : (UInt16.ofNat count).toNat = count :=
    UInt16.toNat_ofNat_of_lt (Nat.lt_trans small (by decide))
  rw [countLength, write_compact_groups, exact, groups_last count small]
  rfl

theorem counted_length (bytes : Bytes) :
    (writeCounted bytes).length = countLength bytes.length + bytes.length := by
  rw [writeCounted, List.length_append, countLength]

theorem keys_length (keys : List PublicKey) :
    (keys.flatMap PublicKey.toBytes).length = 32 * keys.length := by
  induction keys with
  | nil => rfl
  | cons key rest ih =>
      rw [List.flatMap_cons, List.length_append, ih, key.toBytes_length, List.length_cons]
      change 32 + _ = _
      omega

theorem lookups_length (lookups : List MessageAddressTableLookup) :
    (lookups.flatMap writeLookup).length = 32 * lookups.length +
      (lookups.map fun entry =>
        countLength entry.writableIndexes.length + countLength entry.readonlyIndexes.length).sum +
      (lookups.map fun entry =>
        entry.writableIndexes.length + entry.readonlyIndexes.length).sum := by
  induction lookups with
  | nil => rfl
  | cons entry rest ih =>
      rw [List.flatMap_cons, List.length_append, ih, writeLookup, List.length_append,
        List.length_append, entry.accountKey.toBytes_length, counted_length, counted_length,
        List.map_cons, List.map_cons, List.sum_cons, List.sum_cons, List.length_cons]
      change 32 + _ + _ + _ = _
      omega

/-- The numbers in the instructions do not matter for their length. -/
theorem instructions_length (instructions : List Instruction) (left right : PublicKey → UInt8) :
    (writeInstructions (instructions.map (Instruction.number left))).length =
      (writeInstructions (instructions.map (Instruction.number right))).length := by
  have each : ∀ index : PublicKey → UInt8,
      ((instructions.map (Instruction.number index)).flatMap writeInstruction).length =
        (instructions.map fun instr =>
          countLength instr.accounts.length + instr.accounts.length + 1 +
            (writeCounted instr.data).length).sum := by
    intro index
    rw [List.length_flatMap, List.map_map]
    refine congrArg List.sum (List.map_congr_left fun instr _ => ?_)
    change (index instr.programId :: writeCounted (instr.accounts.map _) ++
      writeCounted instr.data).length = _
    rw [List.length_append, List.length_cons, counted_length, List.length_map]
  rw [writeInstructions, writeInstructions, List.length_append, List.length_append, List.length_map,
    List.length_map, each, each]

theorem loads_entry (msg : MessageV0) (entry : MessageAddressTableLookup)
    (member : entry ∈ msg.addressTableLookups) :
    entry.writableIndexes.length + entry.readonlyIndexes.length ≤ loads msg :=
  List.le_sum_of_mem (List.mem_map_of_mem member)

theorem body_length (msg : MessageV0) (bytes : Bytes)
    (serialized : MessageV0.serialize msg = .ok bytes) :
    bytes.length = 35 + (writeInstructions msg.instructions).length + countBytes msg +
      32 * msg.staticAccountKeys.length + 32 * msg.addressTableLookups.length + loads msg := by
  obtain ⟨blockhash, decoded⟩ := serialize_v0_blockhash _ bytes serialized
  cases (serialize_v0_writes _ blockhash decoded).symm.trans serialized
  change (writeHeader msg.header ++ writeKeys msg.staticAccountKeys ++ blockhash.bytes ++
    writeInstructions msg.instructions ++ writeLookups msg.addressTableLookups).length = _
  have hash := blockhash.size
  simp only [List.length_append, writeHeader, writeKeys, writeLookups, keys_length, lookups_length,
    hash, List.length_cons, List.length_nil, loads, countBytes, countLength]
  omega

/-- Where all counts are below 128, each takes a byte. -/
theorem count_bytes_small (msg : MessageV0) (kept : msg.staticAccountKeys.length < 128)
    (entries : msg.addressTableLookups.length ≤ loads msg) (few : loads msg < 128) :
    countBytes msg = 2 + 2 * msg.addressTableLookups.length := by
  have each : (msg.addressTableLookups.map fun entry =>
      countLength entry.writableIndexes.length + countLength entry.readonlyIndexes.length) =
        msg.addressTableLookups.map fun _ => 2 := by
    refine List.map_congr_left fun entry member => ?_
    have part := loads_entry msg entry member
    rw [count_length_small _ (by omega), count_length_small _ (by omega)]
  rw [countBytes, each, count_length_small _ kept, count_length_small _ (by omega), List.map_const',
    List.sum_replicate_nat]
  omega

end Lengths

section Tables
variable (instructions : List Instruction) (feePayer : PublicKey) (recentBlockhash : Text)
  (lookupTables : List AddressLookupTableAccount)

theorem loads_loaded :
    loads (compiled instructions feePayer recentBlockhash lookupTables) =
      (loaded instructions feePayer lookupTables true ++
        loaded instructions feePayer lookupTables false).length := by
  have named := (named_perm instructions feePayer lookupTables).length_eq
  rw [List.length_map, List.length_flatMap] at named
  rw [← named]
  change (((lookupSection lookupTables _).map Prod.snd).map _).sum = _
  rw [List.map_map]
  refine congrArg List.sum (List.map_congr_left fun pair _ => ?_)
  rw [TableCompression.named, List.length_map, List.length_append]
  rfl

theorem entries_loads :
    (compiled instructions feePayer recentBlockhash lookupTables).addressTableLookups.length ≤
      loads (compiled instructions feePayer recentBlockhash lookupTables) := by
  have given : ∀ entry ∈
      (compiled instructions feePayer recentBlockhash lookupTables).addressTableLookups,
      1 ≤ entry.writableIndexes.length + entry.readonlyIndexes.length := by
    intro entry member
    obtain ⟨pair, emitted, rfl⟩ := List.mem_map.mp member
    rw [← List.length_append]
    exact List.length_pos_iff.mpr (entry_proper instructions feePayer lookupTables pair emitted).1
  have count := List.length_le_sum_of_one_le _ (List.forall_mem_map.mpr given)
  rwa [List.length_map] at count

theorem compiled_length (bytes : Bytes)
    (serialized : MessageV0.serialize
      (compiled instructions feePayer recentBlockhash lookupTables) = .ok bytes) :
    bytes.length = 35 +
      (writeInstructions (instructions.map (Instruction.number fun _ => 0))).length +
      countBytes (compiled instructions feePayer recentBlockhash lookupTables) +
      32 * ((ordered instructions feePayer lookupTables).map AccountInfo.key).length +
      32 * (compiled instructions feePayer recentBlockhash lookupTables).addressTableLookups.length +
      loads (compiled instructions feePayer recentBlockhash lookupTables) := by
  rw [body_length _ bytes serialized]
  change 35 + (writeInstructions (instructions.map _)).length + _ + _ + _ + _ = _
  rw [instructions_length instructions _ fun _ => 0]
  rfl

variable (bounded : Bounded lookupTables)
include bounded

theorem mem_combined (key : PublicKey) :
    key ∈ combined instructions feePayer lookupTables ↔ Mentioned instructions feePayer key := by
  constructor
  · intro member
    rw [combined_split, List.mem_append, mem_ordered_keys, mem_loaded_either _ _ _ bounded] at member
    rcases member with (payer | program | ⟨am, listed, same, -⟩) | ⟨am, listed, same, -⟩
    · exact .inl payer
    · exact .inr (.inl program)
    · exact .inr (.inr ⟨am, listed, same⟩)
    · exact .inr (.inr ⟨am, listed, same⟩)
  · rintro (rfl | ⟨instr, listed, rfl⟩ | ⟨am, listed, rfl⟩)
    · rw [combined_split, List.mem_append, mem_ordered_keys]
      exact .inl (.inl rfl)
    · exact program_combined instructions feePayer lookupTables instr listed
    · exact account_combined instructions feePayer lookupTables bounded am listed

theorem combined_accounts :
    (combined instructions feePayer lookupTables).toFinset =
      distinctAccounts instructions feePayer := by
  ext key
  rw [List.mem_toFinset, mem_combined _ _ _ bounded, distinctAccounts, List.mem_toFinset,
    mem_mentions]

/-- Of any keys that are mentioned, distinct ones are at most as many as the accounts. -/
theorem mentioned_few (keys : List PublicKey) (nodup : keys.Nodup)
    (inside : ∀ key ∈ keys, key ∈ combined instructions feePayer lookupTables) :
    keys.length ≤ (distinctAccounts instructions feePayer).card := by
  rw [← List.toFinset_card_of_nodup nodup, ← combined_accounts _ _ _ bounded]
  exact Finset.card_le_card fun key member =>
    List.mem_toFinset.mpr (inside key (List.mem_toFinset.mp member))

theorem combined_twice_iff :
    (combined instructions feePayer lookupTables).length =
        (distinctAccounts instructions feePayer).card ↔
      RoutedOneWay instructions feePayer lookupTables := by
  rw [← combined_nodup_iff _ _ _ bounded, ← combined_accounts _ _ _ bounded]
  exact eq_comm.trans Multiset.toFinset_card_eq_card_iff_nodup

/-- What tables save, over the same message without them: 31 bytes for each index,
against 32 for each entry and for each account that is taken twice, and the counts. -/
theorem tables_save (valid : ValidBlockhash recentBlockhash) :
    ∃ msg keys bytes plain bytes',
      compile instructions feePayer recentBlockhash lookupTables = .ok msg ∧
      runtimeKeys (lookupSources instructions feePayer lookupTables) msg = some keys ∧
      MessageV0.serialize msg = .ok bytes ∧
      compile instructions feePayer recentBlockhash [] = .ok plain ∧
      MessageV0.serialize plain = .ok bytes' ∧
      bytes.length + 31 * loads msg + countBytes plain =
        bytes'.length + 32 * msg.addressTableLookups.length + countBytes msg +
          32 * (keys.length - (distinctAccounts instructions feePayer).card) ∧
      (keys.length = (distinctAccounts instructions feePayer).card ↔
        RoutedOneWay instructions feePayer lookupTables) ∧
      ((distinctAccounts instructions feePayer).card < 128 →
        countBytes plain = 2 ∧ countBytes msg = 2 + 2 * msg.addressTableLookups.length) := by
  obtain ⟨bytes, serialized⟩ :=
    serialize_v0_valid (compiled instructions feePayer recentBlockhash lookupTables) valid
  obtain ⟨bytes', serialized'⟩ := serialize_v0_valid (compiled instructions feePayer recentBlockhash [])
    valid
  have static := mentioned_few instructions feePayer lookupTables bounded _
    (ordered_keys_nodup instructions feePayer lookupTables) fun key member => by
      rw [combined_split]
      exact List.mem_append_left _ member
  have moved := mentioned_few instructions feePayer lookupTables bounded _
    (loaded_both_nodup instructions feePayer lookupTables bounded) fun key member => by
      rw [combined_split]
      exact List.mem_append_right _ member
  have whole : ((ordered instructions feePayer []).map AccountInfo.key).length =
      (distinctAccounts instructions feePayer).card := by
    rw [← combined_accounts instructions feePayer [] no_tables_bounded, combined_static,
      List.toFinset_card_of_nodup (ordered_keys_nodup instructions feePayer [])]
  have loads_few := loads_loaded instructions feePayer recentBlockhash lookupTables
  have entries := entries_loads instructions feePayer recentBlockhash lookupTables
  have size := compiled_length instructions feePayer recentBlockhash lookupTables bytes serialized
  have size' := compiled_length instructions feePayer recentBlockhash [] bytes' serialized'
  have sum : (combined instructions feePayer lookupTables).length =
      ((ordered instructions feePayer lookupTables).map AccountInfo.key).length +
        loads (compiled instructions feePayer recentBlockhash lookupTables) := by
    rw [combined_split, List.length_append, loads_few]
  have most := List.toFinset_card_le (combined instructions feePayer lookupTables)
  rw [combined_accounts _ _ _ bounded] at most
  refine ⟨_, _, bytes, _, bytes',
    compile_returns instructions feePayer recentBlockhash lookupTables bounded,
    runtime_combined instructions feePayer recentBlockhash lookupTables bounded, serialized,
    compile_returns instructions feePayer recentBlockhash [] no_tables_bounded, serialized', ?_,
    combined_twice_iff instructions feePayer lookupTables bounded, fun few => ⟨?_, ?_⟩⟩
  · rw [size, size', whole]
    change _ = 35 + _ + _ + _ + 32 * 0 + 0 + _ + _ + _
    omega
  · exact count_bytes_small _ (lt_of_eq_of_lt whole few) (Nat.le_refl 0) (by decide : 0 < 128)
  · exact count_bytes_small _ (Nat.lt_of_le_of_lt static few) entries (by omega)

end Tables

/-- One table for two of the accounts. -/
theorem mixed_tables_save :
    ∃ msg keys bytes plain bytes',
      compile mixedUses (.filled 6) zeroBlockhash [sampleTable] = .ok msg ∧
      runtimeKeys (lookupSources mixedUses (.filled 6) [sampleTable]) msg = some keys ∧
      MessageV0.serialize msg = .ok bytes ∧
      compile mixedUses (.filled 6) zeroBlockhash [] = .ok plain ∧
      MessageV0.serialize plain = .ok bytes' ∧
      bytes.length + 31 * loads msg + countBytes plain =
        bytes'.length + 32 * msg.addressTableLookups.length + countBytes msg +
          32 * (keys.length - (distinctAccounts mixedUses (.filled 6)).card) ∧
      (keys.length = (distinctAccounts mixedUses (.filled 6)).card ↔
        RoutedOneWay mixedUses (.filled 6) [sampleTable]) ∧
      ((distinctAccounts mixedUses (.filled 6)).card < 128 →
        countBytes plain = 2 ∧ countBytes msg = 2 + 2 * msg.addressTableLookups.length) :=
  tables_save mixedUses (.filled 6) zeroBlockhash [sampleTable] (by decide) zero_blockhash_valid

end SolanaSdk.TableSavings
