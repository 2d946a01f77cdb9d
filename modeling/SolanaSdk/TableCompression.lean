import Mathlib.Data.List.Perm.Basic
import SolanaSdk.VersionedResolution

/-!
What the lookup section of a compiled V0 message holds. A key that only plain
uses refer to leaves the static accounts as soon as one table has it, and over
all entries together one index stands for it.
-/

namespace SolanaSdk.TableCompression

open ByteData PublicKeys Instructions Registers LookupTables
open VersionedMessage VersionedRouting VersionedLayout VersionedResolution

/-- What the indices of an entry stand for in the table that the entry is for. -/
def named (pair : AddressLookupTableAccount × MessageAddressTableLookup) :
    List (Option PublicKey) :=
  (pair.2.writableIndexes ++ pair.2.readonlyIndexes).map fun index =>
    pair.1.addresses[index.toNat]?

/-- One index of one entry stands for the key, and that entry is for `tbl`. -/
structure NamedOnce (pairs : List (AddressLookupTableAccount × MessageAddressTableLookup))
    (tbl : AddressLookupTableAccount) (key : PublicKey) : Prop where
  once : (pairs.flatMap named).count (some key) = 1
  here : ∃ entry, (tbl, entry) ∈ pairs ∧ entry.accountKey = tbl.key ∧ some key ∈ named (tbl, entry)

/-- A key that has no need to be static and that some table holds. -/
structure Compressible (instructions : List Instruction) (feePayer : PublicKey)
    (lookupTables : List AddressLookupTableAccount) (key : PublicKey) : Prop where
  used : ∃ am ∈ metas instructions, am.pubkey = key
  notPayer : key ≠ feePayer
  noProgram : ¬ IsProgram instructions key
  noSigner : ¬ MarkedSigner instructions key
  listed : InSomeTable lookupTables key

/-- Some index, and none of them twice. -/
def ProperEntry (entry : MessageAddressTableLookup) : Prop :=
  entry.writableIndexes ++ entry.readonlyIndexes ≠ [] ∧
    (entry.writableIndexes ++ entry.readonlyIndexes).Nodup

def firstTable (lookupTables : List AddressLookupTableAccount) (key : PublicKey) :
    Option AddressLookupTableAccount := lookupTables.find? fun tbl => key ∈ tbl.addresses

section Search
variable (lookupTables : List AddressLookupTableAccount) (pk : PublicKey)

theorem find_from_first (start : Nat) (ref : LookupRef)
    (found : findFrom pk false start lookupTables = some ref) :
    firstTable lookupTables pk = lookupTables[ref.tableIdx - start]? := by
  unfold firstTable
  induction lookupTables generalizing start with
  | nil => cases found
  | cons tbl rest ih =>
      cases hit : position tbl.addresses pk with
      | some ai =>
          simp only [findFrom, hit, Option.some.injEq] at found
          subst found
          obtain ⟨inside, same, -⟩ := (position_eq_some tbl.addresses pk ai).mp hit
          have member : pk ∈ tbl.addresses := same ▸ List.getElem_mem inside
          rw [List.find?_cons_of_pos (by simpa using member), Nat.sub_self]
          rfl
      | none =>
          simp only [findFrom, hit] at found
          have absent := (position_eq_none tbl.addresses pk).mp hit
          obtain ⟨-, offset, place, -⟩ := find_from_some rest pk false (start + 1) ref found
          have shifted : ref.tableIdx - start = ref.tableIdx - (start + 1) + 1 := by omega
          rw [List.find?_cons_of_neg (by simpa using absent), shifted, List.getElem?_cons_succ]
          exact ih (start + 1) found

/-- A key is looked up in the first table that holds it. -/
theorem locate_first (place : Place) (found : locate lookupTables pk = some place) :
    firstTable lookupTables pk = lookupTables[place.1]? := by
  obtain ⟨ref, hit, rfl⟩ := Option.map_eq_some_iff.mp found
  exact find_from_first lookupTables pk 0 ref hit

theorem first_table_mem (tbl : AddressLookupTableAccount)
    (first : firstTable lookupTables pk = some tbl) : tbl ∈ lookupTables ∧ pk ∈ tbl.addresses :=
  ⟨List.mem_of_find?_eq_some first, by simpa using List.find?_some first⟩

/-- Tables of any size: the byte is the position modulo 256, which the table has too. -/
theorem locate_narrowed (ti : Nat) (ai : UInt8) (found : locate lookupTables pk = some (ti, ai)) :
    ∃ tbl index, lookupTables[ti]? = some tbl ∧ position tbl.addresses pk = some index ∧
      ai.toNat = index % 256 ∧ tbl.addresses[ai.toNat]? = some (addressAt tbl ai) := by
  obtain ⟨ref, hit, same⟩ := Option.map_eq_some_iff.mp found
  cases same
  obtain ⟨-, offset, place, tbl, table, index, searched, narrowed⟩ :=
    find_from_some lookupTables pk false 0 ref hit
  rw [Nat.zero_add] at place
  rw [← place] at table
  have byte : ref.addrIdx.toNat = index % 256 := by
    rw [narrowed]
    exact UInt8.toNat_ofNat'
  obtain ⟨inside, -, -⟩ := (position_eq_some tbl.addresses pk index).mp searched
  have below : ref.addrIdx.toNat < tbl.addresses.length := by omega
  refine ⟨tbl, index, table, searched, byte, ?_⟩
  rw [addressAt, List.getD_eq_getElem?_getD, List.getElem?_eq_getElem below, Option.getD_some]

end Search

section Entries
variable (instructions : List Instruction) (feePayer : PublicKey)
  (lookupTables : List AddressLookupTableAccount)

theorem emitted_named (tables : List AddressLookupTableAccount) (held : List TableBucket) :
    (lookupSection tables held).flatMap named =
      (tables.zip held).flatMap fun pair =>
        (pair.2.writableIdx ++ pair.2.readonlyIdx).map fun index =>
          pair.1.addresses[index.toNat]? := by
  unfold lookupSection
  induction tables.zip held with
  | nil => rfl
  | cons pair rest ih =>
      by_cases empty : (pair.2.writableIdx.isEmpty && pair.2.readonlyIdx.isEmpty) = true
      · have none : pair.2.writableIdx ++ pair.2.readonlyIdx = [] := by
          simpa using empty
        rw [List.filterMap_cons_none (by rw [emitEntry, if_pos empty]), ih, List.flatMap_cons, none]
        rfl
      · rw [List.filterMap_cons_some (by rw [emitEntry, if_neg empty]), List.flatMap_cons, ih,
          List.flatMap_cons]
        rfl

/-- A bucket lists a place once, on one of its sides. -/
theorem bucket_nodup (ti : Nat) :
    ((bucketOf (firstLookups instructions lookupTables) ti).writableIdx ++
      (bucketOf (firstLookups instructions lookupTables) ti).readonlyIdx).Nodup := by
  refine List.nodup_append'.mpr ⟨side_nodup instructions lookupTables ti true,
    side_nodup instructions lookupTables ti false, ?_⟩
  intro ai left right
  exact Bool.noConfusion (first_lookup_unique instructions lookupTables (ti, ai) true false
    ((mem_side _ ti true ai).mp left) ((mem_side _ ti false ai).mp right))

theorem entry_proper (pair : AddressLookupTableAccount × MessageAddressTableLookup)
    (member : pair ∈ lookupSection lookupTables (buckets instructions feePayer lookupTables)) :
    ProperEntry pair.2 := by
  obtain ⟨⟨tbl, bucket⟩, held, emitted⟩ := List.mem_filterMap.mp member
  obtain ⟨ti, -, rfl⟩ := mem_table_buckets instructions feePayer lookupTables tbl bucket held
  unfold emitEntry at emitted
  split at emitted
  · cases emitted
  · next some =>
      cases emitted
      refine ⟨?_, bucket_nodup instructions lookupTables ti⟩
      intro none
      exact some (by simpa using List.append_eq_nil_iff.mp none)

theorem section_entry (held : List TableBucket) (tbl : AddressLookupTableAccount)
    (bucket : TableBucket) (pair : (tbl, bucket) ∈ lookupTables.zip held) (flag : Bool)
    (ai : UInt8) (indexed : ai ∈ side bucket flag) :
    (tbl, ⟨tbl.key, bucket.writableIdx, bucket.readonlyIdx⟩) ∈ lookupSection lookupTables held := by
  refine List.mem_filterMap.mpr ⟨_, pair, if_neg ?_⟩
  rw [Bool.and_eq_true, List.isEmpty_iff, List.isEmpty_iff]
  rintro ⟨noWritable, noReadonly⟩
  cases flag with
  | true => exact List.ne_nil_of_mem indexed noWritable
  | false => exact List.ne_nil_of_mem indexed noReadonly

theorem named_bucket (tbl : AddressLookupTableAccount) (bucket : TableBucket)
    (held : (tbl, bucket) ∈ lookupTables.zip (buckets instructions feePayer lookupTables))
    (flag : Bool) :
    ((side bucket flag).map fun index => tbl.addresses[index.toNat]?) =
      ((side bucket flag).map (addressAt tbl)).map some := by
  obtain ⟨ti, table, rfl⟩ := mem_table_buckets instructions feePayer lookupTables tbl bucket held
  rw [List.map_map]
  apply List.map_congr_left
  intro ai indexed
  obtain ⟨am, -, -, found, -⟩ := (mem_lookup_uses instructions lookupTables _).mp
    (first_lookup_used instructions lookupTables _ ((mem_side _ ti flag ai).mp indexed))
  obtain ⟨again, -, same, -, -, stored⟩ := locate_narrowed lookupTables am.pubkey ti ai found
  rw [table] at same
  cases same
  exact stored

/-- What all entries name is what the two loaded halves hold. -/
theorem named_perm :
    ((lookupSection lookupTables (buckets instructions feePayer lookupTables)).flatMap named).Perm
      ((loaded instructions feePayer lookupTables true ++
        loaded instructions feePayer lookupTables false).map some) := by
  have sides : ∀ flag, (loaded instructions feePayer lookupTables flag).map some =
      (lookupTables.zip (buckets instructions feePayer lookupTables)).flatMap fun pair =>
        (side pair.2 flag).map fun index => pair.1.addresses[index.toNat]? := by
    intro flag
    rw [loaded, List.map_flatMap]
    apply List.flatMap_congr
    rintro ⟨tbl, bucket⟩ held
    exact (named_bucket instructions feePayer lookupTables tbl bucket held flag).symm
  rw [emitted_named, List.map_append, sides, sides]
  refine ((List.flatMap_append_perm _ _ _).trans (List.Perm.of_eq ?_)).symm
  simp only [List.map_append]
  rfl

theorem compressible_plain (key : PublicKey)
    (compressible : Compressible instructions feePayer lookupTables key) :
    ∃ am ∈ metas instructions, am.pubkey = key ∧ am.isSigner = false := by
  obtain ⟨am, listed, same⟩ := compressible.used
  exact ⟨am, listed, same,
    Bool.eq_false_iff.mpr fun signed => compressible.noSigner ⟨am, listed, same, signed⟩⟩

variable (bounded : Bounded lookupTables)
include bounded

theorem compressed_once (key : PublicKey)
    (compressible : Compressible instructions feePayer lookupTables key) :
    ((lookupSection lookupTables (buckets instructions feePayer lookupTables)).flatMap
      named).count (some key) = 1 := by
  have halves := loaded_both_nodup instructions feePayer lookupTables bounded
  obtain ⟨am, listed, rfl, plain⟩ :=
    compressible_plain instructions feePayer lookupTables key compressible
  have member := (mem_loaded_either instructions feePayer lookupTables bounded am.pubkey).mpr
    ⟨am, listed, rfl, plain, compressible.listed⟩
  rw [(named_perm instructions feePayer lookupTables).count_eq,
    List.count_map_of_injective _ _ (Option.some_injective _)]
  exact List.count_eq_one_of_mem halves member

/-- The key's entry is in the message, for its bucket has an index. -/
theorem compressed_here (key : PublicKey)
    (compressible : Compressible instructions feePayer lookupTables key) :
    ∃ tbl, firstTable lookupTables key = some tbl ∧
      ∃ entry, (tbl, entry) ∈
          lookupSection lookupTables (buckets instructions feePayer lookupTables) ∧
        entry.accountKey = tbl.key ∧ some key ∈ named (tbl, entry) := by
  obtain ⟨am, listed, rfl, plain⟩ :=
    compressible_plain instructions feePayer lookupTables key compressible
  have located : locate lookupTables am.pubkey ≠ none := fun absent =>
    (locate_none lookupTables am.pubkey).mp absent compressible.listed
  obtain ⟨⟨ti, ai⟩, found⟩ := Option.ne_none_iff_exists'.mp located
  obtain ⟨tbl, table, stored⟩ := locate_some lookupTables am.pubkey bounded (ti, ai) found
  obtain ⟨flag, first⟩ := first_lookup_exists instructions lookupTables am listed plain _ found
  have indexed := (mem_side _ ti flag ai).mpr first
  refine ⟨tbl, by rw [locate_first lookupTables am.pubkey (ti, ai) found, table], _,
    section_entry lookupTables _ tbl _ (table_bucket_mem instructions feePayer lookupTables ti tbl
      table) flag ai indexed, rfl, List.mem_map.mpr ⟨ai, ?_, stored⟩⟩
  cases flag with
  | true => exact List.mem_append_left _ indexed
  | false => exact List.mem_append_right _ indexed

omit bounded in
theorem compressible_not_static (key : PublicKey)
    (compressible : Compressible instructions feePayer lookupTables key) :
    ¬ StaticKey instructions feePayer lookupTables key := by
  rintro (payer | program | ⟨am, listed, rfl, signed | absent⟩)
  · exact compressible.notPayer payer
  · exact compressible.noProgram program
  · exact compressible.noSigner ⟨am, listed, rfl, signed⟩
  · exact absent compressible.listed

/-- Compression happens whenever it may. -/
theorem compile_compresses (recentBlockhash : Text) :
    ∃ msg, compile instructions feePayer recentBlockhash lookupTables = .ok msg ∧
      (lookupSources instructions feePayer lookupTables).length =
        msg.addressTableLookups.length ∧
      (∀ key, Compressible instructions feePayer lookupTables key →
        key ∉ msg.staticAccountKeys ∧ ∃ tbl, firstTable lookupTables key = some tbl ∧
          NamedOnce ((lookupSources instructions feePayer lookupTables).zip
            msg.addressTableLookups) tbl key) ∧
      ∀ entry ∈ msg.addressTableLookups, ProperEntry entry := by
  refine ⟨_, compile_returns instructions feePayer recentBlockhash lookupTables bounded, ?_, ?_, ?_⟩
  · exact (List.length_map _).trans (List.length_map _).symm
  · intro key compressible
    have moved := compressible_not_static instructions feePayer lookupTables key compressible
    obtain ⟨tbl, first, here⟩ :=
      compressed_here instructions feePayer lookupTables bounded key compressible
    refine ⟨fun kept => moved ((mem_ordered_keys ..).mp kept), tbl, first, ?_⟩
    rw [source_pairs]
    exact ⟨compressed_once instructions feePayer lookupTables bounded key compressible, here⟩
  · intro entry emitted
    obtain ⟨pair, member, rfl⟩ := List.mem_map.mp emitted
    exact entry_proper instructions feePayer lookupTables pair member

end Entries

/-- Two tables that share the key `filled 2`, and a plain use of it. -/
theorem compile_compresses_mixed :
    ∃ msg, compile mixedUses (.filled 6) [] [sampleTable, ⟨.filled 101, [.filled 2]⟩] = .ok msg ∧
      (lookupSources mixedUses (.filled 6) [sampleTable, ⟨.filled 101, [.filled 2]⟩]).length =
        msg.addressTableLookups.length ∧
      (∀ key, Compressible mixedUses (.filled 6) [sampleTable, ⟨.filled 101, [.filled 2]⟩] key →
        key ∉ msg.staticAccountKeys ∧
          ∃ tbl, firstTable [sampleTable, ⟨.filled 101, [.filled 2]⟩] key = some tbl ∧
            NamedOnce ((lookupSources mixedUses (.filled 6)
              [sampleTable, ⟨.filled 101, [.filled 2]⟩]).zip msg.addressTableLookups) tbl key) ∧
      ∀ entry ∈ msg.addressTableLookups, ProperEntry entry :=
  compile_compresses mixedUses (.filled 6) [sampleTable, ⟨.filled 101, [.filled 2]⟩] (by decide) []

end SolanaSdk.TableCompression
