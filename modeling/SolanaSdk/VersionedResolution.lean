import Mathlib.Data.List.Forall2
import SolanaSdk.VersionedLayout

/-!
`MessageV0::compile` returns on every input with tables of at most 256
addresses, and the runtime rebuilds the very list that the indices were drawn
from. So every instruction is recovered, even where that list names a key twice.
-/

namespace SolanaSdk.VersionedResolution

open ByteData PublicKeys Privileges Instructions Registers LookupTables
open VersionedMessage VersionedRouting VersionedLayout

section Combined
variable (instructions : List Instruction) (feePayer : PublicKey) (recentBlockhash : Text)
  (lookupTables : List AddressLookupTableAccount)

/-- The list that indices are drawn from: `virtualKeys` of the routed input. -/
def combined : List PublicKey :=
  virtualKeys (ordered instructions feePayer lookupTables) lookupTables
    (buckets instructions feePayer lookupTables)

theorem combined_split :
    combined instructions feePayer lookupTables =
      (ordered instructions feePayer lookupTables).map AccountInfo.key ++
      (loaded instructions feePayer lookupTables true ++
        loaded instructions feePayer lookupTables false) := List.append_assoc ..

/-- The message that `compile` returns when every search hits. -/
def compiled : MessageV0 where
  header := countHeader (ordered instructions feePayer lookupTables)
  staticAccountKeys := (ordered instructions feePayer lookupTables).map AccountInfo.key
  recentBlockhash := recentBlockhash
  instructions := instructions.map
    (Instruction.number (byteIndex (combined instructions feePayer lookupTables)))
  addressTableLookups :=
    (lookupSection lookupTables (buckets instructions feePayer lookupTables)).map Prod.snd

theorem resolve_index_returned (keys : List PublicKey) (pk : PublicKey) (index : UInt8)
    (returned : resolveIndex keys pk = .ok index) : index = byteIndex keys pk := by
  unfold resolveIndex at returned
  cases found : position keys pk with
  | none =>
      rw [found] at returned
      cases returned
  | some here =>
      rw [found] at returned
      cases returned
      rw [byteIndex, found]
      rfl

theorem compile_instruction_returned (keys : List PublicKey) (instr : Instruction)
    (ci : CompiledInstruction)
    (returned : compileInstruction keys instr = .ok ci) :
    ci = instr.number (byteIndex keys) := by
  unfold compileInstruction at returned
  obtain ⟨programIdIndex, program, returned⟩ := bind_returned _ _ _ returned
  obtain ⟨accountIndices, accounts, returned⟩ := bind_returned _ _ _ returned
  cases returned
  rw [resolve_index_returned keys _ _ program, map_m_returned _
    (fun am : AccountMeta => byteIndex keys am.pubkey) _ _
    (fun am _ index => resolve_index_returned keys am.pubkey index) accounts]
  rfl

/-- Tables of any size: a message that is returned is the numbered one. -/
theorem compile_returned (msg : MessageV0)
    (returned : compile instructions feePayer recentBlockhash lookupTables = .ok msg) :
    msg = compiled instructions feePayer recentBlockhash lookupTables := by
  change (do
    let numbered ← instructions.mapM
      (compileInstruction (combined instructions feePayer lookupTables))
    pure { compiled instructions feePayer recentBlockhash lookupTables with
      instructions := numbered }) = _ at returned
  obtain ⟨listed, numbered, returned⟩ := bind_returned _ _ _ returned
  cases returned
  rw [map_m_returned _ _ _ _ (fun instr _ => compile_instruction_returned _ instr) numbered]
  rfl

variable (bounded : Bounded lookupTables)
include bounded

/-- Every account use lands in one half of the combined list. -/
theorem account_combined (am : AccountMeta) (listed : am ∈ metas instructions) :
    am.pubkey ∈ combined instructions feePayer lookupTables := by
  rw [combined_split, List.mem_append, List.mem_append]
  by_cases kept : RoutedStatic lookupTables am
  · exact Or.inl ((mem_ordered_keys ..).mpr (Or.inr (Or.inr ⟨am, listed, rfl, kept⟩)))
  · simp only [RoutedStatic, not_or, not_not, Bool.not_eq_true] at kept
    rw [← List.mem_append]
    exact Or.inr ((mem_loaded_either _ _ _ bounded _).mpr ⟨am, listed, rfl, kept⟩)

omit bounded in
theorem program_combined (instr : Instruction) (listed : instr ∈ instructions) :
    instr.programId ∈ combined instructions feePayer lookupTables := by
  rw [combined_split, List.mem_append]
  exact Or.inl ((mem_ordered_keys ..).mpr (Or.inr (Or.inl ⟨instr, listed, rfl⟩)))

omit bounded in
theorem resolve_index_of_mem (keys : List PublicKey) (pk : PublicKey) (member : pk ∈ keys) :
    resolveIndex keys pk = .ok (byteIndex keys pk) := by
  obtain ⟨index, found⟩ := position_of_mem keys pk member
  simp only [resolveIndex, byteIndex, found, Option.getD_some]
  rfl

omit bounded in
theorem compile_instruction_returns (present : ∀ am ∈ metas instructions,
      am.pubkey ∈ combined instructions feePayer lookupTables) (instr : Instruction)
    (listed : instr ∈ instructions) :
    compileInstruction (combined instructions feePayer lookupTables) instr =
      .ok (instr.number (byteIndex (combined instructions feePayer lookupTables))) := by
  have program := resolve_index_of_mem _ _
    (program_combined instructions feePayer lookupTables instr listed)
  have accounts := map_m_total
    (fun am : AccountMeta => resolveIndex (combined instructions feePayer lookupTables) am.pubkey)
    (fun am => byteIndex (combined instructions feePayer lookupTables) am.pubkey) instr.accounts
    (fun am member => resolve_index_of_mem _ _
      (present am (List.mem_flatMap.mpr ⟨instr, listed, member⟩)))
  rw [compileInstruction, program, accounts]
  rfl

omit bounded in
/-- Nothing else than a missing account makes `compile` throw. -/
theorem compile_present (present : ∀ am ∈ metas instructions,
      am.pubkey ∈ combined instructions feePayer lookupTables) :
    compile instructions feePayer recentBlockhash lookupTables =
      .ok (compiled instructions feePayer recentBlockhash lookupTables) := by
  have numbered := map_m_total (compileInstruction (combined instructions feePayer lookupTables))
    (Instruction.number (byteIndex (combined instructions feePayer lookupTables))) instructions
    (compile_instruction_returns instructions feePayer lookupTables present)
  change (do
    let numbered ← instructions.mapM
      (compileInstruction (combined instructions feePayer lookupTables))
    pure { compiled instructions feePayer recentBlockhash lookupTables with
      instructions := numbered }) = _
  rw [numbered]
  rfl

/-- The `account not found` throw is unreachable. -/
theorem compile_returns :
    compile instructions feePayer recentBlockhash lookupTables =
      .ok (compiled instructions feePayer recentBlockhash lookupTables) :=
  compile_present instructions feePayer recentBlockhash lookupTables
    (account_combined instructions feePayer lookupTables bounded)

end Combined

section Runtime
variable (instructions : List Instruction) (feePayer : PublicKey) (recentBlockhash : Text)
  (lookupTables : List AddressLookupTableAccount)

theorem zip_unzip_pairs {Left Right : Type} (pairs : List (Left × Right)) :
    (pairs.map Prod.fst).zip (pairs.map Prod.snd) = pairs := by
  induction pairs with
  | nil => rfl
  | cons pair rest ih => simp [ih]

/-- Every table that the caller hands to the runtime stands by its entry. -/
theorem source_pairs : (lookupSources instructions feePayer lookupTables).zip
    (compiled instructions feePayer recentBlockhash lookupTables).addressTableLookups =
      lookupSection lookupTables (buckets instructions feePayer lookupTables) :=
  zip_unzip_pairs _

/-- Skipping the empty buckets drops no address of either side. -/
theorem section_flat_map (tables : List AddressLookupTableAccount) (held : List TableBucket)
    (view : AddressLookupTableAccount × MessageAddressTableLookup → List PublicKey)
    (flag : Bool)
    (sameSide : ∀ tbl bucket, view (tbl, ⟨tbl.key, bucket.writableIdx, bucket.readonlyIdx⟩) =
      (side bucket flag).map (addressAt tbl)) :
    ((lookupSection tables held).map view).flatten =
      (tables.zip held).flatMap fun (tbl, bucket) => (side bucket flag).map (addressAt tbl) := by
  unfold lookupSection
  induction tables.zip held with
  | nil => rfl
  | cons pair rest ih =>
      by_cases empty : (pair.2.writableIdx.isEmpty && pair.2.readonlyIdx.isEmpty) = true
      · have nothing : side pair.2 flag = [] := by
          simp only [Bool.and_eq_true, List.isEmpty_iff] at empty
          cases flag <;> simp [side, empty]
        rw [List.filterMap_cons_none (by rw [emitEntry, if_pos empty]), ih, List.flatMap_cons]
        simp [nothing]
      · rw [List.filterMap_cons_some (by rw [emitEntry, if_neg empty]), List.map_cons,
          List.flatten_cons, ih, List.flatMap_cons, sameSide]

theorem mem_lookup_section (tables : List AddressLookupTableAccount) (held : List TableBucket)
    (tbl : AddressLookupTableAccount) (entry : MessageAddressTableLookup)
    (member : (tbl, entry) ∈ lookupSection tables held) :
    ∃ bucket, (tbl, bucket) ∈ tables.zip held ∧
      entry = ⟨tbl.key, bucket.writableIdx, bucket.readonlyIdx⟩ := by
  obtain ⟨⟨source, bucket⟩, pair, emitted⟩ := List.mem_filterMap.mp member
  unfold emitEntry at emitted
  split at emitted
  · cases emitted
  · cases emitted
    exact ⟨bucket, pair, rfl⟩

variable (bounded : Bounded lookupTables)
include bounded

theorem load_side (flag : Bool) (tbl : AddressLookupTableAccount) (bucket : TableBucket)
    (member : (tbl, bucket) ∈ lookupTables.zip (buckets instructions feePayer lookupTables)) :
    loadIndexes tbl (side bucket flag) = some ((side bucket flag).map (addressAt tbl)) := by
  obtain ⟨ti, table, rfl⟩ := mem_table_buckets instructions feePayer lookupTables tbl bucket member
  apply map_m_total
  intro ai indexed
  exact (first_lookup_address instructions lookupTables bounded ti tbl table ai flag
    ((mem_side _ ti flag ai).mp indexed)).1

theorem load_section (flag : Bool) (pick : MessageAddressTableLookup → List UInt8)
    (picks : ∀ key bucket, pick ⟨key, bucket.writableIdx, bucket.readonlyIdx⟩ = side bucket flag) :
    (lookupSection lookupTables (buckets instructions feePayer lookupTables)).mapM
      (fun (tbl, entry) => loadIndexes tbl (pick entry)) =
    some ((lookupSection lookupTables (buckets instructions feePayer lookupTables)).map
      fun (tbl, entry) => (pick entry).map (addressAt tbl)) := by
  apply map_m_total
  rintro ⟨tbl, entry⟩ member
  obtain ⟨bucket, pair, rfl⟩ := mem_lookup_section _ _ tbl entry member
  simp only [picks]
  exact load_side instructions feePayer lookupTables bounded flag tbl bucket pair

/-- The runtime's list is the list the indices were drawn from. -/
theorem runtime_combined :
    runtimeKeys (lookupSources instructions feePayer lookupTables)
      (compiled instructions feePayer recentBlockhash lookupTables) =
      some (combined instructions feePayer lookupTables) := by
  have writable := load_section instructions feePayer lookupTables bounded true
    MessageAddressTableLookup.writableIndexes (fun _ _ => rfl)
  have readonly := load_section instructions feePayer lookupTables bounded false
    MessageAddressTableLookup.readonlyIndexes (fun _ _ => rfl)
  rw [runtimeKeys, source_pairs, writable, readonly]
  simp only [Option.bind_eq_bind, Option.bind_some, Option.pure_def, Option.some.injEq]
  rw [section_flat_map lookupTables _ _ true (fun _ _ => rfl),
    section_flat_map lookupTables _ _ false (fun _ _ => rfl)]
  rfl

/-- Resolving the compiled message at the runtime undoes `MessageV0::compile`. -/
theorem compile_resolves :
    ∃ msg keys, compile instructions feePayer recentBlockhash lookupTables = .ok msg ∧
      runtimeKeys (lookupSources instructions feePayer lookupTables) msg = some keys ∧
      (keys.length ≤ 256 →
        msg.instructions.mapM (resolve keys) = some (instructions.map Instruction.view)) := by
  refine ⟨_, _, compile_returns instructions feePayer recentBlockhash lookupTables bounded,
    runtime_combined instructions feePayer recentBlockhash lookupTables bounded, fun fits => ?_⟩
  apply resolve_all
  intro instr listed
  refine ⟨byte_index_inverts _ fits _ (program_combined instructions feePayer lookupTables instr
    listed), fun am member => byte_index_inverts _ fits _ ?_⟩
  exact account_combined instructions feePayer lookupTables bounded am
    (List.mem_flatMap.mpr ⟨instr, listed, member⟩)

end Runtime

/-- A table that holds two plain accounts and the key `filled 5`. -/
def sampleTable : AddressLookupTableAccount := ⟨.filled 100, [.filled 1, .filled 2, .filled 5]⟩

def mixedUses : List Instruction :=
  [⟨.filled 9, [⟨.filled 1, false, true⟩, ⟨.filled 3, true, false⟩, ⟨.filled 2, false, false⟩], [7]⟩,
    ⟨.filled 9, [⟨.filled 1, false, false⟩, ⟨.filled 4, false, true⟩], []⟩]

def mixedMessage : MessageV0 where
  header := ⟨2, 1, 1⟩
  staticAccountKeys := [.filled 6, .filled 3, .filled 4, .filled 9]
  recentBlockhash := []
  instructions := [⟨3, [4, 1, 5], [7]⟩, ⟨3, [4, 2], []⟩]
  addressTableLookups := [⟨.filled 100, [0], [1]⟩]

/-- The keys that the runtime rebuilds, two of them from the table. -/
def mixedKeys : List PublicKey :=
  [.filled 6, .filled 3, .filled 4, .filled 9, .filled 1, .filled 2]

theorem mixed_compiles :
    compile mixedUses (.filled 6) [] [sampleTable] = .ok mixedMessage := by decide

theorem mixed_rebuilt :
    runtimeKeys (lookupSources mixedUses (.filled 6) [sampleTable]) mixedMessage =
      some mixedKeys := by decide

theorem compile_resolves_mixed :
    compile mixedUses (.filled 6) [] [sampleTable] = .ok mixedMessage ∧
      runtimeKeys (lookupSources mixedUses (.filled 6) [sampleTable]) mixedMessage =
        some mixedKeys ∧
      mixedMessage.instructions.mapM (resolve mixedKeys) =
        some (mixedUses.map Instruction.view) := by
  obtain ⟨msg, keys, compiles, rebuilt, resolves⟩ :=
    compile_resolves mixedUses (.filled 6) [] [sampleTable] (by decide)
  cases mixed_compiles.symm.trans compiles
  cases mixed_rebuilt.symm.trans rebuilt
  exact ⟨compiles, rebuilt, resolves (by decide)⟩

end SolanaSdk.VersionedResolution
