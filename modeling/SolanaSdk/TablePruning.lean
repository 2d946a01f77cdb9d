import SolanaSdk.VersionedResolution

/-!
Lookup tables that a caller passes without need. A table in which no use is found
first moves the numbers of the tables behind it and nothing else, so
`MessageV0::compile` does the same without it. What is left are the tables that the
message names.
-/

namespace SolanaSdk.TablePruning

open ByteData PublicKeys Privileges Instructions Registers LookupTables
open VersionedMessage VersionedRouting VersionedLayout VersionedResolution

section Numbers

/-- The numbers of the other tables once there is a table number `gap`. -/
def skip (gap index : Nat) : Nat := if index < gap then index else index + 1

theorem skip_injective (gap : Nat) : Function.Injective (skip gap) := by
  intro left right same
  unfold skip at same
  split at same <;> split at same <;> omega

theorem skip_ne (gap index : Nat) : skip gap index ≠ gap := by
  unfold skip
  split <;> omega

def renumber (gap : Nat) (place : Place) : Place := (skip gap place.1, place.2)

theorem renumber_injective (gap : Nat) : Function.Injective (renumber gap) := by
  intro left right same
  obtain ⟨table, index⟩ := Prod.mk.inj same
  exact Prod.ext (skip_injective gap table) index

end Numbers

section Search
variable (pk : PublicKey) (writable : Bool)

theorem find_from_start (start : Nat) (tables : List AddressLookupTableAccount) :
    findFrom pk writable start tables = (findFrom pk writable 0 tables).map
      fun ref => { ref with tableIdx := start + ref.tableIdx } := by
  induction tables generalizing start with
  | nil => rfl
  | cons tbl rest ih =>
      cases hit : position tbl.addresses pk with
      | some ai => simp only [findFrom, hit, Option.map_some, Nat.add_zero]
      | none =>
          simp only [findFrom, hit]
          rw [ih (start + 1), ih (0 + 1), Option.map_map]
          simp only [Function.comp_def, Nat.zero_add, Nat.add_assoc]

theorem find_from_append (start : Nat) (left right : List AddressLookupTableAccount) :
    findFrom pk writable start (left ++ right) =
      (findFrom pk writable start left).or (findFrom pk writable (start + left.length) right) := by
  induction left generalizing start with
  | nil => rfl
  | cons tbl rest ih =>
      cases hit : position tbl.addresses pk with
      | some ai => simp only [List.cons_append, findFrom, hit, Option.some_or]
      | none =>
          simp only [List.cons_append, findFrom, hit, ih, List.length_cons]
          rw [Nat.add_assoc, Nat.add_comm 1]

variable (left right : List AddressLookupTableAccount) (tbl : AddressLookupTableAccount)

theorem locate_append : locate (left ++ right) pk =
    (locate left pk).or ((locate right pk).map fun place => (left.length + place.1, place.2)) := by
  unfold locate findInLookup
  rw [find_from_append, find_from_start pk false (0 + left.length), Option.map_or, Option.map_map,
    Option.map_map, Nat.zero_add]
  rfl

theorem locate_cons (tables : List AddressLookupTableAccount) :
    locate (tbl :: tables) pk =
      match position tbl.addresses pk with
      | some ai => some (0, UInt8.ofNat ai)
      | none => (locate tables pk).map fun place => (1 + place.1, place.2) := by
  unfold locate findInLookup
  rw [findFrom]
  cases position tbl.addresses pk with
  | some ai => rfl
  | none =>
      dsimp only
      rw [find_from_start pk false (0 + 1), Option.map_map, Option.map_map, Nat.zero_add]
      rfl

theorem locate_left_bound (place : Place) (found : locate left pk = some place) :
    place.1 < left.length := by
  obtain ⟨ref, hit, rfl⟩ := Option.map_eq_some_iff.mp found
  obtain ⟨-, offset, number, table, stored, -⟩ := find_from_some left pk false 0 ref hit
  obtain ⟨inside, -⟩ := List.getElem?_eq_some_iff.mp stored
  change ref.tableIdx < left.length
  omega

/-- A table with no key that is not in front of it moves the later numbers only. -/
theorem locate_without (covered : pk ∈ tbl.addresses → InSomeTable left pk) :
    locate (left ++ tbl :: right) pk =
      (locate (left ++ right) pk).map (renumber left.length) := by
  rw [locate_append, locate_append]
  cases before : locate left pk with
  | some place =>
      have bound := locate_left_bound pk left place before
      rw [Option.some_or, Option.some_or, Option.map_some, renumber, skip, if_pos bound]
  | none =>
      have absent : pk ∉ tbl.addresses := fun member =>
        (locate_none left pk).mp before (covered member)
      rw [Option.none_or, Option.none_or, locate_cons, (position_eq_none _ _).mpr absent]
      dsimp only
      rw [Option.map_map, Option.map_map]
      refine congrArg (Option.map · _) (funext fun place => ?_)
      change (left.length + (1 + place.1), place.2) = (skip _ (left.length + place.1), place.2)
      rw [skip, if_neg (Nat.not_lt_of_le (Nat.le_add_right _ _)), Nat.add_comm 1, Nat.add_assoc]

end Search

section Unused
variable (instructions : List Instruction) (feePayer : PublicKey) (recentBlockhash : Text)
  (left right : List AddressLookupTableAccount) (tbl : AddressLookupTableAccount)

/-- Some use is found in the table and in none of those in front of it. -/
def Taken : Prop :=
  ∃ am ∈ metas instructions, am.isSigner = false ∧ am.pubkey ∈ tbl.addresses ∧
    ¬ InSomeTable left am.pubkey

instance : Decidable (Taken instructions left tbl) :=
  inferInstanceAs (Decidable (∃ _ ∈ _, _))

variable (unused : ¬ Taken instructions left tbl)
include unused

theorem in_front (am : AccountMeta) (listed : am ∈ metas instructions)
    (plain : am.isSigner = false) (member : am.pubkey ∈ tbl.addresses) :
    InSomeTable left am.pubkey := by
  by_contra first
  exact unused ⟨am, listed, plain, member, first⟩

theorem routed_without (am : AccountMeta) (listed : am ∈ metas instructions) :
    RoutedStatic (left ++ tbl :: right) am ↔ RoutedStatic (left ++ right) am := by
  cases plain : am.isSigner with
  | true => exact iff_of_true (.inl plain) (.inl plain)
  | false =>
      have held : InSomeTable (left ++ tbl :: right) am.pubkey ↔
          InSomeTable (left ++ right) am.pubkey := by
        simp only [InSomeTable, List.mem_append, List.mem_cons, or_and_right, exists_or,
          exists_eq_left]
        constructor
        · rintro (before | here | behind)
          · exact .inl before
          · exact .inl (in_front instructions left tbl unused am listed plain here)
          · exact .inr behind
        · rintro (before | behind)
          · exact .inl before
          · exact .inr (.inr behind)
      rw [RoutedStatic, RoutedStatic, held]

theorem lookup_use_without (am : AccountMeta) (listed : am ∈ metas instructions) :
    lookupUse (left ++ tbl :: right) am =
      (lookupUse (left ++ right) am).map fun use => (renumber left.length use.1, use.2) := by
  unfold lookupUse
  split
  · rfl
  · next plain =>
      rw [locate_without am.pubkey left right tbl (in_front instructions left tbl unused am listed
        (Bool.eq_false_iff.mpr plain)), Option.map_map, Option.map_map]
      rfl

theorem first_lookups_without :
    firstLookups instructions (left ++ tbl :: right) =
      (firstLookups instructions (left ++ right)).map
        fun use => (renumber left.length use.1, use.2) := by
  have uses : lookupUses (left ++ tbl :: right) instructions =
      (lookupUses (left ++ right) instructions).map
        fun use => (renumber left.length use.1, use.2) := by
    rw [lookupUses, lookupUses, List.map_filterMap]
    exact List.filterMap_congr fun am listed =>
      lookup_use_without instructions left right tbl unused am listed
  rw [firstLookups, uses]
  exact first_uses_rename _ (renumber_injective left.length) _

theorem static_accounts_without :
    staticAccounts instructions feePayer (left ++ tbl :: right) =
      staticAccounts instructions feePayer (left ++ right) := by
  have uses : staticUses (left ++ tbl :: right) instructions feePayer =
      staticUses (left ++ right) instructions feePayer := by
    unfold staticUses
    refine congrArg (_ :: ·) (List.flatMap_congr fun instr inside => ?_)
    unfold staticMetas
    refine congrArg (fun kept => _ :: List.map metaUse kept) (List.filter_congr fun am listed => ?_)
    exact decide_eq_decide.mpr (routed_without instructions left right tbl unused am
      (List.mem_flatMap.mpr ⟨instr, inside, listed⟩))
  have entries := route_static_refines (left ++ tbl :: right) instructions feePayer
  rw [uses, ← route_static_refines] at entries
  refine List.map_injective_iff.mpr ?_ entries
  rintro ⟨key, signer, writable⟩ ⟨key', signer', writable'⟩ same
  cases same
  rfl

end Unused

section Buckets

theorem bucket_of_renumber (gap ti : Nat) (first : List (Place × Bool)) :
    bucketOf (first.map fun use => (renumber gap use.1, use.2)) (skip gap ti) =
      bucketOf first ti := by
  have same : ∀ use : Place × Bool, ((renumber gap use.1).1 == skip gap ti) = (use.1.1 == ti) :=
    fun use => Bool.eq_iff_iff.mpr (by
      rw [beq_iff_eq, beq_iff_eq]
      exact (skip_injective gap).eq_iff)
  unfold bucketOf
  simp only [List.filter_map, Function.comp_def, same, List.map_map]
  rfl

theorem bucket_of_gap (gap : Nat) (first : List (Place × Bool)) :
    bucketOf (first.map fun use => (renumber gap use.1, use.2)) gap = ⟨[], []⟩ := by
  have other : ∀ use : Place × Bool, ((renumber gap use.1).1 == gap) = false :=
    fun use => beq_eq_false_iff_ne.mpr (skip_ne gap use.1.1)
  unfold bucketOf
  simp only [List.filter_map, Function.comp_def, other, Bool.false_and, List.filter_false,
    List.map_nil]

/-- Each table beside the bucket of its number, from number `start` on. -/
def paired (first : List (Place × Bool)) (start : Nat) (tables : List AddressLookupTableAccount) :
    List (AddressLookupTableAccount × TableBucket) :=
  (tables.zipIdx start).map fun (tbl, ti) => (tbl, bucketOf first ti)

variable (instructions : List Instruction) (feePayer : PublicKey)

theorem zip_buckets (lookupTables : List AddressLookupTableAccount) :
    lookupTables.zip (buckets instructions feePayer lookupTables) =
      paired (firstLookups instructions lookupTables) 0 lookupTables := by
  have recorded := (route_recorded lookupTables instructions feePayer).buckets
  rw [buckets, recorded, paired, List.zipIdx_eq_zip_range', List.zip_map_right,
    List.range_eq_range']
  rfl

theorem paired_append (first : List (Place × Bool)) (start : Nat)
    (left right : List AddressLookupTableAccount) :
    paired first start (left ++ right) =
      paired first start left ++ paired first (start + left.length) right := by
  rw [paired, List.zipIdx_append, List.map_append]
  rfl

variable (first : List (Place × Bool)) (gap : Nat) (tables : List AddressLookupTableAccount)

/-- In front of the gap the numbers stay. -/
theorem paired_before (start : Nat) (before : start + tables.length ≤ gap) :
    paired (first.map fun use => (renumber gap use.1, use.2)) start tables =
      paired first start tables := by
  refine List.map_congr_left fun pair member => ?_
  have bound := List.snd_lt_of_mem_zipIdx member
  have bucket := bucket_of_renumber gap pair.2 first
  rw [skip, if_pos (by omega)] at bucket
  exact congrArg (Prod.mk pair.1) bucket

/-- Behind it they move by one. -/
theorem paired_behind (start : Nat) (behind : gap ≤ start) :
    paired (first.map fun use => (renumber gap use.1, use.2)) (start + 1) tables =
      paired first start tables := by
  rw [paired, List.zipIdx_succ, List.map_map]
  refine List.map_congr_left fun pair member => ?_
  have bound := List.le_snd_of_mem_zipIdx member
  have bucket := bucket_of_renumber gap pair.2 first
  rw [skip, if_neg (by omega)] at bucket
  exact congrArg (Prod.mk pair.1) bucket

end Buckets

section Dropped
variable (instructions : List Instruction) (feePayer : PublicKey) (recentBlockhash : Text)
  (left right : List AddressLookupTableAccount) (tbl : AddressLookupTableAccount)
  (unused : ¬ Taken instructions left tbl)
include unused

/-- An unused table stands beside an empty bucket, and the others as without it. -/
theorem zip_without : ∃ front back,
    (left ++ tbl :: right).zip (buckets instructions feePayer (left ++ tbl :: right)) =
      front ++ (tbl, ⟨[], []⟩) :: back ∧
    (left ++ right).zip (buckets instructions feePayer (left ++ right)) = front ++ back := by
  have first := first_lookups_without instructions left right tbl unused
  refine ⟨paired (firstLookups instructions (left ++ right)) 0 left,
    paired (firstLookups instructions (left ++ right)) left.length right, ?_, ?_⟩
  · have gap : paired ((firstLookups instructions (left ++ right)).map
        fun use => (renumber left.length use.1, use.2)) left.length (tbl :: right) =
        (tbl, ⟨[], []⟩) ::
          paired (firstLookups instructions (left ++ right)) left.length right := by
      rw [← paired_behind _ left.length right left.length (Nat.le_refl _),
        ← bucket_of_gap left.length (firstLookups instructions (left ++ right))]
      rfl
    rw [zip_buckets, first, paired_append, Nat.zero_add, gap,
      paired_before _ _ left 0 (Nat.le_of_eq (Nat.zero_add _))]
  · rw [zip_buckets, paired_append, Nat.zero_add]

theorem combined_without :
    combined instructions feePayer (left ++ tbl :: right) =
      combined instructions feePayer (left ++ right) := by
  obtain ⟨front, back, with_, without⟩ := zip_without instructions feePayer left right tbl unused
  rw [combined, combined, virtualKeys, virtualKeys, with_, without, ordered, ordered,
    static_accounts_without instructions feePayer left right tbl unused]
  simp only [List.flatMap_append, List.flatMap_cons, List.map_nil, List.nil_append]

theorem section_without :
    lookupSection (left ++ tbl :: right)
        (buckets instructions feePayer (left ++ tbl :: right)) =
      lookupSection (left ++ right) (buckets instructions feePayer (left ++ right)) := by
  obtain ⟨front, back, with_, without⟩ := zip_without instructions feePayer left right tbl unused
  rw [lookupSection, lookupSection, with_, without, List.filterMap_append, List.filterMap_append,
    List.filterMap_cons_none rfl]

omit unused in
theorem compile_numbers (lookupTables : List AddressLookupTableAccount) :
    compile instructions feePayer recentBlockhash lookupTables =
      instructions.mapM (compileInstruction (combined instructions feePayer lookupTables)) >>=
        fun numbered => pure { compiled instructions feePayer recentBlockhash lookupTables with
          instructions := numbered } := rfl

/-- The same message, or the same exception. -/
theorem compile_without :
    compile instructions feePayer recentBlockhash (left ++ tbl :: right) =
      compile instructions feePayer recentBlockhash (left ++ right) := by
  have keys := combined_without instructions feePayer left right tbl unused
  have entries := section_without instructions feePayer left right tbl unused
  have accounts := static_accounts_without instructions feePayer left right tbl unused
  rw [compile_numbers, compile_numbers, keys]
  refine congrArg (_ >>= ·) (funext fun numbered => ?_)
  simp only [compiled, ordered, accounts, entries]

end Dropped

section Needed
variable (instructions : List Instruction) (feePayer : PublicKey) (recentBlockhash : Text)

/-- Each table that is taken behind the needed ones in front of it. -/
def neededTables : List AddressLookupTableAccount → List AddressLookupTableAccount →
    List AddressLookupTableAccount
  | _, [] => []
  | left, tbl :: rest =>
      if Taken instructions left tbl then tbl :: neededTables (left ++ [tbl]) rest
      else neededTables left rest

theorem needed_sublist (left tables : List AddressLookupTableAccount) :
    (neededTables instructions left tables).Sublist tables := by
  induction tables generalizing left with
  | nil => exact .slnil
  | cons tbl rest ih =>
      rw [neededTables]
      split
      · exact (ih (left ++ [tbl])).cons_cons tbl
      · exact (ih left).cons tbl

theorem compile_needed (left tables : List AddressLookupTableAccount) :
    compile instructions feePayer recentBlockhash (left ++ tables) =
      compile instructions feePayer recentBlockhash
        (left ++ neededTables instructions left tables) := by
  induction tables generalizing left with
  | nil => rfl
  | cons tbl rest ih =>
      rw [neededTables]
      split
      · have next := ih (left ++ [tbl])
        rw [List.append_assoc, List.append_assoc] at next
        exact next
      · next unused =>
          rw [compile_without instructions feePayer recentBlockhash left rest tbl unused]
          exact ih left

theorem needed_taken (left tables : List AddressLookupTableAccount) (index : Nat)
    (inside : index < (neededTables instructions left tables).length) :
    Taken instructions (left ++ (neededTables instructions left tables).take index)
      (neededTables instructions left tables)[index] := by
  induction tables generalizing left index with
  | nil => cases inside
  | cons tbl rest ih =>
      by_cases taken : Taken instructions left tbl
      · simp only [neededTables, if_pos taken] at inside ⊢
        cases index with
        | zero => simpa using taken
        | succ index =>
            have later := ih (left ++ [tbl]) index (Nat.lt_of_succ_lt_succ inside)
            rw [List.append_assoc] at later
            exact later
      · simp only [neededTables, if_neg taken] at inside ⊢
        exact ih left index inside

/-- A table that is taken gets an index into its bucket. -/
theorem taken_bucket (lookupTables : List AddressLookupTableAccount) (index : Nat)
    (inside : index < lookupTables.length)
    (taken : Taken instructions (lookupTables.take index) lookupTables[index]) :
    ∃ flag ai, ai ∈ side (bucketOf (firstLookups instructions lookupTables) index) flag := by
  obtain ⟨am, listed, plain, member, first⟩ := taken
  obtain ⟨ai, position⟩ := position_of_mem _ _ member
  have found : locate lookupTables am.pubkey = some (index, UInt8.ofNat ai) := by
    have split := List.take_append_drop index lookupTables
    rw [List.drop_eq_getElem_cons inside] at split
    rw [← split, locate_append, (locate_none _ _).mpr first, Option.none_or, locate_cons, position]
    dsimp only
    rw [Option.map_some, List.length_take, Nat.min_eq_left (Nat.le_of_lt inside), Nat.add_zero]
  obtain ⟨flag, used⟩ := first_lookup_exists instructions lookupTables am listed plain _ found
  exact ⟨flag, _, (mem_side _ index flag _).mpr used⟩

/-- What `emitEntry` gives for a bucket that is not empty. -/
def entryOf (pair : AddressLookupTableAccount × TableBucket) :
    AddressLookupTableAccount × MessageAddressTableLookup :=
  (pair.1, ⟨pair.1.key, pair.2.writableIdx, pair.2.readonlyIdx⟩)

/-- Where all tables are taken, the message names them all. -/
theorem all_named (lookupTables : List AddressLookupTableAccount)
    (all : ∀ index (inside : index < lookupTables.length),
      Taken instructions (lookupTables.take index) lookupTables[index]) :
    (compiled instructions feePayer recentBlockhash lookupTables).addressTableLookups.map
      MessageAddressTableLookup.accountKey = lookupTables.map AddressLookupTableAccount.key := by
  have emitted : ∀ pair ∈ paired (firstLookups instructions lookupTables) 0 lookupTables,
      emitEntry pair = some (entryOf pair) := by
    intro pair member
    obtain ⟨⟨tbl, ti⟩, numbered, rfl⟩ := List.mem_map.mp member
    obtain ⟨inside, -⟩ := List.mem_zipIdx' numbered
    obtain ⟨flag, ai, filled⟩ := taken_bucket instructions lookupTables ti inside (all ti inside)
    refine if_neg fun empty => ?_
    rw [Bool.and_eq_true, List.isEmpty_iff, List.isEmpty_iff] at empty
    cases flag with
    | true =>
        rw [side, empty.1] at filled
        cases filled
    | false =>
        rw [side, empty.2] at filled
        cases filled
  change ((lookupSection lookupTables _).map Prod.snd).map _ = _
  rw [lookupSection, zip_buckets, List.filterMap_congr emitted, List.map_map]
  change ((paired _ 0 lookupTables).filterMap fun pair => some (entryOf pair)).map _ = _
  rw [List.filterMap_eq_map', List.map_map, paired, List.map_map]
  conv_rhs => rw [← List.zipIdx_map_fst 0 lookupTables, List.map_map]
  rfl

theorem compiled_named (lookupTables : List AddressLookupTableAccount) (msg : MessageV0)
    (returned : compile instructions feePayer recentBlockhash lookupTables = .ok msg) :
    msg.addressTableLookups.map MessageAddressTableLookup.accountKey =
      (neededTables instructions [] lookupTables).map AddressLookupTableAccount.key := by
  have same := compile_needed instructions feePayer recentBlockhash [] lookupTables
  rw [compile_returned instructions feePayer recentBlockhash _ msg (same.symm.trans returned)]
  refine all_named instructions feePayer recentBlockhash _ fun index inside => ?_
  exact needed_taken instructions [] lookupTables index inside

/-- Whatever tables are passed, `compile` returns or throws what it does for those
of them that are needed. The message names exactly these, and fewer do not give it. -/
theorem needless_tables (lookupTables : List AddressLookupTableAccount) :
    (neededTables instructions [] lookupTables).Sublist lookupTables ∧
      compile instructions feePayer recentBlockhash lookupTables =
        compile instructions feePayer recentBlockhash (neededTables instructions [] lookupTables) ∧
      ∀ msg, compile instructions feePayer recentBlockhash lookupTables = .ok msg →
        msg.addressTableLookups.map MessageAddressTableLookup.accountKey =
          (neededTables instructions [] lookupTables).map AddressLookupTableAccount.key ∧
        ∀ others, compile instructions feePayer recentBlockhash others = .ok msg →
          (neededTables instructions [] lookupTables).length ≤ others.length := by
  refine ⟨needed_sublist instructions [] lookupTables,
    compile_needed instructions feePayer recentBlockhash [] lookupTables, fun msg returned => ?_⟩
  have names := compiled_named instructions feePayer recentBlockhash lookupTables msg returned
  refine ⟨names, fun others again => ?_⟩
  have counted := congrArg List.length
    (names.symm.trans (compiled_named instructions feePayer recentBlockhash others msg again))
  rw [List.length_map, List.length_map] at counted
  rw [counted]
  exact (needed_sublist instructions [] others).length_le

/-- A copy of a table is not needed. -/
example : neededTables mixedUses [] [sampleTable, sampleTable] = [sampleTable] := by decide

end Needed
end SolanaSdk.TablePruning
