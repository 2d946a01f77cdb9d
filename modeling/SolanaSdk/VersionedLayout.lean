import SolanaSdk.VersionedRouting

/-!
The two halves of the combined account list of a V0 message. The static half is
in block order and its header states the merged flags of the statically routed
uses; the loaded half holds every other table use once, on the side that its
first use asked for.
-/

namespace SolanaSdk.VersionedLayout

open ByteData PublicKeys Privileges Instructions RankedBlocks Registers LookupTables
open VersionedMessage VersionedRouting

section Ordering

def grant (a : AccountInfo) : Privilege := ⟨a.isSigner, a.isWritable⟩

theorem order_blocks (accounts : List AccountInfo) :
    orderAccounts accounts = blocks (fun a => (grant a).block) 4 accounts := by
  have block : ∀ (signer writable : Bool) (number : Nat),
      (∀ privilege : Privilege, privilege.block = number ↔
        privilege.signer = signer ∧ privilege.writable = writable) →
      (accounts.filter fun a => decide ((grant a).block = number)) =
        accounts.filter fun a => a.isSigner == signer && a.isWritable == writable := by
    intro signer writable number characterized
    apply List.filter_congr
    intro a _
    rw [Bool.eq_iff_iff]
    simp [characterized, grant]
  -- The four filters of the source are the blocks 0 to 3 in order.
  have range : List.range 4 = [0, 1, 2, 3] := rfl
  simp only [blocks, range, List.flatMap_cons, List.flatMap_nil, List.append_nil]
  rw [block true true 0, block true false 1, block false true 2, block false false 3]
  · simp [orderAccounts, List.append_assoc]
  all_goals
    rintro ⟨signer, writable⟩
    cases signer <;> cases writable <;> decide

theorem order_perm (accounts : List AccountInfo) : (orderAccounts accounts).Perm accounts := by
  rw [order_blocks]
  exact blocks_perm_self _ 4 accounts fun a _ => Privilege.block_lt_four (grant a)

theorem order_in_blocks (accounts : List AccountInfo) : InBlocks grant (orderAccounts accounts) := by
  rw [order_blocks]
  exact blocks_ranked _ 4 accounts

/-- The one loop with three counters counts what three loops would. -/
theorem count_header_of (ordered : List AccountInfo) :
    countHeader ordered = headerOf grant ordered := by
  have run : ∀ (rows : List AccountInfo) (header : MessageHeader),
      rows.foldl countAccount header =
        { numRequiredSignatures := rows.foldl
            (fun count a => if isSigner grant a then count + 1 else count)
            header.numRequiredSignatures
          numReadonlySignedAccounts := rows.foldl
            (fun count a => if isReadonlySigner grant a then count + 1 else count)
            header.numReadonlySignedAccounts
          numReadonlyUnsignedAccounts := rows.foldl
            (fun count a => if isReadonlyOther grant a then count + 1 else count)
            header.numReadonlyUnsignedAccounts } := by
    intro rows
    induction rows with
    | nil => intro header; rfl
    | cons a rest ih =>
        intro header
        rw [List.foldl_cons, ih]
        cases signed : a.isSigner <;> cases written : a.isWritable <;>
          simp [countAccount, isSigner, isReadonlySigner, isReadonlyOther, grant, signed, written]
  exact run ordered {}

end Ordering

section StaticHalf
variable (instructions : List Instruction) (feePayer : PublicKey)
  (lookupTables : List AddressLookupTableAccount)

def staticAccounts : List AccountInfo := (route instructions feePayer lookupTables).staticAccounts

def ordered : List AccountInfo := orderAccounts (staticAccounts instructions feePayer lookupTables)

/-- The keys that some use sends to the static accounts. -/
def StaticKey (key : PublicKey) : Prop :=
  key = feePayer ∨ IsProgram instructions key ∨
    ∃ am ∈ metas instructions, am.pubkey = key ∧ RoutedStatic lookupTables am

/-- The write demands that reach the static accounts. -/
def StaticWrites (key : PublicKey) : Prop :=
  key = feePayer ∨ ∃ am ∈ metas instructions,
    am.pubkey = key ∧ RoutedStatic lookupTables am ∧ am.isWritable = true

theorem mem_static_uses (use : PublicKey × Privilege) :
    use ∈ staticUses lookupTables instructions feePayer ↔
      use = (feePayer, ⟨true, true⟩) ∨
      (∃ instr ∈ instructions, use = (instr.programId, ⟨false, false⟩)) ∨
      ∃ am ∈ metas instructions, RoutedStatic lookupTables am ∧ metaUse am = use := by
  simp only [staticUses, staticMetas, metas, List.mem_cons, List.mem_flatMap, List.mem_map,
    List.mem_filter, decide_eq_true_eq]
  constructor
  · rintro (payer | ⟨instr, member, program | ⟨am, ⟨listed, kept⟩, same⟩⟩)
    · exact Or.inl payer
    · exact Or.inr (Or.inl ⟨instr, member, program⟩)
    · exact Or.inr (Or.inr ⟨am, ⟨instr, member, listed⟩, kept, same⟩)
  · rintro (payer | ⟨instr, member, program⟩ | ⟨am, ⟨instr, member, listed⟩, kept, same⟩)
    · exact Or.inl payer
    · exact Or.inr ⟨instr, member, Or.inl program⟩
    · exact Or.inr ⟨instr, member, Or.inr ⟨am, ⟨listed, kept⟩, same⟩⟩

theorem static_keys :
    (staticAccounts instructions feePayer lookupTables).map AccountInfo.key =
      (keys (staticUses lookupTables instructions feePayer)).eraseDups := by
  have entries := route_static_refines lookupTables instructions feePayer
  rw [← register_all_keys Privilege.merge, ← entries, keys, staticEntries, List.map_map]
  rfl

theorem static_keys_nodup :
    ((staticAccounts instructions feePayer lookupTables).map AccountInfo.key).Nodup := by
  rw [static_keys]
  exact erase_dups_nodup _

theorem mem_static_keys (key : PublicKey) :
    key ∈ (staticAccounts instructions feePayer lookupTables).map AccountInfo.key ↔
      StaticKey instructions feePayer lookupTables key := by
  rw [static_keys, List.mem_eraseDups, keys, List.mem_map]
  constructor
  · rintro ⟨use, member, rfl⟩
    rcases (mem_static_uses instructions feePayer lookupTables use).mp member with
      rfl | ⟨instr, listed, rfl⟩ | ⟨am, listed, kept, rfl⟩
    · exact Or.inl rfl
    · exact Or.inr (Or.inl ⟨instr, listed, rfl⟩)
    · exact Or.inr (Or.inr ⟨am, listed, rfl, kept⟩)
  · rintro (rfl | ⟨instr, listed, rfl⟩ | ⟨am, listed, rfl, kept⟩)
    · exact ⟨_, (mem_static_uses ..).mpr (Or.inl rfl), rfl⟩
    · exact ⟨_, (mem_static_uses ..).mpr (Or.inr (Or.inl ⟨instr, listed, rfl⟩)), rfl⟩
    · exact ⟨_, (mem_static_uses ..).mpr (Or.inr (Or.inr ⟨am, listed, kept, rfl⟩)), rfl⟩

/-- A flag of a static account is set exactly when it is the fee payer or some
statically routed use sets it. -/
theorem static_flag (flag : Privilege → Bool)
    (split : ∀ left right, flag (Privilege.merge left right) = true ↔
      flag left = true ∨ flag right = true)
    (payer : flag ⟨true, true⟩ = true) (program : flag ⟨false, false⟩ = false) (a : AccountInfo)
    (member : a ∈ staticAccounts instructions feePayer lookupTables) :
    flag (grant a) = true ↔ a.key = feePayer ∨ ∃ am ∈ metas instructions,
      am.pubkey = a.key ∧ RoutedStatic lookupTables am ∧ flag (metaUse am).2 = true := by
  have entry : accountEntry a ∈
      registerAll Privilege.merge (staticUses lookupTables instructions feePayer) [] := by
    rw [← route_static_refines]
    exact List.mem_map_of_mem member
  refine (register_all_mark Privilege.merge (fun mark => flag mark = true) split _ _ entry).trans ?_
  constructor
  · rintro ⟨use, used, same, marked⟩
    rcases (mem_static_uses instructions feePayer lookupTables use).mp used with
      rfl | ⟨instr, listed, rfl⟩ | ⟨am, listed, kept, rfl⟩
    · exact Or.inl same.symm
    · exact absurd (program.symm.trans marked) Bool.false_ne_true
    · exact Or.inr ⟨am, listed, same, kept, marked⟩
  · rintro (payerKey | ⟨am, listed, same, kept, marked⟩)
    · exact ⟨_, (mem_static_uses ..).mpr (Or.inl rfl), payerKey.symm, payer⟩
    · exact ⟨_, (mem_static_uses ..).mpr (Or.inr (Or.inr ⟨am, listed, kept, rfl⟩)), same, marked⟩

/-- Signer uses are never routed to a table, so no sign demand is missed. -/
theorem static_signer (a : AccountInfo)
    (member : a ∈ staticAccounts instructions feePayer lookupTables) :
    a.isSigner = true ↔ Signs instructions feePayer a.key := by
  have flagged := static_flag instructions feePayer lookupTables Privilege.signer
    Privilege.merge_signer rfl rfl a member
  refine flagged.trans (or_congr_right ?_)
  constructor
  · rintro ⟨am, listed, same, _, signed⟩
    exact ⟨am, listed, same, signed⟩
  · rintro ⟨am, listed, same, signed⟩
    exact ⟨am, listed, same, Or.inl signed, signed⟩

theorem static_writable (a : AccountInfo)
    (member : a ∈ staticAccounts instructions feePayer lookupTables) :
    a.isWritable = true ↔ StaticWrites instructions feePayer lookupTables a.key :=
  static_flag instructions feePayer lookupTables Privilege.writable Privilege.merge_writable rfl rfl
    a member

instance (key : PublicKey) : Decidable (StaticKey instructions feePayer lookupTables key) :=
  inferInstanceAs (Decidable (_ ∨ _ ∨ ∃ _ ∈ _, _))

instance (key : PublicKey) : Decidable (StaticWrites instructions feePayer lookupTables key) :=
  inferInstanceAs (Decidable (_ ∨ ∃ _ ∈ _, _))

/-- The merged demand of the uses that reach the static accounts. -/
def staticDemand (key : PublicKey) : Privilege :=
  ⟨decide (Signs instructions feePayer key),
    decide (StaticWrites instructions feePayer lookupTables key)⟩

theorem static_demand (a : AccountInfo)
    (member : a ∈ staticAccounts instructions feePayer lookupTables) :
    grant a = staticDemand instructions feePayer lookupTables a.key := by
  have signer := static_signer instructions feePayer lookupTables a member
  have writable := static_writable instructions feePayer lookupTables a member
  refine congrArg₂ Privilege.mk (Bool.eq_iff_iff.mpr ?_) (Bool.eq_iff_iff.mpr ?_)
  · rw [signer, decide_eq_true_eq]
  · rw [writable, decide_eq_true_eq]

theorem ordered_perm :
    (ordered instructions feePayer lookupTables).Perm
      (staticAccounts instructions feePayer lookupTables) := order_perm _

theorem ordered_keys_nodup :
    ((ordered instructions feePayer lookupTables).map AccountInfo.key).Nodup :=
  ((ordered_perm instructions feePayer lookupTables).map AccountInfo.key).nodup_iff.mpr
    (static_keys_nodup instructions feePayer lookupTables)

theorem mem_ordered_keys (key : PublicKey) :
    key ∈ (ordered instructions feePayer lookupTables).map AccountInfo.key ↔
      StaticKey instructions feePayer lookupTables key :=
  ((ordered_perm instructions feePayer lookupTables).map AccountInfo.key).mem_iff.trans
    (mem_static_keys instructions feePayer lookupTables key)

/-- The counted header is a matter of the keys and their demands alone. -/
theorem ordered_header :
    countHeader (ordered instructions feePayer lookupTables) =
      headerOf (staticDemand instructions feePayer lookupTables)
        ((ordered instructions feePayer lookupTables).map AccountInfo.key) := by
  have grants : (ordered instructions feePayer lookupTables).map grant =
      (ordered instructions feePayer lookupTables).map
        (staticDemand instructions feePayer lookupTables ∘ AccountInfo.key) :=
    List.map_congr_left fun a member => static_demand instructions feePayer lookupTables a
      ((ordered_perm instructions feePayer lookupTables).mem_iff.mp member)
  rw [count_header_of, header_of_grants, grants, header_of_grants (staticDemand _ _ _),
    List.map_map]

theorem ordered_payer_first :
    ∃ rest, ordered instructions feePayer lookupTables = ⟨feePayer, true, true⟩ :: rest := by
  have heads := static_keys instructions feePayer lookupTables
  simp only [staticUses, keys_cons, List.eraseDups_cons] at heads
  cases accounts : staticAccounts instructions feePayer lookupTables with
  | nil => simp [accounts] at heads
  | cons a rest =>
      rw [accounts, List.map_cons] at heads
      have payer : a.key = feePayer := (List.cons.inj heads).1
      have member : a ∈ staticAccounts instructions feePayer lookupTables := by simp [accounts]
      have signer := (static_signer instructions feePayer lookupTables a member).mpr (Or.inl payer)
      have writable := (static_writable instructions feePayer lookupTables a member).mpr
        (Or.inl payer)
      have whole : a = ⟨feePayer, true, true⟩ := by
        cases a
        cases payer
        cases signer
        cases writable
        rfl
      subst whole
      exact ⟨_, by simp [ordered, accounts, orderAccounts]; rfl⟩

end StaticHalf

section LoadedHalf
variable (instructions : List Instruction) (feePayer : PublicKey)
  (lookupTables : List AddressLookupTableAccount)

def side (bucket : TableBucket) : Bool → List UInt8
  | true => bucket.writableIdx
  | false => bucket.readonlyIdx

def buckets : List TableBucket := (route instructions feePayer lookupTables).tableBuckets

/-- One side of the part of `virtualKeys` that comes out of the tables. -/
def loaded (flag : Bool) : List PublicKey :=
  (lookupTables.zip (buckets instructions feePayer lookupTables)).flatMap fun (tbl, bucket) =>
    (side bucket flag).map (addressAt tbl)

def firstLookups : List (Place × Bool) := firstUses (lookupUses lookupTables instructions)

theorem mem_side (first : List (Place × Bool)) (ti : Nat) (flag : Bool) (ai : UInt8) :
    ai ∈ side (bucketOf first ti) flag ↔ ((ti, ai), flag) ∈ first := by
  cases flag <;> simp only [side, bucketOf, List.mem_map, List.mem_filter, Bool.and_eq_true,
    beq_iff_eq, Bool.not_eq_true']
  all_goals
    constructor
    · rintro ⟨⟨⟨table, index⟩, mark⟩, ⟨member, rfl, rfl⟩, rfl⟩
      exact member
    · intro member
      exact ⟨_, ⟨member, rfl, rfl⟩, rfl⟩

theorem mem_lookup_uses (use : Place × Bool) :
    use ∈ lookupUses lookupTables instructions ↔
      ∃ am ∈ metas instructions, am.isSigner = false ∧
        locate lookupTables am.pubkey = some use.1 ∧ am.isWritable = use.2 := by
  simp only [lookupUses, List.mem_filterMap, lookupUse]
  constructor
  · rintro ⟨am, listed, moved⟩
    split at moved
    · cases moved
    · next plain =>
        obtain ⟨place, found, rfl⟩ := Option.map_eq_some_iff.mp moved
        exact ⟨am, listed, Bool.eq_false_iff.mpr plain, found, rfl⟩
  · rintro ⟨am, listed, plain, found, written⟩
    exact ⟨am, listed, by simp [plain, found, written]⟩

theorem first_lookup_used (use : Place × Bool)
    (member : use ∈ firstLookups instructions lookupTables) :
    use ∈ lookupUses lookupTables instructions :=
  List.mem_of_find?_eq_some ((mem_first_uses _ use).mp member)

theorem first_lookup_exists (am : AccountMeta) (listed : am ∈ metas instructions)
    (plain : am.isSigner = false) (place : Place)
    (found : locate lookupTables am.pubkey = some place) :
    ∃ flag, (place, flag) ∈ firstLookups instructions lookupTables := by
  have used := (mem_lookup_uses instructions lookupTables (place, am.isWritable)).mpr
    ⟨am, listed, plain, found, rfl⟩
  exact (mem_keys _ place).mp ((mem_register_all_keys keepOld _ place).mpr
    ((mem_keys _ place).mpr ⟨_, used⟩))

/-- A place is registered on one side only. -/
theorem first_lookup_unique (place : Place) (left right : Bool)
    (first : (place, left) ∈ firstLookups instructions lookupTables)
    (second : (place, right) ∈ firstLookups instructions lookupTables) : left = right := by
  have found := (mem_first_uses _ _).mp first
  have again := (mem_first_uses _ _).mp second
  rw [found] at again
  cases again
  rfl

theorem mem_table_buckets (tbl : AddressLookupTableAccount) (bucket : TableBucket)
    (member : (tbl, bucket) ∈ lookupTables.zip (buckets instructions feePayer lookupTables)) :
    ∃ ti, lookupTables[ti]? = some tbl ∧
      bucket = bucketOf (firstLookups instructions lookupTables) ti := by
  obtain ⟨ti, inside, pair⟩ := List.getElem_of_mem member
  have recorded := (route_recorded lookupTables instructions feePayer).buckets
  simp only [List.length_zip, buckets, recorded, List.length_map, List.length_range] at inside
  simp only [List.getElem_zip, Prod.mk.injEq, buckets, recorded, List.getElem_map,
    List.getElem_range] at pair
  exact ⟨ti, by rw [List.getElem?_eq_getElem (by omega), pair.1], pair.2.symm⟩

theorem table_bucket_mem (ti : Nat) (tbl : AddressLookupTableAccount)
    (table : lookupTables[ti]? = some tbl) :
    (tbl, bucketOf (firstLookups instructions lookupTables) ti) ∈
      lookupTables.zip (buckets instructions feePayer lookupTables) := by
  obtain ⟨inside, same⟩ := List.getElem?_eq_some_iff.mp table
  have recorded := (route_recorded lookupTables instructions feePayer).buckets
  have length : ti < (lookupTables.zip (buckets instructions feePayer lookupTables)).length := by
    simp [buckets, recorded, inside]
  have pair : (lookupTables.zip (buckets instructions feePayer lookupTables))[ti] =
      (tbl, bucketOf (firstLookups instructions lookupTables) ti) := by
    simp [buckets, recorded, same, firstLookups]
  exact pair ▸ List.getElem_mem length

theorem side_nodup (ti : Nat) (flag : Bool) :
    (side (bucketOf (firstLookups instructions lookupTables) ti) flag).Nodup := by
  have places : (firstLookups instructions lookupTables).Nodup :=
    List.Nodup.of_map Prod.fst (register_all_nodup keepOld _)
  cases flag <;> simp only [side, bucketOf]
  all_goals
    apply List.Nodup.map_on ?_ (places.filter _)
    rintro ⟨⟨_, _⟩, _⟩ left ⟨⟨_, _⟩, _⟩ right same
    simp only [List.mem_filter, Bool.and_eq_true, beq_iff_eq, Bool.not_eq_true'] at left right
    simp_all

variable (bounded : Bounded lookupTables)
include bounded

/-- An index in a bucket stands for the key that was found there. -/
theorem first_lookup_address (ti : Nat) (tbl : AddressLookupTableAccount)
    (table : lookupTables[ti]? = some tbl) (ai : UInt8) (flag : Bool)
    (member : ((ti, ai), flag) ∈ firstLookups instructions lookupTables) :
    tbl.addresses[ai.toNat]? = some (addressAt tbl ai) ∧
      locate lookupTables (addressAt tbl ai) = some (ti, ai) := by
  obtain ⟨am, _, _, found, _⟩ := (mem_lookup_uses instructions lookupTables _).mp
    (first_lookup_used instructions lookupTables _ member)
  obtain ⟨same, again, stored⟩ := locate_some lookupTables am.pubkey bounded (ti, ai) found
  rw [table] at again
  cases again
  have key : addressAt tbl ai = am.pubkey := by
    rw [addressAt, List.getD_eq_getElem?_getD, stored, Option.getD_some]
  rw [key]
  exact ⟨stored, found⟩

theorem mem_loaded (flag : Bool) (key : PublicKey) :
    key ∈ loaded instructions feePayer lookupTables flag ↔
      ∃ place, locate lookupTables key = some place ∧
        (place, flag) ∈ firstLookups instructions lookupTables := by
  simp only [loaded, List.mem_flatMap, List.mem_map]
  constructor
  · rintro ⟨⟨tbl, bucket⟩, pair, ai, indexed, rfl⟩
    obtain ⟨ti, table, rfl⟩ := mem_table_buckets instructions feePayer lookupTables tbl bucket pair
    have member := (mem_side _ ti flag ai).mp indexed
    exact ⟨(ti, ai), (first_lookup_address instructions lookupTables bounded ti tbl table ai flag
      member).2, member⟩
  · rintro ⟨⟨ti, ai⟩, found, member⟩
    obtain ⟨tbl, table, stored⟩ := locate_some lookupTables key bounded (ti, ai) found
    refine ⟨_, table_bucket_mem instructions feePayer lookupTables ti tbl table, ai,
      (mem_side _ ti flag ai).mpr member, ?_⟩
    rw [addressAt, List.getD_eq_getElem?_getD, stored, Option.getD_some]

theorem mem_loaded_either (key : PublicKey) :
    key ∈ loaded instructions feePayer lookupTables true ++
        loaded instructions feePayer lookupTables false ↔
      ∃ am ∈ metas instructions, am.pubkey = key ∧ am.isSigner = false ∧
        InSomeTable lookupTables am.pubkey := by
  rw [List.mem_append]
  constructor
  · have used : ∀ flag, key ∈ loaded instructions feePayer lookupTables flag →
        ∃ am ∈ metas instructions, am.pubkey = key ∧ am.isSigner = false ∧
          InSomeTable lookupTables am.pubkey := by
      intro flag member
      obtain ⟨place, found, first⟩ :=
        (mem_loaded instructions feePayer lookupTables bounded flag key).mp member
      obtain ⟨am, listed, plain, located, _⟩ := (mem_lookup_uses instructions lookupTables _).mp
        (first_lookup_used instructions lookupTables _ first)
      refine ⟨am, listed, locate_injective lookupTables am.pubkey bounded key place located found,
        plain, ?_⟩
      by_contra absent
      rw [(locate_none lookupTables am.pubkey).mpr absent] at located
      cases located
    rintro (member | member)
    · exact used true member
    · exact used false member
  · rintro ⟨am, listed, rfl, plain, present⟩
    have located : locate lookupTables am.pubkey ≠ none := fun absent =>
      (locate_none lookupTables am.pubkey).mp absent present
    obtain ⟨place, found⟩ := Option.ne_none_iff_exists'.mp located
    obtain ⟨flag, first⟩ := first_lookup_exists instructions lookupTables am listed plain place found
    cases flag with
    | true => exact Or.inl ((mem_loaded _ _ _ bounded true _).mpr ⟨place, found, first⟩)
    | false => exact Or.inr ((mem_loaded _ _ _ bounded false _).mpr ⟨place, found, first⟩)

theorem loaded_disjoint :
    (loaded instructions feePayer lookupTables true).Disjoint
      (loaded instructions feePayer lookupTables false) := by
  intro key left right
  obtain ⟨place, found, first⟩ :=
    (mem_loaded instructions feePayer lookupTables bounded true key).mp left
  obtain ⟨again, same, second⟩ :=
    (mem_loaded instructions feePayer lookupTables bounded false key).mp right
  rw [found] at same
  cases same
  exact Bool.noConfusion
    (first_lookup_unique instructions lookupTables place true false first second)

theorem loaded_nodup (flag : Bool) : (loaded instructions feePayer lookupTables flag).Nodup := by
  have recorded := (route_recorded lookupTables instructions feePayer).buckets
  refine List.nodup_flatMap.mpr ⟨?_, ?_⟩
  · -- Within one table, equal addresses are found at one place, so at one index.
    rintro ⟨tbl, bucket⟩ pair
    obtain ⟨ti, table, rfl⟩ := mem_table_buckets instructions feePayer lookupTables tbl bucket pair
    apply List.Nodup.map_on ?_ (side_nodup instructions lookupTables ti flag)
    intro left first right second same
    have here := (first_lookup_address instructions lookupTables bounded ti tbl table left flag
      ((mem_side _ ti flag left).mp first)).2
    have there := (first_lookup_address instructions lookupTables bounded ti tbl table right flag
      ((mem_side _ ti flag right).mp second)).2
    rw [same, there] at here
    simpa using here.symm
  · -- Across tables, a key would be found in two of them.
    apply List.pairwise_iff_getElem.mpr
    intro before after left right order
    simp only [List.length_zip, buckets, recorded, List.length_map, List.length_range] at left right
    simp only [Function.onFun, List.getElem_zip, buckets, recorded, List.getElem_map,
      List.getElem_range]
    intro key first second
    obtain ⟨ai, indexed, rfl⟩ := List.mem_map.mp first
    obtain ⟨other, later, same⟩ := List.mem_map.mp second
    have here := (first_lookup_address instructions lookupTables bounded before _
      (List.getElem?_eq_getElem (by omega)) ai flag ((mem_side _ before flag ai).mp indexed)).2
    have there := (first_lookup_address instructions lookupTables bounded after _
      (List.getElem?_eq_getElem (by omega)) other flag ((mem_side _ after flag other).mp later)).2
    rw [same, here] at there
    cases there
    omega

theorem loaded_both_nodup : (loaded instructions feePayer lookupTables true ++
    loaded instructions feePayer lookupTables false).Nodup :=
  List.nodup_append'.mpr ⟨loaded_nodup _ _ _ bounded true, loaded_nodup _ _ _ bounded false,
    loaded_disjoint instructions feePayer lookupTables bounded⟩

end LoadedHalf
end SolanaSdk.VersionedLayout
