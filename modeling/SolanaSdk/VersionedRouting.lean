import SolanaSdk.VersionedMessage

/-!
The routing loop of `MessageV0::compile` read as two registers. The static
accounts are the merged register of the statically routed uses; the buckets
list, table by table, the first use of every place, so a later writable use of
a registered place changes no bucket.
-/

namespace SolanaSdk.VersionedRouting

open ByteData PublicKeys Privileges Instructions Registers LookupTables VersionedMessage

abbrev Place := Nat × UInt8

section Static

def accountEntry (a : AccountInfo) : PublicKey × Privilege := (a.key, ⟨a.isSigner, a.isWritable⟩)

def staticEntries (accounts : List AccountInfo) : List (PublicKey × Privilege) :=
  accounts.map accountEntry

theorem find_or_add_static_refines (pk : PublicKey) (signer writable : Bool)
    (accounts : List AccountInfo) :
    staticEntries (findOrAddStatic pk signer writable accounts) =
      register Privilege.merge pk ⟨signer, writable⟩ (staticEntries accounts) := by
  unfold staticEntries
  induction accounts with
  | nil => rfl
  | cons a rest ih =>
      by_cases hit : a.key = pk
      · simp [findOrAddStatic, hit, register, accountEntry, Privilege.merge]
      · simp [findOrAddStatic, hit, register, accountEntry, ih]

variable (lookupTables : List AddressLookupTableAccount)

/-- The uses that go to the static accounts: those of signers, and those of
keys that no table holds. -/
def RoutedStatic (am : AccountMeta) : Prop :=
  am.isSigner = true ∨ ¬ InSomeTable lookupTables am.pubkey

instance (am : AccountMeta) : Decidable (RoutedStatic lookupTables am) :=
  inferInstanceAs (Decidable (_ ∨ _))

def staticMetas (accounts : List AccountMeta) : List (PublicKey × Privilege) :=
  (accounts.filter fun am => RoutedStatic lookupTables am).map metaUse

/-- The uses that go to a table, with the place where the key is found. -/
def lookupUse (am : AccountMeta) : Option (Place × Bool) :=
  if am.isSigner then none
  else (locate lookupTables am.pubkey).map fun place => (place, am.isWritable)

theorem lookup_use_none (am : AccountMeta) :
    lookupUse lookupTables am = none ↔ RoutedStatic lookupTables am := by
  unfold lookupUse RoutedStatic
  split
  · next signed => simp [signed]
  · next plain => simp [plain, locate_none]

/-- One account of the routing loop, by what its use is. -/
theorem route_account_cases (routing : Routing) (am : AccountMeta) :
    routeAccount lookupTables routing am =
      match lookupUse lookupTables am with
      | none => addStatic routing am.pubkey am.isSigner am.isWritable
      | some use => findOrAddLookup routing use.1.1 use.1.2 use.2 := by
  cases lookupTables with
  | nil =>
      -- The source skips the search when there are no tables; it would find nothing.
      cases signed : am.isSigner <;>
        simp [routeAccount, lookupUse, locate, findInLookup, findFrom, signed]
  | cons tbl rest =>
      cases signed : am.isSigner with
      | true => simp [routeAccount, lookupUse, signed]
      | false =>
          rw [routeAccount, find_in_lookup_locate]
          cases found : locate (tbl :: rest) am.pubkey <;>
            simp [lookupUse, signed, found]

theorem route_accounts_static (accounts : List AccountMeta) (routing : Routing) :
    staticEntries (accounts.foldl (routeAccount lookupTables) routing).staticAccounts =
      registerAll Privilege.merge (staticMetas lookupTables accounts)
        (staticEntries routing.staticAccounts) := by
  induction accounts generalizing routing with
  | nil => rfl
  | cons am rest ih =>
      rw [List.foldl_cons, ih, route_account_cases]
      cases use : lookupUse lookupTables am with
      | none =>
          have kept := (lookup_use_none lookupTables am).mp use
          have head : staticMetas lookupTables (am :: rest) =
              metaUse am :: staticMetas lookupTables rest := by simp [staticMetas, kept]
          simp only [addStatic, find_or_add_static_refines, head]
          rfl
      | some use' =>
          have moved : ¬ RoutedStatic lookupTables am := fun kept => by
            rw [(lookup_use_none lookupTables am).mpr kept] at use
            cases use
          have same : (findOrAddLookup routing use'.1.1 use'.1.2 use'.2).staticAccounts =
              routing.staticAccounts := by
            unfold findOrAddLookup
            split <;> rfl
          simp [same, staticMetas, moved]

variable (instructions : List Instruction) (feePayer : PublicKey)

def staticUses : List (PublicKey × Privilege) :=
  (feePayer, ⟨true, true⟩) :: instructions.flatMap fun instr =>
    (instr.programId, ⟨false, false⟩) :: staticMetas lookupTables instr.accounts

theorem route_static_refines :
    staticEntries (route instructions feePayer lookupTables).staticAccounts =
      registerAll Privilege.merge (staticUses lookupTables instructions feePayer) [] := by
  have run : ∀ (rest : List Instruction) (routing : Routing),
      staticEntries (rest.foldl (routeInstruction lookupTables) routing).staticAccounts =
        registerAll Privilege.merge
          (rest.flatMap fun instr =>
            (instr.programId, ⟨false, false⟩) :: staticMetas lookupTables instr.accounts)
          (staticEntries routing.staticAccounts) := by
    intro rest
    induction rest with
    | nil => intro routing; rfl
    | cons instr rest ih =>
        intro routing
        rw [List.foldl_cons, ih, routeInstruction, route_accounts_static, addStatic,
          find_or_add_static_refines, List.flatMap_cons, register_all_append]
        rfl
  rw [route, run, find_or_add_static_refines]
  rfl

end Static

section Buckets

/-- What the first uses put into the bucket of table `ti`. -/
def bucketOf (first : List (Place × Bool)) (ti : Nat) : TableBucket where
  writableIdx := (first.filter fun use => use.1.1 == ti && use.2).map fun use => use.1.2
  readonlyIdx := (first.filter fun use => use.1.1 == ti && !use.2).map fun use => use.1.2

def lookupPlace (lk : LookupKey) : Place := (lk.tableIdx, lk.addrIdx)

/-- The registered lookups and the buckets after the given table uses. -/
structure Recorded (tables : Nat) (uses : List (Place × Bool)) (routing : Routing) : Prop where
  registered : routing.registeredLookups.map lookupPlace = keys (firstUses uses)
  buckets : routing.tableBuckets = (List.range tables).map (bucketOf (firstUses uses))

theorem upgrade_lookup_none (ti : Nat) (ai : UInt8) (writable : Bool) (lookups : List LookupKey) :
    upgradeLookup ti ai writable lookups = none ↔ (ti, ai) ∉ lookups.map lookupPlace := by
  induction lookups with
  | nil => simp [upgradeLookup]
  | cons lk rest ih =>
      by_cases hit : lk.tableIdx = ti ∧ lk.addrIdx = ai
      · simp [upgradeLookup, hit, lookupPlace]
      · have other : (ti, ai) ≠ lookupPlace lk := fun same => by
          cases same
          exact hit ⟨rfl, rfl⟩
        simp only [upgradeLookup, Bool.and_eq_true, beq_iff_eq, hit, if_false,
          Option.map_eq_none_iff, ih, List.map_cons, List.mem_cons, other, false_or]

theorem upgrade_lookup_some (ti : Nat) (ai : UInt8) (writable : Bool)
    (lookups upgraded : List LookupKey)
    (hit : upgradeLookup ti ai writable lookups = some upgraded) :
    upgraded.map lookupPlace = lookups.map lookupPlace := by
  induction lookups generalizing upgraded with
  | nil => simp [upgradeLookup] at hit
  | cons lk rest ih =>
      simp only [upgradeLookup] at hit
      split at hit
      · cases hit
        by_cases raise : writable && !lk.isWritable <;> simp [raise, lookupPlace]
      · obtain ⟨tail, later, rfl⟩ := Option.map_eq_some_iff.mp hit
        simp [ih tail later]

theorem bucket_of_snoc (first : List (Place × Bool)) (use : Place × Bool) (ti : Nat) :
    bucketOf (first ++ [use]) ti =
      if use.1.1 = ti then (bucketOf first ti).push use.1.2 use.2 else bucketOf first ti := by
  by_cases here : use.1.1 = ti
  · cases written : use.2 <;> simp [bucketOf, TableBucket.push, here, written]
  · simp [bucketOf, here]

theorem buckets_snoc (tables : Nat) (first : List (Place × Bool)) (use : Place × Bool) :
    (List.range tables).map (bucketOf (first ++ [use])) =
      ((List.range tables).map (bucketOf first)).modify use.1.1
        fun bucket => bucket.push use.1.2 use.2 := by
  apply List.ext_getElem
  · simp
  · intro ti _ _
    rw [List.getElem_modify]
    simp only [List.getElem_map, List.getElem_range, bucket_of_snoc]

theorem find_or_add_lookup_recorded (tables : Nat) (uses : List (Place × Bool)) (routing : Routing)
    (recorded : Recorded tables uses routing) (use : Place × Bool) :
    Recorded tables (uses ++ [use]) (findOrAddLookup routing use.1.1 use.1.2 use.2) := by
  unfold findOrAddLookup
  cases hit : upgradeLookup use.1.1 use.1.2 use.2 routing.registeredLookups with
  | some upgraded =>
      -- A hit raises at most a flag that no bucket reads.
      have stored : use.1 ∈ keys (firstUses uses) := by
        rw [← recorded.registered]
        by_contra fresh
        rw [(upgrade_lookup_none use.1.1 use.1.2 use.2 _).mpr fresh] at hit
        cases hit
      refine ⟨?_, ?_⟩
      · rw [first_uses_snoc, if_pos stored, upgrade_lookup_some _ _ _ _ _ hit]
        exact recorded.registered
      · rw [first_uses_snoc, if_pos stored]
        exact recorded.buckets
  | none =>
      have fresh : use.1 ∉ keys (firstUses uses) := by
        rw [← recorded.registered]
        exact (upgrade_lookup_none use.1.1 use.1.2 use.2 _).mp hit
      refine ⟨?_, ?_⟩
      · simp only [first_uses_snoc, if_neg fresh, List.map_append, recorded.registered, keys_append]
        rfl
      · simp only [first_uses_snoc, if_neg fresh, buckets_snoc, recorded.buckets]

variable (lookupTables : List AddressLookupTableAccount)

theorem route_accounts_recorded (tables : Nat) (accounts : List AccountMeta)
    (uses : List (Place × Bool)) (routing : Routing) (recorded : Recorded tables uses routing) :
    Recorded tables (uses ++ accounts.filterMap (lookupUse lookupTables))
      (accounts.foldl (routeAccount lookupTables) routing) := by
  induction accounts generalizing uses routing with
  | nil => simpa using recorded
  | cons am rest ih =>
      rw [List.foldl_cons, route_account_cases]
      cases use : lookupUse lookupTables am with
      | none =>
          rw [List.filterMap_cons_none use]
          exact ih uses _ ⟨recorded.registered, recorded.buckets⟩
      | some use' =>
          have next := ih (uses ++ [use']) _
            (find_or_add_lookup_recorded tables uses routing recorded use')
          rw [List.filterMap_cons_some use]
          simpa using next

def lookupUses (instructions : List Instruction) : List (Place × Bool) :=
  (metas instructions).filterMap (lookupUse lookupTables)

/-- The buckets after the whole loop hold exactly the first table uses. -/
theorem route_recorded (instructions : List Instruction) (feePayer : PublicKey) :
    Recorded lookupTables.length (lookupUses lookupTables instructions)
      (route instructions feePayer lookupTables) := by
  have run : ∀ (rest : List Instruction) (uses : List (Place × Bool)) (routing : Routing),
      Recorded lookupTables.length uses routing →
      Recorded lookupTables.length (uses ++ lookupUses lookupTables rest)
        (rest.foldl (routeInstruction lookupTables) routing) := by
    intro rest
    induction rest with
    | nil => intro uses routing recorded; simpa [lookupUses, metas] using recorded
    | cons instr rest ih =>
        intro uses routing recorded
        have next := ih _ _ (route_accounts_recorded lookupTables lookupTables.length instr.accounts
          uses (addStatic routing instr.programId false false)
          ⟨recorded.registered, recorded.buckets⟩)
        simpa [lookupUses, metas, routeInstruction] using next
  refine run instructions [] _ ⟨rfl, ?_⟩
  apply List.ext_getElem
  · simp
  · intro ti _ _
    simp [bucketOf, firstUses, registerAll]

end Buckets
end SolanaSdk.VersionedRouting
