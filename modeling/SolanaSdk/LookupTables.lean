import SolanaSdk.Instructions

/-!
Address lookup tables and the two searches the V0 compiler makes in them: the
first table and first position that hold a key. Table positions are narrowed to
a byte, which is exact for tables of at most 256 addresses.
-/

namespace SolanaSdk.LookupTables

open ByteData PublicKeys

structure AddressLookupTableAccount where
  key : PublicKey
  addresses : List PublicKey
  deriving DecidableEq

structure LookupRef where
  tableIdx : Nat
  addrIdx : UInt8
  isWritable : Bool
  deriving DecidableEq

/-- The search from table number `ti` on; the source's `tableIdx = -1` is `none`. -/
def findFrom (pk : PublicKey) (writable : Bool) : Nat → List AddressLookupTableAccount →
    Option LookupRef
  | _, [] => none
  | ti, tbl :: rest =>
      match position tbl.addresses pk with
      | some ai => some ⟨ti, UInt8.ofNat ai, writable⟩
      | none => findFrom pk writable (ti + 1) rest

def findInLookup (lookupTables : List AddressLookupTableAccount) (pk : PublicKey)
    (writable : Bool) : Option LookupRef := findFrom pk writable 0 lookupTables

/-- `addresses[idx]`, whose index the compiler has found before. -/
def addressAt (tbl : AddressLookupTableAccount) (index : UInt8) : PublicKey :=
  tbl.addresses.getD index.toNat default

def Bounded (lookupTables : List AddressLookupTableAccount) : Prop :=
  ∀ tbl ∈ lookupTables, tbl.addresses.length ≤ 256

def InSomeTable (lookupTables : List AddressLookupTableAccount) (pk : PublicKey) : Prop :=
  ∃ tbl ∈ lookupTables, pk ∈ tbl.addresses

instance (lookupTables : List AddressLookupTableAccount) : Decidable (Bounded lookupTables) :=
  inferInstanceAs (Decidable (∀ _ ∈ _, _))

instance (lookupTables : List AddressLookupTableAccount) (pk : PublicKey) :
    Decidable (InSomeTable lookupTables pk) := inferInstanceAs (Decidable (∃ _ ∈ _, _))

variable (lookupTables : List AddressLookupTableAccount) (pk : PublicKey) (writable : Bool)

theorem find_from_none (start : Nat) :
    findFrom pk writable start lookupTables = none ↔ ¬ InSomeTable lookupTables pk := by
  induction lookupTables generalizing start with
  | nil => simp [findFrom, InSomeTable]
  | cons tbl rest ih =>
      unfold InSomeTable at ih ⊢
      cases found : position tbl.addresses pk with
      | none =>
          have absent := (position_eq_none tbl.addresses pk).mp found
          simp [findFrom, found, ih, absent]
      | some ai =>
          obtain ⟨inside, same, _⟩ := (position_eq_some tbl.addresses pk ai).mp found
          have member : pk ∈ tbl.addresses := same ▸ List.getElem_mem inside
          simp [findFrom, found, member]

theorem find_in_lookup_none :
    findInLookup lookupTables pk writable = none ↔ ¬ InSomeTable lookupTables pk :=
  find_from_none lookupTables pk writable 0

theorem find_from_some (start : Nat) (ref : LookupRef)
    (found : findFrom pk writable start lookupTables = some ref) :
    ref.isWritable = writable ∧ ∃ offset, ref.tableIdx = start + offset ∧
      ∃ tbl, lookupTables[offset]? = some tbl ∧
        ∃ ai, position tbl.addresses pk = some ai ∧ ref.addrIdx = UInt8.ofNat ai := by
  induction lookupTables generalizing start with
  | nil => simp [findFrom] at found
  | cons tbl rest ih =>
      cases hit : position tbl.addresses pk with
      | some ai =>
          simp only [findFrom, hit, Option.some.injEq] at found
          subst found
          exact ⟨rfl, 0, rfl, tbl, rfl, ai, hit, rfl⟩
      | none =>
          simp only [findFrom, hit] at found
          obtain ⟨same, offset, place, table⟩ := ih (start + 1) found
          exact ⟨same, offset + 1, by omega, by simpa using table⟩

/-- A reference leads back to the key it was made for. -/
theorem find_in_lookup_some (bounded : Bounded lookupTables) (ref : LookupRef)
    (found : findInLookup lookupTables pk writable = some ref) :
    ref.isWritable = writable ∧ ∃ tbl, lookupTables[ref.tableIdx]? = some tbl ∧
      tbl.addresses[ref.addrIdx.toNat]? = some pk := by
  obtain ⟨same, offset, place, tbl, table, ai, hit, narrowed⟩ :=
    find_from_some lookupTables pk writable 0 ref found
  obtain ⟨inside, key, _⟩ := (position_eq_some tbl.addresses pk ai).mp hit
  have short := bounded tbl (List.mem_of_getElem? table)
  have exact : (UInt8.ofNat ai).toNat = ai :=
    UInt8.toNat_ofNat_of_lt (Nat.lt_of_lt_of_le inside short)
  refine ⟨same, tbl, by rw [place, Nat.zero_add, table], ?_⟩
  rw [narrowed, exact, List.getElem?_eq_getElem inside, key]

theorem find_from_writable (start : Nat) :
    findFrom pk writable start lookupTables =
      (findFrom pk false start lookupTables).map fun ref => { ref with isWritable := writable } := by
  induction lookupTables generalizing start with
  | nil => rfl
  | cons tbl rest ih =>
      cases hit : position tbl.addresses pk with
      | some ai => simp [findFrom, hit]
      | none => simp only [findFrom, hit, ih (start + 1)]

/-- Where a key is found does not depend on the flag of the use. -/
def locate : Option (Nat × UInt8) :=
  (findInLookup lookupTables pk false).map fun ref => (ref.tableIdx, ref.addrIdx)

theorem find_in_lookup_locate :
    findInLookup lookupTables pk writable =
      (locate lookupTables pk).map fun place => ⟨place.1, place.2, writable⟩ := by
  rw [findInLookup, find_from_writable, locate, findInLookup, Option.map_map]
  rfl

theorem locate_none : locate lookupTables pk = none ↔ ¬ InSomeTable lookupTables pk := by
  rw [locate, Option.map_eq_none_iff, find_in_lookup_none]

theorem locate_some (bounded : Bounded lookupTables) (place : Nat × UInt8)
    (found : locate lookupTables pk = some place) :
    ∃ tbl, lookupTables[place.1]? = some tbl ∧ tbl.addresses[place.2.toNat]? = some pk := by
  obtain ⟨ref, hit, rfl⟩ := Option.map_eq_some_iff.mp found
  exact (find_in_lookup_some lookupTables pk false bounded ref hit).2

/-- Distinct keys are found at distinct places. -/
theorem locate_injective (bounded : Bounded lookupTables) (other : PublicKey) (place : Nat × UInt8)
    (left : locate lookupTables pk = some place) (right : locate lookupTables other = some place) :
    pk = other := by
  obtain ⟨tbl, table, stored⟩ := locate_some lookupTables pk bounded place left
  obtain ⟨same, again, storedOther⟩ := locate_some lookupTables other bounded place right
  rw [table] at again
  cases again
  rw [stored] at storedOther
  exact Option.some.inj storedOther

end SolanaSdk.LookupTables
