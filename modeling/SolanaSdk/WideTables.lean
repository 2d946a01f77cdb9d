import SolanaSdk.LookupTableAccounts
import SolanaSdk.TableCompression

/-!
Tables of any size. The compiler narrows the position of a key to a byte, so what
it registers is an alias of the key: the address at that position modulo 256.
-/

namespace SolanaSdk.WideTables

open ByteData PublicKeys Instructions Registers LookupTables LookupTableAccounts
open VersionedMessage VersionedRouting VersionedLayout VersionedResolution TableCompression

/-- The address that the narrowed position of a key names in the first table that holds it. -/
def aliasOf (lookupTables : List AddressLookupTableAccount) (key : PublicKey) :
    Option PublicKey := do
  let tbl ← firstTable lookupTables key
  let index ← position tbl.addresses key
  tbl.addresses[index % 256]?

def PlainUse (instructions : List Instruction) (key : PublicKey) : Prop :=
  ∃ am ∈ metas instructions, am.pubkey = key ∧ am.isSigner = false

instance (instructions : List Instruction) (key : PublicKey) :
    Decidable (PlainUse instructions key) := inferInstanceAs (Decidable (∃ _ ∈ _, _))

section Aliases
variable (lookupTables : List AddressLookupTableAccount) (pk : PublicKey)

theorem locate_alias (ti : Nat) (ai : UInt8) (found : locate lookupTables pk = some (ti, ai)) :
    ∃ tbl, lookupTables[ti]? = some tbl ∧ aliasOf lookupTables pk = some (addressAt tbl ai) := by
  obtain ⟨tbl, index, table, searched, byte, stored⟩ := locate_narrowed lookupTables pk ti ai found
  refine ⟨tbl, table, ?_⟩
  simp only [aliasOf, locate_first lookupTables pk _ found, table, searched, ← byte, stored,
    Option.bind_eq_bind, Option.bind_some]

/-- Only keys that some table holds have an alias. -/
theorem alias_located (key : PublicKey) (named : aliasOf lookupTables pk = some key) :
    ∃ ti ai tbl, locate lookupTables pk = some (ti, ai) ∧ lookupTables[ti]? = some tbl ∧
      addressAt tbl ai = key := by
  have located : locate lookupTables pk ≠ none := by
    intro absent
    obtain ⟨tbl, first, -⟩ := Option.bind_eq_some_iff.mp named
    exact (locate_none lookupTables pk).mp absent ⟨tbl, first_table_mem lookupTables pk tbl first⟩
  obtain ⟨⟨ti, ai⟩, found⟩ := Option.ne_none_iff_exists'.mp located
  obtain ⟨tbl, table, again⟩ := locate_alias lookupTables pk ti ai found
  rw [named] at again
  cases again
  exact ⟨ti, ai, tbl, found, table, rfl⟩

end Aliases

section Routed
variable (instructions : List Instruction) (feePayer : PublicKey) (recentBlockhash : Text)
  (lookupTables : List AddressLookupTableAccount)

/-- What the buckets load are the aliases of the plain uses. -/
theorem mem_loaded_alias (key : PublicKey) :
    key ∈ loaded instructions feePayer lookupTables true ++
        loaded instructions feePayer lookupTables false ↔
      ∃ use, PlainUse instructions use ∧ aliasOf lookupTables use = some key := by
  rw [List.mem_append]
  constructor
  · have used : ∀ flag, key ∈ loaded instructions feePayer lookupTables flag →
        ∃ use, PlainUse instructions use ∧ aliasOf lookupTables use = some key := by
      intro flag member
      obtain ⟨⟨tbl, bucket⟩, pair, inside⟩ := List.mem_flatMap.mp member
      obtain ⟨ai, indexed, rfl⟩ := List.mem_map.mp inside
      obtain ⟨ti, table, rfl⟩ := mem_table_buckets instructions feePayer lookupTables tbl bucket pair
      obtain ⟨am, listed, plain, found, -⟩ := (mem_lookup_uses instructions lookupTables _).mp
        (first_lookup_used instructions lookupTables _ ((mem_side _ ti flag ai).mp indexed))
      obtain ⟨again, same, named⟩ := locate_alias lookupTables am.pubkey ti ai found
      rw [table] at same
      cases same
      exact ⟨am.pubkey, ⟨am, listed, rfl, plain⟩, named⟩
    rintro (member | member)
    · exact used true member
    · exact used false member
  · rintro ⟨use, ⟨am, listed, rfl, plain⟩, named⟩
    obtain ⟨ti, ai, tbl, found, table, address⟩ := alias_located lookupTables am.pubkey key named
    obtain ⟨flag, first⟩ := first_lookup_exists instructions lookupTables am listed plain _ found
    have member : key ∈ loaded instructions feePayer lookupTables flag :=
      List.mem_flatMap.mpr ⟨_, table_bucket_mem instructions feePayer lookupTables ti tbl table,
        List.mem_map.mpr ⟨ai, (mem_side _ ti flag ai).mpr first, address⟩⟩
    cases flag with
    | true => exact Or.inl member
    | false => exact Or.inr member

/-- `compile` throws exactly where an account is missing from the combined list. -/
theorem compile_returns_iff :
    (∃ msg, compile instructions feePayer recentBlockhash lookupTables = .ok msg) ↔
      ∀ am ∈ metas instructions, am.pubkey ∈ combined instructions feePayer lookupTables := by
  constructor
  · rintro ⟨msg, returned⟩ am listed
    obtain ⟨instr, member, used⟩ := List.mem_flatMap.mp listed
    obtain ⟨numbered, each, -⟩ := bind_returned _ _ _ returned
    obtain ⟨ci, resolved⟩ := map_m_each _ _ _ each instr member
    unfold compileInstruction at resolved
    obtain ⟨program, _, resolved⟩ := bind_returned _ _ _ resolved
    obtain ⟨indices, accounts, -⟩ := bind_returned _ _ _ resolved
    obtain ⟨index, hit⟩ := map_m_each _ _ _ accounts am used
    change resolveIndex (combined instructions feePayer lookupTables) am.pubkey = _ at hit
    by_contra absent
    rw [resolveIndex, (position_eq_none _ _).mpr absent] at hit
    cases hit
  · intro present
    exact ⟨_, compile_present instructions feePayer recentBlockhash lookupTables present⟩

/-- `compile` returns, and every index of every entry names an address of the
entry's table that some instruction uses as a plain account. -/
def Denotes : Prop :=
  ∃ msg, compile instructions feePayer recentBlockhash lookupTables = .ok msg ∧
    (lookupSources instructions feePayer lookupTables).length = msg.addressTableLookups.length ∧
    ∀ pair ∈ (lookupSources instructions feePayer lookupTables).zip msg.addressTableLookups,
      pair.2.accountKey = pair.1.key ∧
      ∀ index ∈ pair.2.writableIndexes ++ pair.2.readonlyIndexes,
        ∃ key, pair.1.addresses[index.toNat]? = some key ∧ PlainUse instructions key

/-- Every alias of a plain use is a plain use, and every plain use of a key in a
table is an alias of one, unless the key is static anyway. -/
structure AliasesServe : Prop where
  used : ∀ key other, PlainUse instructions key → aliasOf lookupTables key = some other →
    PlainUse instructions other
  present : ∀ key, PlainUse instructions key → InSomeTable lookupTables key →
    key = feePayer ∨ IsProgram instructions key ∨ MarkedSigner instructions key ∨
      ∃ use, PlainUse instructions use ∧ aliasOf lookupTables use = some key

theorem section_denotes :
    (∀ pair ∈ lookupSection lookupTables (buckets instructions feePayer lookupTables),
      pair.2.accountKey = pair.1.key ∧
      ∀ index ∈ pair.2.writableIndexes ++ pair.2.readonlyIndexes,
        ∃ key, pair.1.addresses[index.toNat]? = some key ∧ PlainUse instructions key) ↔
      ∀ key other, PlainUse instructions key → aliasOf lookupTables key = some other →
        PlainUse instructions other := by
  have loads : ∀ address, address ∈ (lookupSection lookupTables
      (buckets instructions feePayer lookupTables)).flatMap named ↔
        ∃ key, (∃ use, PlainUse instructions use ∧ aliasOf lookupTables use = some key) ∧
          some key = address := by
    intro address
    rw [(named_perm instructions feePayer lookupTables).mem_iff, List.mem_map]
    exact exists_congr fun key =>
      and_congr_left fun _ => mem_loaded_alias instructions feePayer lookupTables key
  constructor
  · intro denotes key other used aliased
    obtain ⟨pair, member, inside⟩ :=
      List.mem_flatMap.mp ((loads (some other)).mpr ⟨other, ⟨key, used, aliased⟩, rfl⟩)
    obtain ⟨index, indexed, stands⟩ := List.mem_map.mp inside
    obtain ⟨again, stored, plain⟩ := (denotes pair member).2 index indexed
    rw [stands] at stored
    cases stored
    exact plain
  · rintro serves ⟨tbl, entry⟩ member
    obtain ⟨bucket, -, rfl⟩ := mem_lookup_section _ _ tbl entry member
    refine ⟨rfl, fun index indexed => ?_⟩
    obtain ⟨key, ⟨use, used, aliased⟩, stands⟩ := (loads tbl.addresses[index.toNat]?).mp
      (List.mem_flatMap.mpr ⟨_, member, List.mem_map.mpr ⟨index, indexed, rfl⟩⟩)
    exact ⟨key, stands.symm, serves use key used aliased⟩

theorem combined_present :
    (∀ am ∈ metas instructions, am.pubkey ∈ combined instructions feePayer lookupTables) ↔
      ∀ key, PlainUse instructions key → InSomeTable lookupTables key →
        key = feePayer ∨ IsProgram instructions key ∨ MarkedSigner instructions key ∨
          ∃ use, PlainUse instructions use ∧ aliasOf lookupTables use = some key := by
  have split : ∀ key, key ∈ combined instructions feePayer lookupTables ↔
      StaticKey instructions feePayer lookupTables key ∨
        ∃ use, PlainUse instructions use ∧ aliasOf lookupTables use = some key := by
    intro key
    rw [combined_split, List.mem_append, mem_loaded_alias]
    exact or_congr_left (mem_ordered_keys ..)
  constructor
  · rintro present key ⟨am, listed, rfl, plain⟩ held
    rcases (split am.pubkey).mp (present am listed) with
      (payer | program | ⟨other, used, same, signed | absent⟩) | aliased
    · exact Or.inl payer
    · exact Or.inr (Or.inl program)
    · exact Or.inr (Or.inr (Or.inl ⟨other, used, same, signed⟩))
    · exact absurd (same ▸ held) absent
    · exact Or.inr (Or.inr (Or.inr aliased))
  · intro present am listed
    refine (split am.pubkey).mpr ?_
    by_cases kept : RoutedStatic lookupTables am
    · exact Or.inl (Or.inr (Or.inr ⟨am, listed, rfl, kept⟩))
    · simp only [RoutedStatic, not_or, not_not, Bool.not_eq_true] at kept
      rcases present am.pubkey ⟨am, listed, rfl, kept.1⟩ kept.2 with
        payer | program | ⟨other, used, same, signed⟩ | aliased
      · exact Or.inl (Or.inl payer)
      · exact Or.inl (Or.inr (Or.inl program))
      · exact Or.inl (Or.inr (Or.inr ⟨other, used, same, Or.inl signed⟩))
      · exact Or.inr aliased

theorem denotes_served (denotes : Denotes instructions feePayer recentBlockhash lookupTables) :
    AliasesServe instructions feePayer lookupTables := by
  obtain ⟨msg, returned, -, denotes⟩ := denotes
  have present := (compile_returns_iff instructions feePayer recentBlockhash lookupTables).mp
    ⟨msg, returned⟩
  rw [compile_returned instructions feePayer recentBlockhash lookupTables msg returned,
    source_pairs] at denotes
  exact ⟨(section_denotes instructions feePayer lookupTables).mp denotes,
    (combined_present instructions feePayer lookupTables).mp present⟩

/-- With tables of any size, lookup indices denote the accounts that they stand
for exactly when the aliases do. -/
theorem denotes_iff :
    Denotes instructions feePayer recentBlockhash lookupTables ↔
      AliasesServe instructions feePayer lookupTables := by
  constructor
  · exact denotes_served instructions feePayer recentBlockhash lookupTables
  · rintro ⟨used, present⟩
    refine ⟨_, compile_present instructions feePayer recentBlockhash lookupTables
      ((combined_present instructions feePayer lookupTables).mpr present), ?_, ?_⟩
    · exact (List.length_map _).trans (List.length_map _).symm
    · rw [source_pairs]
      exact (section_denotes instructions feePayer lookupTables).mpr used

end Routed

section Wide

/-- 256 times one key, and behind them the key that is used. -/
def wideAddresses : List PublicKey := List.replicate 256 (.filled 1) ++ [.filled 2]

def wideData : Bytes := (TableState.mk 0 0 0 none wideAddresses).documented

def wideUse : List Instruction := [⟨.filled 9, [⟨.filled 2, false, true⟩], []⟩]

theorem wide_table_misread :
    parse (.filled 100) wideData ⟨.default, []⟩ = .ok (true, ⟨.filled 100, wideAddresses⟩) ∧
      ¬ Denotes wideUse (.filled 6) [] [⟨.filled 100, wideAddresses⟩] := by
  refine ⟨documented_parses (.filled 100) ⟨0, 0, 0, none, wideAddresses⟩ _, ?_⟩
  intro denotes
  have serves := denotes_served _ _ _ _ denotes
  have aliased : aliasOf [⟨.filled 100, wideAddresses⟩] (.filled 2) = some (.filled 1) := by
    decide +kernel
  have used : PlainUse wideUse (.filled 2) := by decide
  exact absurd (serves.used _ _ used aliased) (by decide)

end Wide

end SolanaSdk.WideTables
