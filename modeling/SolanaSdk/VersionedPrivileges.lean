import SolanaSdk.VersionedResolution

/-!
Privileges in the combined list of a V0 message. No position gets a privilege
that nothing demanded. What can get lost is a demand on a key that is used in
two ways: each use is routed on its own flags, so such a key may be loaded
twice, and a write demand may reach the copy that nothing refers to.
-/

namespace SolanaSdk.VersionedPrivileges

open ByteData PublicKeys Privileges Instructions Registers LookupTables
open VersionedMessage VersionedRouting VersionedLayout VersionedResolution

variable (instructions : List Instruction) (feePayer : PublicKey) (recentBlockhash : Text)
  (lookupTables : List AddressLookupTableAccount)

section Positions

theorem static_length :
    (compiled instructions feePayer recentBlockhash lookupTables).staticAccountKeys.length =
      (ordered instructions feePayer lookupTables).length := by simp [compiled]

theorem static_key_at (index : Nat)
    (inside : index < (ordered instructions feePayer lookupTables).length) :
    (combined instructions feePayer lookupTables)[index]? =
      some ((ordered instructions feePayer lookupTables)[index]).key := by
  rw [combined_split, List.getElem?_append_left (by simpa using inside)]
  simp [inside]

theorem ordered_length_le :
    (ordered instructions feePayer lookupTables).length ≤
      (combined instructions feePayer lookupTables).length := by
  rw [combined_split]
  simp

variable (few : (combined instructions feePayer lookupTables).length ≤ 255)
include few

theorem static_signer_position (index : Nat)
    (inside : index < (ordered instructions feePayer lookupTables).length) :
    (compiled instructions feePayer recentBlockhash lookupTables).SignerPosition index ↔
      Signs instructions feePayer ((ordered instructions feePayer lookupTables)[index]).key := by
  have fits := Nat.le_trans (ordered_length_le instructions feePayer lookupTables) few
  have member := (ordered_perm instructions feePayer lookupTables).mem_iff.mp
    (List.getElem_mem inside)
  rw [MessageV0.SignerPosition, compiled, count_header_of,
    signer_at_of_blocks grant _ fits (order_in_blocks _) index inside]
  exact static_signer instructions feePayer lookupTables _ member

theorem static_writable_position (index : Nat)
    (inside : index < (ordered instructions feePayer lookupTables).length) :
    (compiled instructions feePayer recentBlockhash lookupTables).WritablePosition index ↔
      StaticWrites instructions feePayer lookupTables
        ((ordered instructions feePayer lookupTables)[index]).key := by
  have fits := Nat.le_trans (ordered_length_le instructions feePayer lookupTables) few
  have member := (ordered_perm instructions feePayer lookupTables).mem_iff.mp
    (List.getElem_mem inside)
  have stated := writable_at_of_blocks grant _ fits
    (order_in_blocks (staticAccounts instructions feePayer lookupTables)) index inside
  rw [MessageV0.WritablePosition, static_length]
  simp only [inside, true_and, Nat.not_le.mpr inside, false_and, or_false]
  simp only [compiled, count_header_of]
  exact stated.trans (static_writable instructions feePayer lookupTables _ member)

omit few in
theorem loaded_writable_length :
    (compiled instructions feePayer recentBlockhash lookupTables).loadedWritable =
      (loaded instructions feePayer lookupTables true).length := by
  have flat := section_flat_map lookupTables (buckets instructions feePayer lookupTables)
    (fun pair => pair.2.writableIndexes.map (addressAt pair.1)) true (fun _ _ => rfl)
  rw [loaded, ← flat, List.length_flatten, MessageV0.loadedWritable, compiled]
  simp [List.map_map, Function.comp_def]

theorem signer_position_static (index : Nat)
    (signs : (compiled instructions feePayer recentBlockhash lookupTables).SignerPosition index) :
    index < (ordered instructions feePayer lookupTables).length := by
  have fits := Nat.le_trans (ordered_length_le instructions feePayer lookupTables) few
  rw [MessageV0.SignerPosition, compiled, count_header_of, MessageHeader.SignerAt,
    header_signatures grant _ fits] at signs
  exact Nat.lt_of_lt_of_le signs List.countP_le_length

end Positions

section Escalation
variable (bounded : Bounded lookupTables)
include bounded

theorem loaded_true_writes (key : PublicKey)
    (member : key ∈ loaded instructions feePayer lookupTables true) :
    Writes instructions feePayer key := by
  obtain ⟨place, found, first⟩ :=
    (mem_loaded instructions feePayer lookupTables bounded true key).mp member
  obtain ⟨am, listed, _, located, written⟩ := (mem_lookup_uses instructions lookupTables _).mp
    (first_lookup_used instructions lookupTables _ first)
  have same := locate_injective lookupTables am.pubkey bounded key place located found
  exact Or.inr ⟨am, listed, same, written⟩

omit bounded in
theorem static_writes_demanded (key : PublicKey)
    (written : StaticWrites instructions feePayer lookupTables key) :
    Writes instructions feePayer key := by
  rcases written with payer | ⟨am, listed, same, _, flag⟩
  · exact Or.inl payer
  · exact Or.inr ⟨am, listed, same, flag⟩

/-- No position of the combined list carries a privilege that the input does
not demand for its key; signers are static, and the fee payer leads. -/
theorem compile_no_escalation :
    ∃ msg keys, compile instructions feePayer recentBlockhash lookupTables = .ok msg ∧
      runtimeKeys (lookupSources instructions feePayer lookupTables) msg = some keys ∧
      (keys.length ≤ 255 →
        (∀ index (inside : index < keys.length),
          (msg.SignerPosition index →
            index < msg.staticAccountKeys.length ∧ Signs instructions feePayer keys[index]) ∧
          (msg.WritablePosition index → Writes instructions feePayer keys[index])) ∧
        keys[0]? = some feePayer ∧ msg.SignerPosition 0 ∧ msg.WritablePosition 0) := by
  refine ⟨_, _, compile_returns instructions feePayer recentBlockhash lookupTables bounded,
    runtime_combined instructions feePayer recentBlockhash lookupTables bounded, fun few => ?_⟩
  refine ⟨fun index inside => ⟨fun signs => ?_, fun written => ?_⟩, ?_⟩
  · have static := signer_position_static instructions feePayer recentBlockhash lookupTables few
      index signs
    have key := static_key_at instructions feePayer lookupTables index static
    rw [List.getElem?_eq_getElem inside, Option.some.injEq] at key
    rw [static_length, key]
    exact ⟨static, (static_signer_position instructions feePayer recentBlockhash lookupTables few
      index static).mp signs⟩
  · by_cases static : index < (ordered instructions feePayer lookupTables).length
    · have key := static_key_at instructions feePayer lookupTables index static
      rw [List.getElem?_eq_getElem inside, Option.some.injEq] at key
      rw [key]
      exact static_writes_demanded instructions feePayer lookupTables _
        ((static_writable_position instructions feePayer recentBlockhash lookupTables few index
          static).mp written)
    · -- A writable position behind the static keys is one of `loaded true`.
      rw [MessageV0.WritablePosition, static_length, loaded_writable_length] at written
      have range : index - (ordered instructions feePayer lookupTables).length <
          (loaded instructions feePayer lookupTables true).length := by omega
      have key : (combined instructions feePayer lookupTables)[index] =
          (loaded instructions feePayer lookupTables true)[index -
            (ordered instructions feePayer lookupTables).length] := by
        simp only [combined_split]
        rw [List.getElem_append_right (by simpa using Nat.not_lt.mp static),
          List.getElem_append_left (by simpa using range)]
        simp
      rw [key]
      exact loaded_true_writes instructions feePayer lookupTables bounded _ (List.getElem_mem range)
  · obtain ⟨rest, first⟩ := ordered_payer_first instructions feePayer lookupTables
    have static : 0 < (ordered instructions feePayer lookupTables).length := by simp [first]
    have head : (ordered instructions feePayer lookupTables)[0] = ⟨feePayer, true, true⟩ := by
      simp [first]
    refine ⟨by rw [static_key_at _ _ _ 0 static, head], ?_, ?_⟩
    · rw [static_signer_position _ _ _ _ few 0 static, head]
      exact Or.inl rfl
    · rw [static_writable_position _ _ _ _ few 0 static, head]
      exact Or.inl rfl

end Escalation

theorem compile_no_escalation_mixed :
    compile mixedUses (.filled 6) [] [sampleTable] = .ok mixedMessage ∧
      runtimeKeys (lookupSources mixedUses (.filled 6) [sampleTable]) mixedMessage =
        some mixedKeys ∧
      (∀ index (inside : index < mixedKeys.length),
        (mixedMessage.SignerPosition index →
          index < mixedMessage.staticAccountKeys.length ∧
            Signs mixedUses (.filled 6) mixedKeys[index]) ∧
        (mixedMessage.WritablePosition index → Writes mixedUses (.filled 6) mixedKeys[index])) ∧
      mixedKeys[0]? = some (.filled 6) ∧ mixedMessage.SignerPosition 0 ∧
      mixedMessage.WritablePosition 0 := by
  obtain ⟨msg, keys, compiles, rebuilt, bounds⟩ :=
    compile_no_escalation mixedUses (.filled 6) [] [sampleTable] (by decide)
  cases mixed_compiles.symm.trans compiles
  cases mixed_rebuilt.symm.trans rebuilt
  exact ⟨compiles, rebuilt, bounds (by decide)⟩

section Loading

/-- The combined account list that the runtime rebuilds names no key twice. -/
def LoadsOnce : Prop :=
  ∃ msg keys, compile instructions feePayer recentBlockhash lookupTables = .ok msg ∧
    runtimeKeys (lookupSources instructions feePayer lookupTables) msg = some keys ∧ keys.Nodup

/-- No key that a table holds is used as a plain account in one place and as
fee payer, program or signer in another. -/
def RoutedOneWay : Prop :=
  ∀ am ∈ metas instructions, am.isSigner = false → InSomeTable lookupTables am.pubkey →
    am.pubkey ≠ feePayer ∧ ¬ IsProgram instructions am.pubkey ∧
      ¬ MarkedSigner instructions am.pubkey

instance : Decidable (RoutedOneWay instructions feePayer lookupTables) :=
  inferInstanceAs (Decidable (∀ _ ∈ _, _))

theorem routed_one_way_iff :
    RoutedOneWay instructions feePayer lookupTables ↔
      ∀ am ∈ metas instructions, am.isSigner = false → InSomeTable lookupTables am.pubkey →
        ¬ StaticKey instructions feePayer lookupTables am.pubkey := by
  refine forall₂_congr fun am _ => forall₂_congr fun _ present => ?_
  simp only [StaticKey, MarkedSigner, RoutedStatic, not_or, ne_eq]
  refine and_congr_right fun _ => and_congr_right fun _ => not_congr ⟨?_, ?_⟩
  · rintro ⟨other, listed, same, signed⟩
    exact ⟨other, listed, same, Or.inl signed⟩
  · rintro ⟨other, listed, same, signed | absent⟩
    · exact ⟨other, listed, same, signed⟩
    · exact absurd (same ▸ present) absent

variable (bounded : Bounded lookupTables)
include bounded

theorem combined_nodup_iff :
    (combined instructions feePayer lookupTables).Nodup ↔
      RoutedOneWay instructions feePayer lookupTables := by
  have halves := loaded_both_nodup instructions feePayer lookupTables bounded
  rw [combined_split, List.nodup_append', routed_one_way_iff]
  constructor
  · rintro ⟨_, _, apart⟩ am listed plain present static
    exact apart ((mem_ordered_keys ..).mpr static)
      ((mem_loaded_either _ _ _ bounded _).mpr ⟨am, listed, rfl, plain, present⟩)
  · intro oneWay
    refine ⟨ordered_keys_nodup .., halves, fun key static moved => ?_⟩
    obtain ⟨am, listed, rfl, plain, present⟩ := (mem_loaded_either _ _ _ bounded key).mp moved
    exact oneWay am listed plain present ((mem_ordered_keys ..).mp static)

/-- An account is loaded twice exactly when a key of a table is used both ways. -/
theorem loads_once_iff :
    LoadsOnce instructions feePayer recentBlockhash lookupTables ↔
      RoutedOneWay instructions feePayer lookupTables := by
  have returns := compile_returns instructions feePayer recentBlockhash lookupTables bounded
  have runtime := runtime_combined instructions feePayer recentBlockhash lookupTables bounded
  rw [← combined_nodup_iff instructions feePayer lookupTables bounded]
  constructor
  · rintro ⟨msg, keys, compiles, rebuilt, once⟩
    rw [returns] at compiles
    cases compiles
    rw [runtime] at rebuilt
    cases rebuilt
    exact once
  · intro once
    exact ⟨_, _, returns, runtime, once⟩

end Loading

theorem loads_once_mixed :
    LoadsOnce mixedUses (.filled 6) [] [sampleTable] ↔
      RoutedOneWay mixedUses (.filled 6) [sampleTable] :=
  loads_once_iff mixedUses (.filled 6) [] [sampleTable] (by decide)

/-- The fee payer as a plain account of an instruction, listed in the table. -/
def payerAgain : List Instruction := [⟨.filled 9, [⟨.filled 5, false, true⟩], [7]⟩]

def payerAgainMessage : MessageV0 :=
  ⟨⟨1, 0, 1⟩, [.filled 5, .filled 9], [], [⟨1, [0], [7]⟩], [⟨.filled 100, [2], []⟩]⟩

theorem payer_loaded_twice :
    Bounded [sampleTable] ∧ ¬ LoadsOnce payerAgain (.filled 5) [] [sampleTable] := by
  refine ⟨by decide, ?_⟩
  rintro ⟨msg, keys, compiles, rebuilt, once⟩
  have returned : compile payerAgain (.filled 5) [] [sampleTable] = .ok payerAgainMessage := by
    decide
  have list : runtimeKeys (lookupSources payerAgain (.filled 5) [sampleTable]) payerAgainMessage =
      some [.filled 5, .filled 9, .filled 5] := by decide
  rw [returned] at compiles
  cases compiles
  rw [list] at rebuilt
  cases rebuilt
  revert once
  decide

section Writes

/-- The index emitted for every writable use denotes a writable position. -/
def WritesKept (msg : MessageV0) : Prop :=
  List.Forall₂ (fun instr ci => List.Forall₂
    (fun am index => am.isWritable = true → msg.WritablePosition index.toNat)
    instr.accounts ci.accountIndices) instructions msg.instructions

/-- The copy of a table key that indices refer to is the static one for a
program or signer, which only hears signer uses, and else the loaded one, which
only hears the first use. -/
def WriteHeard (key : PublicKey) : Prop :=
  if IsProgram instructions key ∨ MarkedSigner instructions key then
    ∃ am ∈ metas instructions, am.pubkey = key ∧ am.isSigner = true ∧ am.isWritable = true
  else
    ∃ am, (metas instructions).find? (fun am => am.pubkey = key) = some am ∧ am.isWritable = true

def WritesHeard : Prop :=
  ∀ am ∈ metas instructions, am.isWritable = true → InSomeTable lookupTables am.pubkey →
    am.pubkey ≠ feePayer → WriteHeard instructions am.pubkey

theorem static_position (key : PublicKey)
    (static : StaticKey instructions feePayer lookupTables key) :
    ∃ index, ∃ inside : index < (ordered instructions feePayer lookupTables).length,
      ((ordered instructions feePayer lookupTables)[index]).key = key ∧
      position (combined instructions feePayer lookupTables) key = some index := by
  have member := (mem_ordered_keys instructions feePayer lookupTables key).mpr static
  obtain ⟨index, found⟩ := position_of_mem _ key member
  obtain ⟨inside, same, _⟩ := (position_eq_some _ key index).mp found
  refine ⟨index, by simpa using inside, by simpa using same, ?_⟩
  rw [combined_split, position_append_left _ _ key member, found]

theorem static_write_heard (am : AccountMeta) (listed : am ∈ metas instructions)
    (written : am.isWritable = true)
    (static : StaticKey instructions feePayer lookupTables am.pubkey) :
    StaticWrites instructions feePayer lookupTables am.pubkey ↔
      (InSomeTable lookupTables am.pubkey → am.pubkey ≠ feePayer →
        WriteHeard instructions am.pubkey) := by
  by_cases payer : am.pubkey = feePayer
  · simp [StaticWrites, payer]
  by_cases present : InSomeTable lookupTables am.pubkey
  · have fixed : IsProgram instructions am.pubkey ∨ MarkedSigner instructions am.pubkey := by
      rcases static with same | program | ⟨other, member, same, signed | absent⟩
      · exact absurd same payer
      · exact Or.inl program
      · exact Or.inr ⟨other, member, same, signed⟩
      · exact absurd (same ▸ present) absent
    simp only [StaticWrites, payer, false_or, present, ne_eq, not_false_eq_true, forall_const,
      WriteHeard, if_pos fixed]
    refine exists_congr fun other => and_congr_right fun _ => and_congr_right fun same => ?_
    refine and_congr_left fun _ => ⟨?_, Or.inl⟩
    rintro (signed | absent)
    · exact signed
    · exact absurd (same ▸ present) absent
  · have heard : StaticWrites instructions feePayer lookupTables am.pubkey :=
      Or.inr ⟨am, listed, rfl, Or.inr present, written⟩
    simp [heard, present]

variable (bounded : Bounded lookupTables)
include bounded

/-- The first table use of a key that nothing signs for is its first use. -/
theorem find_lookup_use (rows : List AccountMeta) (key : PublicKey) (place : Place)
    (found : locate lookupTables key = some place)
    (plain : ∀ am ∈ rows, am.pubkey = key → am.isSigner = false) :
    (rows.filterMap (lookupUse lookupTables)).find? (fun use => use.1 = place) =
      (rows.find? fun am => am.pubkey = key).map fun am => (place, am.isWritable) := by
  induction rows with
  | nil => rfl
  | cons am rest ih =>
      have tail := ih fun later member => plain later (List.mem_cons_of_mem am member)
      by_cases same : am.pubkey = key
      · have use : lookupUse lookupTables am = some (place, am.isWritable) := by
          simp [lookupUse, plain am List.mem_cons_self same, same, found]
        rw [List.filterMap_cons_some use]
        simp [same]
      · rw [List.find?_cons_of_neg (by simpa using same), ← tail]
        cases use : lookupUse lookupTables am with
        | none => rw [List.filterMap_cons_none use]
        | some moved =>
            have other : moved.1 ≠ place := by
              intro here
              obtain ⟨again, listed, _, located, _⟩ :=
                (mem_lookup_uses [⟨key, [am], []⟩] lookupTables moved).mp (by
                  simp [lookupUses, metas, use])
              have only : again = am := by simpa [metas] using listed
              rw [only, here] at located
              exact same (locate_injective lookupTables am.pubkey bounded key place located found)
            rw [List.filterMap_cons_some use, List.find?_cons_of_neg (by simpa using other)]

theorem loaded_write_heard (am : AccountMeta) (listed : am ∈ metas instructions)
    (moved : ¬ StaticKey instructions feePayer lookupTables am.pubkey) :
    am.pubkey ∈ loaded instructions feePayer lookupTables true ↔
      (InSomeTable lookupTables am.pubkey → am.pubkey ≠ feePayer →
        WriteHeard instructions am.pubkey) := by
  simp only [StaticKey, not_or, not_exists, not_and, RoutedStatic, not_not] at moved
  obtain ⟨payer, program, uses⟩ := moved
  have present := (uses am listed rfl).2
  have unsigned : ¬ MarkedSigner instructions am.pubkey := by
    rintro ⟨other, member, same, signed⟩
    exact (uses other member same).1 signed
  have located : locate lookupTables am.pubkey ≠ none := fun absent =>
    (locate_none lookupTables am.pubkey).mp absent present
  obtain ⟨place, found⟩ := Option.ne_none_iff_exists'.mp located
  have first := find_lookup_use lookupTables bounded (metas instructions) am.pubkey place found
    fun other member same => Bool.eq_false_iff.mpr (uses other member same).1
  simp only [present, payer, ne_eq, not_false_eq_true, forall_const, WriteHeard, program, unsigned,
    or_self, if_false]
  rw [mem_loaded instructions feePayer lookupTables bounded]
  simp only [found, Option.some.injEq, exists_eq_left', firstLookups, mem_first_uses, lookupUses,
    first, Option.map_eq_some_iff, Prod.mk.injEq, true_and]

theorem write_position_iff (few : (combined instructions feePayer lookupTables).length ≤ 255)
    (am : AccountMeta) (listed : am ∈ metas instructions) (written : am.isWritable = true) :
    (compiled instructions feePayer recentBlockhash lookupTables).WritablePosition
        (byteIndex (combined instructions feePayer lookupTables) am.pubkey).toNat ↔
      (InSomeTable lookupTables am.pubkey → am.pubkey ≠ feePayer →
        WriteHeard instructions am.pubkey) := by
  have fits : (combined instructions feePayer lookupTables).length ≤ 256 := Nat.le_succ_of_le few
  by_cases static : StaticKey instructions feePayer lookupTables am.pubkey
  · obtain ⟨index, inside, same, found⟩ := static_position instructions feePayer lookupTables _ static
    rw [byte_index_toNat _ _ index found fits,
      static_writable_position instructions feePayer recentBlockhash lookupTables few index inside,
      same]
    exact static_write_heard instructions feePayer lookupTables am listed written static
  · have absent : am.pubkey ∉ (ordered instructions feePayer lookupTables).map AccountInfo.key :=
      fun member => static ((mem_ordered_keys ..).mp member)
    rw [← loaded_write_heard instructions feePayer lookupTables bounded am listed static]
    -- Behind the static keys, the writable loads come first.
    have place := position_append_right _ (loaded instructions feePayer lookupTables true ++
      loaded instructions feePayer lookupTables false) _ absent
    rw [← combined_split, List.length_map] at place
    by_cases heard : am.pubkey ∈ loaded instructions feePayer lookupTables true
    · rw [position_append_left _ _ _ heard] at place
      obtain ⟨index, found⟩ := position_of_mem _ _ heard
      obtain ⟨inside, _⟩ := (position_eq_some _ _ _).mp found
      rw [found, Option.map_some] at place
      rw [byte_index_toNat _ _ _ place fits, MessageV0.WritablePosition, static_length,
        loaded_writable_length]
      simp only [heard, iff_true]
      omega
    · rw [position_append_right _ _ _ heard] at place
      have member := account_combined instructions feePayer lookupTables bounded am listed
      obtain ⟨index, found⟩ := position_of_mem _ _ member
      rw [byte_index_toNat _ _ index found fits, MessageV0.WritablePosition, static_length,
        loaded_writable_length]
      rw [found, Option.map_map, eq_comm, Option.map_eq_some_iff] at place
      obtain ⟨offset, _, shifted⟩ := place
      simp only [Function.comp_apply] at shifted
      simp only [heard, iff_false]
      omega

/-- A write demand is kept exactly when the copy that is referred to hears it. -/
theorem writes_kept_iff :
    ∃ msg keys, compile instructions feePayer recentBlockhash lookupTables = .ok msg ∧
      runtimeKeys (lookupSources instructions feePayer lookupTables) msg = some keys ∧
      (keys.length ≤ 255 →
        (WritesKept instructions msg ↔ WritesHeard instructions feePayer lookupTables)) := by
  refine ⟨_, _, compile_returns instructions feePayer recentBlockhash lookupTables bounded,
    runtime_combined instructions feePayer recentBlockhash lookupTables bounded, fun few => ?_⟩
  have position := write_position_iff instructions feePayer recentBlockhash lookupTables bounded few
  simp only [WritesKept, compiled, List.forall₂_map_right_iff, List.forall₂_same,
    Instruction.number]
  constructor
  · intro kept am listed written
    obtain ⟨instr, member, inside⟩ := List.mem_flatMap.mp listed
    exact (position am listed written).mp (kept instr member am inside written)
  · intro heard instr member am inside written
    have listed : am ∈ metas instructions := List.mem_flatMap.mpr ⟨instr, member, inside⟩
    exact (position am listed written).mpr (heard am listed written)

end Writes

/-- A table key that one instruction reads first and writes second. -/
def readThenWrite : List Instruction :=
  [⟨.filled 9, [⟨.filled 1, false, false⟩, ⟨.filled 1, false, true⟩], [7]⟩]

def readThenWriteMessage : MessageV0 :=
  ⟨⟨1, 0, 1⟩, [.filled 5, .filled 9], [], [⟨1, [2, 2], [7]⟩], [⟨.filled 100, [], [0]⟩]⟩

theorem reads_first_compiles :
    compile readThenWrite (.filled 5) [] [sampleTable] = .ok readThenWriteMessage := by decide

theorem reads_first_rebuilt :
    runtimeKeys (lookupSources readThenWrite (.filled 5) [sampleTable]) readThenWriteMessage =
      some [.filled 5, .filled 9, .filled 1] := by decide

theorem writes_kept_read_then_write :
    compile readThenWrite (.filled 5) [] [sampleTable] = .ok readThenWriteMessage ∧
      runtimeKeys (lookupSources readThenWrite (.filled 5) [sampleTable]) readThenWriteMessage =
        some [.filled 5, .filled 9, .filled 1] ∧
      (WritesKept readThenWrite readThenWriteMessage ↔
        WritesHeard readThenWrite (.filled 5) [sampleTable]) := by
  obtain ⟨msg, keys, compiles, rebuilt, kept⟩ :=
    writes_kept_iff readThenWrite (.filled 5) [] [sampleTable] (by decide)
  cases reads_first_compiles.symm.trans compiles
  cases reads_first_rebuilt.symm.trans rebuilt
  exact ⟨compiles, rebuilt, kept (by decide)⟩

/-- The upgrade reaches `registeredLookups` but not the bucket. -/
theorem read_then_write_lost :
    Bounded [sampleTable] ∧
    compile readThenWrite (.filled 5) [] [sampleTable] = .ok readThenWriteMessage ∧
    runtimeKeys (lookupSources readThenWrite (.filled 5) [sampleTable]) readThenWriteMessage =
      some [.filled 5, .filled 9, .filled 1] ∧
    ¬ WritesKept readThenWrite readThenWriteMessage := by
  refine ⟨by decide, reads_first_compiles, reads_first_rebuilt, ?_⟩
  unfold WritesKept
  decide
end SolanaSdk.VersionedPrivileges
