import SolanaSdk.LegacyMessage

/-!
What `Message::compile` guarantees: the account keys are the mentioned keys in
the order of their first mention, every compiled index leads back to its key,
and the header states the merged demands exactly when the order of first
mention happens to be the four-block order.
-/

namespace SolanaSdk.LegacyLayout

open ByteData PublicKeys Privileges Instructions RankedBlocks Registers LegacyMessage

section Counting

theorem entries_flags (table : KeyTable) :
    table.entries.map Prod.snd = table.isSigner.zipWith Privilege.mk table.isWritable := by
  have signers := table.signerSize
  have writables := table.writableSize
  apply List.map_snd_zip
  simp
  omega

theorem zip_with_signer (signers writables : List Bool) (same : signers.length = writables.length) :
    (signers.zipWith Privilege.mk writables).map Privilege.signer = signers := by
  induction signers generalizing writables with
  | nil => rfl
  | cons signer signers ih =>
      cases writables with
      | nil => simp at same
      | cons writable writables => simpa using ih writables (by simpa using same)

theorem zip_with_flags (signers writables : List Bool) :
    (signers.zipWith Privilege.mk writables).map (fun flags => (flags.signer, flags.writable)) =
      signers.zip writables := by
  simp [List.map_zipWith, List.zip]

theorem count_header_entries (table : KeyTable) :
    countHeader table = headerOf Prod.snd table.entries := by
  have flags := entries_flags table
  have signers := zip_with_signer table.isSigner table.isWritable
    (table.signerSize.trans table.writableSize.symm)
  have pairs := zip_with_flags table.isSigner table.isWritable
  simp only [countHeader, headerOf]
  rw [← pairs, ← flags, ← signers, ← flags]
  simp only [List.map_map, byte_count_map]
  rfl

end Counting

section Collected
variable (instructions : List Instruction) (feePayer : PublicKey)

theorem uses_keys : keys (uses instructions feePayer) = mentions instructions feePayer := by
  simp only [uses, mentions, keys, List.map_flatMap, List.map_append, List.map_map,
    instructionUses, List.map_cons, List.map_nil]
  rfl

theorem collected_keys :
    (collectKeys instructions feePayer).orderedKeys =
      (mentions instructions feePayer).eraseDups := by
  rw [← entries_keys, collect_keys_refines, register_all_keys, uses_keys]

theorem mem_uses (use : PublicKey × Privilege) :
    use ∈ uses instructions feePayer ↔
      use = (feePayer, ⟨true, true⟩) ∨ (∃ am ∈ metas instructions, metaUse am = use) ∨
        ∃ instr ∈ instructions, use = (instr.programId, ⟨false, false⟩) := by
  simp only [uses, instructionUses, metas, List.mem_cons, List.mem_flatMap, List.mem_append,
    List.mem_map, List.not_mem_nil, or_false]
  constructor
  · rintro (payer | ⟨instr, member, ⟨am, listed, same⟩ | program⟩)
    · exact Or.inl payer
    · exact Or.inr (Or.inl ⟨am, ⟨instr, member, listed⟩, same⟩)
    · exact Or.inr (Or.inr ⟨instr, member, program⟩)
  · rintro (payer | ⟨am, ⟨instr, member, listed⟩, same⟩ | ⟨instr, member, program⟩)
    · exact Or.inl payer
    · exact Or.inr ⟨instr, member, Or.inl ⟨am, listed, same⟩⟩
    · exact Or.inr ⟨instr, member, Or.inr program⟩

/-- Either flag is asked for by the fee payer and by the metas that set it; a
program id asks for neither. -/
theorem used_flag (flag : Privilege → Bool) (payer : flag ⟨true, true⟩ = true)
    (program : flag ⟨false, false⟩ = false) (key : PublicKey) :
    (∃ use ∈ uses instructions feePayer, use.1 = key ∧ flag use.2 = true) ↔
      key = feePayer ∨
        ∃ am ∈ metas instructions, am.pubkey = key ∧ flag (metaUse am).2 = true := by
  constructor
  · rintro ⟨use, member, rfl, marked⟩
    rcases (mem_uses instructions feePayer use).mp member with rfl | ⟨am, listed, rfl⟩ | ⟨_, _, rfl⟩
    · exact Or.inl rfl
    · exact Or.inr ⟨am, listed, rfl, marked⟩
    · exact absurd (program.symm.trans marked) Bool.false_ne_true
  · rintro (rfl | ⟨am, listed, rfl, marked⟩)
    · exact ⟨_, (mem_uses ..).mpr (Or.inl rfl), rfl, payer⟩
    · exact ⟨metaUse am, (mem_uses ..).mpr (Or.inr (Or.inl ⟨am, listed, rfl⟩)), rfl, marked⟩

theorem used_signer (key : PublicKey) :
    (∃ use ∈ uses instructions feePayer, use.1 = key ∧ use.2.signer = true) ↔
      Signs instructions feePayer key :=
  used_flag instructions feePayer Privilege.signer rfl rfl key

theorem used_writable (key : PublicKey) :
    (∃ use ∈ uses instructions feePayer, use.1 = key ∧ use.2.writable = true) ↔
      Writes instructions feePayer key :=
  used_flag instructions feePayer Privilege.writable rfl rfl key

/-- The flags collected for a key are the merged demands on it. -/
theorem collected_demand (entry : PublicKey × Privilege)
    (member : entry ∈ (collectKeys instructions feePayer).entries) :
    entry.2 = demand instructions feePayer entry.1 := by
  rw [collect_keys_refines] at member
  have signer := register_all_mark Privilege.merge (fun mark => mark.signer = true)
    Privilege.merge_signer _ entry member
  have writable := register_all_mark Privilege.merge (fun mark => mark.writable = true)
    Privilege.merge_writable _ entry member
  rw [used_signer, ← demand_signer] at signer
  rw [used_writable, ← demand_writable] at writable
  cases entry with
  | mk key mark =>
      cases mark
      exact congrArg₂ Privilege.mk (Bool.eq_iff_iff.mpr signer) (Bool.eq_iff_iff.mpr writable)

theorem collected_entries :
    (collectKeys instructions feePayer).entries =
      (collectKeys instructions feePayer).orderedKeys.map
        fun key => (key, demand instructions feePayer key) := by
  rw [← entries_keys, keys, List.map_map]
  conv_lhs => rw [← List.map_id (collectKeys instructions feePayer).entries]
  apply List.map_congr_left
  intro entry member
  exact Prod.ext rfl (collected_demand instructions feePayer entry member)

end Collected

section Compiled
variable (instructions : List Instruction) (feePayer : PublicKey) (recentBlockhash : Text)

theorem compile_keys :
    (compile instructions feePayer recentBlockhash).accountKeys =
      (mentions instructions feePayer).eraseDups := collected_keys instructions feePayer

theorem compile_header :
    (compile instructions feePayer recentBlockhash).header =
      headerOf (demand instructions feePayer)
        (compile instructions feePayer recentBlockhash).accountKeys := by
  change countHeader (collectKeys instructions feePayer) = headerOf (demand instructions feePayer)
    (collectKeys instructions feePayer).orderedKeys
  rw [count_header_entries, collected_entries]
  simp only [headerOf, byte_count_map]
  rfl

theorem compile_keys_nodup :
    (compile instructions feePayer recentBlockhash).accountKeys.Nodup := by
  rw [compile_keys]
  exact erase_dups_nodup _

theorem mem_compile_keys (key : PublicKey) :
    key ∈ (compile instructions feePayer recentBlockhash).accountKeys ↔
      Mentioned instructions feePayer key := by
  rw [compile_keys, List.mem_eraseDups, mem_mentions]

theorem compile_keys_length :
    (compile instructions feePayer recentBlockhash).accountKeys.length =
      (distinctAccounts instructions feePayer).card := by
  rw [compile_keys, erase_dups_card]
  rfl

theorem compile_payer_first :
    (compile instructions feePayer recentBlockhash).accountKeys[0]? = some feePayer := by
  rw [compile_keys, mentions, List.eraseDups_cons]
  rfl

theorem compile_instruction_number (orderedKeys : List PublicKey) (instr : Instruction)
    (program : instr.programId ∈ orderedKeys)
    (accounts : ∀ am ∈ instr.accounts, am.pubkey ∈ orderedKeys) :
    compileInstruction orderedKeys instr = instr.number (byteIndex orderedKeys) := by
  obtain ⟨index, found⟩ := position_of_mem orderedKeys instr.programId program
  have listed : (instr.accounts.filterMap fun am =>
      (position orderedKeys am.pubkey).map UInt8.ofNat) =
      instr.accounts.map fun am => byteIndex orderedKeys am.pubkey := by
    rw [← List.filterMap_eq_map]
    apply List.filterMap_congr
    intro am member
    obtain ⟨place, hit⟩ := position_of_mem orderedKeys am.pubkey (accounts am member)
    simp [hit, byteIndex]
  simp [compileInstruction, Instruction.number, listed, found, byteIndex]

/-- The second search never misses: every searched key has been collected. -/
theorem compile_instructions :
    (compile instructions feePayer recentBlockhash).instructions =
      instructions.map (Instruction.number
        (byteIndex (compile instructions feePayer recentBlockhash).accountKeys)) := by
  apply List.map_congr_left
  intro instr member
  apply compile_instruction_number
  · exact (mem_compile_keys instructions feePayer recentBlockhash _).mpr
      (Or.inr (Or.inl ⟨instr, member, rfl⟩))
  · intro am listed
    exact (mem_compile_keys instructions feePayer recentBlockhash _).mpr
      (Or.inr (Or.inr ⟨am, List.mem_flatMap.mpr ⟨instr, member, listed⟩, rfl⟩))

theorem compile_recovers (few : (distinctAccounts instructions feePayer).card ≤ 256) :
    (compile instructions feePayer recentBlockhash).instructions.mapM
      (resolve (compile instructions feePayer recentBlockhash).accountKeys) =
        some (instructions.map Instruction.view) := by
  have fits : (compile instructions feePayer recentBlockhash).accountKeys.length ≤ 256 := by
    rw [compile_keys_length]
    exact few
  rw [compile_instructions]
  apply resolve_all
  intro instr member
  refine ⟨byte_index_inverts _ fits _ ?_, fun am listed => byte_index_inverts _ fits _ ?_⟩
  · exact (mem_compile_keys ..).mpr (Or.inr (Or.inl ⟨instr, member, rfl⟩))
  · exact (mem_compile_keys ..).mpr
      (Or.inr (Or.inr ⟨am, List.mem_flatMap.mpr ⟨instr, member, listed⟩, rfl⟩))

/-- `Message::compile` numbers the mentioned keys and loses nothing. -/
theorem compile_faithful (few : (distinctAccounts instructions feePayer).card ≤ 256) :
    (compile instructions feePayer recentBlockhash).accountKeys.Nodup ∧
    (compile instructions feePayer recentBlockhash).accountKeys[0]? = some feePayer ∧
    (∀ key, key ∈ (compile instructions feePayer recentBlockhash).accountKeys ↔
      Mentioned instructions feePayer key) ∧
    (compile instructions feePayer recentBlockhash).instructions.mapM
      (resolve (compile instructions feePayer recentBlockhash).accountKeys) =
        some (instructions.map Instruction.view) :=
  ⟨compile_keys_nodup .., compile_payer_first ..,
    mem_compile_keys instructions feePayer recentBlockhash,
    compile_recovers instructions feePayer recentBlockhash few⟩

end Compiled

/-- One instruction that names a plain account before a signer. -/
def signerLast : List Instruction :=
  [⟨.filled 9, [⟨.filled 1, false, true⟩, ⟨.filled 2, true, false⟩], [7]⟩]

theorem signer_last_few : (distinctAccounts signerLast (.filled 5)).card ≤ 255 :=
  Nat.le_trans (List.toFinset_card_le _) (by decide)

theorem compile_faithful_signer_last :
    (compile signerLast (.filled 5) []).accountKeys.Nodup ∧
    (compile signerLast (.filled 5) []).accountKeys[0]? = some (.filled 5) ∧
    (∀ key, key ∈ (compile signerLast (.filled 5) []).accountKeys ↔
      Mentioned signerLast (.filled 5) key) ∧
    (compile signerLast (.filled 5) []).instructions.mapM
      (resolve (compile signerLast (.filled 5) []).accountKeys) =
        some (signerLast.map Instruction.view) :=
  compile_faithful signerLast (.filled 5) [] (Nat.le_succ_of_le signer_last_few)

section Demands
variable (instructions : List Instruction) (feePayer : PublicKey)

/-- The header assigns to every position the merged demand on the key there. -/
def HeaderStatesDemands (msg : Message) : Prop :=
  ∀ index (inside : index < msg.accountKeys.length),
    (msg.header.SignerAt index ↔ Signs instructions feePayer msg.accountKeys[index]) ∧
    (msg.header.WritableAt msg.accountKeys.length index ↔
      Writes instructions feePayer msg.accountKeys[index])

instance (msg : Message) : Decidable (HeaderStatesDemands instructions feePayer msg) :=
  inferInstanceAs (Decidable (∀ index (_ : index < msg.accountKeys.length), _ ∧ _))

/-- In order of first mention, no key comes behind one of a later block. -/
def MentionedInBlockOrder : Prop :=
  (mentions instructions feePayer).eraseDups.Pairwise fun before after =>
    (demand instructions feePayer before).block ≤ (demand instructions feePayer after).block

instance : Decidable (MentionedInBlockOrder instructions feePayer) :=
  inferInstanceAs (Decidable (List.Pairwise _ _))

/-- Nothing reorders the keys, so the header is right exactly for the inputs
that mention their accounts in the four-block order. -/
theorem compile_demands_iff (recentBlockhash : Text)
    (few : (distinctAccounts instructions feePayer).card ≤ 255) :
    HeaderStatesDemands instructions feePayer (compile instructions feePayer recentBlockhash) ↔
      MentionedInBlockOrder instructions feePayer := by
  have fits : (compile instructions feePayer recentBlockhash).accountKeys.length ≤ 255 := by
    rw [compile_keys_length]
    exact few
  have layout := states_privileges_iff (demand instructions feePayer) _ fits
  rw [MentionedInBlockOrder, ← compile_keys instructions feePayer recentBlockhash]
  refine Iff.trans ?_ layout
  simp only [HeaderStatesDemands, StatesPrivileges, demand_signer, demand_writable, compile_header]

end Demands

theorem compile_demands_signer_last :
    HeaderStatesDemands signerLast (.filled 5) (compile signerLast (.filled 5) []) ↔
      MentionedInBlockOrder signerLast (.filled 5) :=
  compile_demands_iff signerLast (.filled 5) [] signer_last_few

/-- The plain account behind the fee payer takes the second signer position. -/
theorem signer_last_misplaced :
    (distinctAccounts signerLast (.filled 5)).card ≤ 255 ∧
    ¬ HeaderStatesDemands signerLast (.filled 5) (compile signerLast (.filled 5) []) :=
  ⟨signer_last_few, by decide +kernel⟩

end SolanaSdk.LegacyLayout
