import SolanaSdk.LegacyLayout
import SolanaSdk.VersionedResolution

/-!
`MessageV0::compile` without tables against `Message::compile`. With nothing to
look up, every use goes to the static accounts, which then hold the keys of the
legacy message with the same merged flags and differ from them in order only.
-/

namespace SolanaSdk.CompilerAgreement

open ByteData PublicKeys Privileges Instructions RankedBlocks LookupTables
open VersionedMessage VersionedRouting VersionedLayout VersionedResolution LegacyLayout

section NoTables
variable (instructions : List Instruction) (feePayer : PublicKey) (recentBlockhash : Text)

theorem no_table (pk : PublicKey) : ¬ InSomeTable [] pk := by
  rintro ⟨tbl, listed, _⟩
  cases listed

theorem no_tables_bounded : Bounded [] := by
  intro tbl listed
  cases listed

theorem all_routed_static (am : AccountMeta) : RoutedStatic [] am := Or.inr (no_table am.pubkey)

theorem static_key_mentioned (key : PublicKey) :
    StaticKey instructions feePayer [] key ↔ Mentioned instructions feePayer key := by
  refine or_congr_right (or_congr_right ?_)
  constructor
  · rintro ⟨am, listed, same, _⟩
    exact ⟨am, listed, same⟩
  · rintro ⟨am, listed, same⟩
    exact ⟨am, listed, same, all_routed_static am⟩

theorem static_writes_all (key : PublicKey) :
    StaticWrites instructions feePayer [] key ↔ Writes instructions feePayer key := by
  refine or_congr_right ?_
  constructor
  · rintro ⟨am, listed, same, _, written⟩
    exact ⟨am, listed, same, written⟩
  · rintro ⟨am, listed, same, written⟩
    exact ⟨am, listed, same, all_routed_static am, written⟩

/-- Both compilers merge the same flags for a key. -/
theorem static_demand_all : staticDemand instructions feePayer [] = demand instructions feePayer := by
  funext key
  simp only [staticDemand, demand, static_writes_all]

theorem keys_perm :
    ((ordered instructions feePayer []).map AccountInfo.key).Perm
      (LegacyMessage.compile instructions feePayer recentBlockhash).accountKeys := by
  refine (List.perm_ext_iff_of_nodup (ordered_keys_nodup instructions feePayer [])
    (compile_keys_nodup instructions feePayer recentBlockhash)).mpr ?_
  intro key
  rw [mem_ordered_keys, mem_compile_keys, static_key_mentioned]

theorem headers_agree :
    countHeader (ordered instructions feePayer []) =
      (LegacyMessage.compile instructions feePayer recentBlockhash).header := by
  rw [ordered_header, compile_header, static_demand_all]
  exact header_of_perm _ _ _ (keys_perm instructions feePayer recentBlockhash)

theorem combined_static :
    combined instructions feePayer [] =
      (ordered instructions feePayer []).map AccountInfo.key := by
  rw [combined_split]
  simp [loaded]

/-- Without tables the two compilers agree up to the order of the keys behind
the fee payer, and each instruction is recovered from either message. -/
theorem compilers_agree (few : (distinctAccounts instructions feePayer).card ≤ 256) :
    ∃ msg, compile instructions feePayer recentBlockhash [] = .ok msg ∧
      msg.header = (LegacyMessage.compile instructions feePayer recentBlockhash).header ∧
      msg.staticAccountKeys.Perm
        (LegacyMessage.compile instructions feePayer recentBlockhash).accountKeys ∧
      msg.staticAccountKeys[0]? = some feePayer ∧
      (LegacyMessage.compile instructions feePayer recentBlockhash).accountKeys[0]? =
        some feePayer ∧
      msg.instructions.mapM (resolve msg.staticAccountKeys) =
        some (instructions.map Instruction.view) ∧
      (LegacyMessage.compile instructions feePayer recentBlockhash).instructions.mapM
        (resolve (LegacyMessage.compile instructions feePayer recentBlockhash).accountKeys) =
        some (instructions.map Instruction.view) ∧
      msg.addressTableLookups = [] := by
  have first := compile_payer_first instructions feePayer recentBlockhash
  have recovered := compile_recovers instructions feePayer recentBlockhash few
  have perm := keys_perm instructions feePayer recentBlockhash
  refine ⟨_, compile_returns instructions feePayer recentBlockhash [] no_tables_bounded,
    headers_agree instructions feePayer recentBlockhash, perm, ?_, first, ?_, recovered, rfl⟩
  · obtain ⟨rest, payer⟩ := ordered_payer_first instructions feePayer []
    simp [compiled, payer]
  · -- Nothing is loaded, so the combined list is the static one and indices stay in it.
    have fits : ((ordered instructions feePayer []).map AccountInfo.key).length ≤ 256 := by
      rw [perm.length_eq, compile_keys_length]
      exact few
    have inverts : ∀ key, Mentioned instructions feePayer key →
        ((ordered instructions feePayer []).map AccountInfo.key)[
          (byteIndex ((ordered instructions feePayer []).map AccountInfo.key) key).toNat]? =
          some key := by
      intro key mentioned
      apply byte_index_inverts _ fits
      exact (mem_ordered_keys ..).mpr ((static_key_mentioned ..).mpr mentioned)
    simp only [compiled, combined_static]
    apply resolve_all
    intro instr listed
    refine ⟨inverts _ (Or.inr (Or.inl ⟨instr, listed, rfl⟩)), fun am member => ?_⟩
    exact inverts _ (Or.inr (Or.inr ⟨am, List.mem_flatMap.mpr ⟨instr, listed, member⟩, rfl⟩))

end NoTables

theorem compilers_agree_mixed :
    ∃ msg, compile mixedUses (.filled 6) [] [] = .ok msg ∧
      msg.header = (LegacyMessage.compile mixedUses (.filled 6) []).header ∧
      msg.staticAccountKeys.Perm (LegacyMessage.compile mixedUses (.filled 6) []).accountKeys ∧
      msg.staticAccountKeys[0]? = some (.filled 6) ∧
      (LegacyMessage.compile mixedUses (.filled 6) []).accountKeys[0]? = some (.filled 6) ∧
      msg.instructions.mapM (resolve msg.staticAccountKeys) =
        some (mixedUses.map Instruction.view) ∧
      (LegacyMessage.compile mixedUses (.filled 6) []).instructions.mapM
        (resolve (LegacyMessage.compile mixedUses (.filled 6) []).accountKeys) =
        some (mixedUses.map Instruction.view) ∧
      msg.addressTableLookups = [] :=
  compilers_agree mixedUses (.filled 6) [] (Nat.le_trans (List.toFinset_card_le _) (by decide))

end SolanaSdk.CompilerAgreement
