import SolanaSdk.LegacyLayout
import SolanaSdk.VersionedPrivileges

/-!
Taking a message apart and compiling it again. Who receives a message knows the
privileges of an account only by its position, in all its uses at once. A message
whose positions say what was asked for is given back by the compiler.
-/

namespace SolanaSdk.Recompilation

open ByteData PublicKeys Privileges Instructions RankedBlocks Registers LookupTables

section Counts
universe u
variable {Row : Type u} (grant : Row → Privilege) (used : Row → Prop) [DecidablePred used] (rows : List Row)

/-- Without the privileges of the rows that are not used. -/
def withheld (row : Row) : Privilege := if used row then grant row else ⟨false, false⟩

/-- The header misses nothing exactly if the other rows have no privileges. -/
theorem header_withheld_iff (fits : rows.length ≤ 255) :
    headerOf (withheld grant used) rows = headerOf grant rows ↔
      ∀ row ∈ rows, used row ∨ grant row = ⟨false, false⟩ := by
  constructor
  · intro same row listed
    have counts := congrArg (fun header => header.numReadonlyUnsignedAccounts.toNat) same
    rw [header_readonly_unsigned _ rows fits, header_readonly_unsigned _ rows fits] at counts
    have agree := count_same (isReadonlyOther grant) (isReadonlyOther (withheld grant used)) rows
      (fun row _ plain => by
        by_cases kept : used row
        · rwa [isReadonlyOther, withheld, if_pos kept]
        · rw [isReadonlyOther, withheld, if_neg kept]
          rfl) counts.symm row listed
    by_cases kept : used row
    · exact .inl kept
    · rw [isReadonlyOther, withheld, if_neg kept] at agree
      have plain := agree rfl
      rw [isReadonlyOther, Bool.and_eq_true, Bool.not_eq_true', Bool.not_eq_true'] at plain
      exact .inr (congrArg₂ Privilege.mk plain.1 plain.2)
  · intro kept
    rw [header_of_grants, header_of_grants grant]
    congr 1
    apply List.map_congr_left
    intro row listed
    rw [withheld]
    rcases kept row listed with yes | none
    · rw [if_pos yes]
    · rw [none, ite_self]

/-- What a header says of a position among `count` keys. -/
def statedBy (header : MessageHeader) (count index : Nat) : Privilege :=
  ⟨decide (header.SignerAt index), decide (header.WritableAt count index)⟩

/-- A header counts the privileges that it states, in whatever order the rows were. -/
theorem header_positions (fits : rows.length ≤ 255) :
    headerOf (statedBy (headerOf grant rows) rows.length) (List.range rows.length) =
      headerOf grant rows := by
  have perm := blocks_perm_self (fun row => (grant row).block) 4 rows
    fun row _ => Privilege.block_lt_four (grant row)
  have layout : InBlocks grant (blocks (fun row => (grant row).block) 4 rows) := blocks_ranked _ 4 rows
  generalize blocks (fun row => (grant row).block) 4 rows = ranked at perm layout
  have length := perm.length_eq
  have positions : (List.range rows.length).map (statedBy (headerOf grant rows) rows.length) =
      ranked.map grant := by
    apply List.ext_getElem
    · rw [List.length_map, List.length_map, List.length_range, length]
    · intro index left right
      rw [List.length_map] at right
      have signer := signer_at_of_blocks grant ranked (by omega) layout index right
      have writable := writable_at_of_blocks grant ranked (by omega) layout index right
      rw [header_of_perm grant ranked rows perm] at signer writable
      rw [length] at writable
      rw [List.getElem_map, List.getElem_map, List.getElem_range, statedBy]
      refine congrArg₂ Privilege.mk ?_ ?_
      · rw [Bool.eq_iff_iff, decide_eq_true_eq, signer]
      · rw [Bool.eq_iff_iff, decide_eq_true_eq, writable]
  rw [header_of_grants, positions, ← header_of_grants, header_of_perm grant ranked rows perm]

/-- Position 0 is a writable signer if there is one at all. -/
theorem first_position (fits : rows.length ≤ 255) (row : Row) (listed : row ∈ rows)
    (full : grant row = ⟨true, true⟩) :
    statedBy (headerOf grant rows) rows.length 0 = ⟨true, true⟩ := by
  have block : (fun row => (grant row).block) row < 1 := by
    dsimp only
    rw [full]
    decide
  have some : 0 < below (fun row => (grant row).block) 1 rows :=
    List.countP_pos_iff.mpr ⟨row, listed, decide_eq_true block⟩
  have signers := count_writable_signers grant rows
  rw [statedBy]
  refine congrArg₂ Privilege.mk (decide_eq_true ?_) (decide_eq_true (.inl ?_))
  · rw [MessageHeader.SignerAt, header_signatures grant rows fits]
    omega
  · rw [header_signatures grant rows fits, header_readonly_signed grant rows fits]
    omega

end Counts

section Stating
variable (keys : List PublicKey) (stated : Nat → Privilege)

def metaAt (index : UInt8) : Option AccountMeta := do
  let key ← keys[index.toNat]?
  pure ⟨key, (stated index.toNat).signer, (stated index.toNat).writable⟩

/-- The instruction that a receiver reads, every account with the privilege of
its position. -/
def stateInstruction (ci : CompiledInstruction) : Option Instruction := do
  let programId ← keys[ci.programIdIndex.toNat]?
  let accounts ← ci.accountIndices.mapM (metaAt keys stated)
  pure ⟨programId, accounts, ci.data⟩

/-- The accounts of an instruction with privileges that depend on the key only. -/
def regrant (grants : PublicKey → Privilege) (instr : Instruction) : Instruction :=
  { instr with accounts := instr.accounts.map fun am =>
      ⟨am.pubkey, (grants am.pubkey).signer, (grants am.pubkey).writable⟩ }

/-- The privilege of the position that a key is numbered with. -/
def granted (key : PublicKey) : Privilege := stated (byteIndex keys key).toNat

theorem state_number (instr : Instruction) (fits : keys.length ≤ 256)
    (program : instr.programId ∈ keys) (accounts : ∀ am ∈ instr.accounts, am.pubkey ∈ keys) :
    stateInstruction keys stated (instr.number (byteIndex keys)) =
      some (regrant (granted keys stated) instr) := by
  have here := byte_index_inverts keys fits instr.programId program
  have listed := map_m_total (metaAt keys stated ∘ fun am : AccountMeta => byteIndex keys am.pubkey)
    (fun am => ⟨am.pubkey, (granted keys stated am.pubkey).signer,
      (granted keys stated am.pubkey).writable⟩) instr.accounts
    (fun am member => by
      rw [Function.comp_apply, metaAt, byte_index_inverts keys fits am.pubkey (accounts am member)]
      rfl)
  rw [stateInstruction, Instruction.number]
  dsimp only
  rw [here, List.mapM_map, listed]
  rfl

theorem state_numbers (instructions : List Instruction) (fits : keys.length ≤ 256)
    (programs : ∀ instr ∈ instructions, instr.programId ∈ keys)
    (accounts : ∀ am ∈ metas instructions, am.pubkey ∈ keys) :
    (instructions.map (Instruction.number (byteIndex keys))).mapM (stateInstruction keys stated) =
      some (instructions.map (regrant (granted keys stated))) := by
  rw [List.mapM_map]
  exact map_m_total _ _ _ fun instr listed => state_number keys stated instr fits
    (programs instr listed) fun am member =>
      accounts am (List.mem_flatMap.mpr ⟨instr, listed, member⟩)

end Stating

section Regranted
variable (grants : PublicKey → Privilege) (instructions : List Instruction) (feePayer : PublicKey)

theorem number_regrant (index : PublicKey → UInt8) :
    (instructions.map (regrant grants)).map (Instruction.number index) =
      instructions.map (Instruction.number index) := by
  rw [List.map_map]
  apply List.map_congr_left
  intro instr _
  simp [regrant, Instruction.number]

theorem metas_regrant :
    metas (instructions.map (regrant grants)) = (metas instructions).map fun am =>
      ⟨am.pubkey, (grants am.pubkey).signer, (grants am.pubkey).writable⟩ := by
  simp [metas, regrant, List.flatMap_map, List.map_flatMap]

theorem mentions_regrant :
    mentions (instructions.map (regrant grants)) feePayer = mentions instructions feePayer := by
  rw [mentions, mentions, List.flatMap_map]
  congr 1
  apply List.flatMap_congr
  intro instr _
  simp [regrant]

/-- Used as an account, and not only as a program. -/
def UsedAsAccount (key : PublicKey) : Prop :=
  key = feePayer ∨ ∃ am ∈ metas instructions, am.pubkey = key

instance (key : PublicKey) : Decidable (UsedAsAccount instructions feePayer key) :=
  inferInstanceAs (Decidable (_ ∨ ∃ _ ∈ _, _))

/-- A flag of a key is asked for where the key has it and is used as an account. -/
theorem flag_regrant (flag : AccountMeta → Bool) (has : PublicKey → Bool)
    (same : ∀ key, flag ⟨key, (grants key).signer, (grants key).writable⟩ = has key)
    (payer : has feePayer = true) (key : PublicKey) :
    (key = feePayer ∨ ∃ am ∈ metas (instructions.map (regrant grants)),
      am.pubkey = key ∧ flag am = true) ↔
      UsedAsAccount instructions feePayer key ∧ has key = true := by
  rw [metas_regrant]
  constructor
  · rintro (rfl | ⟨_, listed, rfl, marked⟩)
    · exact ⟨.inl rfl, payer⟩
    · obtain ⟨am, member, rfl⟩ := List.mem_map.mp listed
      exact ⟨.inr ⟨am, member, rfl⟩, (same am.pubkey).symm.trans marked⟩
  · rintro ⟨rfl | ⟨am, member, rfl⟩, marked⟩
    · exact .inl rfl
    · exact .inr ⟨_, List.mem_map_of_mem member, rfl, (same am.pubkey).trans marked⟩

theorem demand_regrant (payer : grants feePayer = ⟨true, true⟩) (key : PublicKey) :
    demand (instructions.map (regrant grants)) feePayer key =
      if UsedAsAccount instructions feePayer key then grants key else ⟨false, false⟩ := by
  have signs : Signs (instructions.map (regrant grants)) feePayer key ↔ _ :=
    flag_regrant grants instructions feePayer AccountMeta.isSigner (fun key => (grants key).signer)
      (fun _ => rfl) (congrArg Privilege.signer payer) key
  have writes : Writes (instructions.map (regrant grants)) feePayer key ↔ _ :=
    flag_regrant grants instructions feePayer AccountMeta.isWritable
      (fun key => (grants key).writable) (fun _ => rfl) (congrArg Privilege.writable payer) key
  rw [demand]
  by_cases used : UsedAsAccount instructions feePayer key
  · rw [if_pos used]
    simp [signs, writes, used]
  · rw [if_neg used]
    simp [signs, writes, used]

end Regranted

section Legacy
variable (instructions : List Instruction) (feePayer : PublicKey) (recentBlockhash : Text)

/-- What the receiver of a legacy message reads. -/
def stateMessage (msg : LegacyMessage.Message) : Option (List Instruction) :=
  msg.instructions.mapM
    (stateInstruction msg.accountKeys (statedBy msg.header msg.accountKeys.length))

/-- Where the header gives a privilege, the key is used as an account. -/
def PrivilegesUsed (msg : LegacyMessage.Message) : Prop :=
  ∀ index (inside : index < msg.accountKeys.length),
    msg.header.SignerAt index ∨ msg.header.WritableAt msg.accountKeys.length index →
      UsedAsAccount instructions feePayer msg.accountKeys[index]

instance (msg : LegacyMessage.Message) : Decidable (PrivilegesUsed instructions feePayer msg) :=
  inferInstanceAs (Decidable (∀ index (_ : index < msg.accountKeys.length), _ → _))

theorem granted_keys (keys : List PublicKey) (unique : keys.Nodup) (fits : keys.length ≤ 256)
    (stated : Nat → Privilege) :
    keys.map (granted keys stated) = (List.range keys.length).map stated := by
  apply List.ext_getElem
  · rw [List.length_map, List.length_map, List.length_range]
  · intro index left right
    rw [List.length_map] at left
    rw [List.getElem_map, List.getElem_map, List.getElem_range, granted,
      byte_index_toNat keys _ index (position_of_nodup keys unique index left) fits]

/-- What the positions of the compiled keys say. -/
def positionGrants : PublicKey → Privilege :=
  granted (LegacyMessage.compile instructions feePayer recentBlockhash).accountKeys
    (statedBy (LegacyMessage.compile instructions feePayer recentBlockhash).header
      (LegacyMessage.compile instructions feePayer recentBlockhash).accountKeys.length)

def restated : List Instruction :=
  instructions.map (regrant (positionGrants instructions feePayer recentBlockhash))

variable (few : (distinctAccounts instructions feePayer).card ≤ 255)
include few

theorem compile_keys_few :
    (LegacyMessage.compile instructions feePayer recentBlockhash).accountKeys.length ≤ 255 := by
  rw [LegacyLayout.compile_keys_length]
  exact few

theorem message_stated :
    stateMessage (LegacyMessage.compile instructions feePayer recentBlockhash) =
      some (restated instructions feePayer recentBlockhash) := by
  have mentioned := LegacyLayout.mem_compile_keys instructions feePayer recentBlockhash
  rw [stateMessage, LegacyLayout.compile_instructions]
  exact state_numbers _ _ instructions
    (Nat.le_succ_of_le (compile_keys_few instructions feePayer recentBlockhash few))
    (fun instr listed => (mentioned _).mpr (.inr (.inl ⟨instr, listed, rfl⟩)))
    (fun am listed => (mentioned _).mpr (.inr (.inr ⟨am, listed, rfl⟩)))

theorem payer_granted :
    positionGrants instructions feePayer recentBlockhash feePayer = ⟨true, true⟩ := by
  have fits := compile_keys_few instructions feePayer recentBlockhash few
  obtain ⟨inside, first⟩ := List.getElem?_eq_some_iff.mp
    (LegacyLayout.compile_payer_first instructions feePayer recentBlockhash)
  have found := position_of_nodup _
    (LegacyLayout.compile_keys_nodup instructions feePayer recentBlockhash) 0 inside
  rw [first] at found
  rw [positionGrants, granted, byte_index_toNat _ _ 0 found (Nat.le_succ_of_le fits),
    LegacyLayout.compile_header]
  refine first_position (demand instructions feePayer) _ fits feePayer
    (List.mem_of_getElem first) ?_
  exact congrArg₂ Privilege.mk (decide_eq_true (.inl rfl)) (decide_eq_true (.inl rfl))

theorem header_granted :
    headerOf (positionGrants instructions feePayer recentBlockhash)
        (LegacyMessage.compile instructions feePayer recentBlockhash).accountKeys =
      (LegacyMessage.compile instructions feePayer recentBlockhash).header := by
  have fits := compile_keys_few instructions feePayer recentBlockhash few
  have positions := granted_keys _
    (LegacyLayout.compile_keys_nodup instructions feePayer recentBlockhash) (Nat.le_succ_of_le fits)
    (statedBy (LegacyMessage.compile instructions feePayer recentBlockhash).header
      (LegacyMessage.compile instructions feePayer recentBlockhash).accountKeys.length)
  rw [header_of_grants, positionGrants, positions, ← header_of_grants, LegacyLayout.compile_header]
  exact header_positions (demand instructions feePayer) _ fits

theorem recompiled_header :
    (LegacyMessage.compile (restated instructions feePayer recentBlockhash) feePayer
        recentBlockhash).header =
      headerOf (withheld (positionGrants instructions feePayer recentBlockhash)
          (UsedAsAccount instructions feePayer))
        (LegacyMessage.compile instructions feePayer recentBlockhash).accountKeys := by
  have demands := funext (demand_regrant (positionGrants instructions feePayer recentBlockhash)
    instructions feePayer (payer_granted instructions feePayer recentBlockhash few))
  rw [LegacyLayout.compile_header, LegacyLayout.compile_keys, restated, mentions_regrant, demands,
    LegacyLayout.compile_keys]
  rfl

omit few in
theorem recompiled_iff :
    LegacyMessage.compile (restated instructions feePayer recentBlockhash) feePayer recentBlockhash =
        LegacyMessage.compile instructions feePayer recentBlockhash ↔
      (LegacyMessage.compile (restated instructions feePayer recentBlockhash) feePayer
          recentBlockhash).header =
        (LegacyMessage.compile instructions feePayer recentBlockhash).header := by
  have keys : (LegacyMessage.compile (restated instructions feePayer recentBlockhash) feePayer
      recentBlockhash).accountKeys =
      (LegacyMessage.compile instructions feePayer recentBlockhash).accountKeys := by
    rw [LegacyLayout.compile_keys, restated, mentions_regrant, LegacyLayout.compile_keys]
  have numbered := LegacyLayout.compile_instructions (restated instructions feePayer recentBlockhash)
    feePayer recentBlockhash
  rw [keys, restated, number_regrant, ← LegacyLayout.compile_instructions, ← restated] at numbered
  constructor
  · intro same
    rw [same]
  · intro header
    calc LegacyMessage.compile (restated instructions feePayer recentBlockhash) feePayer
          recentBlockhash
        = ⟨(LegacyMessage.compile (restated instructions feePayer recentBlockhash) feePayer
              recentBlockhash).header,
            (LegacyMessage.compile (restated instructions feePayer recentBlockhash) feePayer
              recentBlockhash).accountKeys, recentBlockhash,
            (LegacyMessage.compile (restated instructions feePayer recentBlockhash) feePayer
              recentBlockhash).instructions⟩ := rfl
      _ = LegacyMessage.compile instructions feePayer recentBlockhash := by
          rw [header, keys, numbered]
          rfl

/-- Compiling what a legacy message states gives that message exactly if it gives
no privilege to a key that is only a program. -/
theorem legacy_recompiles_iff :
    ∃ stated, stateMessage (LegacyMessage.compile instructions feePayer recentBlockhash) =
        some stated ∧
      (LegacyMessage.compile stated feePayer recentBlockhash =
          LegacyMessage.compile instructions feePayer recentBlockhash ↔
        PrivilegesUsed instructions feePayer
          (LegacyMessage.compile instructions feePayer recentBlockhash)) := by
  refine ⟨_, message_stated instructions feePayer recentBlockhash few, ?_⟩
  have fits := compile_keys_few instructions feePayer recentBlockhash few
  have unique := LegacyLayout.compile_keys_nodup instructions feePayer recentBlockhash
  rw [recompiled_iff, recompiled_header instructions feePayer recentBlockhash few,
    ← header_granted instructions feePayer recentBlockhash few, header_withheld_iff _ _ _ fits,
    List.forall_mem_iff_getElem]
  refine forall₂_congr fun index inside => ?_
  have found := byte_index_toNat _ _ index (position_of_nodup _ unique index inside)
    (Nat.le_succ_of_le fits)
  rw [positionGrants, granted, found, statedBy, Privilege.mk.injEq, decide_eq_false_iff_not,
    decide_eq_false_iff_not]
  tauto

end Legacy

open LegacyLayout (signerLast signer_last_few) in
theorem signer_last_recompiles :
    ∃ stated, stateMessage (LegacyMessage.compile signerLast (.filled 5) []) = some stated ∧
      (LegacyMessage.compile stated (.filled 5) [] = LegacyMessage.compile signerLast (.filled 5) [] ↔
        PrivilegesUsed signerLast (.filled 5) (LegacyMessage.compile signerLast (.filled 5) [])) :=
  legacy_recompiles_iff signerLast (.filled 5) [] signer_last_few

section Versioned
open VersionedMessage VersionedRouting VersionedLayout VersionedResolution VersionedPrivileges

/-- What the receiver of a V0 message reads, given the tables of its entries. -/
def stateMessageV0 (sources : List AddressLookupTableAccount) (msg : MessageV0) :
    Option (List Instruction) := do
  let keys ← runtimeKeys sources msg
  msg.instructions.mapM (stateInstruction keys fun index =>
    ⟨decide (msg.SignerPosition index), decide (msg.WritablePosition index)⟩)

variable (instructions : List Instruction) (feePayer : PublicKey) (recentBlockhash : Text)
  (lookupTables : List AddressLookupTableAccount)

/-- What the positions of the combined keys say. -/
def combinedGrants : PublicKey → Privilege :=
  granted (combined instructions feePayer lookupTables) fun index =>
    ⟨decide ((compiled instructions feePayer recentBlockhash lookupTables).SignerPosition index),
      decide ((compiled instructions feePayer recentBlockhash lookupTables).WritablePosition index)⟩

def restatedV0 : List Instruction :=
  instructions.map (regrant (combinedGrants instructions feePayer recentBlockhash lookupTables))

variable (few : (combined instructions feePayer lookupTables).length ≤ 255)
include few

theorem static_granted (key : PublicKey) (static : StaticKey instructions feePayer lookupTables key) :
    combinedGrants instructions feePayer recentBlockhash lookupTables key =
      staticDemand instructions feePayer lookupTables key := by
  obtain ⟨index, inside, same, found⟩ := static_position instructions feePayer lookupTables key static
  have signer := static_signer_position instructions feePayer recentBlockhash lookupTables few index
    inside
  have writable := static_writable_position instructions feePayer recentBlockhash lookupTables few
    index inside
  rw [same] at signer writable
  rw [combinedGrants, granted, byte_index_toNat _ _ index found (Nat.le_succ_of_le few), staticDemand]
  exact congrArg₂ Privilege.mk (decide_eq_decide.mpr signer) (decide_eq_decide.mpr writable)

variable (bounded : Bounded lookupTables)
include bounded

theorem loaded_granted (am : AccountMeta) (listed : am ∈ metas instructions)
    (moved : ¬ StaticKey instructions feePayer lookupTables am.pubkey) :
    combinedGrants instructions feePayer recentBlockhash lookupTables am.pubkey =
      ⟨false, decide (am.pubkey ∈ loaded instructions feePayer lookupTables true)⟩ := by
  have absent : am.pubkey ∉ (ordered instructions feePayer lookupTables).map AccountInfo.key :=
    fun member => moved ((mem_ordered_keys ..).mp member)
  have place := position_append_right _ (loaded instructions feePayer lookupTables true ++
    loaded instructions feePayer lookupTables false) _ absent
  rw [← combined_split, List.length_map] at place
  have member := account_combined instructions feePayer lookupTables bounded am listed
  obtain ⟨index, found⟩ := position_of_mem _ _ member
  rw [found, eq_comm, Option.map_eq_some_iff] at place
  obtain ⟨offset, inLoaded, shifted⟩ := place
  rw [combinedGrants, granted, byte_index_toNat _ _ index found (Nat.le_succ_of_le few)]
  refine congrArg₂ Privilege.mk (decide_eq_false fun signs => ?_) (decide_eq_decide.mpr ?_)
  · have static := signer_position_static instructions feePayer recentBlockhash lookupTables few index
      signs
    omega
  · rw [MessageV0.WritablePosition, static_length, loaded_writable_length]
    by_cases heard : am.pubkey ∈ loaded instructions feePayer lookupTables true
    · rw [position_append_left _ _ _ heard] at inLoaded
      obtain ⟨inside, _⟩ := (position_eq_some _ _ _).mp inLoaded
      simp only [heard, iff_true]
      omega
    · rw [position_append_right _ _ _ heard, Option.map_eq_some_iff] at inLoaded
      obtain ⟨later, _, rfl⟩ := inLoaded
      simp only [heard, iff_false]
      omega

variable (oneWay : RoutedOneWay instructions feePayer lookupTables)
include oneWay

/-- Every use goes the way it went before. -/
theorem regranted_routed (am : AccountMeta) (listed : am ∈ metas instructions) :
    let grants := combinedGrants instructions feePayer recentBlockhash lookupTables
    RoutedStatic lookupTables
        ⟨am.pubkey, (grants am.pubkey).signer, (grants am.pubkey).writable⟩ ↔
      RoutedStatic lookupTables am := by
  intro grants
  by_cases kept : RoutedStatic lookupTables am
  · refine iff_of_true ?_ kept
    rcases kept with signed | absent
    · have static : StaticKey instructions feePayer lookupTables am.pubkey :=
        .inr (.inr ⟨am, listed, rfl, .inl signed⟩)
      have granted := static_granted instructions feePayer recentBlockhash lookupTables few _ static
      refine .inl ?_
      dsimp only [grants]
      rw [granted]
      exact decide_eq_true (.inr ⟨am, listed, rfl, signed⟩)
    · exact .inr absent
  · refine iff_of_false ?_ kept
    rw [RoutedStatic, not_or, not_not, Bool.not_eq_true] at kept
    have moved := (routed_one_way_iff instructions feePayer lookupTables).mp oneWay am listed
      kept.1 kept.2
    have granted := loaded_granted instructions feePayer recentBlockhash lookupTables few bounded am
      listed moved
    rintro (signed | absent)
    · dsimp only [grants] at signed
      rw [granted] at signed
      cases signed
    · exact absent kept.2

theorem static_uses_keys :
    keys (staticUses lookupTables
        (restatedV0 instructions feePayer recentBlockhash lookupTables) feePayer) =
      keys (staticUses lookupTables instructions feePayer) := by
  rw [staticUses, staticUses, keys_cons, keys_cons, restatedV0, List.flatMap_map, keys, keys,
    List.map_flatMap, List.map_flatMap]
  congr 1
  apply List.flatMap_congr
  intro instr listed
  rw [List.map_cons, List.map_cons]
  congr 1
  rw [staticMetas, staticMetas, regrant, List.filter_map, List.map_map, List.map_map, List.map_map]
  congr 1
  apply List.filter_congr
  intro am member
  exact decide_eq_decide.mpr (regranted_routed instructions feePayer recentBlockhash lookupTables few
    bounded oneWay am (List.mem_flatMap.mpr ⟨instr, listed, member⟩))

omit bounded oneWay in
theorem static_signs_restated (key : PublicKey)
    (static : StaticKey instructions feePayer lookupTables key) :
    Signs (restatedV0 instructions feePayer recentBlockhash lookupTables) feePayer key ↔
      Signs instructions feePayer key := by
  have granted := static_granted instructions feePayer recentBlockhash lookupTables few
  have payer : (combinedGrants instructions feePayer recentBlockhash lookupTables feePayer).signer =
      true := by
    rw [granted feePayer (.inl rfl)]
    exact decide_eq_true (.inl rfl)
  refine (flag_regrant _ instructions feePayer AccountMeta.isSigner _ (fun _ => rfl) payer key).trans ?_
  rw [granted key static, staticDemand, decide_eq_true_iff]
  constructor
  · exact And.right
  · intro signs
    refine ⟨?_, signs⟩
    rcases signs with payer | ⟨am, listed, same, -⟩
    · exact .inl payer
    · exact .inr ⟨am, listed, same⟩

theorem static_writes_restated (key : PublicKey)
    (static : StaticKey instructions feePayer lookupTables key) :
    StaticWrites (restatedV0 instructions feePayer recentBlockhash lookupTables) feePayer lookupTables
        key ↔ StaticWrites instructions feePayer lookupTables key := by
  have granted := static_granted instructions feePayer recentBlockhash lookupTables few key static
  have writable : (combinedGrants instructions feePayer recentBlockhash lookupTables key).writable =
      true ↔ StaticWrites instructions feePayer lookupTables key := by
    rw [granted]
    exact decide_eq_true_iff
  have routed := regranted_routed instructions feePayer recentBlockhash lookupTables few bounded oneWay
  constructor
  · rintro (payer | ⟨_, listed, rfl, -, written⟩)
    · exact .inl payer
    · rw [restatedV0, metas_regrant] at listed
      obtain ⟨am, -, rfl⟩ := List.mem_map.mp listed
      exact writable.mp written
  · intro writes
    rcases writes with payer | ⟨am, listed, rfl, kept, written⟩
    · exact .inl payer
    · have stated := List.mem_map_of_mem (f := fun am : AccountMeta =>
        let grants := combinedGrants instructions feePayer recentBlockhash lookupTables
        (⟨am.pubkey, (grants am.pubkey).signer, (grants am.pubkey).writable⟩ : AccountMeta)) listed
      rw [← metas_regrant] at stated
      exact .inr ⟨_, stated, rfl, (routed am listed).mpr kept,
        writable.mpr (.inr ⟨am, listed, rfl, kept, written⟩)⟩

omit few bounded oneWay in
theorem static_accounts_demands :
    staticAccounts instructions feePayer lookupTables =
      ((staticAccounts instructions feePayer lookupTables).map AccountInfo.key).map fun key =>
        ⟨key, (staticDemand instructions feePayer lookupTables key).signer,
          (staticDemand instructions feePayer lookupTables key).writable⟩ := by
  rw [List.map_map]
  conv_lhs => rw [← List.map_id (staticAccounts instructions feePayer lookupTables)]
  apply List.map_congr_left
  intro a member
  rw [Function.comp_apply, ← static_demand instructions feePayer lookupTables a member]
  rfl

/-- The static accounts are the same, in the same order. -/
theorem static_accounts_restated :
    staticAccounts (restatedV0 instructions feePayer recentBlockhash lookupTables) feePayer
        lookupTables = staticAccounts instructions feePayer lookupTables := by
  have keys : (staticAccounts (restatedV0 instructions feePayer recentBlockhash lookupTables) feePayer
      lookupTables).map AccountInfo.key =
      (staticAccounts instructions feePayer lookupTables).map AccountInfo.key := by
    rw [static_keys, static_keys, static_uses_keys instructions feePayer recentBlockhash lookupTables
      few bounded oneWay]
  rw [static_accounts_demands, static_accounts_demands instructions, keys]
  apply List.map_congr_left
  intro key member
  have static := (mem_static_keys instructions feePayer lookupTables key).mp member
  have signs := static_signs_restated instructions feePayer recentBlockhash lookupTables few key static
  have writes := static_writes_restated instructions feePayer recentBlockhash lookupTables few bounded
    oneWay key static
  rw [staticDemand, staticDemand, decide_eq_decide.mpr signs, decide_eq_decide.mpr writes]

theorem lookup_use_restated (am : AccountMeta) (listed : am ∈ metas instructions) :
    let grants := combinedGrants instructions feePayer recentBlockhash lookupTables
    lookupUse lookupTables ⟨am.pubkey, (grants am.pubkey).signer, (grants am.pubkey).writable⟩ =
      (lookupUse lookupTables am).map fun use => (use.1, (grants am.pubkey).writable) := by
  intro grants
  have routed := regranted_routed instructions feePayer recentBlockhash lookupTables few bounded oneWay
    am listed
  by_cases kept : RoutedStatic lookupTables am
  · rw [(lookup_use_none lookupTables am).mpr kept]
    exact (lookup_use_none lookupTables _).mpr (routed.mpr kept)
  · have moved := mt routed.mp kept
    rw [RoutedStatic, not_or] at kept moved
    rw [lookupUse, lookupUse, if_neg kept.1, if_neg moved.1, Option.map_map]
    rfl

/-- A table use asks for what the first use of its place has asked for. -/
theorem restated_use_first (use : Place × Bool)
    (member : use ∈ lookupUses lookupTables
      (restatedV0 instructions feePayer recentBlockhash lookupTables)) :
    use ∈ firstLookups instructions lookupTables := by
  rw [lookupUses, restatedV0, metas_regrant, List.filterMap_map] at member
  obtain ⟨am, listed, used⟩ := List.mem_filterMap.mp member
  rw [Function.comp_apply, lookup_use_restated instructions feePayer recentBlockhash lookupTables few
    bounded oneWay am listed, Option.map_eq_some_iff] at used
  obtain ⟨⟨place, asked⟩, before, rfl⟩ := used
  have moved : ¬ RoutedStatic lookupTables am := fun kept => by
    rw [(lookup_use_none lookupTables am).mpr kept] at before
    cases before
  rw [RoutedStatic, not_or, not_not, Bool.not_eq_true] at moved
  have located : locate lookupTables am.pubkey = some place := by
    rw [lookupUse, if_neg (by rw [moved.1]; decide), Option.map_eq_some_iff] at before
    obtain ⟨found, there, same⟩ := before
    cases same
    exact there
  have fresh := (routed_one_way_iff instructions feePayer lookupTables).mp oneWay am listed moved.1
    moved.2
  obtain ⟨flag, first⟩ := first_lookup_exists instructions lookupTables am listed moved.1 place located
  have same : decide (am.pubkey ∈ loaded instructions feePayer lookupTables true) = flag := by
    rw [Bool.eq_iff_iff, decide_eq_true_iff, mem_loaded instructions feePayer lookupTables bounded]
    constructor
    · rintro ⟨again, there, writes⟩
      rw [located] at there
      cases there
      exact first_lookup_unique instructions lookupTables place flag true first writes
    · rintro rfl
      exact ⟨place, located, first⟩
  rw [loaded_granted instructions feePayer recentBlockhash lookupTables few bounded am listed fresh,
    same]
  exact first

theorem buckets_restated :
    buckets (restatedV0 instructions feePayer recentBlockhash lookupTables) feePayer lookupTables =
      buckets instructions feePayer lookupTables := by
  have same : keys (lookupUses lookupTables
      (restatedV0 instructions feePayer recentBlockhash lookupTables)) =
      keys (lookupUses lookupTables instructions) := by
    rw [lookupUses, lookupUses, restatedV0, metas_regrant, List.filterMap_map, keys, keys,
      List.map_filterMap, List.map_filterMap]
    apply List.filterMap_congr
    intro am listed
    rw [Function.comp_apply, lookup_use_restated instructions feePayer recentBlockhash lookupTables few
      bounded oneWay am listed, Option.map_map]
    rfl
  have first := first_uses_same _ _ same (restated_use_first instructions feePayer recentBlockhash
    lookupTables few bounded oneWay)
  rw [buckets, buckets, (route_recorded lookupTables _ feePayer).buckets,
    (route_recorded lookupTables _ feePayer).buckets, first]

/-- If no account is loaded twice, compiling what a V0 message states gives that
message, whichever order its uses came in. -/
theorem versioned_recompiles :
    ∃ msg stated, compile instructions feePayer recentBlockhash lookupTables = .ok msg ∧
      stateMessageV0 (lookupSources instructions feePayer lookupTables) msg = some stated ∧
      compile stated feePayer recentBlockhash lookupTables = .ok msg := by
  refine ⟨_, restatedV0 instructions feePayer recentBlockhash lookupTables,
    compile_returns instructions feePayer recentBlockhash lookupTables bounded, ?_, ?_⟩
  · rw [stateMessageV0, runtime_combined instructions feePayer recentBlockhash lookupTables bounded]
    exact state_numbers _ _ instructions (Nat.le_succ_of_le few)
      (program_combined instructions feePayer lookupTables)
      (account_combined instructions feePayer lookupTables bounded)
  · have accounts := static_accounts_restated instructions feePayer recentBlockhash lookupTables few
      bounded oneWay
    have held := buckets_restated instructions feePayer recentBlockhash lookupTables few bounded oneWay
    rw [compile_returns _ feePayer recentBlockhash lookupTables bounded, compiled, compiled, combined,
      combined, ordered, ordered, accounts, held, restatedV0, number_regrant]

end Versioned

open VersionedMessage VersionedResolution in
theorem mixed_recompiles :
    ∃ msg stated, compile mixedUses (.filled 6) [] [sampleTable] = .ok msg ∧
      stateMessageV0 (lookupSources mixedUses (.filled 6) [sampleTable]) msg = some stated ∧
      compile stated (.filled 6) [] [sampleTable] = .ok msg :=
  versioned_recompiles mixedUses (.filled 6) [] [sampleTable] (by decide +kernel) (by decide)
    (by decide)

end SolanaSdk.Recompilation
