import SolanaSdk.Instructions

/-!
`Message::compile`. The key table is three parallel vectors filled by a
find-or-insert loop; the header is counted off the flags and every instruction
is rewritten by a second search. Keys stay in the order of their first mention:
nothing sorts them.
-/

namespace SolanaSdk.LegacyMessage

open ByteData PublicKeys Privileges Instructions RankedBlocks Registers

structure Message where
  header : MessageHeader
  accountKeys : List PublicKey
  recentBlockhash : Text
  instructions : List CompiledInstruction
  deriving DecidableEq

/-- `orderedKeys`, `isSigner` and `isWritable`, which grow together. -/
structure KeyTable where
  orderedKeys : List PublicKey
  isSigner : List Bool
  isWritable : List Bool
  signerSize : isSigner.length = orderedKeys.length
  writableSize : isWritable.length = orderedKeys.length

namespace KeyTable

def empty : KeyTable := ⟨[], [], [], rfl, rfl⟩

def upgrade (table : KeyTable) (index : Nat) (signer writable : Bool) : KeyTable where
  orderedKeys := table.orderedKeys
  isSigner := table.isSigner.modify index (· || signer)
  isWritable := table.isWritable.modify index (· || writable)
  signerSize := by simpa using table.signerSize
  writableSize := by simpa using table.writableSize

def push (table : KeyTable) (pk : PublicKey) (signer writable : Bool) : KeyTable where
  orderedKeys := table.orderedKeys ++ [pk]
  isSigner := table.isSigner ++ [signer]
  isWritable := table.isWritable ++ [writable]
  signerSize := by simpa using table.signerSize
  writableSize := by simpa using table.writableSize

def findOrAdd (table : KeyTable) (pk : PublicKey) (signer writable : Bool) : KeyTable × UInt8 :=
  match position table.orderedKeys pk with
  | some index => (table.upgrade index signer writable, UInt8.ofNat index)
  | none =>
      -- The new key's index is the size after the push, narrowed to a byte.
      let grown := table.push pk signer writable
      (grown, UInt8.ofNat (grown.orderedKeys.length - 1))

end KeyTable

def registerInstruction (table : KeyTable) (instr : Instruction) : KeyTable :=
  let listed := instr.accounts.foldl
    (fun table am => (table.findOrAdd am.pubkey am.isSigner am.isWritable).1) table
  (listed.findOrAdd instr.programId false false).1

def collectKeys (instructions : List Instruction) (feePayer : PublicKey) : KeyTable :=
  instructions.foldl registerInstruction (KeyTable.empty.findOrAdd feePayer true true).1

def countHeader (table : KeyTable) : MessageHeader where
  numRequiredSignatures := byteCount (fun signer => signer) table.isSigner
  numReadonlySignedAccounts :=
    byteCount (fun flags => flags.1 && !flags.2) (table.isSigner.zip table.isWritable)
  numReadonlyUnsignedAccounts :=
    byteCount (fun flags => !flags.1 && !flags.2) (table.isSigner.zip table.isWritable)

/-- `programIdIndex` has no initialiser in the source, so a missed search would
leave any byte there; 0 stands for it. A missed account is skipped. -/
def compileInstruction (orderedKeys : List PublicKey) (instr : Instruction) :
    CompiledInstruction where
  programIdIndex := match position orderedKeys instr.programId with
    | some index => UInt8.ofNat index
    | none => 0
  accountIndices := instr.accounts.filterMap fun am =>
    (position orderedKeys am.pubkey).map UInt8.ofNat
  data := instr.data

def compile (instructions : List Instruction) (feePayer : PublicKey) (recentBlockhash : Text) :
    Message :=
  let table := collectKeys instructions feePayer
  { header := countHeader table
    accountKeys := table.orderedKeys
    recentBlockhash := recentBlockhash
    instructions := instructions.map (compileInstruction table.orderedKeys) }

/-! The three vectors read as one register of keys with merged privileges. -/
section Refinement

def entriesOf (keys : List PublicKey) (signers writables : List Bool) :
    List (PublicKey × Privilege) := keys.zip (signers.zipWith Privilege.mk writables)

def KeyTable.entries (table : KeyTable) : List (PublicKey × Privilege) :=
  entriesOf table.orderedKeys table.isSigner table.isWritable

theorem entries_keys (table : KeyTable) : keys table.entries = table.orderedKeys := by
  have signers := table.signerSize
  have writables := table.writableSize
  apply List.map_fst_zip
  simp
  omega

theorem entries_push (table : KeyTable) (pk : PublicKey) (signer writable : Bool) :
    (table.push pk signer writable).entries = table.entries ++ [(pk, ⟨signer, writable⟩)] := by
  have signers := table.signerSize
  have writables := table.writableSize
  simp only [KeyTable.entries, KeyTable.push, entriesOf]
  rw [List.zipWith_append (by omega), List.zip_append (by simp; omega)]
  rfl

theorem entries_upgrade (keys : List PublicKey) (signers writables : List Bool) (index : Nat)
    (signer writable : Bool) :
    entriesOf keys (signers.modify index (· || signer)) (writables.modify index (· || writable)) =
      (entriesOf keys signers writables).modify index
        fun entry => (entry.1, Privilege.merge entry.2 ⟨signer, writable⟩) := by
  induction index generalizing keys signers writables with
  | zero => cases keys <;> cases signers <;> cases writables <;> simp [entriesOf, Privilege.merge]
  | succ index ih =>
      cases keys <;> cases signers <;> cases writables <;> simp [entriesOf]
      next key keys signer signers writable writables => exact ih keys signers writables

theorem register_stored (pk : PublicKey) (used : Privilege)
    (table : List (PublicKey × Privilege)) (index : Nat)
    (found : position (keys table) pk = some index) :
    register Privilege.merge pk used table =
      table.modify index fun entry => (entry.1, Privilege.merge entry.2 used) := by
  induction table generalizing index with
  | nil => simp [position] at found
  | cons entry rest ih =>
      by_cases hit : entry.1 = pk
      · have first : index = 0 := by simpa [position, List.findIdx?_cons, hit, eq_comm] using found
        subst first
        simp [register, hit]
      · simp only [position, keys_cons, List.findIdx?_cons, PublicKey.equals_eq_decide, hit,
          decide_false, Bool.false_eq_true, if_false, Option.map_eq_some_iff] at found
        obtain ⟨previous, later, rfl⟩ := found
        simp [register, hit, ih previous (by simpa [position] using later)]

/-- One `findOrAdd` on the vectors is one register step on the entries. -/
theorem find_or_add_refines (table : KeyTable) (pk : PublicKey) (signer writable : Bool) :
    (table.findOrAdd pk signer writable).1.entries =
      register Privilege.merge pk ⟨signer, writable⟩ table.entries := by
  unfold KeyTable.findOrAdd
  cases found : position table.orderedKeys pk with
  | some index =>
      rw [register_stored pk _ _ index (by rw [entries_keys]; exact found)]
      exact entries_upgrade _ _ _ index signer writable
  | none =>
      rw [register_fresh _ pk _ _ (by rw [entries_keys]; exact (position_eq_none _ _).mp found)]
      exact entries_push table pk signer writable

def instructionUses (instr : Instruction) : List (PublicKey × Privilege) :=
  instr.accounts.map metaUse ++ [(instr.programId, ⟨false, false⟩)]

def uses (instructions : List Instruction) (feePayer : PublicKey) : List (PublicKey × Privilege) :=
  (feePayer, ⟨true, true⟩) :: instructions.flatMap instructionUses

theorem register_metas_refines (accounts : List AccountMeta) (table : KeyTable) :
    (accounts.foldl
      (fun table am => (table.findOrAdd am.pubkey am.isSigner am.isWritable).1) table).entries =
      registerAll Privilege.merge (accounts.map metaUse) table.entries := by
  induction accounts generalizing table with
  | nil => rfl
  | cons am rest ih =>
      rw [List.foldl_cons, ih, find_or_add_refines]
      rfl

theorem register_instruction_refines (table : KeyTable) (instr : Instruction) :
    (registerInstruction table instr).entries =
      registerAll Privilege.merge (instructionUses instr) table.entries := by
  rw [registerInstruction, find_or_add_refines, register_metas_refines, instructionUses,
    register_all_snoc]

theorem collect_keys_refines (instructions : List Instruction) (feePayer : PublicKey) :
    (collectKeys instructions feePayer).entries =
      registerAll Privilege.merge (uses instructions feePayer) [] := by
  have run : ∀ (rest : List Instruction) (table : KeyTable),
      (rest.foldl registerInstruction table).entries =
        registerAll Privilege.merge (rest.flatMap instructionUses) table.entries := by
    intro rest
    induction rest with
    | nil => intro table; rfl
    | cons instr rest ih =>
        intro table
        rw [List.foldl_cons, ih, register_instruction_refines, List.flatMap_cons,
          register_all_append]
  rw [collectKeys, run, find_or_add_refines]
  rfl

end Refinement
end SolanaSdk.LegacyMessage
