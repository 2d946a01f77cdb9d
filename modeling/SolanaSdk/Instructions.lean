import Mathlib.Data.Finset.Card
import Mathlib.Data.List.Dedup
import SolanaSdk.PublicKeys
import SolanaSdk.Privileges
import SolanaSdk.Registers

/-!
Instructions, and what a message compiled from them is for: which keys it must
mention, which of them must sign and which must be writable. These demands are
stated on the input alone and know nothing of either compiler.
-/

namespace SolanaSdk.Instructions

open ByteData PublicKeys Privileges

structure AccountMeta where
  pubkey : PublicKey
  isSigner : Bool
  isWritable : Bool
  deriving DecidableEq

/-- An account use as a register entry: the key and the flags it asks for. -/
def metaUse (am : AccountMeta) : PublicKey × Privilege := (am.pubkey, ⟨am.isSigner, am.isWritable⟩)

structure Instruction where
  programId : PublicKey
  accounts : List AccountMeta
  data : Bytes
  deriving DecidableEq

/-- An instruction as the runtime sees it: keys instead of indices. -/
structure ResolvedInstruction where
  programId : PublicKey
  accounts : List PublicKey
  data : Bytes
  deriving DecidableEq

/-- Both message classes declare this struct with the same three fields. -/
structure CompiledInstruction where
  programIdIndex : UInt8
  accountIndices : List UInt8
  data : Bytes
  deriving DecidableEq

/-- Looks every index of a compiled instruction up in an account list. -/
def resolve (keys : List PublicKey) (ci : CompiledInstruction) : Option ResolvedInstruction := do
  let programId ← keys[ci.programIdIndex.toNat]?
  let accounts ← ci.accountIndices.mapM fun index => keys[index.toNat]?
  pure ⟨programId, accounts, ci.data⟩

def Instruction.view (instr : Instruction) : ResolvedInstruction :=
  ⟨instr.programId, instr.accounts.map AccountMeta.pubkey, instr.data⟩

/-- The compiled form of an instruction under a numbering of keys. -/
def Instruction.number (index : PublicKey → UInt8) (instr : Instruction) : CompiledInstruction :=
  ⟨index instr.programId, instr.accounts.map fun am => index am.pubkey, instr.data⟩

theorem resolve_number (keys : List PublicKey) (index : PublicKey → UInt8) (instr : Instruction)
    (program : keys[(index instr.programId).toNat]? = some instr.programId)
    (accounts : ∀ am ∈ instr.accounts, keys[(index am.pubkey).toNat]? = some am.pubkey) :
    resolve keys (instr.number index) = some instr.view := by
  have listed : (instr.accounts.map fun am => index am.pubkey).mapM
      (fun index => keys[index.toNat]?) = some (instr.accounts.map AccountMeta.pubkey) := by
    rw [List.mapM_map]
    exact map_m_total _ AccountMeta.pubkey instr.accounts accounts
  simp [resolve, Instruction.number, Instruction.view, program, listed]

/-- A numbering that the account list inverts loses nothing of any instruction. -/
theorem resolve_all (keys : List PublicKey) (index : PublicKey → UInt8)
    (instructions : List Instruction)
    (inverts : ∀ instr ∈ instructions, keys[(index instr.programId).toNat]? = some instr.programId ∧
      ∀ am ∈ instr.accounts, keys[(index am.pubkey).toNat]? = some am.pubkey) :
    (instructions.map (Instruction.number index)).mapM (resolve keys) =
      some (instructions.map Instruction.view) := by
  rw [List.mapM_map]
  apply map_m_total (resolve keys ∘ Instruction.number index) Instruction.view
  intro instr member
  obtain ⟨program, accounts⟩ := inverts instr member
  exact resolve_number keys index instr program accounts

section Demands
variable (instructions : List Instruction) (feePayer : PublicKey)

def metas : List AccountMeta := instructions.flatMap Instruction.accounts

def IsProgram (key : PublicKey) : Prop := ∃ instr ∈ instructions, instr.programId = key

def MarkedSigner (key : PublicKey) : Prop :=
  ∃ am ∈ metas instructions, am.pubkey = key ∧ am.isSigner = true

def MarkedWritable (key : PublicKey) : Prop :=
  ∃ am ∈ metas instructions, am.pubkey = key ∧ am.isWritable = true

def Signs (key : PublicKey) : Prop := key = feePayer ∨ MarkedSigner instructions key

def Writes (key : PublicKey) : Prop := key = feePayer ∨ MarkedWritable instructions key

def Mentioned (key : PublicKey) : Prop :=
  key = feePayer ∨ IsProgram instructions key ∨ ∃ am ∈ metas instructions, am.pubkey = key

instance (key : PublicKey) : Decidable (IsProgram instructions key) :=
  inferInstanceAs (Decidable (∃ _ ∈ _, _))

instance (key : PublicKey) : Decidable (MarkedSigner instructions key) :=
  inferInstanceAs (Decidable (∃ _ ∈ _, _))

instance (key : PublicKey) : Decidable (MarkedWritable instructions key) :=
  inferInstanceAs (Decidable (∃ _ ∈ _, _))

instance (key : PublicKey) : Decidable (Signs instructions feePayer key) :=
  inferInstanceAs (Decidable (_ ∨ _))

instance (key : PublicKey) : Decidable (Writes instructions feePayer key) :=
  inferInstanceAs (Decidable (_ ∨ _))

/-- The merged demand on a key. -/
def demand (key : PublicKey) : Privilege :=
  ⟨decide (Signs instructions feePayer key), decide (Writes instructions feePayer key)⟩

@[simp] theorem demand_signer (key : PublicKey) :
    (demand instructions feePayer key).signer = true ↔ Signs instructions feePayer key := by
  simp [demand]

@[simp] theorem demand_writable (key : PublicKey) :
    (demand instructions feePayer key).writable = true ↔ Writes instructions feePayer key := by
  simp [demand]

/-- Every mention of a key in reading order: the fee payer, then instruction by
instruction the accounts and the program. -/
def mentions : List PublicKey :=
  feePayer :: instructions.flatMap fun instr =>
    instr.accounts.map AccountMeta.pubkey ++ [instr.programId]

def distinctAccounts : Finset PublicKey := (mentions instructions feePayer).toFinset

def requiredSigners : Finset PublicKey :=
  (distinctAccounts instructions feePayer).filter fun key => Signs instructions feePayer key

theorem mem_mentions (key : PublicKey) :
    key ∈ mentions instructions feePayer ↔ Mentioned instructions feePayer key := by
  simp only [mentions, Mentioned, IsProgram, metas, List.mem_cons, List.mem_flatMap,
    List.mem_append, List.mem_map, List.not_mem_nil, or_false]
  constructor
  · rintro (payer | ⟨instr, member, ⟨am, listed, same⟩ | program⟩)
    · exact Or.inl payer
    · exact Or.inr (Or.inr ⟨am, ⟨instr, member, listed⟩, same⟩)
    · exact Or.inr (Or.inl ⟨instr, member, program.symm⟩)
  · rintro (payer | ⟨instr, member, program⟩ | ⟨am, ⟨instr, member, listed⟩, same⟩)
    · exact Or.inl payer
    · exact Or.inr ⟨instr, member, Or.inr program.symm⟩
    · exact Or.inr ⟨instr, member, Or.inl ⟨am, listed, same⟩⟩

theorem signs_mentioned (key : PublicKey) (signs : Signs instructions feePayer key) :
    Mentioned instructions feePayer key := by
  rcases signs with payer | ⟨am, member, same, _⟩
  · exact Or.inl payer
  · exact Or.inr (Or.inr ⟨am, member, same⟩)

theorem mem_required_signers (key : PublicKey) :
    key ∈ requiredSigners instructions feePayer ↔ Signs instructions feePayer key := by
  simp only [requiredSigners, distinctAccounts, Finset.mem_filter, List.mem_toFinset, mem_mentions]
  exact ⟨fun both => both.2, fun signs => ⟨signs_mentioned instructions feePayer key signs, signs⟩⟩

/-- A list of distinct keys that misses no required signer counts each once. -/
theorem count_required (keys : List PublicKey) (unique : keys.Nodup)
    (complete : ∀ key, Signs instructions feePayer key → key ∈ keys) :
    keys.countP (fun key => decide (Signs instructions feePayer key)) =
      (requiredSigners instructions feePayer).card := by
  rw [List.countP_eq_length_filter, ← List.toFinset_card_of_nodup (unique.filter _)]
  congr 1
  ext key
  rw [mem_required_signers, List.mem_toFinset, List.mem_filter, decide_eq_true_eq]
  exact ⟨fun both => both.2, fun signs => ⟨complete key signs, signs⟩⟩

theorem erase_dups_card (keys : List PublicKey) : keys.eraseDups.length = keys.toFinset.card := by
  rw [← List.toFinset_card_of_nodup (Registers.erase_dups_nodup keys)]
  congr 1
  ext key
  simp [List.mem_eraseDups]

end Demands
end SolanaSdk.Instructions
