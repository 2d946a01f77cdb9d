import Mathlib.Data.List.Forall2
import SolanaSdk.ProgramAddresses
import SolanaSdk.SystemProgramDecoding

/-!
The builders of the token, associated token and compute budget programs, and one
reader for the instructions of all programs. It takes the call out of what the
runtime sees: a program, account keys and data, but no names.
-/

namespace SolanaSdk.ProgramCalls

open ByteData PublicKeys Instructions Decoders LittleEndian WireDecoding
open SystemProgram SystemProgramDecoding ProgramAddresses

section Builders

def writeU8 (buf : Bytes) (v : UInt8) : Bytes := buf ++ [v]

namespace SplToken

/-- The instructions of the token program differ in their accounts and their data. -/
def instruction (accounts : List AccountMeta) (data : Bytes) : Except Failure Instruction := do
  return ⟨← tokenProgramId, accounts, data⟩

def amountData (discriminator : UInt8) (amount : UInt64) : Bytes :=
  writeU64 (writeU8 [] discriminator) amount

def transfer (source dest authority : PublicKey) (amount : UInt64) : Except Failure Instruction :=
  instruction [⟨source, false, true⟩, ⟨dest, false, true⟩, ⟨authority, true, false⟩]
    (amountData 3 amount)

def transferChecked (source mint dest authority : PublicKey) (amount : UInt64) (decimals : UInt8) :
    Except Failure Instruction :=
  instruction [⟨source, false, true⟩, ⟨mint, false, false⟩, ⟨dest, false, true⟩,
    ⟨authority, true, false⟩] (writeU8 (amountData 12 amount) decimals)

def mintTo (mint dest mintAuthority : PublicKey) (amount : UInt64) : Except Failure Instruction :=
  instruction [⟨mint, false, true⟩, ⟨dest, false, true⟩, ⟨mintAuthority, true, false⟩]
    (amountData 7 amount)

def burn (account mint authority : PublicKey) (amount : UInt64) : Except Failure Instruction :=
  instruction [⟨account, false, true⟩, ⟨mint, false, true⟩, ⟨authority, true, false⟩]
    (amountData 8 amount)

def closeAccount (account destination authority : PublicKey) : Except Failure Instruction :=
  instruction [⟨account, false, true⟩, ⟨destination, false, true⟩, ⟨authority, true, false⟩]
    (writeU8 [] 9)

/-- Without data: the program has one instruction of this shape. -/
def createAssociatedTokenAccount (payer ataAddress walletAddress mintAddress : PublicKey) :
    Except Failure Instruction := do
  let systemProgram ← sysProg
  let sysvarRent ← rentSysvar
  let tokenProgram ← tokenProgramId
  return ⟨← associatedTokenProgramId, [⟨payer, true, true⟩, ⟨ataAddress, false, true⟩,
    ⟨walletAddress, false, false⟩, ⟨mintAddress, false, false⟩, ⟨systemProgram, false, false⟩,
    ⟨tokenProgram, false, false⟩, ⟨sysvarRent, false, false⟩], []⟩

end SplToken

namespace ComputeBudget

def computeBudgetProgramId : Except Failure PublicKey :=
  PublicKey.ofBase58 (ofLiteral "ComputeBudget111111111111111111111111111111")

def setComputeUnitLimit (units : UInt32) : Except Failure Instruction := do
  return ⟨← computeBudgetProgramId, [], writeU32 (writeU8 [] 2) units⟩

def setComputeUnitPrice (microLamports : UInt64) : Except Failure Instruction := do
  return ⟨← computeBudgetProgramId, [], writeU64 (writeU8 [] 3) microLamports⟩

end ComputeBudget

/-- The key that the address text of the compute budget program decodes to. -/
def computeBudgetKey : PublicKey :=
  ⟨⟨[3, 6, 70, 111, 229, 33, 23, 50, 255, 236, 173, 186, 114, 195, 155, 231,
    188, 140, 229, 187, 197, 247, 18, 107, 44, 67, 155, 58, 64, 0, 0, 0], rfl⟩⟩

theorem compute_budget_decodes : ComputeBudget.computeBudgetProgramId = .ok computeBudgetKey := by
  decide +kernel

def rentKey : PublicKey :=
  ⟨⟨[6, 167, 213, 23, 25, 44, 92, 81, 33, 140, 201, 76, 61, 74, 241, 127,
    88, 218, 238, 8, 155, 161, 253, 68, 227, 219, 217, 138, 0, 0, 0, 0], rfl⟩⟩

theorem rent_key_decodes : rentSysvar = .ok rentKey := by decide +kernel

end Builders

section Calls

inductive TokenCall where
  | transfer (source dest authority : PublicKey) (amount : UInt64)
  | transferChecked (source mint dest authority : PublicKey) (amount : UInt64) (decimals : UInt8)
  | mintTo (mint dest mintAuthority : PublicKey) (amount : UInt64)
  | burn (account mint authority : PublicKey) (amount : UInt64)
  | closeAccount (account destination authority : PublicKey)
  deriving DecidableEq

inductive BudgetCall where
  | setComputeUnitLimit (units : UInt32)
  | setComputeUnitPrice (microLamports : UInt64)
  deriving DecidableEq

/-- The calls of all builders but `createAccountWithSeed` and `transferWithSeed`: what
these two write is not what the program reads. -/
inductive ProgramCall where
  | system (call : SystemProgramDecoding.Call)
  | token (call : TokenCall)
  | createAssociatedTokenAccount (payer ataAddress walletAddress mintAddress : PublicKey)
  | budget (call : BudgetCall)
  deriving DecidableEq

def TokenCall.build : TokenCall → Except Failure Instruction
  | transfer source dest authority amount => SplToken.transfer source dest authority amount
  | transferChecked source mint dest authority amount decimals =>
      SplToken.transferChecked source mint dest authority amount decimals
  | mintTo mint dest mintAuthority amount => SplToken.mintTo mint dest mintAuthority amount
  | burn account mint authority amount => SplToken.burn account mint authority amount
  | closeAccount account destination authority => SplToken.closeAccount account destination authority

def BudgetCall.build : BudgetCall → Except Failure Instruction
  | setComputeUnitLimit units => ComputeBudget.setComputeUnitLimit units
  | setComputeUnitPrice microLamports => ComputeBudget.setComputeUnitPrice microLamports

def ProgramCall.build : ProgramCall → Except Failure Instruction
  | system call => call.build
  | token call => call.build
  | createAssociatedTokenAccount payer ataAddress walletAddress mintAddress =>
      SplToken.createAssociatedTokenAccount payer ataAddress walletAddress mintAddress
  | budget call => call.build

end Calls

section Readers

/-- The data of the token program: a discriminator and its fields. -/
inductive TokenFields where
  | transfer (amount : UInt64)
  | mintTo (amount : UInt64)
  | burn (amount : UInt64)
  | closeAccount
  | transferChecked (amount : UInt64) (decimals : UInt8)

def readTokenFields : Decoder UInt8 TokenFields := do
  let discriminator ← symbol
  match discriminator.toNat with
  | 3 => do
      let amount ← readU64
      pure (.transfer amount)
  | 7 => do
      let amount ← readU64
      pure (.mintTo amount)
  | 8 => do
      let amount ← readU64
      pure (.burn amount)
  | 9 => pure .closeAccount
  | 12 => do
      let amount ← readU64
      let decimals ← symbol
      pure (.transferChecked amount decimals)
  | _ => failure

def tokenCall : TokenFields → List PublicKey → Option TokenCall
  | .transfer amount, [source, dest, authority] => some (.transfer source dest authority amount)
  | .mintTo amount, [mint, dest, mintAuthority] => some (.mintTo mint dest mintAuthority amount)
  | .burn amount, [account, mint, authority] => some (.burn account mint authority amount)
  | .closeAccount, [account, destination, authority] =>
      some (.closeAccount account destination authority)
  | .transferChecked amount decimals, [source, mint, dest, authority] =>
      some (.transferChecked source mint dest authority amount decimals)
  | _, _ => none

def readBudgetFields : Decoder UInt8 BudgetCall := do
  let discriminator ← symbol
  match discriminator.toNat with
  | 2 => do
      let units ← readU32
      pure (.setComputeUnitLimit units)
  | 3 => do
      let microLamports ← readU64
      pure (.setComputeUnitPrice microLamports)
  | _ => failure

def systemCall : Fields → List PublicKey → Option SystemProgramDecoding.Call
  | .transfer lamports, [fromPubkey, toPubkey] => some (.transfer fromPubkey toPubkey lamports)
  | .createAccount lamports space programId, [fromPubkey, newAccountPubkey] =>
      some (.createAccount fromPubkey newAccountPubkey lamports space programId)
  | .assign programId, [accountPubkey] => some (.assign accountPubkey programId)
  | .allocate space, [accountPubkey] => some (.allocate accountPubkey space)
  | .advanceNonceAccount, [nonceAccount, _, authorizedPubkey] =>
      some (.advanceNonceAccount nonceAccount authorizedPubkey)
  | .withdrawNonceAccount lamports, [nonceAccount, toPubkey, _, _, authorizedPubkey] =>
      some (.withdrawNonceAccount nonceAccount authorizedPubkey toPubkey lamports)
  | .initializeNonceAccount authorizedPubkey, [nonceAccount, _, _] =>
      some (.initializeNonceAccount nonceAccount authorizedPubkey)
  | .authorizeNonceAccount newAuthorizedPubkey, [nonceAccount, authorizedPubkey] =>
      some (.authorizeNonceAccount nonceAccount authorizedPubkey newAuthorizedPubkey)
  | _, _ => none

def readAssociated (accounts : List PublicKey) (data : Bytes) : Option ProgramCall :=
  match accounts, data with
  | [payer, ataAddress, walletAddress, mintAddress, systemProgram, tokenProgram, _], [] =>
      if systemProgram = .default ∧ tokenProgram = tokenProgramKey then
        some (.createAssociatedTokenAccount payer ataAddress walletAddress mintAddress)
      else none
  | _, _ => none

/-- The fields from the data, and the call from these and the accounts. -/
def readCall {Held Made : Type} (reader : Decoder UInt8 Held)
    (pack : Held → List PublicKey → Option Made) (instr : ResolvedInstruction) : Option Made := do
  let held ← whole reader instr.data
  pack held instr.accounts

/-- What the programs make of an instruction. -/
def understand (instr : ResolvedInstruction) : Option ProgramCall :=
  if instr.programId = .default then (readCall readFields systemCall instr).map .system
  else if instr.programId = tokenProgramKey then
    (readCall readTokenFields tokenCall instr).map .token
  else if instr.programId = associatedProgramKey then readAssociated instr.accounts instr.data
  else if instr.programId = computeBudgetKey then
    (readCall readBudgetFields (fun call _ => some call) instr).map .budget
  else none

end Readers

section Recovered

theorem read_call {Held Made : Type} (reader : Decoder UInt8 Held)
    (pack : Held → List PublicKey → Option Made) (held : Held) (instr : ResolvedInstruction)
    (recovers : Recovers reader held instr.data) :
    readCall reader pack instr = pack held instr.accounts := by
  rw [readCall, recovers_whole reader held instr.data recovers]
  rfl

theorem token_built (accounts : List AccountMeta) (data : Bytes) :
    SplToken.instruction accounts data = .ok ⟨tokenProgramKey, accounts, data⟩ := by
  rw [SplToken.instruction, token_program_decodes]
  rfl

theorem amount_written (discriminator : UInt8) (amount : UInt64) :
    SplToken.amountData discriminator amount = [discriminator] ++ bytesOf 8 amount.toNat := by
  rw [SplToken.amountData, write_u64]
  rfl

/-- A discriminator, and an amount behind it. -/
theorem recovers_amount (discriminator : UInt8) (amount : UInt64) (pack : UInt64 → TokenFields)
    (next : UInt8 → Decoder UInt8 TokenFields)
    (reads : next discriminator = readU64 >>= fun amount => pure (pack amount)) :
    Recovers (symbol >>= next) (pack amount) (SplToken.amountData discriminator amount) := by
  rw [amount_written]
  refine recovers_bind _ _ discriminator _ _ _ (recovers_symbol _) ?_
  rw [reads]
  exact recovers_map _ _ amount _ (recovers_u64 amount)

theorem recovers_checked (amount : UInt64) (decimals : UInt8) :
    Recovers readTokenFields (.transferChecked amount decimals)
      (writeU8 (SplToken.amountData 12 amount) decimals) := by
  rw [amount_written, writeU8, List.append_assoc]
  refine recovers_bind _ _ 12 _ _ _ (recovers_symbol _) ?_
  refine recovers_bind _ _ amount _ _ _ (recovers_u64 _) ?_
  exact recovers_map _ _ decimals _ (recovers_symbol decimals)

theorem recovers_close : Recovers readTokenFields .closeAccount (writeU8 [] 9) := by
  intro rest
  rfl

theorem token_apart : tokenProgramKey ≠ PublicKey.default := by decide

theorem budget_apart : computeBudgetKey ≠ PublicKey.default ∧ computeBudgetKey ≠ tokenProgramKey ∧
    computeBudgetKey ≠ associatedProgramKey := by decide

theorem token_reads (fields : TokenFields) (keys : List PublicKey) (data : Bytes) (call : TokenCall)
    (recovers : Recovers readTokenFields fields data) (packed : tokenCall fields keys = some call) :
    understand ⟨tokenProgramKey, keys, data⟩ = some (.token call) := by
  have read := read_call readTokenFields tokenCall fields ⟨tokenProgramKey, keys, data⟩ recovers
  rw [understand, if_neg token_apart, if_pos rfl, read, packed]
  rfl

theorem budget_reads (keys : List PublicKey) (data : Bytes) (call : BudgetCall)
    (recovers : Recovers readBudgetFields call data) :
    understand ⟨computeBudgetKey, keys, data⟩ = some (.budget call) := by
  have read := read_call readBudgetFields (fun call _ => some call) call
    ⟨computeBudgetKey, keys, data⟩ recovers
  rw [understand, if_neg budget_apart.1, if_neg budget_apart.2.1, if_neg budget_apart.2.2, if_pos rfl,
    read]
  rfl

theorem system_reads (fields : Fields) (keys : List PublicKey) (data : Bytes)
    (call : SystemProgramDecoding.Call) (written : data = fields.written)
    (packed : systemCall fields keys = some call) :
    understand ⟨.default, keys, data⟩ = some (.system call) := by
  subst written
  have read := read_call readFields systemCall fields ⟨.default, keys, fields.written⟩
    (recovers_fields fields)
  rw [understand, if_pos rfl, read, packed]
  rfl

/-- An instruction that is read as the call, and small. -/
structure Understood (call : ProgramCall) (instr : Instruction) : Prop where
  reads : understand instr.view = some call
  accounts : instr.accounts.length ≤ 7
  data : instr.data.length ≤ 52

theorem amount_length (discriminator : UInt8) (amount : UInt64) :
    (SplToken.amountData discriminator amount).length = 9 := by
  rw [amount_written, List.length_append, bytes_of_length]
  rfl

theorem fields_length (fields : Fields) : fields.written.length ≤ 52 := by
  cases fields <;>
    simp [Fields.written, Fields.body, bytes_of_length, PublicKey.toBytes_length, publicKeyLength]

theorem token_understood (call : TokenCall) (instr : Instruction) (built : call.build = .ok instr) :
    Understood (.token call) instr := by
  have nine : ∀ discriminator amount, (SplToken.amountData discriminator amount).length ≤ 52 := by
    intro discriminator amount
    rw [amount_length]
    decide
  cases call with
  | transfer source dest authority amount =>
      cases (token_built _ _).symm.trans built
      exact ⟨token_reads (.transfer amount) _ _ _ (recovers_amount 3 amount _ _ rfl) rfl,
        Nat.le_of_ble_eq_true rfl, nine 3 amount⟩
  | transferChecked source mint dest authority amount decimals =>
      cases (token_built _ _).symm.trans built
      refine ⟨token_reads (.transferChecked amount decimals) _ _ _
        (recovers_checked amount decimals) rfl, Nat.le_of_ble_eq_true rfl, ?_⟩
      change (SplToken.amountData 12 amount ++ [decimals]).length ≤ 52
      rw [List.length_append, amount_length]
      exact Nat.le_of_ble_eq_true rfl
  | mintTo mint dest mintAuthority amount =>
      cases (token_built _ _).symm.trans built
      exact ⟨token_reads (.mintTo amount) _ _ _ (recovers_amount 7 amount _ _ rfl) rfl,
        Nat.le_of_ble_eq_true rfl, nine 7 amount⟩
  | burn account mint authority amount =>
      cases (token_built _ _).symm.trans built
      exact ⟨token_reads (.burn amount) _ _ _ (recovers_amount 8 amount _ _ rfl) rfl,
        Nat.le_of_ble_eq_true rfl, nine 8 amount⟩
  | closeAccount account destination authority =>
      cases (token_built _ _).symm.trans built
      exact ⟨token_reads .closeAccount _ _ _ recovers_close rfl, Nat.le_of_ble_eq_true rfl,
        Nat.le_of_ble_eq_true rfl⟩

theorem budget_understood (call : BudgetCall) (instr : Instruction)
    (built : call.build = .ok instr) : Understood (.budget call) instr := by
  cases call with
  | setComputeUnitLimit units =>
      rw [BudgetCall.build, ComputeBudget.setComputeUnitLimit, compute_budget_decodes, write_u32] at built
      cases built
      refine ⟨budget_reads [] _ _ ?_, Nat.zero_le _, ?_⟩
      · refine recovers_bind _ _ 2 _ _ _ (recovers_symbol _) ?_
        exact recovers_map _ _ units _ (recovers_u32 units)
      · change (writeU8 [] 2 ++ bytesOf 4 units.toNat).length ≤ 52
        rw [List.length_append, bytes_of_length]
        decide
  | setComputeUnitPrice microLamports =>
      rw [BudgetCall.build, ComputeBudget.setComputeUnitPrice, compute_budget_decodes, write_u64] at built
      cases built
      refine ⟨budget_reads [] _ _ ?_, Nat.zero_le _, ?_⟩
      · refine recovers_bind _ _ 3 _ _ _ (recovers_symbol _) ?_
        exact recovers_map _ _ microLamports _ (recovers_u64 microLamports)
      · change (writeU8 [] 3 ++ bytesOf 8 microLamports.toNat).length ≤ 52
        rw [List.length_append, bytes_of_length]
        decide

/-- The nonce builders that name the recent blockhashes never return. -/
theorem system_understood (call : SystemProgramDecoding.Call) (instr : Instruction)
    (built : call.build = .ok instr) : Understood (.system call) instr := by
  have apart : ¬ call.ListsRecentBlockhashes := by
    intro lists
    rw [call.refused_of_lists lists] at built
    cases built
  obtain ⟨same, returned, written, -⟩ := call.built_of_not_lists apart
  cases returned.symm.trans built
  have small : instr.data.length ≤ 52 := written ▸ fields_length call.fields
  cases call with
  | transfer fromPubkey toPubkey lamports =>
      rw [Call.build, SystemProgram.transfer, sys_prog_decodes] at built
      cases built
      exact ⟨system_reads (.transfer lamports) _ _ _ written rfl, Nat.le_of_ble_eq_true rfl, small⟩
  | createAccount fromPubkey newAccountPubkey lamports space programId =>
      rw [Call.build, SystemProgram.createAccount, sys_prog_decodes] at built
      cases built
      exact ⟨system_reads (.createAccount lamports space programId) _ _ _ written rfl,
        Nat.le_of_ble_eq_true rfl, small⟩
  | assign accountPubkey programId =>
      rw [Call.build, SystemProgram.assign, sys_prog_decodes] at built
      cases built
      exact ⟨system_reads (.assign programId) _ _ _ written rfl, Nat.le_of_ble_eq_true rfl, small⟩
  | allocate accountPubkey space =>
      rw [Call.build, SystemProgram.allocate, sys_prog_decodes] at built
      cases built
      exact ⟨system_reads (.allocate space) _ _ _ written rfl, Nat.le_of_ble_eq_true rfl, small⟩
  | authorizeNonceAccount nonceAccount authorizedPubkey newAuthorizedPubkey =>
      rw [Call.build, SystemProgram.authorizeNonceAccount, sys_prog_decodes] at built
      cases built
      exact ⟨system_reads (.authorizeNonceAccount newAuthorizedPubkey) _ _ _ written rfl,
        Nat.le_of_ble_eq_true rfl, small⟩
  | advanceNonceAccount | withdrawNonceAccount | initializeNonceAccount => exact absurd trivial apart

/-- A call that is built is understood as that call. -/
theorem call_understood (call : ProgramCall) (instr : Instruction) (built : call.build = .ok instr) :
    Understood call instr := by
  cases call with
  | system call => exact system_understood call instr built
  | token call => exact token_understood call instr built
  | budget call => exact budget_understood call instr built
  | createAssociatedTokenAccount payer ataAddress walletAddress mintAddress =>
      rw [ProgramCall.build, SplToken.createAssociatedTokenAccount, sys_prog_decodes,
        rent_key_decodes, token_program_decodes, associated_program_decodes] at built
      cases built
      exact ⟨rfl, Nat.le_refl 7, Nat.zero_le _⟩

theorem calls_built (calls : List ProgramCall) (instrs : List Instruction)
    (built : calls.mapM ProgramCall.build = .ok instrs) : List.Forall₂ Understood calls instrs := by
  induction calls generalizing instrs with
  | nil =>
      cases built
      exact .nil
  | cons call rest ih =>
      rw [List.mapM_cons] at built
      obtain ⟨instr, first, built⟩ := bind_returned _ _ _ built
      obtain ⟨later, others, built⟩ := bind_returned _ _ _ built
      cases built
      exact .cons (call_understood call instr first) (ih later others)

theorem calls_understood (calls : List ProgramCall) (instrs : List Instruction)
    (understood : List.Forall₂ Understood calls instrs) :
    (instrs.map Instruction.view).mapM understand = some calls := by
  induction understood with
  | nil => rfl
  | cons first _ ih =>
      rw [List.map_cons, List.mapM_cons, first.reads, ih]
      rfl

theorem calls_small (calls : List ProgramCall) (instrs : List Instruction)
    (understood : List.Forall₂ Understood calls instrs) :
    ∀ instr ∈ instrs, instr.accounts.length ≤ 7 ∧ instr.data.length ≤ 52 := by
  induction understood with
  | nil => exact List.forall_mem_nil _
  | cons first _ ih => exact List.forall_mem_cons.mpr ⟨⟨first.accounts, first.data⟩, ih⟩

end Recovered
end SolanaSdk.ProgramCalls
