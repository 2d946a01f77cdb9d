import SolanaSdk.Instructions

/-!
The builders of System Program instructions. Each writes the instruction index
and its fields into the data, little-endian; the account keys go into the
account list only. The addresses of the program and of the two sysvars are
Base58 texts that are decoded on every call.
-/

namespace SolanaSdk.SystemProgram

open ByteData PublicKeys Instructions

inductive SystemInstruction where
  | createAccount
  | assign
  | transfer
  | createAccountWithSeed
  | advanceNonceAccount
  | withdrawNonceAccount
  | initializeNonceAccount
  | authorizeNonceAccount
  | allocate
  | allocateWithSeed
  | assignWithSeed
  | transferWithSeed

/-- `static_cast<uint32_t>` of an enumerator. -/
def SystemInstruction.index : SystemInstruction → UInt32
  | createAccount => 0
  | assign => 1
  | transfer => 2
  | createAccountWithSeed => 3
  | advanceNonceAccount => 4
  | withdrawNonceAccount => 5
  | initializeNonceAccount => 6
  | authorizeNonceAccount => 7
  | allocate => 8
  | allocateWithSeed => 9
  | assignWithSeed => 10
  | transferWithSeed => 11

section Writers

def writeU32 (buf : Bytes) (v : UInt32) : Bytes :=
  buf ++ [(v &&& 0xFF).toUInt8, (v >>> 8 &&& 0xFF).toUInt8, (v >>> 16 &&& 0xFF).toUInt8,
    (v >>> 24 &&& 0xFF).toUInt8]

def writeU64 (buf : Bytes) (v : UInt64) : Bytes :=
  buf ++ (List.range 8).map fun i => (v >>> (8 * UInt64.ofNat i)).toUInt8

/-- The length goes into four bytes. -/
def writeString (buf : Bytes) (s : Text) : Bytes := writeU32 buf (UInt32.ofNat s.length) ++ s

end Writers

def systemProgramId : Text := ofLiteral "11111111111111111111111111111111"

def sysProg : Except Failure PublicKey := PublicKey.ofBase58 systemProgramId

def recentBlockhashesSysvar : Except Failure PublicKey :=
  PublicKey.ofBase58 (ofLiteral "SysvarRecentB1telephones11111111111111111")

def rentSysvar : Except Failure PublicKey :=
  PublicKey.ofBase58 (ofLiteral "SysvarRent111111111111111111111111111111111")

section Builders

def transfer (fromPubkey toPubkey : PublicKey) (lamports : UInt64) :
    Except Failure Instruction := do
  let data := writeU32 [] SystemInstruction.transfer.index
  let data := writeU64 data lamports
  return ⟨← sysProg, [⟨fromPubkey, true, true⟩, ⟨toPubkey, false, true⟩], data⟩

def createAccount (fromPubkey newAccountPubkey : PublicKey) (lamports space : UInt64)
    (programId : PublicKey) : Except Failure Instruction := do
  let data := writeU32 [] SystemInstruction.createAccount.index
  let data := writeU64 data lamports
  let data := writeU64 data space
  let data := data ++ programId.toBytes
  return ⟨← sysProg, [⟨fromPubkey, true, true⟩, ⟨newAccountPubkey, true, true⟩], data⟩

def assign (accountPubkey programId : PublicKey) : Except Failure Instruction := do
  let data := writeU32 [] SystemInstruction.assign.index
  let data := data ++ programId.toBytes
  return ⟨← sysProg, [⟨accountPubkey, true, true⟩], data⟩

def allocate (accountPubkey : PublicKey) (space : UInt64) : Except Failure Instruction := do
  let data := writeU32 [] SystemInstruction.allocate.index
  let data := writeU64 data space
  return ⟨← sysProg, [⟨accountPubkey, true, true⟩], data⟩

def createAccountWithSeed (fromPubkey newAccountPubkey basePubkey : PublicKey) (seed : Text)
    (lamports space : UInt64) (programId : PublicKey) : Except Failure Instruction := do
  let data := writeU32 [] SystemInstruction.createAccountWithSeed.index
  let data := data ++ basePubkey.toBytes
  let data := writeString data seed
  let data := writeU64 data lamports
  let data := writeU64 data space
  let data := data ++ programId.toBytes
  return ⟨← sysProg, [⟨fromPubkey, true, true⟩, ⟨newAccountPubkey, false, true⟩], data⟩

def transferWithSeed (fromPubkey fromBasePubkey : PublicKey) (fromSeed : Text)
    (fromOwner toPubkey : PublicKey) (lamports : UInt64) : Except Failure Instruction := do
  let data := writeU32 [] SystemInstruction.transferWithSeed.index
  let data := writeU64 data lamports
  let data := writeString data fromSeed
  let data := data ++ fromOwner.toBytes
  return ⟨← sysProg, [⟨fromPubkey, false, true⟩, ⟨fromBasePubkey, true, false⟩,
    ⟨toPubkey, false, true⟩], data⟩

def advanceNonceAccount (nonceAccount authorizedPubkey : PublicKey) :
    Except Failure Instruction := do
  let data := writeU32 [] SystemInstruction.advanceNonceAccount.index
  return ⟨← sysProg, [⟨nonceAccount, false, true⟩, ⟨← recentBlockhashesSysvar, false, false⟩,
    ⟨authorizedPubkey, true, false⟩], data⟩

def withdrawNonceAccount (nonceAccount authorizedPubkey toPubkey : PublicKey)
    (lamports : UInt64) : Except Failure Instruction := do
  let data := writeU32 [] SystemInstruction.withdrawNonceAccount.index
  let data := writeU64 data lamports
  return ⟨← sysProg, [⟨nonceAccount, false, true⟩, ⟨toPubkey, false, true⟩,
    ⟨← recentBlockhashesSysvar, false, false⟩, ⟨← rentSysvar, false, false⟩,
    ⟨authorizedPubkey, true, false⟩], data⟩

def initializeNonceAccount (nonceAccount authorizedPubkey : PublicKey) :
    Except Failure Instruction := do
  let data := writeU32 [] SystemInstruction.initializeNonceAccount.index
  let data := data ++ authorizedPubkey.toBytes
  return ⟨← sysProg, [⟨nonceAccount, false, true⟩, ⟨← recentBlockhashesSysvar, false, false⟩,
    ⟨← rentSysvar, false, false⟩], data⟩

def authorizeNonceAccount (nonceAccount authorizedPubkey newAuthorizedPubkey : PublicKey) :
    Except Failure Instruction := do
  let data := writeU32 [] SystemInstruction.authorizeNonceAccount.index
  let data := data ++ newAuthorizedPubkey.toBytes
  return ⟨← sysProg, [⟨nonceAccount, false, true⟩, ⟨authorizedPubkey, true, false⟩], data⟩

end Builders

section Addresses

theorem sys_prog_decodes : sysProg = .ok PublicKey.default := by decide +kernel

/-- The text of this address has an `l`, which Base58 leaves out. -/
theorem recent_blockhashes_refused :
    recentBlockhashesSysvar = .error (.invalidArgument "Invalid Base58 character") := by
  decide +kernel

theorem rent_decodes : ∃ key, rentSysvar = .ok key := by
  have decoded : rentSysvar.toBool = true := by decide +kernel
  cases outcome : rentSysvar with
  | error failure =>
      rw [outcome] at decoded
      cases decoded
  | ok key => exact ⟨key, rfl⟩

end Addresses
end SolanaSdk.SystemProgram
