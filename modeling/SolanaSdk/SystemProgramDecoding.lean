import SolanaSdk.LittleEndian
import SolanaSdk.SystemProgram
import SolanaSdk.WireDecoding

/-!
One decoder for the data of System Program instructions: the index, then the
fields of that index, and nothing behind them. It recovers what the builders
without a seed write; three of the nonce builders never get to return it. The
builders with a seed write a shorter length in front of the seed than the
layout they mirror has.
-/

namespace SolanaSdk.SystemProgramDecoding

open ByteData PublicKeys Instructions SystemProgram Decoders LittleEndian WireDecoding

section Numbers

def readU32 : Decoder UInt8 UInt32 := do
  let taken ← exactly 4
  pure (UInt32.ofNat (valueOf taken.val))

def readU64 : Decoder UInt8 UInt64 := do
  let taken ← exactly 8
  pure (UInt64.ofNat (valueOf taken.val))

theorem recovers_u32 (v : UInt32) : Recovers readU32 v (bytesOf 4 v.toNat) := by
  have read := recovers_map (exactly 4) (fun taken => UInt32.ofNat (valueOf taken.val))
    ⟨bytesOf 4 v.toNat, bytes_of_length _ _⟩ _ (recovers_exactly _ _)
  rwa [value_of_bytes 4 v.toNat v.toNat_lt, UInt32.ofNat_toNat] at read

theorem recovers_u64 (v : UInt64) : Recovers readU64 v (bytesOf 8 v.toNat) := by
  have read := recovers_map (exactly 8) (fun taken => UInt64.ofNat (valueOf taken.val))
    ⟨bytesOf 8 v.toNat, bytes_of_length _ _⟩ _ (recovers_exactly _ _)
  rwa [value_of_bytes 8 v.toNat v.toNat_lt, UInt64.ofNat_toNat] at read

theorem shifted_byte (v shift : UInt32) (small : shift.toNat < 32) :
    (v >>> shift &&& 0xFF).toUInt8 = UInt8.ofNat (v.toNat / 2 ^ shift.toNat % 256) := by
  have masked := Nat.and_two_pow_sub_one_eq_mod (v.toNat / 2 ^ shift.toNat) 8
  apply UInt8.toNat_inj.mp
  rw [UInt32.toNat_toUInt8, UInt32.toNat_and, UInt32.toNat_shiftRight, Nat.mod_eq_of_lt small,
    Nat.shiftRight_eq_div_pow, UInt8.toNat_ofNat']
  exact congrArg (· % 256) masked

theorem write_u32 (buf : Bytes) (v : UInt32) : writeU32 buf v = buf ++ bytesOf 4 v.toNat := by
  have low := shifted_byte v 0 (by decide)
  rw [UInt32.shiftRight_zero] at low
  rw [writeU32, low, shifted_byte v 8 (by decide), shifted_byte v 16 (by decide),
    shifted_byte v 24 (by decide), bytes_of_places]
  rfl

theorem write_u64 (buf : Bytes) (v : UInt64) : writeU64 buf v = buf ++ bytesOf 8 v.toNat := by
  rw [writeU64, bytes_of_places]
  congr 1
  apply List.map_congr_left
  intro i listed
  have small := List.mem_range.mp listed
  have shift : (8 * UInt64.ofNat i).toNat = 8 * i := by
    rw [UInt64.toNat_mul, UInt64.toNat_ofNat_of_lt' (by change i < 2 ^ 64; omega)]
    exact Nat.mod_eq_of_lt (by change 8 * i < 2 ^ 64; omega)
  apply UInt8.toNat_inj.mp
  rw [UInt64.toNat_toUInt8, UInt64.toNat_shiftRight, shift,
    Nat.mod_eq_of_lt (by omega : 8 * i < 64), Nat.shiftRight_eq_div_pow,
    Nat.pow_mul, UInt8.toNat_ofNat', Nat.mod_mod]

end Numbers

section Unseeded

/-- The fields that the data of an instruction holds, by its index. -/
inductive Fields where
  | createAccount (lamports space : UInt64) (programId : PublicKey)
  | assign (programId : PublicKey)
  | transfer (lamports : UInt64)
  | advanceNonceAccount
  | withdrawNonceAccount (lamports : UInt64)
  | initializeNonceAccount (authorizedPubkey : PublicKey)
  | authorizeNonceAccount (newAuthorizedPubkey : PublicKey)
  | allocate (space : UInt64)
  deriving DecidableEq

def readFields : Decoder UInt8 Fields := do
  let index ← readU32
  match index.toNat with
  | 0 => do
      let lamports ← readU64
      let space ← readU64
      let programId ← readKey
      pure (.createAccount lamports space programId)
  | 1 => do
      let programId ← readKey
      pure (.assign programId)
  | 2 => do
      let lamports ← readU64
      pure (.transfer lamports)
  | 4 => pure .advanceNonceAccount
  | 5 => do
      let lamports ← readU64
      pure (.withdrawNonceAccount lamports)
  | 6 => do
      let authorizedPubkey ← readKey
      pure (.initializeNonceAccount authorizedPubkey)
  | 7 => do
      let newAuthorizedPubkey ← readKey
      pure (.authorizeNonceAccount newAuthorizedPubkey)
  | 8 => do
      let space ← readU64
      pure (.allocate space)
  | _ => failure

def Fields.instruction : Fields → SystemInstruction
  | createAccount _ _ _ => .createAccount
  | assign _ => .assign
  | transfer _ => .transfer
  | advanceNonceAccount => .advanceNonceAccount
  | withdrawNonceAccount _ => .withdrawNonceAccount
  | initializeNonceAccount _ => .initializeNonceAccount
  | authorizeNonceAccount _ => .authorizeNonceAccount
  | allocate _ => .allocate

def Fields.body : Fields → Bytes
  | createAccount lamports space programId =>
      bytesOf 8 lamports.toNat ++ (bytesOf 8 space.toNat ++ programId.toBytes)
  | assign programId => programId.toBytes
  | transfer lamports => bytesOf 8 lamports.toNat
  | advanceNonceAccount => []
  | withdrawNonceAccount lamports => bytesOf 8 lamports.toNat
  | initializeNonceAccount authorizedPubkey => authorizedPubkey.toBytes
  | authorizeNonceAccount newAuthorizedPubkey => newAuthorizedPubkey.toBytes
  | allocate space => bytesOf 8 space.toNat

def Fields.written (fields : Fields) : Bytes :=
  bytesOf 4 fields.instruction.index.toNat ++ fields.body

/-- Where the other keys that are passed to a builder stand in its account list. -/
def Fields.places : Fields → List Nat
  | createAccount _ _ _ | transfer _ | authorizeNonceAccount _ => [0, 1]
  | assign _ | allocate _ | initializeNonceAccount _ => [0]
  | advanceNonceAccount => [0, 2]
  | withdrawNonceAccount _ => [0, 1, 4]

def keysAt (accounts : List AccountMeta) (places : List Nat) : List (Option PublicKey) :=
  places.map fun place => accounts[place]?.map AccountMeta.pubkey

theorem recovers_fields (fields : Fields) : Recovers readFields fields fields.written := by
  refine recovers_bind _ _ fields.instruction.index _ _ _ (recovers_u32 _) ?_
  cases fields with
  | createAccount lamports space programId =>
      refine recovers_bind _ _ lamports _ _ _ (recovers_u64 _) ?_
      refine recovers_bind _ _ space _ _ _ (recovers_u64 _) ?_
      exact recovers_map _ _ programId _ (recovers_key _)
  | assign programId => exact recovers_map _ _ programId _ (recovers_key _)
  | transfer lamports => exact recovers_map _ _ lamports _ (recovers_u64 _)
  | advanceNonceAccount => exact recovers_pure _
  | withdrawNonceAccount lamports => exact recovers_map _ _ lamports _ (recovers_u64 _)
  | initializeNonceAccount authorizedPubkey =>
      exact recovers_map _ _ authorizedPubkey _ (recovers_key _)
  | authorizeNonceAccount newAuthorizedPubkey =>
      exact recovers_map _ _ newAuthorizedPubkey _ (recovers_key _)
  | allocate space => exact recovers_map _ _ space _ (recovers_u64 _)

/-- A call of a builder without a seed, with its arguments. -/
inductive Call where
  | transfer (fromPubkey toPubkey : PublicKey) (lamports : UInt64)
  | createAccount (fromPubkey newAccountPubkey : PublicKey) (lamports space : UInt64)
      (programId : PublicKey)
  | assign (accountPubkey programId : PublicKey)
  | allocate (accountPubkey : PublicKey) (space : UInt64)
  | advanceNonceAccount (nonceAccount authorizedPubkey : PublicKey)
  | withdrawNonceAccount (nonceAccount authorizedPubkey toPubkey : PublicKey) (lamports : UInt64)
  | initializeNonceAccount (nonceAccount authorizedPubkey : PublicKey)
  | authorizeNonceAccount (nonceAccount authorizedPubkey newAuthorizedPubkey : PublicKey)
  deriving DecidableEq

namespace Call

def build : Call → Except Failure Instruction
  | transfer fromPubkey toPubkey lamports => SystemProgram.transfer fromPubkey toPubkey lamports
  | createAccount fromPubkey newAccountPubkey lamports space programId =>
      SystemProgram.createAccount fromPubkey newAccountPubkey lamports space programId
  | assign accountPubkey programId => SystemProgram.assign accountPubkey programId
  | allocate accountPubkey space => SystemProgram.allocate accountPubkey space
  | advanceNonceAccount nonceAccount authorizedPubkey =>
      SystemProgram.advanceNonceAccount nonceAccount authorizedPubkey
  | withdrawNonceAccount nonceAccount authorizedPubkey toPubkey lamports =>
      SystemProgram.withdrawNonceAccount nonceAccount authorizedPubkey toPubkey lamports
  | initializeNonceAccount nonceAccount authorizedPubkey =>
      SystemProgram.initializeNonceAccount nonceAccount authorizedPubkey
  | authorizeNonceAccount nonceAccount authorizedPubkey newAuthorizedPubkey =>
      SystemProgram.authorizeNonceAccount nonceAccount authorizedPubkey newAuthorizedPubkey

/-- The arguments that belong into the data. -/
def fields : Call → Fields
  | transfer _ _ lamports => .transfer lamports
  | createAccount _ _ lamports space programId => .createAccount lamports space programId
  | assign _ programId => .assign programId
  | allocate _ space => .allocate space
  | advanceNonceAccount _ _ => .advanceNonceAccount
  | withdrawNonceAccount _ _ _ lamports => .withdrawNonceAccount lamports
  | initializeNonceAccount _ authorizedPubkey => .initializeNonceAccount authorizedPubkey
  | authorizeNonceAccount _ _ newAuthorizedPubkey => .authorizeNonceAccount newAuthorizedPubkey

/-- The arguments that belong into the account list. -/
def accountKeys : Call → List PublicKey
  | transfer fromPubkey toPubkey _ => [fromPubkey, toPubkey]
  | createAccount fromPubkey newAccountPubkey _ _ _ => [fromPubkey, newAccountPubkey]
  | assign accountPubkey _ => [accountPubkey]
  | allocate accountPubkey _ => [accountPubkey]
  | advanceNonceAccount nonceAccount authorizedPubkey => [nonceAccount, authorizedPubkey]
  | withdrawNonceAccount nonceAccount authorizedPubkey toPubkey _ =>
      [nonceAccount, toPubkey, authorizedPubkey]
  | initializeNonceAccount nonceAccount _ => [nonceAccount]
  | authorizeNonceAccount nonceAccount authorizedPubkey _ => [nonceAccount, authorizedPubkey]

/-- The builder returns, its data decodes to the builder and its fields with no
byte left over, and the other keys stand at their places in the account list. -/
def Recovered (call : Call) : Prop :=
  ∃ instr, call.build = .ok instr ∧ whole readFields instr.data = some call.fields ∧
    keysAt instr.accounts call.fields.places = call.accountKeys.map some

/-- The builders that list the recent blockhashes sysvar among the accounts. -/
def ListsRecentBlockhashes : Call → Prop
  | advanceNonceAccount _ _ | withdrawNonceAccount _ _ _ _ | initializeNonceAccount _ _ => True
  | transfer _ _ _ | createAccount _ _ _ _ _ | assign _ _ | allocate _ _
  | authorizeNonceAccount _ _ _ => False

theorem refused_of_lists (call : Call) (lists : call.ListsRecentBlockhashes) :
    call.build = .error (.invalidArgument "Invalid Base58 character") := by
  cases call with
  | advanceNonceAccount nonceAccount authorizedPubkey =>
      rw [build, SystemProgram.advanceNonceAccount, sys_prog_decodes, recent_blockhashes_refused]
      rfl
  | withdrawNonceAccount nonceAccount authorizedPubkey toPubkey lamports =>
      rw [build, SystemProgram.withdrawNonceAccount, sys_prog_decodes, recent_blockhashes_refused]
      rfl
  | initializeNonceAccount nonceAccount authorizedPubkey =>
      rw [build, SystemProgram.initializeNonceAccount, sys_prog_decodes,
        recent_blockhashes_refused]
      rfl
  | transfer | createAccount | assign | allocate | authorizeNonceAccount => exact lists.elim

/-- The other builders return the written fields and the keys they were given. -/
theorem built_of_not_lists (call : Call) (apart : ¬ call.ListsRecentBlockhashes) :
    ∃ instr, call.build = .ok instr ∧ instr.data = call.fields.written ∧
      keysAt instr.accounts call.fields.places = call.accountKeys.map some := by
  cases call with
  | advanceNonceAccount | withdrawNonceAccount | initializeNonceAccount =>
      exact absurd trivial apart
  | transfer fromPubkey toPubkey lamports =>
      rw [build, SystemProgram.transfer, sys_prog_decodes, write_u32, write_u64]
      exact ⟨_, rfl, rfl, rfl⟩
  | createAccount fromPubkey newAccountPubkey lamports space programId =>
      rw [build, SystemProgram.createAccount, sys_prog_decodes, write_u32, write_u64, write_u64]
      refine ⟨_, rfl, ?_, rfl⟩
      simp only [List.nil_append, List.append_assoc]
      rfl
  | assign accountPubkey programId =>
      rw [build, SystemProgram.assign, sys_prog_decodes, write_u32]
      exact ⟨_, rfl, rfl, rfl⟩
  | allocate accountPubkey space =>
      rw [build, SystemProgram.allocate, sys_prog_decodes, write_u32, write_u64]
      exact ⟨_, rfl, rfl, rfl⟩
  | authorizeNonceAccount nonceAccount authorizedPubkey newAuthorizedPubkey =>
      rw [build, SystemProgram.authorizeNonceAccount, sys_prog_decodes, write_u32]
      exact ⟨_, rfl, rfl, rfl⟩

end Call

/-- Exactly the builders that do not list the recent blockhashes sysvar return
an instruction that the decoder recovers. -/
theorem recovered_iff (call : Call) : call.Recovered ↔ ¬ call.ListsRecentBlockhashes := by
  constructor
  · rintro ⟨instr, built, -⟩ lists
    rw [call.refused_of_lists lists] at built
    cases built
  · intro apart
    obtain ⟨instr, built, data, accounts⟩ := call.built_of_not_lists apart
    refine ⟨instr, built, ?_, accounts⟩
    rw [data]
    exact recovers_whole _ _ _ (recovers_fields call.fields)

theorem advance_not_recovered : ¬ ∀ call : Call, call.Recovered := by
  intro every
  obtain ⟨instr, built, -⟩ := every (.advanceNonceAccount (.filled 1) (.filled 2))
  have refused := Call.refused_of_lists (.advanceNonceAccount (.filled 1) (.filled 2)) trivial
  rw [refused] at built
  cases built

end Unseeded

section Seeded

/-- A string field of the mirrored layout: an eight-byte length, then the bytes. -/
def readString : Decoder UInt8 Text := do
  let length ← readU64
  let taken ← exactly length.toNat
  pure taken.val

/-- The four-byte length that `writeString` writes. -/
def readShortString : Decoder UInt8 Text := do
  let length ← readU32
  let taken ← exactly length.toNat
  pure taken.val

/-- `[index][base][seed][lamports][space][owner]`. -/
def createLayout (seed : Decoder UInt8 Text) :
    Decoder UInt8 (UInt32 × PublicKey × Text × UInt64 × UInt64 × PublicKey) :=
  both readU32 (both readKey (both seed (both readU64 (both readU64 readKey))))

/-- `[index][lamports][seed][owner]`. -/
def transferLayout (seed : Decoder UInt8 Text) :
    Decoder UInt8 (UInt32 × UInt64 × Text × PublicKey) :=
  both readU32 (both readU64 (both seed readKey))

theorem takes_number (width : Nat) {Value : Type} (pack : Nat → Value) :
    Takes (exactly width >>= fun taken => pure (pack (valueOf taken.val)) : Decoder UInt8 Value)
      fun _ => width :=
  takes_map _ (fun taken => pack (valueOf taken.val)) _ _ (takes_exactly width) fun _ => rfl

theorem takes_key : Takes readKey fun _ => publicKeyLength :=
  takes_map _ _ _ _ (takes_map _ _ _ _ (takes_exactly _) fun _ => rfl) fun _ => rfl

theorem takes_string : Takes readString fun s => 8 + s.length := by
  intro input s rest read
  obtain ⟨length, middle, begun, read⟩ := run_bind_some _ _ _ _ _ read
  obtain ⟨taken, last, ended, packed⟩ := run_bind_some _ _ _ _ _ read
  cases packed
  have front : input.length = 8 + middle.length := takes_number 8 UInt64.ofNat _ _ _ begun
  have back : middle.length = length.toNat + rest.length := takes_exactly _ _ _ _ ended
  have size := taken.property
  change input.length = 8 + taken.val.length + rest.length
  omega

theorem takes_create : Takes (createLayout readString)
    fun read => 4 + (32 + (8 + read.2.2.1.length + (8 + (8 + 32)))) :=
  takes_both _ _ _ _ (takes_number 4 UInt32.ofNat) (takes_both _ _ _ _ takes_key
    (takes_both _ _ _ _ takes_string (takes_both _ _ _ _ (takes_number 8 UInt64.ofNat)
      (takes_both _ _ _ _ (takes_number 8 UInt64.ofNat) takes_key))))

theorem takes_transfer : Takes (transferLayout readString)
    fun read => 4 + (8 + (8 + read.2.2.1.length + 32)) :=
  takes_both _ _ _ _ (takes_number 4 UInt32.ofNat) (takes_both _ _ _ _
    (takes_number 8 UInt64.ofNat) (takes_both _ _ _ _ takes_string takes_key))

theorem recovers_short_string (s : Text) (fits : s.length < 2 ^ 32) :
    Recovers readShortString s (bytesOf 4 (UInt32.ofNat s.length).toNat ++ s) := by
  have exact : (UInt32.ofNat s.length).toNat = s.length := UInt32.toNat_ofNat_of_lt' fits
  refine recovers_bind _ _ (UInt32.ofNat s.length) _ _ _ (recovers_u32 _) ?_
  rw [exact]
  exact recovers_map (exactly s.length) Subtype.val ⟨s, rfl⟩ _ (recovers_exactly _ _)

theorem write_string (buf s : Bytes) :
    writeString buf s = buf ++ (bytesOf 4 (UInt32.ofNat s.length).toNat ++ s) := by
  rw [writeString, write_u32, List.append_assoc]

section Create
variable (fromPubkey newAccountPubkey basePubkey : PublicKey) (seed : Text)
  (lamports space : UInt64) (programId : PublicKey)

theorem created : ∃ instr,
    createAccountWithSeed fromPubkey newAccountPubkey basePubkey seed lamports space programId =
      .ok instr ∧
    instr.data = bytesOf 4 3 ++ (basePubkey.toBytes ++
      ((bytesOf 4 (UInt32.ofNat seed.length).toNat ++ seed) ++
        (bytesOf 8 lamports.toNat ++ (bytesOf 8 space.toNat ++ programId.toBytes)))) := by
  rw [createAccountWithSeed, sys_prog_decodes, write_u32, write_string, write_u64, write_u64]
  refine ⟨_, rfl, ?_⟩
  simp only [List.nil_append, List.append_assoc]
  rfl

/-- The data decodes to the arguments under the mirrored layout. -/
def CreateDecodes : Prop := ∃ instr,
  createAccountWithSeed fromPubkey newAccountPubkey basePubkey seed lamports space programId =
    .ok instr ∧
  whole (createLayout readString) instr.data =
    some (3, basePubkey, seed, lamports, space, programId)

/-- What the builder does write has the short length. -/
theorem create_decodes_short (fits : seed.length < 2 ^ 32) : ∃ instr,
    createAccountWithSeed fromPubkey newAccountPubkey basePubkey seed lamports space programId =
      .ok instr ∧
    whole (createLayout readShortString) instr.data =
      some (3, basePubkey, seed, lamports, space, programId) := by
  obtain ⟨instr, built, data⟩ :=
    created fromPubkey newAccountPubkey basePubkey seed lamports space programId
  refine ⟨instr, built, ?_⟩
  rw [data]
  refine recovers_whole _ _ _ ?_
  refine recovers_both _ _ _ _ _ _ (recovers_u32 3) ?_
  refine recovers_both _ _ _ _ _ _ (recovers_key _) ?_
  refine recovers_both _ _ _ _ _ _ (recovers_short_string _ fits) ?_
  refine recovers_both _ _ _ _ _ _ (recovers_u64 _) ?_
  exact recovers_both _ _ _ _ _ _ (recovers_u64 _) (recovers_key _)

/-- The layout takes four bytes more than the builder writes. -/
theorem create_not_decodes : ¬ CreateDecodes fromPubkey newAccountPubkey basePubkey seed lamports
    space programId := by
  rintro ⟨instr, built, decodes⟩
  obtain ⟨written, same, data⟩ :=
    created fromPubkey newAccountPubkey basePubkey seed lamports space programId
  cases built.symm.trans same
  have taken := takes_whole _ _ takes_create _ _ decodes
  rw [data] at taken
  simp only [List.length_append, bytes_of_length, PublicKey.toBytes_length, publicKeyLength]
    at taken
  omega

end Create

section Transfer
variable (fromPubkey fromBasePubkey : PublicKey) (fromSeed : Text)
  (fromOwner toPubkey : PublicKey) (lamports : UInt64)

theorem transferred : ∃ instr,
    transferWithSeed fromPubkey fromBasePubkey fromSeed fromOwner toPubkey lamports = .ok instr ∧
    instr.data = bytesOf 4 11 ++ (bytesOf 8 lamports.toNat ++
      ((bytesOf 4 (UInt32.ofNat fromSeed.length).toNat ++ fromSeed) ++ fromOwner.toBytes)) := by
  rw [transferWithSeed, sys_prog_decodes, write_u32, write_string, write_u64]
  refine ⟨_, rfl, ?_⟩
  simp only [List.nil_append, List.append_assoc]
  rfl

def TransferDecodes : Prop := ∃ instr,
  transferWithSeed fromPubkey fromBasePubkey fromSeed fromOwner toPubkey lamports = .ok instr ∧
  whole (transferLayout readString) instr.data = some (11, lamports, fromSeed, fromOwner)

theorem transfer_decodes_short (fits : fromSeed.length < 2 ^ 32) : ∃ instr,
    transferWithSeed fromPubkey fromBasePubkey fromSeed fromOwner toPubkey lamports = .ok instr ∧
    whole (transferLayout readShortString) instr.data =
      some (11, lamports, fromSeed, fromOwner) := by
  obtain ⟨instr, built, data⟩ :=
    transferred fromPubkey fromBasePubkey fromSeed fromOwner toPubkey lamports
  refine ⟨instr, built, ?_⟩
  rw [data]
  refine recovers_whole _ _ _ ?_
  refine recovers_both _ _ _ _ _ _ (recovers_u32 11) ?_
  refine recovers_both _ _ _ _ _ _ (recovers_u64 _) ?_
  exact recovers_both _ _ _ _ _ _ (recovers_short_string _ fits) (recovers_key _)

theorem transfer_not_decodes :
    ¬ TransferDecodes fromPubkey fromBasePubkey fromSeed fromOwner toPubkey lamports := by
  rintro ⟨instr, built, decodes⟩
  obtain ⟨written, same, data⟩ :=
    transferred fromPubkey fromBasePubkey fromSeed fromOwner toPubkey lamports
  cases built.symm.trans same
  have taken := takes_whole _ _ takes_transfer _ _ decodes
  rw [data] at taken
  simp only [List.length_append, bytes_of_length, PublicKey.toBytes_length, publicKeyLength]
    at taken
  omega

end Transfer

/-- No seeded instruction decodes under the mirrored layout, whatever its arguments. -/
theorem seeded_never_decode (funding target base : PublicKey) (seed : Text)
    (lamports space : UInt64) (owner : PublicKey) :
    ¬ CreateDecodes funding target base seed lamports space owner ∧
      ¬ TransferDecodes funding base seed owner target lamports :=
  ⟨create_not_decodes _ _ _ _ _ _ _, transfer_not_decodes _ _ _ _ _ _⟩

theorem empty_seed_not_decoded : ¬ ∀ (funding target base : PublicKey) (seed : Text)
    (lamports space : UInt64) (owner : PublicKey), seed.length ≤ 32 →
      CreateDecodes funding target base seed lamports space owner ∧
        TransferDecodes funding base seed owner target lamports := by
  intro every
  have decodes := (every (.filled 1) (.filled 2) (.filled 3) [] 0 0 (.filled 4) (by decide)).1
  exact create_not_decodes _ _ _ _ _ _ _ decodes

end Seeded
end SolanaSdk.SystemProgramDecoding
