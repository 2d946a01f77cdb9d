import Mathlib.Algebra.GroupWithZero.Nat
import SolanaSdk.LookupTables

/-!
`MessageV0::compile`. Every use of a key is routed on its own flags, to the
static accounts or to a bucket of the first table that holds the key; the
static accounts are then partitioned into the four blocks, and instructions are
numbered against static keys, loaded writable keys and loaded readonly keys.
-/

namespace SolanaSdk.VersionedMessage

open ByteData PublicKeys Privileges Instructions LookupTables

structure MessageAddressTableLookup where
  accountKey : PublicKey
  writableIndexes : List UInt8
  readonlyIndexes : List UInt8
  deriving DecidableEq

structure MessageV0 where
  header : MessageHeader
  staticAccountKeys : List PublicKey
  recentBlockhash : Text
  instructions : List CompiledInstruction
  addressTableLookups : List MessageAddressTableLookup
  deriving DecidableEq

structure AccountInfo where
  key : PublicKey
  isSigner : Bool
  isWritable : Bool
  deriving DecidableEq

structure TableBucket where
  writableIdx : List UInt8
  readonlyIdx : List UInt8
  deriving DecidableEq

structure LookupKey where
  tableIdx : Nat
  addrIdx : UInt8
  isWritable : Bool
  deriving DecidableEq

/-- The locals that the routing loop updates. -/
structure Routing where
  staticAccounts : List AccountInfo
  tableBuckets : List TableBucket
  registeredLookups : List LookupKey

def findOrAddStatic (pk : PublicKey) (signer writable : Bool) : List AccountInfo → List AccountInfo
  | [] => [⟨pk, signer, writable⟩]
  | a :: rest =>
      if a.key.equals pk then
        { a with isSigner := a.isSigner || signer, isWritable := a.isWritable || writable } :: rest
      else a :: findOrAddStatic pk signer writable rest

/-- The scan of `registeredLookups`; `none` when it ends without a hit. -/
def upgradeLookup (ti : Nat) (ai : UInt8) (writable : Bool) :
    List LookupKey → Option (List LookupKey)
  | [] => none
  | lk :: rest =>
      if lk.tableIdx == ti && lk.addrIdx == ai then
        some ((if writable && !lk.isWritable then { lk with isWritable := true } else lk) :: rest)
      else (upgradeLookup ti ai writable rest).map (lk :: ·)

def TableBucket.push (bucket : TableBucket) (ai : UInt8) (writable : Bool) : TableBucket :=
  if writable then { bucket with writableIdx := bucket.writableIdx ++ [ai] }
  else { bucket with readonlyIdx := bucket.readonlyIdx ++ [ai] }

/-- A hit upgrades the registered flag only: the bucket keeps its index. -/
def findOrAddLookup (routing : Routing) (ti : Nat) (ai : UInt8) (writable : Bool) : Routing :=
  match upgradeLookup ti ai writable routing.registeredLookups with
  | some upgraded => { routing with registeredLookups := upgraded }
  | none => { routing with
      registeredLookups := routing.registeredLookups ++ [⟨ti, ai, writable⟩]
      tableBuckets := routing.tableBuckets.modify ti fun bucket => bucket.push ai writable }

def addStatic (routing : Routing) (pk : PublicKey) (signer writable : Bool) : Routing :=
  { routing with staticAccounts := findOrAddStatic pk signer writable routing.staticAccounts }

def routeAccount (lookupTables : List AddressLookupTableAccount) (routing : Routing)
    (am : AccountMeta) : Routing :=
  if am.isSigner || lookupTables.isEmpty then
    addStatic routing am.pubkey am.isSigner am.isWritable
  else match findInLookup lookupTables am.pubkey am.isWritable with
    | some ref => findOrAddLookup routing ref.tableIdx ref.addrIdx am.isWritable
    | none => addStatic routing am.pubkey am.isSigner am.isWritable

def routeInstruction (lookupTables : List AddressLookupTableAccount) (routing : Routing)
    (instr : Instruction) : Routing :=
  instr.accounts.foldl (routeAccount lookupTables) (addStatic routing instr.programId false false)

def route (instructions : List Instruction) (feePayer : PublicKey)
    (lookupTables : List AddressLookupTableAccount) : Routing :=
  instructions.foldl (routeInstruction lookupTables)
    { staticAccounts := findOrAddStatic feePayer true true []
      tableBuckets := List.replicate lookupTables.length ⟨[], []⟩
      registeredLookups := [] }

def orderAccounts (staticAccounts : List AccountInfo) : List AccountInfo :=
  (staticAccounts.filter fun a => a.isSigner && a.isWritable) ++
  (staticAccounts.filter fun a => a.isSigner && !a.isWritable) ++
  (staticAccounts.filter fun a => !a.isSigner && a.isWritable) ++
  (staticAccounts.filter fun a => !a.isSigner && !a.isWritable)

def countAccount (header : MessageHeader) (a : AccountInfo) : MessageHeader :=
  if a.isSigner then
    { header with
      numRequiredSignatures := header.numRequiredSignatures + 1
      numReadonlySignedAccounts :=
        if a.isWritable then header.numReadonlySignedAccounts
        else header.numReadonlySignedAccounts + 1 }
  else
    { header with
      numReadonlyUnsignedAccounts :=
        if a.isWritable then header.numReadonlyUnsignedAccounts
        else header.numReadonlyUnsignedAccounts + 1 }

def countHeader (ordered : List AccountInfo) : MessageHeader := ordered.foldl countAccount {}

def virtualKeys (ordered : List AccountInfo) (lookupTables : List AddressLookupTableAccount)
    (tableBuckets : List TableBucket) : List PublicKey :=
  ordered.map AccountInfo.key ++
  ((lookupTables.zip tableBuckets).flatMap fun (tbl, bucket) =>
    bucket.writableIdx.map (addressAt tbl)) ++
  ((lookupTables.zip tableBuckets).flatMap fun (tbl, bucket) =>
    bucket.readonlyIdx.map (addressAt tbl))

def resolveIndex (keys : List PublicKey) (pk : PublicKey) : Except Failure UInt8 :=
  match position keys pk with
  | some index => pure (UInt8.ofNat index)
  | none => throw
      (.runtimeError "MessageV0::compile — account not found in virtual key list")

def compileInstruction (keys : List PublicKey) (instr : Instruction) :
    Except Failure CompiledInstruction := do
  let programIdIndex ← resolveIndex keys instr.programId
  let accountIndices ← instr.accounts.mapM fun am => resolveIndex keys am.pubkey
  pure ⟨programIdIndex, accountIndices, instr.data⟩

/-- The entry of one table, beside that table; an empty bucket is skipped. -/
def emitEntry (pair : AddressLookupTableAccount × TableBucket) :
    Option (AddressLookupTableAccount × MessageAddressTableLookup) :=
  if pair.2.writableIdx.isEmpty && pair.2.readonlyIdx.isEmpty then none
  else some (pair.1, ⟨pair.1.key, pair.2.writableIdx, pair.2.readonlyIdx⟩)

def lookupSection (lookupTables : List AddressLookupTableAccount)
    (tableBuckets : List TableBucket) :
    List (AddressLookupTableAccount × MessageAddressTableLookup) :=
  (lookupTables.zip tableBuckets).filterMap emitEntry

def compile (instructions : List Instruction) (feePayer : PublicKey) (recentBlockhash : Text)
    (lookupTables : List AddressLookupTableAccount) : Except Failure MessageV0 := do
  let routing := route instructions feePayer lookupTables
  let ordered := orderAccounts routing.staticAccounts
  let keys := virtualKeys ordered lookupTables routing.tableBuckets
  let compiled ← instructions.mapM (compileInstruction keys)
  pure {
    header := countHeader ordered
    staticAccountKeys := ordered.map AccountInfo.key
    recentBlockhash := recentBlockhash
    instructions := compiled
    addressTableLookups := (lookupSection lookupTables routing.tableBuckets).map Prod.snd }

/-! The runtime's side, which is not the source's: it rebuilds one account list
from the static keys and the tables that the emitted entries come from. -/

/-- The tables that the emission loop does not skip, in its order. -/
def lookupSources (instructions : List Instruction) (feePayer : PublicKey)
    (lookupTables : List AddressLookupTableAccount) : List AddressLookupTableAccount :=
  (lookupSection lookupTables (route instructions feePayer lookupTables).tableBuckets).map Prod.fst

def loadIndexes (tbl : AddressLookupTableAccount) (indexes : List UInt8) :
    Option (List PublicKey) :=
  indexes.mapM fun index => tbl.addresses[index.toNat]?

/-- Static keys, then the writable addresses of every entry, then the readonly
ones; an index past its table's end fails the load. -/
def runtimeKeys (sources : List AddressLookupTableAccount) (msg : MessageV0) :
    Option (List PublicKey) := do
  let writable ← (sources.zip msg.addressTableLookups).mapM fun (tbl, entry) =>
    loadIndexes tbl entry.writableIndexes
  let readonly ← (sources.zip msg.addressTableLookups).mapM fun (tbl, entry) =>
    loadIndexes tbl entry.readonlyIndexes
  pure (msg.staticAccountKeys ++ writable.flatten ++ readonly.flatten)

namespace MessageV0

def loadedWritable (msg : MessageV0) : Nat :=
  (msg.addressTableLookups.map fun entry => entry.writableIndexes.length).sum

/-- Only static positions can be signers. -/
def SignerPosition (msg : MessageV0) (index : Nat) : Prop := msg.header.SignerAt index

/-- A static position that the counts make writable, or a position loaded
through a `writableIndexes` list. -/
def WritablePosition (msg : MessageV0) (index : Nat) : Prop :=
  (index < msg.staticAccountKeys.length ∧
    msg.header.WritableAt msg.staticAccountKeys.length index) ∨
  (msg.staticAccountKeys.length ≤ index ∧
    index < msg.staticAccountKeys.length + msg.loadedWritable)

instance (msg : MessageV0) (index : Nat) : Decidable (msg.WritablePosition index) :=
  inferInstanceAs (Decidable (_ ∨ _))

instance (msg : MessageV0) (index : Nat) : Decidable (msg.SignerPosition index) :=
  inferInstanceAs (Decidable (msg.header.SignerAt index))

end MessageV0
end SolanaSdk.VersionedMessage
