import SolanaSdk.Base64
import SolanaSdk.JsonDocuments
import SolanaSdk.PublicKeys

/-!
The typed methods of `RpcClient`. Each posts a request, parses the text that
comes back and picks its value out of it. A member that is missing reads as zero,
as an empty string, as false or as null. The transport is a parameter.
-/

namespace SolanaSdk.RpcClient

open ByteData PublicKeys Base64 JsonText JsonAccess JsonDocuments

inductive Problem where
  | fault (fault : Fault)
  | runtimeError (what : Text)
  deriving DecidableEq

/-- A call that may throw. It has no result while `arraySize`, whose loop is the
only one that may not end, has used up its turns. -/
abbrev Call := ExceptT Problem Option

def reading {Value : Type} : Except Fault Value → Call Value
  | .ok value => pure value
  | .error fault => throwThe Problem (.fault fault)

theorem reading_ok {Value : Type} (value : Value) : reading (.ok value) = pure value := rfl

def counting : Option (Except Fault Nat) → Call Nat
  | some size => reading size
  | none => ExceptT.mk none

structure AccountInfo where
  lamports : Nat := 0
  owner : Text := []
  data : Bytes := []
  executable : Bool := false
  rentEpoch : Nat := 0
  «exists» : Bool := false
  deriving DecidableEq

section Keys

def resultKey : CString := ⟨ofLiteral "result", by decide⟩
def valueKey : CString := ⟨ofLiteral "value", by decide⟩
def blockhashKey : CString := ⟨ofLiteral "blockhash", by decide⟩
def errorKey : CString := ⟨ofLiteral "error", by decide⟩
def messageKey : CString := ⟨ofLiteral "message", by decide⟩
def lamportsKey : CString := ⟨ofLiteral "lamports", by decide⟩
def ownerKey : CString := ⟨ofLiteral "owner", by decide⟩
def executableKey : CString := ⟨ofLiteral "executable", by decide⟩
def rentEpochKey : CString := ⟨ofLiteral "rentEpoch", by decide⟩
def dataKey : CString := ⟨ofLiteral "data", by decide⟩

end Keys

section Nodes
variable (src : Cells)

/-- `node[key]`, read by one of the accessors. -/
def field {Value : Type} (node : JsonValue) (key : CString)
    (accessor : JsonValue → Except Fault Value) : Call Value := do
  let value ← reading (member src node key)
  reading (accessor value)

/-- The `data` member `["<base64 string>", "base64"]`. -/
def parseData (fuel : Nat) (dataArr : JsonValue) : Call Bytes := do
  if dataArr._type = .array then
    let size ← counting (arraySize src dataArr fuel)
    if 1 ≤ size then
      let first ← reading (element src dataArr 0)
      let text ← reading (first.asString src)
      return base64DecodeRpc text
    else return []
  else return []

def parseAccountInfoNode (fuel : Nat) (node : JsonValue) : Call AccountInfo := do
  if node.isNull then return {}
  else
    let lamports ← field src node lamportsKey (JsonValue.asUint src)
    let owner ← field src node ownerKey (JsonValue.asString src)
    let executable ← field src node executableKey fun value => .ok value.asBool
    let rentEpoch ← field src node rentEpochKey (JsonValue.asUint src)
    let dataArr ← reading (member src node dataKey)
    let data ← parseData src fuel dataArr
    return { lamports, owner, data, executable, rentEpoch, «exists» := true }

end Nodes

section Requests

/-- The requests differ in their method and their parameters. -/
def request (method : String) (params : Text) : Text :=
  ofLiteral "\x7b\"jsonrpc\":\"2.0\",\"id\":1,\"method\":\"" ++ ofLiteral method ++
    ofLiteral "\",\"params\":[" ++ params ++ ofLiteral "]\x7d"

def inQuotes (text : Text) : Text := ofLiteral "\"" ++ text ++ ofLiteral "\""

def finalized : Text := ofLiteral "\x7b\"commitment\":\"finalized\"\x7d"

def processed : Text :=
  ofLiteral "\x7b\"encoding\":\"base64\",\"preflightCommitment\":\"processed\"\x7d"

def finalizedBase64 : Text :=
  ofLiteral "\x7b\"encoding\":\"base64\",\"commitment\":\"finalized\"\x7d"

def keyList (pubkeys : List PublicKey) : Text :=
  ofLiteral "[" ++ [44].intercalate (pubkeys.map fun pubkey => inQuotes pubkey.toBase58) ++
    ofLiteral "]"

def quotedList (texts : List Text) : Text :=
  ofLiteral "[" ++ [44].intercalate (texts.map inQuotes) ++ ofLiteral "]"

def simulation (replaceRecentBlockhash : Bool) : Text :=
  ofLiteral "\x7b\"encoding\":\"base64\",\"replaceRecentBlockhash\":" ++
    ofLiteral (if replaceRecentBlockhash then "true" else "false") ++
    ofLiteral ",\"commitment\":\"processed\"\x7d"

def committed (commitment : Text) : Text :=
  ofLiteral "\x7b\"encoding\":\"base64\",\"commitment\":\"" ++ commitment ++ ofLiteral "\"\x7d"

def history : Text := ofLiteral "\x7b\"searchTransactionHistory\":true\x7d"

end Requests

section Methods
variable (rpcPost : Text → Call Text)

/-- The response with its parsed root. -/
def post (method : String) (params : Text) : Call (Text × JsonValue) := do
  let resp ← rpcPost (request method params)
  let root ← reading (parse (cStr resp) resp.length)
  return (resp, root)

def stringAt (resp : Text) (root : JsonValue) (path : List Access) : Call Text := do
  let value ← reading (walk (cStr resp) root path)
  reading (value.asString (cStr resp))

/-- The methods that tell an error throw its message, or else the whole response. -/
def failWith (what : String) (resp : Text) (root : JsonValue) : Call Text := do
  let errMsg ← stringAt resp root [.key errorKey, .key messageKey]
  throwThe Problem (.runtimeError (ofLiteral what ++ if errMsg.isEmpty then resp else errMsg))

def getLatestBlockhash : Call Text := do
  let (resp, root) ← post rpcPost "getLatestBlockhash" finalized
  let bh ← stringAt resp root [.key resultKey, .key valueKey, .key blockhashKey]
  if bh.isEmpty then failWith "getLatestBlockhash failed: " resp root else return bh

/-- A result that is no string is an error. -/
def stringResult (what : String) (resp : Text) (root : JsonValue) : Call Text := do
  let result ← reading (member (cStr resp) root resultKey)
  if result._type = .string then reading (result.asString (cStr resp))
  else failWith what resp root

def sendTransaction (base64Tx : Text) : Call Text := do
  let (resp, root) ← post rpcPost "sendTransaction"
    (inQuotes base64Tx ++ ofLiteral ", " ++ processed)
  stringResult "sendTransaction failed: " resp root

def requestAirdrop (pubkey : PublicKey) (lamports : UInt64) : Call Text := do
  let (resp, root) ← post rpcPost "requestAirdrop"
    (inQuotes pubkey.toBase58 ++ ofLiteral ", " ++ decimal lamports.toNat)
  stringResult "requestAirdrop failed: " resp root

def getBalance (pubkey : PublicKey) : Call Nat := do
  let (resp, root) ← post rpcPost "getBalance"
    (inQuotes pubkey.toBase58 ++ ofLiteral ", " ++ finalized)
  let value ← reading (walk (cStr resp) root [.key resultKey, .key valueKey])
  reading (value.asUint (cStr resp))

def getSlot : Call Nat := do
  let (resp, root) ← post rpcPost "getSlot" finalized
  let result ← reading (member (cStr resp) root resultKey)
  reading (result.asUint (cStr resp))

def getAccountInfo (fuel : Nat) (pubkey : PublicKey) : Call AccountInfo := do
  let (resp, root) ← post rpcPost "getAccountInfo"
    (inQuotes pubkey.toBase58 ++ ofLiteral ", " ++ finalizedBase64)
  let value ← reading (walk (cStr resp) root [.key resultKey, .key valueKey])
  parseAccountInfoNode (cStr resp) fuel value

def getMultipleAccountsInfo (fuel : Nat) (pubkeys : List PublicKey) :
    Call (List AccountInfo) := do
  let (resp, root) ← post rpcPost "getMultipleAccounts"
    (keyList pubkeys ++ ofLiteral ", " ++ finalizedBase64)
  let valueArr ← reading (walk (cStr resp) root [.key resultKey, .key valueKey])
  if valueArr._type = .array then
    let n ← counting (arraySize (cStr resp) valueArr fuel)
    (List.range n).mapM fun i => do
      let node ← reading (element (cStr resp) valueArr i)
      parseAccountInfoNode (cStr resp) fuel node
  else return []

/-! Three methods return the response as it is. -/

def simulateTransaction (base64Tx : Text) (replaceRecentBlockhash : Bool) : Call Text :=
  rpcPost (request "simulateTransaction"
    (inQuotes base64Tx ++ ofLiteral ", " ++ simulation replaceRecentBlockhash))

def getProgramAccounts (programId : PublicKey) (commitment : Text) : Call Text :=
  rpcPost (request "getProgramAccounts"
    (inQuotes programId.toBase58 ++ ofLiteral ", " ++ committed commitment))

def getSignatureStatuses (signatures : List Text) : Call Text :=
  rpcPost (request "getSignatureStatuses" (quotedList signatures ++ ofLiteral ", " ++ history))

end Methods

end SolanaSdk.RpcClient
