import SolanaSdk.Base58Inverse
import SolanaSdk.JsonWriting

/-!
The request bodies. They are put together as strings; each is a JSON text, and
whoever reads it as JSON finds the method and the arguments that the client was
called with, provided that the texts among these hold no quote, no backslash and
no control character.
-/

namespace SolanaSdk.RpcRequests

open ByteData PublicKeys JsonText JsonAccess JsonGrammar JsonNavigation JsonDocuments JsonTexts
open RpcClient JsonWriting

section Calls

abbrev Plain := { text : Text // PlainText text }

inductive Method where
  | getLatestBlockhash
  | sendTransaction
  | simulateTransaction
  | getBalance
  | getAccountInfo
  | getMultipleAccounts
  | getProgramAccounts
  | requestAirdrop
  | getSignatureStatuses
  | getSlot
  deriving DecidableEq

namespace Method

def name : Method → String
  | getLatestBlockhash => "getLatestBlockhash"
  | sendTransaction => "sendTransaction"
  | simulateTransaction => "simulateTransaction"
  | getBalance => "getBalance"
  | getAccountInfo => "getAccountInfo"
  | getMultipleAccounts => "getMultipleAccounts"
  | getProgramAccounts => "getProgramAccounts"
  | requestAirdrop => "requestAirdrop"
  | getSignatureStatuses => "getSignatureStatuses"
  | getSlot => "getSlot"

def all : List Method :=
  [getLatestBlockhash, sendTransaction, simulateTransaction, getBalance, getAccountInfo,
    getMultipleAccounts, getProgramAccounts, requestAirdrop, getSignatureStatuses, getSlot]

def named (text : Text) : Option Method := all.find? fun method => ofLiteral method.name == text

theorem named_name (method : Method) : named (ofLiteral method.name) = some method := by
  cases method <;> decide

theorem name_plain (method : Method) : PlainText (ofLiteral method.name) := by
  cases method <;> exact every_byte _ (by decide)

end Method

/-- A call of one of the methods, with its arguments. -/
inductive ClientCall where
  | getLatestBlockhash
  | sendTransaction (base64Tx : Plain)
  | simulateTransaction (base64Tx : Plain) (replaceRecentBlockhash : Bool)
  | getBalance (pubkey : PublicKey)
  | getAccountInfo (pubkey : PublicKey)
  | getMultipleAccountsInfo (pubkeys : List PublicKey)
  | getProgramAccounts (programId : PublicKey) (commitment : Plain)
  | requestAirdrop (pubkey : PublicKey) (lamports : UInt64)
  | getSignatureStatuses (signatures : List Plain)
  | getSlot

namespace ClientCall

def method : ClientCall → Method
  | getLatestBlockhash => .getLatestBlockhash
  | sendTransaction _ => .sendTransaction
  | simulateTransaction _ _ => .simulateTransaction
  | getBalance _ => .getBalance
  | getAccountInfo _ => .getAccountInfo
  | getMultipleAccountsInfo _ => .getMultipleAccounts
  | getProgramAccounts _ _ => .getProgramAccounts
  | requestAirdrop _ _ => .requestAirdrop
  | getSignatureStatuses _ => .getSignatureStatuses
  | getSlot => .getSlot

def params : ClientCall → Text
  | getLatestBlockhash | getSlot => finalized
  | sendTransaction base64Tx => inQuotes base64Tx.val ++ ofLiteral ", " ++ processed
  | simulateTransaction base64Tx replaceRecentBlockhash =>
      inQuotes base64Tx.val ++ ofLiteral ", " ++ simulation replaceRecentBlockhash
  | getBalance pubkey => inQuotes pubkey.toBase58 ++ ofLiteral ", " ++ finalized
  | getAccountInfo pubkey => inQuotes pubkey.toBase58 ++ ofLiteral ", " ++ finalizedBase64
  | getMultipleAccountsInfo pubkeys => keyList pubkeys ++ ofLiteral ", " ++ finalizedBase64
  | getProgramAccounts programId commitment =>
      inQuotes programId.toBase58 ++ ofLiteral ", " ++ committed commitment.val
  | requestAirdrop pubkey lamports =>
      inQuotes pubkey.toBase58 ++ ofLiteral ", " ++ decimal lamports.toNat
  | getSignatureStatuses signatures =>
      quotedList (signatures.map Subtype.val) ++ ofLiteral ", " ++ history

def body (call : ClientCall) : Text := request call.method.name call.params

end ClientCall

/-- The method calls the transport once, with this body, and goes on with what comes back. -/
def Posts {Value : Type} (method : (Text → Call Text) → Call Value) (body : Text) : Prop :=
  ∃ next : Text → Call Value, ∀ rpcPost, method rpcPost = rpcPost body >>= next

theorem post_posts {Value : Type} (method : String) (params : Text)
    (next : Text × JsonValue → Call Value) :
    Posts (fun rpcPost => post rpcPost method params >>= next) (request method params) := by
  refine ⟨fun resp => reading (parse (cStr resp) resp.length) >>= fun root => next (resp, root),
    fun rpcPost => ?_⟩
  simp only [post, bind_assoc, pure_bind]

end Calls

section Peer
variable (look : List Access → Option View)

def methodKey : CString := ⟨ofLiteral "method", by decide⟩
def paramsKey : CString := ⟨ofLiteral "params", by decide⟩
def commitmentKey : CString := ⟨ofLiteral "commitment", by decide⟩
def encodingKey : CString := ⟨ofLiteral "encoding", by decide⟩
def preflightKey : CString := ⟨ofLiteral "preflightCommitment", by decide⟩
def replaceKey : CString := ⟨ofLiteral "replaceRecentBlockhash", by decide⟩
def historyKey : CString := ⟨ofLiteral "searchTransactionHistory", by decide⟩

def param (index : Nat) : List Access := [.key paramsKey, .index index]

/-- The options come last among the parameters. -/
def option (index : Nat) (key : CString) : List Access := param index ++ [.key key]

def textAt (path : List Access) : Option Text :=
  (look path).bind fun seen => if seen.kind = .string then some seen.text else none

def plainAt (path : List Access) : Option Plain :=
  (textAt look path).bind fun text =>
    if plain : PlainText text then some ⟨text, plain⟩ else none

def keyAt (path : List Access) : Option PublicKey :=
  (textAt look path).bind fun text => (PublicKey.ofBase58 text).toOption

def flagAt (path : List Access) : Option Bool :=
  (look path).bind fun seen => if seen.kind = .bool then some seen.flag else none

def amountAt (path : List Access) : Option UInt64 :=
  (look path).bind fun seen =>
    if seen.kind = .number ∧ 0 ≤ seen.number then some (UInt64.ofNat seen.number.toNat) else none

def listAt {Value : Type} (item : List Access → Option Value) (path : List Access) :
    Option (List Value) :=
  (look path).bind fun seen =>
    if seen.kind = .array then (List.range seen.size).mapM fun i => item (path ++ [.index i])
    else none

def expects (path : List Access) (word : String) : Option Unit :=
  if textAt look path = some (ofLiteral word) then some () else none

/-- What a node makes of a body, from what it sees at the paths of the text. -/
def readCall : Option ClientCall := do
  let name ← textAt look [.key methodKey]
  let method ← Method.named name
  match method with
  | .getLatestBlockhash => do
      expects look (option 0 commitmentKey) "finalized"
      pure .getLatestBlockhash
  | .sendTransaction => do
      expects look (option 1 encodingKey) "base64"
      expects look (option 1 preflightKey) "processed"
      let base64Tx ← plainAt look (param 0)
      pure (.sendTransaction base64Tx)
  | .simulateTransaction => do
      expects look (option 1 encodingKey) "base64"
      expects look (option 1 commitmentKey) "processed"
      let base64Tx ← plainAt look (param 0)
      let replaceRecentBlockhash ← flagAt look (option 1 replaceKey)
      pure (.simulateTransaction base64Tx replaceRecentBlockhash)
  | .getBalance => do
      expects look (option 1 commitmentKey) "finalized"
      let pubkey ← keyAt look (param 0)
      pure (.getBalance pubkey)
  | .getAccountInfo => do
      expects look (option 1 encodingKey) "base64"
      expects look (option 1 commitmentKey) "finalized"
      let pubkey ← keyAt look (param 0)
      pure (.getAccountInfo pubkey)
  | .getMultipleAccounts => do
      expects look (option 1 encodingKey) "base64"
      expects look (option 1 commitmentKey) "finalized"
      let pubkeys ← listAt look (keyAt look) (param 0)
      pure (.getMultipleAccountsInfo pubkeys)
  | .getProgramAccounts => do
      expects look (option 1 encodingKey) "base64"
      let programId ← keyAt look (param 0)
      let commitment ← plainAt look (option 1 commitmentKey)
      pure (.getProgramAccounts programId commitment)
  | .requestAirdrop => do
      let pubkey ← keyAt look (param 0)
      let lamports ← amountAt look (param 1)
      pure (.requestAirdrop pubkey lamports)
  | .getSignatureStatuses => do
      let searched ← flagAt look (option 1 historyKey)
      let signatures ← listAt look (plainAt look) (param 0)
      if searched then pure (.getSignatureStatuses signatures) else none
  | .getSlot => do
      expects look (option 0 commitmentKey) "finalized"
      pure .getSlot

end Peer

section Documents

def oneBlank : Space := ⟨[32], every_byte _ (by decide)⟩

def keyDoc (key : PublicKey) : Doc plainWords := textDoc key.toBase58

def finalizedDoc : Doc plainWords := objectOf "commitment" (textDoc (ofLiteral "finalized")) []

def encodedDoc (rest : List (String × Doc plainWords)) : Doc plainWords :=
  objectOf "encoding" (textDoc (ofLiteral "base64")) rest

def paramDocs : ClientCall → List (Doc plainWords)
  | .getLatestBlockhash | .getSlot => [finalizedDoc]
  | .sendTransaction base64Tx =>
      [textDoc base64Tx.val,
        encodedDoc [("preflightCommitment", textDoc (ofLiteral "processed"))]]
  | .simulateTransaction base64Tx replaceRecentBlockhash =>
      [textDoc base64Tx.val,
        encodedDoc [("replaceRecentBlockhash", .bool replaceRecentBlockhash),
          ("commitment", textDoc (ofLiteral "processed"))]]
  | .getBalance pubkey => [keyDoc pubkey, finalizedDoc]
  | .getAccountInfo pubkey =>
      [keyDoc pubkey, encodedDoc [("commitment", textDoc (ofLiteral "finalized"))]]
  | .getMultipleAccountsInfo pubkeys =>
      [arrayOf noSpace (pubkeys.map keyDoc),
        encodedDoc [("commitment", textDoc (ofLiteral "finalized"))]]
  | .getProgramAccounts programId commitment =>
      [keyDoc programId, encodedDoc [("commitment", textDoc commitment.val)]]
  | .requestAirdrop pubkey lamports => [keyDoc pubkey, numberDoc lamports]
  | .getSignatureStatuses signatures =>
      [arrayOf noSpace (signatures.map fun signature => textDoc signature.val),
        objectOf "searchTransactionHistory" (.bool true) []]

def callDoc (call : ClientCall) : Doc plainWords :=
  objectOf "jsonrpc" (textDoc (ofLiteral "2.0"))
    [("id", numberDoc 1), ("method", textDoc (ofLiteral call.method.name)),
      ("params", arrayOf oneBlank (paramDocs call))]

def callDocument (call : ClientCall) : Document plainWords := ⟨noSpace, callDoc call, noSpace⟩

theorem alphabet_plain : ∀ c ∈ Base58.alphabet, 32 ≤ c ∧ c ≠ quote ∧ c ≠ backslash :=
  every_byte _ (by decide)

theorem encode_listed (bytes : Bytes) : ∀ c ∈ Base58.encode bytes, c ∈ Base58.alphabet := by
  intro c member
  by_contra foreign
  have refused := (Base58Inverse.decode_refuses _).mpr ⟨c, member, foreign⟩
  rw [Base58Inverse.decode_encode] at refused
  cases refused

theorem key_plain (key : PublicKey) : PlainText key.toBase58 :=
  fun c member => alphabet_plain c (encode_listed _ c member)

theorem of_base58_key (key : PublicKey) : PublicKey.ofBase58 key.toBase58 = .ok key := by
  rw [PublicKey.ofBase58, PublicKey.toBase58, Base58Inverse.decode_encode]
  exact dif_pos key.buffer.size

end Documents

section Texts

theorem quoted_in_quotes (text : Text) : quoted text = inQuotes text := rfl

theorem finalized_text : finalizedDoc.text = finalized := by decide +kernel

theorem encoded_text (commitment : Text) (plain : PlainText commitment) :
    (encodedDoc [("commitment", textDoc commitment)]).text = committed commitment := by
  rw [encodedDoc, object_of_text]
  · simp only [List.map_cons, List.map_nil, text_doc_text _ plain,
      text_doc_text (ofLiteral "base64") (every_byte _ (by decide))]
    simp [List.intercalate, enclosed, quoted, committed, ofLiteral]
  · simp only [List.forall_mem_cons]
    exact ⟨every_byte _ (by decide), every_byte _ (by decide), List.forall_mem_nil _⟩

theorem committed_finalized : committed (ofLiteral "finalized") = finalizedBase64 := by decide

theorem list_text {Row : Type} (rows : List Row) (text : Row → Text)
    (plain : ∀ row, PlainText (text row)) :
    (arrayOf noSpace (rows.map fun row => textDoc (text row))).text = quotedList (rows.map text) := by
  have each : ((rows.map fun row => textDoc (text row)).map Doc.text) = (rows.map text).map inQuotes := by
    rw [List.map_map, List.map_map]
    apply List.map_congr_left
    intro row _
    exact text_doc_text _ (plain row)
  rw [array_of_text, each]
  rfl

theorem key_list_quoted (pubkeys : List PublicKey) :
    keyList pubkeys = quotedList (pubkeys.map PublicKey.toBase58) := by
  rw [keyList, quotedList, List.map_map]
  rfl

theorem pair_text (first second : Text) :
    (comma :: oneBlank.chars).intercalate [first, second] = first ++ ofLiteral ", " ++ second := by
  change first ++ (comma :: oneBlank.chars ++ (second ++ [])) = _
  rw [List.append_nil, ← List.append_assoc]
  rfl

theorem params_text (call : ClientCall) :
    (comma :: oneBlank.chars).intercalate ((paramDocs call).map Doc.text) = call.params := by
  have keyText : ∀ key, (keyDoc key).text = inQuotes key.toBase58 :=
    fun key => text_doc_text _ (key_plain key)
  have finalText := (encoded_text (ofLiteral "finalized") (every_byte _ (by decide))).trans
    committed_finalized
  cases call with
  | getLatestBlockhash => exact List.intercalate_singleton.trans finalized_text
  | getSlot => exact List.intercalate_singleton.trans finalized_text
  | sendTransaction base64Tx =>
      have options : (encodedDoc [("preflightCommitment", textDoc (ofLiteral "processed"))]).text =
          processed := by decide +kernel
      simp only [paramDocs, List.map_cons, List.map_nil, pair_text, options,
        text_doc_text _ base64Tx.property, quoted_in_quotes]
      rfl
  | simulateTransaction base64Tx replaceRecentBlockhash =>
      have options : (encodedDoc [("replaceRecentBlockhash", .bool replaceRecentBlockhash),
          ("commitment", textDoc (ofLiteral "processed"))]).text =
            simulation replaceRecentBlockhash := by
        cases replaceRecentBlockhash <;> decide +kernel
      simp only [paramDocs, List.map_cons, List.map_nil, pair_text, options,
        text_doc_text _ base64Tx.property, quoted_in_quotes]
      rfl
  | getBalance pubkey =>
      simp only [paramDocs, List.map_cons, List.map_nil, pair_text, keyText, finalized_text]
      rfl
  | getAccountInfo pubkey =>
      simp only [paramDocs, List.map_cons, List.map_nil, pair_text, keyText, finalText]
      rfl
  | getMultipleAccountsInfo pubkeys =>
      have list := list_text pubkeys PublicKey.toBase58 key_plain
      rw [← key_list_quoted] at list
      change (comma :: oneBlank.chars).intercalate [(arrayOf noSpace (pubkeys.map fun key =>
        textDoc key.toBase58)).text, (encodedDoc [("commitment", textDoc (ofLiteral "finalized"))]).text] = _
      rw [pair_text, list, finalText]
      rfl
  | getProgramAccounts programId commitment =>
      simp only [paramDocs, List.map_cons, List.map_nil, pair_text, keyText,
        encoded_text _ commitment.property]
      rfl
  | requestAirdrop pubkey lamports =>
      simp only [paramDocs, List.map_cons, List.map_nil, pair_text, keyText, number_doc_text]
      rfl
  | getSignatureStatuses signatures =>
      have list := list_text signatures Subtype.val fun signature => signature.property
      have options : (objectOf "searchTransactionHistory" (.bool true) []).text = history := by
        decide +kernel
      change (comma :: oneBlank.chars).intercalate [(arrayOf noSpace (signatures.map fun signature =>
        textDoc signature.val)).text, (objectOf "searchTransactionHistory" (.bool true) []).text] = _
      rw [pair_text, list, options]
      rfl

/-- Every body is a JSON text. -/
theorem call_text (call : ClientCall) : (callDocument call).text = call.body := by
  have params : (arrayOf oneBlank (paramDocs call)).text =
      enclosed openBracket closeBracket call.params := by
    rw [array_of_text, params_text]
  have version : (textDoc (ofLiteral "2.0")).text = quoted (ofLiteral "2.0") :=
    text_doc_text _ (every_byte _ (by decide))
  have id : (numberDoc 1).text = ofLiteral "1" := by decide
  have name := text_doc_text _ (Method.name_plain call.method)
  change [] ++ ((callDoc call).text ++ []) = _
  rw [List.nil_append, List.append_nil, callDoc, object_of_text]
  · simp only [List.map_cons, List.map_nil, params, version, id, name]
    simp [List.intercalate, enclosed, quoted, ClientCall.body, request, ofLiteral]
  · simp only [List.forall_mem_cons]
    exact ⟨every_byte _ (by decide), every_byte _ (by decide), every_byte _ (by decide),
      every_byte _ (by decide), List.forall_mem_nil _⟩

end Texts

section Reading

/-! What is seen at the paths of a call's own tree. -/

theorem look_text (doc : Doc plainWords) (path : List Access) (text : Text) (plain : PlainText text)
    (here : doc.follow path = some (textDoc text)) : textAt (look doc) path = some text := by
  rw [textAt, look, here]
  change (if Kind.string = .string then some (string (textDoc text)) else none) = _
  rw [if_pos rfl, text_doc_string text plain]

theorem look_key (doc : Doc plainWords) (path : List Access) (key : PublicKey)
    (here : doc.follow path = some (keyDoc key)) : keyAt (look doc) path = some key := by
  rw [keyAt, look_text doc path _ (key_plain key) here, Option.bind_some, of_base58_key]
  rfl

theorem look_plain (doc : Doc plainWords) (path : List Access) (text : Plain)
    (here : doc.follow path = some (textDoc text.val)) : plainAt (look doc) path = some text := by
  rw [plainAt, look_text doc path _ text.property here, Option.bind_some, dif_pos text.property]

theorem look_flag (doc : Doc plainWords) (path : List Access) (flag : Bool)
    (here : doc.follow path = some (.bool flag)) : flagAt (look doc) path = some flag := by
  rw [flagAt, look, here]
  rfl

theorem look_amount (doc : Doc plainWords) (path : List Access) (number : UInt64)
    (here : doc.follow path = some (numberDoc number)) :
    amountAt (look doc) path = some number := by
  rw [amountAt, look, here]
  have value : integer (numberDoc number) = number.toNat := rfl
  change (if Kind.number = .number ∧ 0 ≤ integer (numberDoc number) then
    some (UInt64.ofNat (integer (numberDoc number)).toNat) else none) = _
  rw [value, if_pos ⟨rfl, Int.natCast_nonneg _⟩, Int.toNat_natCast, UInt64.ofNat_toNat]

theorem expects_word (doc : Doc plainWords) (path : List Access) (word : String)
    (plain : PlainText (ofLiteral word))
    (here : doc.follow path = some (textDoc (ofLiteral word))) :
    expects (look doc) path word = some () := by
  rw [expects, look_text doc path _ plain here]
  exact if_pos rfl

theorem follow_behind (doc node : Doc plainWords) (path : List Access) (move : Access)
    (here : doc.follow path = some node) : doc.follow (path ++ [move]) = node.child move := by
  rw [Doc.follow, List.foldlM_append]
  change (doc.follow path >>= fun found => [move].foldlM Doc.child found) = _
  rw [here]
  change (Doc.child node move >>= pure) = _
  exact bind_pure (Doc.child node move)

/-- A list is read item by item. -/
theorem look_list {Row Value : Type} (doc : Doc plainWords) (path : List Access) (rows : List Row)
    (docOf : Row → Doc plainWords) (item : List Access → Option Value) (value : Row → Value)
    (here : doc.follow path = some (arrayOf noSpace (rows.map docOf)))
    (each : ∀ row path, doc.follow path = some (docOf row) → item path = some (value row)) :
    listAt (look doc) item path = some (rows.map value) := by
  have size : (view (arrayOf noSpace (rows.map docOf))).size = rows.length := by
    change (arrayOf noSpace (rows.map docOf)).values.length = _
    rw [array_of_values, List.length_map]
  have kind : (view (arrayOf noSpace (rows.map docOf))).kind = .array := array_of_kind _ _
  rw [listAt, look, here, Option.map_some, Option.bind_some, if_pos kind, size]
  -- The item at an index in range is the row there.
  have found : ∀ i, i < rows.length → item (path ++ [.index i]) = (rows.map value)[i]? := by
    intro i inside
    have row : doc.follow (path ++ [.index i]) = some (docOf rows[i]) := by
      rw [follow_behind doc _ path _ here, Doc.child, array_of_values, List.getElem?_map,
        List.getElem?_eq_getElem inside]
      rfl
    rw [each rows[i] _ row, List.getElem?_map, List.getElem?_eq_getElem inside]
    rfl
  cases rows with
  | nil => rfl
  | cons first rest =>
      have total := map_m_total (fun i => item (path ++ [.index i]))
        (fun i => ((first :: rest).map value).getD i (value first)) (List.range (first :: rest).length)
        fun i member => by
          have inside := List.mem_range.mp member
          have place : i < ((first :: rest).map value).length := by rwa [List.length_map]
          rw [found i inside, List.getD_eq_getElem?_getD, List.getElem?_eq_getElem place]
          rfl
      have range := range_map_get ((first :: rest).map value) (value first)
      rw [List.length_map] at range
      rw [total, range]
      rfl

theorem method_here (call : ClientCall) : (callDoc call).follow [.key methodKey] =
    some (textDoc (ofLiteral call.method.name)) := by
  change ((callDoc call).child (.key methodKey) >>= pure) = _
  rw [bind_pure, callDoc, child_behind _ _ _ _ _ _ (literal_plain _ (by decide)) (by decide),
    child_behind _ _ _ _ _ _ (literal_plain _ (by decide)) (by decide),
    child_here _ _ _ _ (literal_plain _ (by decide)) rfl]

theorem params_here (call : ClientCall) : (callDoc call).follow [.key paramsKey] =
    some (arrayOf oneBlank (paramDocs call)) := by
  change ((callDoc call).child (.key paramsKey) >>= pure) = _
  rw [bind_pure, callDoc, child_behind _ _ _ _ _ _ (literal_plain _ (by decide)) (by decide),
    child_behind _ _ _ _ _ _ (literal_plain _ (by decide)) (by decide),
    child_behind _ _ _ _ _ _ (literal_plain _ (by decide)) (by decide),
    child_here _ _ _ _ (literal_plain _ (by decide)) rfl]

theorem param_here (call : ClientCall) (index : Nat) :
    (callDoc call).follow (param index) = (paramDocs call)[index]? := by
  have behind := follow_behind (callDoc call) _ _ (.index index) (params_here call)
  rwa [Doc.child, array_of_values] at behind

theorem option_here (call : ClientCall) (index : Nat) (key : CString) (node : Doc plainWords)
    (here : (paramDocs call)[index]? = some node) :
    (callDoc call).follow (option index key) = node.child (.key key) :=
  follow_behind (callDoc call) node _ (.key key) ((param_here call index).trans here)

theorem encoded_encoding (rest : List (String × Doc plainWords)) :
    (encodedDoc rest).child (.key encodingKey) = some (textDoc (ofLiteral "base64")) :=
  child_here _ _ _ _ (literal_plain _ (by decide)) rfl

/-- The first option behind the encoding. -/
theorem encoded_next (key : String) (value : Doc plainWords) (rest : List (String × Doc plainWords))
    (move : CString) (plain : PlainText (ofLiteral key)) (same : ofLiteral key = move.chars)
    (apart : ofLiteral "encoding" ≠ move.chars) :
    (encodedDoc ((key, value) :: rest)).child (.key move) = some value := by
  rw [encodedDoc, child_behind _ _ _ _ _ _ (literal_plain _ (by decide)) apart,
    child_here _ _ _ _ plain same]

theorem encoded_commitment (commitment : Doc plainWords) :
    (encodedDoc [("commitment", commitment)]).child (.key commitmentKey) = some commitment :=
  encoded_next _ _ _ _ (literal_plain _ (by decide)) rfl (by decide)

theorem finalized_commitment : finalizedDoc.child (.key commitmentKey) =
    some (textDoc (ofLiteral "finalized")) :=
  child_here _ _ _ _ (literal_plain _ (by decide)) rfl

/-- A node reads the call off its own tree. -/
theorem call_read (call : ClientCall) : readCall (look (callDoc call)) = some call := by
  have name := look_text _ _ _ (Method.name_plain call.method) (method_here call)
  have word := fun index key word plain node here inside =>
    expects_word (callDoc call) (option index key) word plain
      ((option_here call index key node here).trans inside)
  have base64 : PlainText (ofLiteral "base64") := literal_plain _ (by decide)
  have final : PlainText (ofLiteral "finalized") := literal_plain _ (by decide)
  have process : PlainText (ofLiteral "processed") := literal_plain _ (by decide)
  unfold readCall
  rw [name, Option.bind_eq_bind, Option.bind_some, Method.named_name]
  cases call with
  | getLatestBlockhash =>
      have commitment := word 0 commitmentKey "finalized" final _ rfl finalized_commitment
      simp only [ClientCall.method, commitment, Option.bind_eq_bind, Option.bind_some]
      rfl
  | getSlot =>
      have commitment := word 0 commitmentKey "finalized" final _ rfl finalized_commitment
      simp only [ClientCall.method, commitment, Option.bind_eq_bind, Option.bind_some]
      rfl
  | sendTransaction base64Tx =>
      have encoding := word 1 encodingKey "base64" base64 _ rfl (encoded_encoding _)
      have preflight := word 1 preflightKey "processed" process _ rfl
        (encoded_next _ _ _ _ (literal_plain _ (by decide)) rfl (by decide))
      have tx := look_plain _ _ base64Tx (param_here (.sendTransaction base64Tx) 0)
      simp only [ClientCall.method, encoding, preflight, tx, Option.bind_eq_bind, Option.bind_some]
      rfl
  | simulateTransaction base64Tx replaceRecentBlockhash =>
      have encoding := word 1 encodingKey "base64" base64 _ rfl (encoded_encoding _)
      have replace : (paramDocs (.simulateTransaction base64Tx replaceRecentBlockhash))[1]? =
        some _ := rfl
      have flag := look_flag _ (option 1 replaceKey) replaceRecentBlockhash
        ((option_here _ 1 replaceKey _ replace).trans
          (encoded_next _ _ _ _ (literal_plain _ (by decide)) rfl (by decide)))
      have commitment := word 1 commitmentKey "processed" process _ rfl (by
        rw [encodedDoc, child_behind _ _ _ _ _ _ (literal_plain _ (by decide)) (by decide),
          child_behind _ _ _ _ _ _ (literal_plain _ (by decide)) (by decide),
          child_here _ _ _ _ (literal_plain _ (by decide)) rfl])
      have tx := look_plain _ _ base64Tx
        (param_here (.simulateTransaction base64Tx replaceRecentBlockhash) 0)
      simp only [ClientCall.method, encoding, commitment, tx, flag, Option.bind_eq_bind,
        Option.bind_some]
      rfl
  | getBalance pubkey =>
      have commitment := word 1 commitmentKey "finalized" final _ rfl finalized_commitment
      have key := look_key _ _ pubkey (param_here (.getBalance pubkey) 0)
      simp only [ClientCall.method, commitment, key, Option.bind_eq_bind, Option.bind_some]
      rfl
  | getAccountInfo pubkey =>
      have encoding := word 1 encodingKey "base64" base64 _ rfl (encoded_encoding _)
      have commitment := word 1 commitmentKey "finalized" final _ rfl (encoded_commitment _)
      have key := look_key _ _ pubkey (param_here (.getAccountInfo pubkey) 0)
      simp only [ClientCall.method, encoding, commitment, key, Option.bind_eq_bind, Option.bind_some]
      rfl
  | getMultipleAccountsInfo pubkeys =>
      have encoding := word 1 encodingKey "base64" base64 _ rfl (encoded_encoding _)
      have commitment := word 1 commitmentKey "finalized" final _ rfl (encoded_commitment _)
      have list := look_list _ (param 0) pubkeys keyDoc
        (keyAt (look (callDoc (.getMultipleAccountsInfo pubkeys)))) id
        (param_here (.getMultipleAccountsInfo pubkeys) 0) fun key path => look_key _ path key
      rw [List.map_id] at list
      simp only [ClientCall.method, encoding, commitment, list, Option.bind_eq_bind, Option.bind_some]
      rfl
  | getProgramAccounts programId commitment =>
      have encoding := word 1 encodingKey "base64" base64 _ rfl (encoded_encoding _)
      have options : (paramDocs (.getProgramAccounts programId commitment))[1]? = some _ := rfl
      have level := look_plain _ (option 1 commitmentKey) commitment
        ((option_here _ 1 commitmentKey _ options).trans (encoded_commitment _))
      have key := look_key _ _ programId (param_here (.getProgramAccounts programId commitment) 0)
      simp only [ClientCall.method, encoding, key, level, Option.bind_eq_bind, Option.bind_some]
      rfl
  | requestAirdrop pubkey lamports =>
      have key := look_key _ _ pubkey (param_here (.requestAirdrop pubkey lamports) 0)
      have amount := look_amount _ _ lamports (param_here (.requestAirdrop pubkey lamports) 1)
      simp only [ClientCall.method, key, amount, Option.bind_eq_bind, Option.bind_some]
      rfl
  | getSignatureStatuses signatures =>
      have options : (paramDocs (.getSignatureStatuses signatures))[1]? = some _ := rfl
      have searched := look_flag _ (option 1 historyKey) true
        ((option_here _ 1 historyKey _ options).trans
          (child_here _ _ _ _ (literal_plain _ (by decide)) rfl))
      have list := look_list _ (param 0) signatures (fun signature => textDoc signature.val)
        (plainAt (look (callDoc (.getSignatureStatuses signatures)))) id
        (param_here (.getSignatureStatuses signatures) 0) fun text path => look_plain _ path text
      rw [List.map_id] at list
      simp only [ClientCall.method, searched, list, Option.bind_eq_bind, Option.bind_some]
      rfl

/-- Every body is a JSON text, and every JSON reading of it gives the call back. -/
theorem bodies_read_back (call : ClientCall) :
    (∃ document : Document plainWords, document.text = call.body) ∧
      ∀ document : Document plainWords, document.text = call.body →
        readCall (look document.root) = some call := by
  refine ⟨⟨callDocument call, call_text call⟩, fun document same => ?_⟩
  have seen : look document.root = look (callDoc call) :=
    funext (same_text_look document (callDocument call) (same.trans (call_text call).symm))
  rw [seen, call_read]

end Reading
end SolanaSdk.RpcRequests
