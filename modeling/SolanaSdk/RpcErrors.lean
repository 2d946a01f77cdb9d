import SolanaSdk.AccountResponses
import SolanaSdk.JsonBounds

/-!
Error responses. Navigation never fails on the text of a response, whatever the
text is, and a number is always read as some 64-bit value. So the methods that do
not look for an error return a value, and one that a result could have had.
-/

namespace SolanaSdk.RpcErrors

open ByteData PublicKeys JsonText JsonScanners JsonTokens JsonAccess JsonGrammar JsonScanning
open JsonPlaces JsonContainers JsonNavigation JsonDocuments JsonTexts RpcClient AccountResponses
open JsonBounds Segments

section Numbers

theorem skip_isspace_total (nptr : Cells) (ended : 0 ∈ nptr) :
    ∃ rest, skipIsspace nptr = .ok rest ∧ 0 ∈ rest := by
  induction nptr with
  | nil => cases ended
  | cons c later ih =>
      rw [skipIsspace]
      split
      next space =>
        rcases List.mem_cons.mp ended with rfl | ended
        · exact absurd space (by decide)
        · exact ih ended
      next => exact ⟨c :: later, rfl, ended⟩

theorem read_sign_total (nptr : Cells) (ended : 0 ∈ nptr) :
    ∃ negative rest, readSign nptr = .ok (negative, rest) ∧ 0 ∈ rest := by
  obtain ⟨c, later, rfl⟩ := List.exists_cons_of_ne_nil (List.ne_nil_of_mem ended)
  -- The terminator is no sign, so it is still there behind one.
  have kept : c ≠ 0 → 0 ∈ later := fun some =>
    (List.mem_cons.mp ended).resolve_left some.symm
  rw [readSign]
  split
  next sign => exact ⟨true, later, rfl, kept (sign ▸ by decide)⟩
  next =>
    split
    next sign => exact ⟨false, later, rfl, kept (sign ▸ by decide)⟩
    next => exact ⟨false, c :: later, rfl, ended⟩

theorem read_magnitude_total (nptr : Cells) (ended : 0 ∈ nptr) (acc : Nat) :
    ∃ magnitude, readMagnitude acc nptr = .ok magnitude := by
  induction nptr generalizing acc with
  | nil => cases ended
  | cons c later ih =>
      rw [readMagnitude]
      split
      next digit =>
        rcases List.mem_cons.mp ended with rfl | ended
        · exact absurd digit (by decide)
        · exact ih ended _
      next => exact ⟨acc, rfl⟩

theorem strtoull_total (nptr : Cells) (ended : 0 ∈ nptr) :
    ∃ number, strtoull nptr = .ok number ∧ number < 2 ^ 64 := by
  obtain ⟨unspaced, spaces, ended⟩ := skip_isspace_total nptr ended
  obtain ⟨negative, digits, sign, ended⟩ := read_sign_total unspaced ended
  obtain ⟨magnitude, read⟩ := read_magnitude_total digits ended 0
  rw [strtoull, spaces]
  change ∃ number, (readSign unspaced >>= _) = .ok number ∧ _
  rw [sign]
  change ∃ number, (readMagnitude 0 digits >>= _) = .ok number ∧ _
  rw [read]
  change ∃ number, (if 2 ^ 64 ≤ magnitude then pure (2 ^ 64 - 1)
    else if negative then pure ((2 ^ 64 - magnitude) % 2 ^ 64) else pure magnitude) =
      Except.ok number ∧ _
  split
  next => exact ⟨_, rfl, by omega⟩
  next small =>
    split
    next => exact ⟨_, rfl, Nat.mod_lt _ (by decide)⟩
    next => exact ⟨_, rfl, Nat.not_le.mp small⟩

end Numbers

section AnyText
variable (text : Text)

theorem access_total (limit : Nat) (value : JsonValue) (reached : Reachable text limit value)
    (move : Access) : ∃ found, access (cStr text) value move = .ok found := by
  have cells : (cStr text).length = text.length + 1 := by simp [cStr]
  have short := reachable_limit text limit value reached
  rcases reachable_placed text limit value reached with rfl | ⟨inside, c, here, token⟩
  · exact ⟨.absent, absent_access _ move⟩
  · have ranged := token_ranged _ c _ limit value inside here token
    cases move with
    | key key => exact member_total (cStr text) value key (by omega)
    | index index => exact element_total (cStr text) value index (by omega)

theorem walk_total (path : List Access) (limit : Nat) (value : JsonValue)
    (reached : Reachable text limit value) :
    ∃ limit found, walk (cStr text) value path = .ok found ∧ Reachable text limit found := by
  induction path generalizing limit value with
  | nil => exact ⟨limit, value, rfl, reached⟩
  | cons move rest ih =>
      obtain ⟨next, accessed⟩ := access_total text limit value reached move
      rw [walk, List.foldlM_cons, accessed]
      exact ih _ next (.step limit value next move reached accessed)

theorem as_uint_total (limit : Nat) (value : JsonValue) (reached : Reachable text limit value) :
    ∃ number, value.asUint (cStr text) = .ok number ∧ number < 2 ^ 64 := by
  have short := reachable_limit text limit value reached
  rcases reachable_placed text limit value reached with rfl | ⟨inside, -, -, -⟩
  · exact ⟨0, rfl, by decide⟩
  · unfold JsonValue.asUint
    split
    · exact ⟨0, rfl, by decide⟩
    · refine strtoull_total _ ?_
      rw [cStr, List.drop_append_of_le_length (by omega)]
      exact List.mem_append_right _ (List.mem_singleton.mpr rfl)

theorem parse_total : ∃ root, parse (cStr text) text.length = .ok root ∧
    Reachable text text.length root := by
  obtain ⟨root, past, parsed⟩ := parse_value_total (cStr text) 0 text.length (c_str_fits text)
  have returned : parse (cStr text) text.length = .ok root := by
    rw [parse, parsed]
    rfl
  exact ⟨root, returned, .root root returned⟩

/-- A path and a number behind it never fail. -/
theorem number_on_path (path : List Access) :
    ∃ root value number, parse (cStr text) text.length = .ok root ∧
      walk (cStr text) root path = .ok value ∧ value.asUint (cStr text) = .ok number ∧
      number < 2 ^ 64 := by
  obtain ⟨root, parsed, start⟩ := parse_total text
  obtain ⟨limit, value, walked, reached⟩ := walk_total text path _ root start
  obtain ⟨number, read, small⟩ := as_uint_total text limit value reached
  exact ⟨root, value, number, parsed, walked, read, small⟩

end AnyText

section Amounts

theorem balance_read (text : Text) (pubkey : PublicKey) (root value : JsonValue) (lamports : Nat)
    (parsed : parse (cStr text) text.length = .ok root)
    (walked : walk (cStr text) root valuePath = .ok value)
    (read : value.asUint (cStr text) = .ok lamports) :
    getBalance (answering text) pubkey = pure lamports := by
  rw [getBalance, post_parsed text root parsed, pure_bind]
  change (reading (walk _ _ valuePath) >>= _) = _
  rw [walked, reading_ok, pure_bind, read]
  rfl

theorem result_walked (src : Cells) (root value : JsonValue)
    (walked : walk src root [.key resultKey] = .ok value) : member src root resultKey = .ok value := by
  rw [walk, List.foldlM_cons] at walked
  change (member src root resultKey >>= pure) = _ at walked
  rwa [bind_pure] at walked

theorem slot_read (text : Text) (root value : JsonValue) (slot : Nat)
    (parsed : parse (cStr text) text.length = .ok root)
    (walked : walk (cStr text) root [.key resultKey] = .ok value)
    (read : value.asUint (cStr text) = .ok slot) : getSlot (answering text) = pure slot := by
  rw [getSlot, post_parsed text root parsed, pure_bind]
  change (reading (member (cStr text) root resultKey) >>= _) = _
  rw [result_walked _ root value walked, reading_ok, pure_bind, read]
  rfl

/-- On every text at all the two calls return. -/
theorem balance_answers (text : Text) (pubkey : PublicKey) :
    ∃ lamports, getBalance (answering text) pubkey = pure lamports ∧ lamports < 2 ^ 64 := by
  obtain ⟨root, value, lamports, parsed, walked, read, small⟩ := number_on_path text valuePath
  exact ⟨lamports, balance_read text pubkey root value lamports parsed walked read, small⟩

theorem slot_answers (text : Text) :
    ∃ slot, getSlot (answering text) = pure slot ∧ slot < 2 ^ 64 := by
  obtain ⟨root, value, slot, parsed, walked, read, small⟩ :=
    number_on_path text [.key resultKey]
  exact ⟨slot, slot_read text root value slot parsed walked read, small⟩

end Amounts

section Results

/-- `{"jsonrpc":"2.0","result":...,"id":1}`. -/
def envelope (result : Doc jsonWords) : Document jsonWords :=
  compact (.object
    (.more (named "jsonrpc") (.string (plainLetters (ofLiteral "2.0"))) noSpace
    (.more (named "result") result noSpace
    (.last (named "id") (.number (.ofNat 1)) noSpace))))

def amount (number : Nat) : Doc jsonWords := .number (.ofNat number)

/-- `{"context":{"slot":1},"value":...}`. -/
def withContext (value : Doc jsonWords) : Doc jsonWords :=
  .object
    (.more (named "context") (.object (.last (named "slot") (amount 1) noSpace)) noSpace
    (.last (named "value") value noSpace))

theorem envelope_closed (result : Doc jsonWords) (closed : AllClosed result) :
    AllClosed (envelope result).root := by
  have id := last_closed (named "id") (amount 1) noSpace (by decide) (outsides_closed _)
  have result := more_closed (named "result") result noSpace _ (by decide) closed id
  exact object_closed _ (more_closed (named "jsonrpc") _ noSpace _ (by decide) (by decide) result)

theorem context_closed (value : Doc jsonWords) (closed : AllClosed value) :
    AllClosed (withContext value) := by
  have slot := last_closed (named "slot") (amount 1) noSpace (by decide) (outsides_closed _)
  have value := last_closed (named "value") value noSpace (by decide) closed
  exact object_closed _
    (more_closed (named "context") _ noSpace _ (by decide) (object_closed _ slot) value)

/-- A number where a path leads is what the client gets there. -/
theorem amount_reached (result : Doc jsonWords) (closed : AllClosed result) (path : List Access)
    (number : Nat) (small : number < 2 ^ 64)
    (answered : (envelope result).root.follow path = some (amount number)) :
    ∃ root value, parse (cStr (envelope result).text) (envelope result).text.length = .ok root ∧
      walk (cStr (envelope result).text) root path = .ok value ∧
      value.asUint (cStr (envelope result).text) = .ok number := by
  have closed := envelope_closed result closed
  have parsed := document_parsed json_scanned (envelope result) (json_matched _ closed)
  obtain ⟨-, located⟩ := document_here (envelope result)
  obtain ⟨pos, there, walked⟩ := walk_reaches _ json_scanned path _ _ located
    (fun node member => json_matched node (parsed_on_closed path _ closed node member)) _ answered
  have counts : Counts (.ofNat number) (.ofNatLT number small) := number_of_nat_text number
  exact ⟨_, _, parsed, walked, uint_shown _ _ _ counts pos there⟩

end Results

section Reporting

def codeKey : CString := ⟨ofLiteral "code", by decide⟩

/-- An error with any code and any message, and no result. -/
structure ErrorResponse (document : Document jsonWords) : Prop where
  noResult : document.root.child (.key resultKey) = none
  error : ∃ error code message, document.root.child (.key errorKey) = some error ∧
    error.child (.key codeKey) = some (.number code) ∧
    error.child (.key messageKey) = some (.string message)

/-- No error, and what the method expects at the path of its result. -/
structure Succeeds (path : List Access) (expects : Doc jsonWords → Prop)
    (document : Document jsonWords) : Prop where
  noError : document.root.child (.key errorKey) = none
  result : ∃ node, document.root.follow path = some node ∧ expects node

def IsString (node : Doc jsonWords) : Prop := node.kind = .string

def IsAmount (node : Doc jsonWords) : Prop :=
  ∃ token value, node = .number token ∧ Counts token value

def IsAccount (node : Doc jsonWords) : Prop := ∃ account, Renders account node

def AreAccounts (node : Doc jsonWords) : Prop :=
  node.kind = .array ∧ ∃ accounts, List.Forall₂ Renders accounts node.values

/-- The method returns nothing for the text that it also returns for a result. -/
def Reported {Value : Type} (method : Nat → (Text → Call Text) → Call Value)
    (succeeds : Document jsonWords → Prop) (resp : Text) : Prop :=
  ∀ value fuel, method fuel (answering resp) = pure value →
    ¬ ∃ document more, succeeds document ∧ method more (answering document.text) = pure value

structure AllReported (resp : Text) : Prop where
  getLatestBlockhash : Reported (fun _ => getLatestBlockhash)
    (Succeeds [.key resultKey, .key valueKey, .key blockhashKey] IsString) resp
  sendTransaction : ∀ base64Tx, Reported (fun _ rpcPost => sendTransaction rpcPost base64Tx)
    (Succeeds [.key resultKey] IsString) resp
  requestAirdrop : ∀ pubkey lamports,
    Reported (fun _ rpcPost => requestAirdrop rpcPost pubkey lamports)
      (Succeeds [.key resultKey] IsString) resp
  getBalance : ∀ pubkey, Reported (fun _ rpcPost => getBalance rpcPost pubkey)
    (Succeeds valuePath IsAmount) resp
  getSlot : Reported (fun _ => getSlot) (Succeeds [.key resultKey] IsAmount) resp
  getAccountInfo : ∀ pubkey, Reported (fun fuel rpcPost => getAccountInfo rpcPost fuel pubkey)
    (Succeeds valuePath IsAccount) resp
  getMultipleAccountsInfo : ∀ pubkeys,
    Reported (fun fuel rpcPost => getMultipleAccountsInfo rpcPost fuel pubkeys)
      (Succeeds valuePath AreAccounts) resp

theorem is_amount (number : Nat) (small : number < 2 ^ 64) : IsAmount (amount number) :=
  ⟨.ofNat number, .ofNatLT number small, rfl, number_of_nat_text number⟩

/-- Whatever comes back, the balance is one that some account could have. -/
theorem balance_unreported (resp : Text) (pubkey : PublicKey) :
    ¬ Reported (fun _ rpcPost => getBalance rpcPost pubkey) (Succeeds valuePath IsAmount) resp := by
  intro reported
  obtain ⟨lamports, answered, small⟩ := balance_answers resp pubkey
  have closed := context_closed (amount lamports) (outsides_closed _)
  obtain ⟨root, value, parsed, walked, read⟩ := amount_reached _ closed valuePath lamports small rfl
  have again := balance_read _ pubkey root value lamports parsed walked read
  refine reported lamports 0 answered ⟨envelope (withContext (amount lamports)), 0, ⟨rfl, ?_⟩, again⟩
  exact ⟨amount lamports, rfl, is_amount lamports small⟩

theorem slot_unreported (resp : Text) :
    ¬ Reported (fun _ => getSlot) (Succeeds [.key resultKey] IsAmount) resp := by
  intro reported
  obtain ⟨slot, answered, small⟩ := slot_answers resp
  obtain ⟨root, value, parsed, walked, read⟩ :=
    amount_reached (amount slot) (outsides_closed _) [.key resultKey] slot small rfl
  have again := slot_read _ root value slot parsed walked read
  refine reported slot 0 answered ⟨envelope (amount slot), 0, ⟨rfl, ?_⟩, again⟩
  exact ⟨amount slot, rfl, is_amount slot small⟩

end Reporting

section Outcomes

def Throws {Value : Type} (call : Call Value) : Prop :=
  ∃ what, call = throwThe Problem (.runtimeError what)

/-- The brackets of the nodes that looking for a result and for a message parses. -/
structure ErrorMatched (root : Doc jsonWords) : Prop where
  start : Matched root
  members : ∀ node ∈ parsedBy root (.key resultKey), Matched node
  message : ∀ node ∈ parsedOn root [.key errorKey, .key messageKey], Matched node

structure ErrorOutcomes (resp : Text) : Prop where
  getLatestBlockhash : Throws (getLatestBlockhash (answering resp))
  sendTransaction : ∀ base64Tx, Throws (sendTransaction (answering resp) base64Tx)
  requestAirdrop : ∀ pubkey lamports, Throws (requestAirdrop (answering resp) pubkey lamports)
  getBalance : ∀ pubkey, getBalance (answering resp) pubkey = pure 0
  getSlot : getSlot (answering resp) = pure 0
  getAccountInfo : ∀ fuel pubkey, getAccountInfo (answering resp) fuel pubkey = pure {}
  getMultipleAccountsInfo : ∀ fuel pubkeys,
    getMultipleAccountsInfo (answering resp) fuel pubkeys = pure []

theorem string_answers (src : Cells) (letters : List Letter) (pos : Nat)
    (located : Located src pos (.string letters : Doc jsonWords)) :
    ∃ text, ((.string letters : Doc jsonWords).valueAt pos).asString src = .ok text := by
  have inside := located.here.length_le
  rw [List.length_drop] at inside
  have long : (Doc.string letters : Doc jsonWords).text.length = (lettersText letters).length + 2 :=
    enclosed_length quote quote (lettersText letters)
  rw [JsonValue.asString, if_neg (by simp [Doc.valueAt, Doc.kind])]
  change ∃ text, (if pos + _ - 1 < pos + 1 then _ else unescape src (pos + 1) (pos + _ - 1)) = .ok text
  rw [if_neg (by omega)]
  exact unescape_total src _ _ (by omega)

variable (document : Document jsonWords)

theorem result_missing (error : ErrorResponse document) (matched : ErrorMatched document.root)
    (rest : List Access) :
    walk (cStr document.text) (document.root.valueAt document.before.chars.length)
      (.key resultKey :: rest) = .ok .absent := by
  obtain ⟨-, located⟩ := document_here document
  obtain ⟨found, accessed, finds⟩ := access_finds _ json_scanned document.root _ located
    (.key resultKey) matched.members
  rw [error.noResult] at finds
  cases finds
  rw [walk, List.foldlM_cons, accessed]
  exact absent_walk _ rest

theorem failure_thrown (error : ErrorResponse document) (matched : ErrorMatched document.root)
    (what : String) :
    Throws (failWith what document.text
      (document.root.valueAt document.before.chars.length)) := by
  obtain ⟨-, located⟩ := document_here document
  obtain ⟨node, code, message, child, -, said⟩ := error.error
  have answered : document.root.follow [.key errorKey, .key messageKey] = some (.string message) := by
    rw [Doc.follow, List.foldlM_cons, child]
    change (node.child (.key messageKey) >>= pure) = _
    rw [said]
    rfl
  obtain ⟨pos, there, walked⟩ := walk_reaches _ json_scanned [.key errorKey, .key messageKey]
    document.root _ located matched.message _ answered
  obtain ⟨errMsg, read⟩ := string_answers _ message pos there
  rw [failWith, stringAt, walked, reading_ok, pure_bind, read, reading_ok, pure_bind]
  exact ⟨_, rfl⟩

theorem string_result_thrown (error : ErrorResponse document) (matched : ErrorMatched document.root)
    (what : String) :
    Throws (stringResult what document.text
      (document.root.valueAt document.before.chars.length)) := by
  have missing := result_walked _ _ _ (result_missing document error matched [])
  rw [stringResult, missing, reading_ok, pure_bind, if_neg (by rintro ⟨⟩)]
  exact failure_thrown document error matched what

theorem error_outcomes (error : ErrorResponse document) (matched : ErrorMatched document.root) :
    ErrorOutcomes document.text := by
  have posted := post_answered document matched.start
  have missing := result_missing document error matched
  have parsed := document_parsed json_scanned document matched.start
  constructor
  · rw [getLatestBlockhash, posted, pure_bind]
    change Throws (stringAt document.text _ _ >>= _)
    rw [stringAt, missing, reading_ok, pure_bind]
    exact failure_thrown document error matched _
  · intro base64Tx
    rw [sendTransaction, posted, pure_bind]
    exact string_result_thrown document error matched _
  · intro pubkey lamports
    rw [requestAirdrop, posted, pure_bind]
    exact string_result_thrown document error matched _
  · intro pubkey
    exact balance_read _ pubkey _ _ 0 parsed (missing _) rfl
  · exact slot_read _ _ _ 0 parsed (missing []) rfl
  · intro fuel pubkey
    rw [getAccountInfo, posted, pure_bind]
    change (reading (walk _ _ _) >>= _) = _
    rw [missing, reading_ok, pure_bind]
    rfl
  · intro fuel pubkeys
    rw [getMultipleAccountsInfo, posted, pure_bind]
    change (reading (walk _ _ _) >>= _) = _
    rw [missing, reading_ok, pure_bind]
    rfl

/-- No error response is reported by all methods, since the balance and the slot
are answered for each of them. Where its brackets are found, the methods that
return a string tell the error, and those that return accounts find none. -/
theorem errors_answered (error : ErrorResponse document) :
    ¬ AllReported document.text ∧
      (ErrorMatched document.root → ErrorOutcomes document.text) :=
  ⟨fun reported => slot_unreported _ reported.getSlot, error_outcomes document error⟩

/-- `{"jsonrpc":"2.0","error":{"code":-32600,"message":"Invalid request"},"id":1}`. -/
def invalidRequest : Document jsonWords :=
  compact (.object
    (.more (named "jsonrpc") (.string (plainLetters (ofLiteral "2.0"))) noSpace
    (.more (named "error") (.object
      (.more (named "code") (.number { Number.ofNat 32600 with negative := true }) noSpace
      (.last (named "message") (.string (plainLetters (ofLiteral "Invalid request"))) noSpace)))
      noSpace
    (.last (named "id") (.number (.ofNat 1)) noSpace))))

theorem invalid_request_error : ErrorResponse invalidRequest where
  noResult := rfl
  error := ⟨_, _, _, rfl, rfl, rfl⟩

theorem error_closed (document : Document jsonWords) (closed : AllClosed document.root) :
    ErrorMatched document.root where
  start := json_matched _ closed
  members node parsed := json_matched node (parsed_by_closed _ closed _ node parsed)
  message node parsed := json_matched node (parsed_on_closed _ _ closed node parsed)

theorem invalid_request_answered :
    ¬ AllReported invalidRequest.text ∧ ErrorOutcomes invalidRequest.text := by
  have closed : AllClosed invalidRequest.root := by decide +kernel
  obtain ⟨unreported, outcomes⟩ := errors_answered invalidRequest invalid_request_error
  exact ⟨unreported, outcomes (error_closed _ closed)⟩

/-- The response of the test: both numbers are read as zero, as for a new account. -/
theorem invalid_request_zero :
    invalidRequest.text = ofLiteral "\x7b\"jsonrpc\":\"2.0\",\"error\":\x7b\"code\":-32600," ++
        ofLiteral "\"message\":\"Invalid request\"\x7d,\"id\":1\x7d" ∧
      ErrorResponse invalidRequest ∧
      getSlot (answering invalidRequest.text) = pure 0 ∧
      getSlot (answering (envelope (amount 0)).text) = pure 0 ∧
      ¬ AllReported invalidRequest.text := by
  have closed : AllClosed invalidRequest.root := by decide +kernel
  have outcomes := error_outcomes _ invalid_request_error (error_closed _ closed)
  obtain ⟨root, value, parsed, walked, read⟩ :=
    amount_reached (amount 0) (outsides_closed _) [.key resultKey] 0 (by decide) rfl
  have zero := slot_read _ root value 0 parsed walked read
  refine ⟨by decide +kernel, invalid_request_error, outcomes.getSlot, zero, fun reported => ?_⟩
  refine reported.getSlot 0 0 outcomes.getSlot ⟨envelope (amount 0), 0, ⟨rfl, ?_⟩, zero⟩
  exact ⟨amount 0, rfl, is_amount 0 (by decide)⟩

end Outcomes

end SolanaSdk.RpcErrors
