import Mathlib.Data.List.Forall2
import SolanaSdk.JsonTexts
import SolanaSdk.RpcClient

/-!
Account responses. A node that renders an account is read back as that account,
wherever it stands and whatever else it holds, if the brackets of all nodes that
the reader parses on its way are found.
-/

namespace SolanaSdk.AccountResponses

open ByteData PublicKeys Base64 Loops JsonText JsonAccess JsonGrammar JsonScanning JsonPlaces
open JsonContainers JsonNavigation JsonDocuments JsonTexts RpcClient Segments

section Rendering

/-- An account as the server has it. -/
structure Account where
  lamports : UInt64
  owner : Text
  base58 : ∀ c ∈ owner, c ∈ Base58.alphabet
  data : Bytes
  executable : Bool
  rentEpoch : UInt64

/-- What the client shows of an account that may be missing. -/
def shownInfo : Option Account → AccountInfo
  | none => {}
  | some account => {
      lamports := account.lamports.toNat
      owner := account.owner
      data := account.data
      executable := account.executable
      rentEpoch := account.rentEpoch.toNat
      «exists» := true }

def partLetter : Part → Letter
  | .plain c => .plain c
  | .quote => .quote
  | .slash => .slash
  | .lineFeed => .lineFeed
  | .carriageReturn => .carriageReturn
  | .tab => .tab

/-- Every char stands for itself or has one of the escapes that the reader decodes. -/
def Spells (letters : List Letter) (text : Text) : Prop :=
  ∃ parts : List Part, parts.map partLetter = letters ∧ parts.map Part.denotes = text

def Counts (token : Number) (value : UInt64) : Prop := token.text = decimal value.toNat

/-- The members may stand in any order, and others between them. -/
structure RendersAccount (account : Account) (node : Doc jsonWords) : Prop where
  lamports : ∃ token, node.child (.key lamportsKey) = some (.number token) ∧
    Counts token account.lamports
  owner : ∃ letters, node.child (.key ownerKey) = some (.string letters) ∧
    Spells letters account.owner
  executable : node.child (.key executableKey) = some (.bool account.executable)
  rentEpoch : ∃ token, node.child (.key rentEpochKey) = some (.number token) ∧
    Counts token account.rentEpoch
  data : ∃ items first second, node.child (.key dataKey) = some (.array items) ∧
    items.values = [.string first, .string second] ∧ Spells first (base64Encode account.data) ∧
    Spells second (ofLiteral "base64")

def Renders : Option Account → Doc jsonWords → Prop
  | none, node => node = .null
  | some account, node => RendersAccount account node

end Rendering

section Conditions

def accountKeys : List CString := [lamportsKey, ownerKey, executableKey, rentEpochKey, dataKey]

def valuePath : List Access := [.key resultKey, .key valueKey]

/-- The brackets of the nodes that reading an account parses are found. -/
def MembersMatched (node : Doc jsonWords) : Prop :=
  ∀ key ∈ accountKeys, ∀ child ∈ parsedBy node (.key key), Matched child

/-- So are those on the way to the `value` member. -/
structure PathMatched (root : Doc jsonWords) : Prop where
  start : Matched root
  path : ∀ node ∈ parsedOn root valuePath, Matched node

theorem members_closed (node : Doc jsonWords) (closed : AllClosed node) : MembersMatched node :=
  fun key _ child parsed => json_matched child (parsed_by_closed node closed (.key key) child parsed)

theorem path_closed (root : Doc jsonWords) (closed : AllClosed root) : PathMatched root where
  start := json_matched root closed
  path node parsed := json_matched node (parsed_on_closed valuePath root closed node parsed)

end Conditions

section Reading
variable (src : Cells)

theorem field_found {Value : Type} (node : Doc jsonWords) (pos : Nat) (located : Located src pos node)
    (key : CString) (matched : ∀ child ∈ parsedBy node (.key key), Matched child)
    (child : Doc jsonWords) (found : node.child (.key key) = some child)
    (accessor : JsonValue → Except Fault Value) (value : Value)
    (reads : ∀ place, Located src place child → accessor (child.valueAt place) = .ok value) :
    field src (node.valueAt pos) key accessor = pure value := by
  obtain ⟨place, there, accessed⟩ :=
    access_reaches src json_scanned node pos located (.key key) matched child found
  change member src (node.valueAt pos) key = _ at accessed
  rw [field, accessed, reading_ok, pure_bind, reads place there]
  rfl

theorem uint_shown (token : Number) (value : UInt64) (counts : Counts token value) (pos : Nat)
    (located : Located src pos (.number token : Doc jsonWords)) :
    ((.number token : Doc jsonWords).valueAt pos).asUint src = .ok value.toNat := by
  obtain ⟨here, followed⟩ := located
  -- The digits alone are also the token of an integer without a sign.
  have bound : value.toNat < 2 ^ 64 := value.toNat_lt
  have same : token.text = Integer.text ⟨false, value.toNat, bound⟩ := counts
  change Here src pos token.text at here
  change Followed src (pos + token.text.length) at followed
  rw [same] at here followed
  have read := uint_read src ⟨false, value.toNat, bound⟩ ((.number token : Doc jsonWords).valueAt pos)
    rfl rfl here followed
  rw [read]
  congr 1
  change ((value.toNat : Int) % 2 ^ 64).toNat = _
  omega

theorem letters_parts (parts : List Part) :
    lettersText (parts.map partLetter) = parts.flatMap Part.text := by
  rw [lettersText, List.flatMap_map]
  apply List.flatMap_congr
  intro part _
  cases part <;> rfl

theorem string_shown (letters : List Letter) (text : Text) (spells : Spells letters text) (pos : Nat)
    (located : Located src pos (.string letters : Doc jsonWords)) :
    ((.string letters : Doc jsonWords).valueAt pos).asString src = .ok text := by
  obtain ⟨parts, rfl, rfl⟩ := spells
  have body := letters_parts parts
  have here : Here src pos (quoted (lettersText (parts.map partLetter))) := located.here
  rw [body] at here
  refine string_read src parts _ rfl rfl here ?_
  rw [← body]
  rfl

theorem array_size_more (value : JsonValue) (fuel : Nat) (size : Except Fault Nat)
    (counted : arraySize src value fuel = some size) (more : Nat) (enough : fuel ≤ more) :
    arraySize src value more = some size := by
  unfold arraySize at counted ⊢
  split
  · next none => rwa [if_pos none] at counted
  · next some =>
      rw [if_neg some] at counted
      exact run_more _ fuel _ size counted more enough

theorem data_shown (items : Items jsonWords) (first second : List Letter) (data : Bytes)
    (values : items.values = [.string first, .string second]) (spells : Spells first (base64Encode data))
    (pos : Nat) (located : Located src pos (.array items)) :
    ∃ least, ∀ fuel, least ≤ fuel →
      parseData src fuel ((Doc.array items).valueAt pos) = pure data := by
  have strings : ∀ node ∈ items.values, Matched node := by
    rw [values]
    simp [Matched]
  obtain ⟨least, counted⟩ := array_size_here src json_scanned (.array items) pos located strings
  have child : (Doc.array items).child (.index 0) = some (.string first) := by
    change items.values[0]? = _
    rw [values]
    rfl
  obtain ⟨place, there, accessed⟩ := access_reaches src json_scanned (.array items) pos located
    (.index 0) (fun node member => strings node (List.mem_of_mem_take member)) _ child
  change element src _ 0 = _ at accessed
  refine ⟨least, fun fuel enough => ?_⟩
  have size : arraySize src ((Doc.array items).valueAt pos) fuel = some (.ok 2) := by
    have more := array_size_more src _ least _ counted fuel enough
    rw [more]
    change some (Except.ok items.values.length) = _
    rw [values]
    rfl
  have array : ((Doc.array items).valueAt pos)._type = .array := rfl
  rw [parseData, if_pos array, size, counting, reading_ok, pure_bind, if_pos (by decide), accessed,
    reading_ok, pure_bind, string_shown src first _ spells place there, reading_ok, pure_bind,
    base64DecodeRpc, decode_loop_encode]

/-- A node that renders an account is read as that account. -/
theorem node_shown (account : Option Account) (node : Doc jsonWords) (renders : Renders account node)
    (matched : MembersMatched node) (pos : Nat) (located : Located src pos node) :
    ∃ least, ∀ fuel, least ≤ fuel →
      parseAccountInfoNode src fuel (node.valueAt pos) = pure (shownInfo account) := by
  cases account with
  | none =>
      cases renders
      exact ⟨0, fun _ _ => rfl⟩
  | some account =>
      obtain ⟨⟨lamports, lamportsHere, balance⟩, ⟨letters, ownerHere, owner⟩, executable,
        ⟨rentEpoch, epochHere, epoch⟩, ⟨items, first, second, dataHere, values, encoded, -⟩⟩ := renders
      have some : (node.valueAt pos).isNull = false := by
        cases node with
        | null => cases executable
        | _ => rfl
      have fields : ∀ key ∈ accountKeys, ∀ child ∈ parsedBy node (.key key), Matched child := matched
      simp only [accountKeys, List.forall_mem_cons] at fields
      obtain ⟨one, two, three, four, five, -⟩ := fields
      have first' := field_found src node pos located lamportsKey one _ lamportsHere _ _
        (uint_shown src lamports _ balance)
      have second' := field_found src node pos located ownerKey two _ ownerHere _ _
        (string_shown src letters _ owner)
      have third := field_found src node pos located executableKey three _ executable
        (fun value => .ok value.asBool) account.executable fun _ _ => rfl
      have fourth := field_found src node pos located rentEpochKey four _ epochHere _ _
        (uint_shown src rentEpoch _ epoch)
      obtain ⟨place, there, accessed⟩ :=
        access_reaches src json_scanned node pos located (.key dataKey) five _ dataHere
      change member src (node.valueAt pos) dataKey = _ at accessed
      obtain ⟨least, decoded⟩ := data_shown src items first second _ values encoded place there
      refine ⟨least, fun fuel enough => ?_⟩
      rw [parseAccountInfoNode, some, if_neg (by decide), first', pure_bind, second', pure_bind, third,
        pure_bind, fourth, pure_bind, accessed, reading_ok, pure_bind, decoded fuel enough, pure_bind]
      rfl

end Reading

section Responses

/-- The transport returns the text, whatever is posted. -/
def answering (resp : Text) : Text → Call Text := fun _ => pure resp

theorem post_parsed (resp : Text) (root : JsonValue)
    (parsed : parse (cStr resp) resp.length = .ok root) (method : String) (params : Text) :
    post (answering resp) method params = pure (resp, root) := by
  rw [post, answering, pure_bind, parsed, reading_ok, pure_bind]

variable (document : Document jsonWords)

theorem post_answered (matched : Matched document.root) (method : String) (params : Text) :
    post (answering document.text) method params =
      pure (document.text, document.root.valueAt document.before.chars.length) :=
  post_parsed _ _ (document_parsed json_scanned document matched) method params

theorem value_reached (matched : PathMatched document.root) (value : Doc jsonWords)
    (answered : document.root.follow valuePath = some value) :
    ∃ pos, Located (cStr document.text) pos value ∧
      walk (cStr document.text) (document.root.valueAt document.before.chars.length) valuePath =
        .ok (value.valueAt pos) := by
  obtain ⟨-, located⟩ := document_here document
  exact walk_reaches _ json_scanned valuePath document.root _ located matched.path value answered

/-- The call returns the account, given enough turns. -/
def Decodes (account : Option Account) : Prop :=
  ∀ pubkey, ∃ fuel,
    getAccountInfo (answering document.text) fuel pubkey = pure (shownInfo account)

def DecodesAll (accounts : List (Option Account)) : Prop :=
  ∀ pubkeys, ∃ fuel,
    getMultipleAccountsInfo (answering document.text) fuel pubkeys =
      pure (accounts.map shownInfo)

theorem account_decodes (matched : PathMatched document.root) (value : Doc jsonWords)
    (answered : document.root.follow valuePath = some value) (account : Option Account)
    (renders : Renders account value) (members : MembersMatched value) :
    Decodes document account := by
  obtain ⟨pos, located, walked⟩ := value_reached document matched value answered
  obtain ⟨fuel, shown⟩ := node_shown _ account value renders members pos located
  refine fun pubkey => ⟨fuel, ?_⟩
  rw [getAccountInfo, post_answered document matched.start, pure_bind]
  change (reading (walk _ _ valuePath) >>= _) = _
  rw [walked, reading_ok, pure_bind]
  exact shown fuel (Nat.le_refl fuel)

/-- The turn of the result loop at an index in range. -/
theorem item_shown (src : Cells) (value : Doc jsonWords) (pos : Nat) (located : Located src pos value)
    (accounts : List (Option Account)) (renders : List.Forall₂ Renders accounts value.values)
    (items : ∀ node ∈ value.values, Matched node ∧ MembersMatched node) (i : Nat)
    (inside : i < value.values.length) :
    ∃ least, ∀ fuel, least ≤ fuel →
      (do
        let node ← reading (element src (value.valueAt pos) i)
        parseAccountInfoNode src fuel node) = pure ((accounts.map shownInfo).getD i {}) := by
  have child : value.child (.index i) = some value.values[i] := List.getElem?_eq_getElem inside
  obtain ⟨place, there, accessed⟩ := access_reaches src json_scanned value pos located (.index i)
    (fun node member => (items node (List.mem_of_mem_take member)).1) _ child
  change element src (value.valueAt pos) i = _ at accessed
  have within : i < accounts.length := renders.length_eq ▸ inside
  obtain ⟨least, shown⟩ := node_shown src accounts[i] value.values[i]
    (List.Forall₂.get renders within inside) (items _ (List.getElem_mem inside)).2 place there
  refine ⟨least, fun fuel enough => ?_⟩
  rw [accessed, reading_ok, pure_bind, shown fuel enough, List.getD_eq_getElem?_getD,
    List.getElem?_map, List.getElem?_eq_getElem within]
  rfl

theorem accounts_decode_all (matched : PathMatched document.root) (value : Doc jsonWords)
    (answered : document.root.follow valuePath = some value) (array : value.kind = .array)
    (accounts : List (Option Account)) (renders : List.Forall₂ Renders accounts value.values)
    (items : ∀ node ∈ value.values, Matched node ∧ MembersMatched node) :
    DecodesAll document accounts := by
  obtain ⟨pos, located, walked⟩ := value_reached document matched value answered
  obtain ⟨turns, counted⟩ := array_size_here _ json_scanned value pos located
    fun node member => (items node member).1
  obtain ⟨least, shown⟩ := enough_for_all _ value.values.length
    (item_shown _ value pos located accounts renders items)
  -- Enough turns for the size of the array and for every account in it.
  refine fun pubkeys => ⟨max turns least, ?_⟩
  have size := array_size_more _ _ turns _ counted (max turns least) (Nat.le_max_left _ _)
  have kind : (value.valueAt pos)._type = .array := array
  have all := map_m_total _ _ (List.range value.values.length) fun i member =>
    shown (max turns least) (Nat.le_max_right _ _) i (List.mem_range.mp member)
  have length : value.values.length = (accounts.map shownInfo).length := by
    rw [List.length_map, renders.length_eq]
  rw [getMultipleAccountsInfo, post_answered document matched.start, pure_bind]
  change (reading (walk _ _ valuePath) >>= _) = _
  rw [walked, reading_ok, pure_bind, if_pos kind, size, counting, reading_ok, pure_bind, all, length,
    range_map_get]

/-- Every response whose parsed nodes have their brackets found decodes to what
the server encoded. -/
theorem responses_decode (value : Doc jsonWords)
    (answered : document.root.follow valuePath = some value) (matched : PathMatched document.root) :
    (∀ account, Renders account value → MembersMatched value → Decodes document account) ∧
    ∀ accounts, value.kind = .array → List.Forall₂ Renders accounts value.values →
      (∀ node ∈ value.values, Matched node ∧ MembersMatched node) →
      DecodesAll document accounts :=
  ⟨account_decodes document matched value answered,
    fun accounts array => accounts_decode_all document matched value answered array accounts⟩

end Responses

section OneAccount

theorem plain_spells (text : Text) (plain : ∀ c ∈ text, 32 ≤ c ∧ c ≠ quote ∧ c ≠ backslash) :
    Spells (plainLetters text) text := by
  induction text with
  | nil => exact ⟨[], rfl, rfl⟩
  | cons c rest ih =>
      obtain ⟨here, later⟩ := List.forall_mem_cons.mp plain
      obtain ⟨parts, spelled, denoted⟩ := ih later
      refine ⟨.plain ⟨c, here.1, here.2.1, here.2.2⟩ :: parts, ?_, congrArg (c :: ·) denoted⟩
      rw [plainLetters, List.filterMap_cons_some (dif_pos here), List.map_cons, spelled]
      rfl

def oneLamport : Account where
  lamports := 1
  owner := ofLiteral "1"
  base58 := every_byte _ (by decide)
  data := [1]
  executable := true
  rentEpoch := 0

/-- The account behind a member that the client does not read. -/
def notedAccount (note : List Letter) : Doc jsonWords :=
  .object
    (.more (named "note") (.array (.last noSpace (.string note) noSpace)) noSpace
    (.more (named "lamports") (.number (.ofNat 1)) noSpace
    (.more (named "owner") (.string (plainLetters (ofLiteral "1"))) noSpace
    (.more (named "executable") (.bool true) noSpace
    (.more (named "rentEpoch") (.number (.ofNat 0)) noSpace
    (.last (named "data") (.array
      (.more noSpace (.string (plainLetters (ofLiteral "AQ=="))) noSpace
      (.last noSpace (.string (plainLetters (ofLiteral "base64"))) noSpace))) noSpace))))))

theorem noted_renders (note : List Letter) : RendersAccount oneLamport (notedAccount note) where
  lamports := ⟨_, rfl, number_of_nat_text 1⟩
  owner := ⟨_, rfl, plain_spells _ (every_byte _ (by decide))⟩
  executable := rfl
  rentEpoch := ⟨_, rfl, number_of_nat_text 0⟩
  data := ⟨_, _, _, rfl, rfl, plain_spells _ (every_byte _ (by decide)),
    plain_spells _ (every_byte _ (by decide))⟩

/-- `{"result":{"value":...}}`. -/
def valueResponse (value : Doc jsonWords) : Document jsonWords :=
  compact (.object (.last (named "result") (.object (.last (named "value") value noSpace)) noSpace))

/-- The noted account and a missing one. -/
def accountAndNull (note : List Letter) : Doc jsonWords :=
  .array (.more noSpace (notedAccount note) noSpace (.last noSpace .null noSpace))

theorem quote_note_decodes :
    Decodes (valueResponse (notedAccount [.quote])) (some oneLamport) ∧
      DecodesAll (valueResponse (accountAndNull [.quote])) [some oneLamport, none] := by
  have single : AllClosed (valueResponse (notedAccount [.quote])).root := by decide +kernel
  have node := follow_closed valuePath _ single (notedAccount [.quote]) rfl
  have null : AllClosed (.null : Doc jsonWords) := by decide
  have pair : AllClosed (valueResponse (accountAndNull [.quote])).root := by decide +kernel
  constructor
  · exact (responses_decode _ (notedAccount [.quote]) rfl (path_closed _ single)).1
      (some oneLamport) (noted_renders _) (members_closed _ node)
  · refine (responses_decode _ (accountAndNull [.quote]) rfl (path_closed _ pair)).2 _ rfl
      (.cons (noted_renders _) (.cons rfl .nil)) ?_
    exact List.forall_mem_cons.mpr ⟨⟨json_matched _ node, members_closed _ node⟩,
      List.forall_mem_cons.mpr ⟨⟨json_matched _ null, members_closed _ null⟩, List.forall_mem_nil _⟩⟩

/-- The array around an escaped backslash has no end for the reader, and so the
account has no members behind it. -/
theorem backslash_note_read (fuel : Nat) (pubkey : PublicKey) :
    getAccountInfo (answering (valueResponse (notedAccount [.backslash])).text) fuel pubkey =
      pure { «exists» := true } := by
  have root : parse (cStr (valueResponse (notedAccount [.backslash])).text)
      (valueResponse (notedAccount [.backslash])).text.length =
      .ok ⟨.object, true, 0, 119, false⟩ := by decide +kernel
  have value : walk (cStr (valueResponse (notedAccount [.backslash])).text)
      ⟨.object, true, 0, 119, false⟩ valuePath = .ok ⟨.object, true, 19, 119, false⟩ := by
    decide +kernel
  have absent : ∀ key ∈ accountKeys, member (cStr (valueResponse (notedAccount [.backslash])).text)
      ⟨.object, true, 19, 119, false⟩ key = .ok .absent := by decide +kernel
  simp only [accountKeys, List.forall_mem_cons] at absent
  obtain ⟨lamports, owner, executable, rentEpoch, data, -⟩ := absent
  rw [getAccountInfo, post_parsed _ _ root, pure_bind]
  change (reading (walk _ _ valuePath) >>= _) = _
  rw [value, reading_ok, pure_bind, parseAccountInfoNode, if_neg (by decide), field, lamports, field,
    owner, field, executable, field, rentEpoch, data]
  rfl

/-- The response, char by char, and the account that it does not decode to. -/
theorem backslash_note_lost :
    (valueResponse (notedAccount [.backslash])).text =
        ofLiteral "\x7b\"result\":\x7b\"value\":\x7b\"note\":[\"\\\\\"],\"lamports\":1," ++
          ofLiteral "\"owner\":\"1\",\"executable\":true,\"rentEpoch\":0,\"data\":[\"AQ==\",\"base64\"]\x7d\x7d\x7d" ∧
      (valueResponse (notedAccount [.backslash])).root.follow valuePath =
        some (notedAccount [.backslash]) ∧
      RendersAccount oneLamport (notedAccount [.backslash]) ∧
      ¬ Decodes (valueResponse (notedAccount [.backslash])) (some oneLamport) := by
  refine ⟨by decide +kernel, rfl, noted_renders _, fun decodes => ?_⟩
  obtain ⟨fuel, decoded⟩ := decodes default
  rw [backslash_note_read] at decoded
  have balance := congrArg AccountInfo.lamports (Except.ok.inj (Option.some.inj decoded))
  exact absurd balance (by decide)

end OneAccount

end SolanaSdk.AccountResponses
