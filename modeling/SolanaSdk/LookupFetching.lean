import SolanaSdk.LookupTableAccounts
import SolanaSdk.Submission

/-!
Lookup tables on their way through the client. `getAddressLookupTable` asks a node
for an account and parses its data; a message is then compiled against what has
been fetched, and the chain resolves it against what the tables have become.
-/

namespace SolanaSdk.LookupFetching

open ByteData PublicKeys Instructions JsonText JsonAccess JsonGrammar JsonScanning JsonNavigation
open JsonDocuments JsonTexts JsonWriting RpcClient AccountResponses Base64
open LookupTables LookupTableAccounts VersionedMessage VersionedResolution VersionedLayout
open RpcRequests HttpRequests HttpTransport HttpExchanges RemoteCalls
open Transactions SignedMessage Wire WireDecoding ProgramCalls Delivery

section Method
variable (rpcPost : Text → Call Text)

/-- What a constructor throws passes through. -/
def passing {Value : Type} : Except Failure Value → Call Value
  | .ok value => pure value
  | .error (.runtimeError what) => throwThe Problem (.runtimeError (ofLiteral what))
  | .error (.invalidArgument what) => throwThe Problem (.runtimeError (ofLiteral what))

/-- What is returned, with the contents of `out` after the call. -/
def getAddressLookupTable (fuel : Nat) (altKey : PublicKey) (out : AddressLookupTableAccount) :
    Call (Bool × AddressLookupTableAccount) := do
  let info ← getAccountInfo rpcPost fuel altKey
  if !info.exists || info.data.isEmpty then return (false, out)
  else passing (parse altKey info.data out)

theorem get_address_lookup_table_posts (fuel : Nat) (altKey : PublicKey)
    (out : AddressLookupTableAccount) :
    Posts (getAddressLookupTable · fuel altKey out) (ClientCall.getAccountInfo altKey).body := by
  obtain ⟨next, same⟩ := get_account_info_posts fuel altKey
  refine ⟨fun resp => next resp >>= fun info =>
    if !info.exists || info.data.isEmpty then pure (false, out)
    else passing (parse altKey info.data out), fun rpcPost => ?_⟩
  have asked := same rpcPost
  dsimp only at asked ⊢
  rw [getAddressLookupTable, asked, bind_assoc]

end Method

section Stored

/-- The data hold the addresses in a layout that the parser takes. -/
def Stores (data : Bytes) (keys : List PublicKey) : Prop :=
  Shaped data ∧
    keys.flatMap PublicKey.toBytes = data.drop (addressStart (authorityFlag data))

theorem documented_stores (state : TableState) : Stores state.documented state.addresses := by
  obtain ⟨shaped, -, stored⟩ := (documented_iff state.documented state.addresses).mp
    ⟨state, rfl, rfl⟩
  exact ⟨shaped, stored⟩

theorem stores_unique (data : Bytes) (left right : List PublicKey) (one : Stores data left)
    (two : Stores data right) : left = right := by
  have first := parse_shaped .default ⟨.default, []⟩ data one.1 left one.2
  have second := parse_shaped .default ⟨.default, []⟩ data two.1 right two.2
  have same := Except.ok.inj (first.symm.trans second)
  exact congrArg AddressLookupTableAccount.addresses (congrArg Prod.snd same)

/-- What the call makes of an account: the table, or nothing and `out` as it was. -/
inductive Outcome (altKey : PublicKey) (out : AddressLookupTableAccount) (account : Option Account) :
    Bool × AddressLookupTableAccount → Prop
  | table (stored : Account) (keys : List PublicKey) (present : account = some stored)
      (stores : Stores stored.data keys) : Outcome altKey out account (true, ⟨altKey, keys⟩)
  | nothing (never : ∀ stored keys, account = some stored → ¬ Stores stored.data keys) :
      Outcome altKey out account (false, out)

theorem info_outcome (altKey : PublicKey) (out : AddressLookupTableAccount)
    (account : Option Account) : ∃ result, Outcome altKey out account result ∧
      (if !(shownInfo account).exists || (shownInfo account).data.isEmpty then pure (false, out)
      else passing (parse altKey (shownInfo account).data out)) = (pure result : Call _) := by
  cases account with
  | none => exact ⟨_, .nothing (by rintro _ _ ⟨⟩), rfl⟩
  | some stored =>
      change ∃ result, _ ∧ (if false || stored.data.isEmpty then _
        else passing (parse altKey stored.data out)) = _
      by_cases shaped : Shaped stored.data
      · obtain ⟨keys, listed, parsed⟩ := shaped_parses altKey stored.data out shaped
        have long := Nat.le_trans (header_base_le _) shaped.start
        have given : stored.data ≠ [] := List.ne_nil_of_length_pos (Nat.lt_of_lt_of_le (by decide) long)
        refine ⟨_, .table stored keys rfl ⟨shaped, listed⟩, ?_⟩
        rw [Bool.false_or, if_neg (by simpa using given), parsed]
        rfl
      · refine ⟨_, .nothing ?_, ?_⟩
        · rintro _ keys ⟨⟩ stores
          exact shaped stores.1
        · rw [parse_unshaped altKey out stored.data shaped]
          exact ite_self _

end Stored

section Response

/-- The call returns the value, given enough turns. -/
def Returns {Value : Type} (call : Nat → Call Value) (value : Value) : Prop :=
  ∃ least, ∀ fuel, least ≤ fuel → call fuel = pure value

theorem returns_unique {Value : Type} (call : Nat → Call Value) (left right : Value)
    (one : Returns call left) (two : Returns call right) : left = right := by
  obtain ⟨few, first⟩ := one
  obtain ⟨many, second⟩ := two
  have same := (first (max few many) (Nat.le_max_left _ _)).symm.trans
    (second (max few many) (Nat.le_max_right _ _))
  exact Except.ok.inj (Option.some.inj same)

/-- A response with an account, whose brackets are found as far as they are read. -/
structure ShowsAccount (document : Document jsonWords) (account : Option Account) : Prop where
  matched : PathMatched document.root
  value : ∃ value, document.root.follow valuePath = some value ∧ Renders account value ∧
    MembersMatched value

variable (document : Document jsonWords) (account : Option Account)

theorem info_returned (shows : ShowsAccount document account) (pubkey : PublicKey) :
    Returns (getAccountInfo (answering document.text) · pubkey) (shownInfo account) := by
  obtain ⟨matched, value, answered, renders, members⟩ := shows
  obtain ⟨pos, located, walked⟩ := value_reached document matched value answered
  obtain ⟨least, shown⟩ := node_shown _ account value renders members pos located
  refine ⟨least, fun fuel enough => ?_⟩
  dsimp only
  rw [getAccountInfo, post_answered document matched.start, pure_bind]
  change (reading (walk _ _ valuePath) >>= _) = _
  rw [walked, reading_ok, pure_bind]
  exact shown fuel enough

/-- A fetch returns the stored addresses exactly if the account has data in the
parser's layout, and otherwise false with `out` untouched. -/
theorem table_fetched (shows : ShowsAccount document account) (altKey : PublicKey)
    (out : AddressLookupTableAccount) :
    ∃ result, Outcome altKey out account result ∧
      Returns (getAddressLookupTable (answering document.text) · altKey out) result := by
  obtain ⟨least, shown⟩ := info_returned document account shows altKey
  obtain ⟨result, outcome, returned⟩ := info_outcome altKey out account
  refine ⟨result, outcome, least, fun fuel enough => ?_⟩
  have info := shown fuel enough
  dsimp only at info ⊢
  rw [getAddressLookupTable, info, pure_bind]
  exact returned

end Response

section Fetches
variable (chain : Chain)

/-- A node as it was at some time, and the way to it. Tables have only grown since. -/
structure Source where
  network : Network
  client : Client
  node : Node
  accounts : PublicKey → Option Account
  clean : ∀ pubkey, Posted.Clean ⟨client, (ClientCall.getAccountInfo pubkey).body,
    rpcPost network client (ClientCall.getAccountInfo pubkey).body⟩
  serves : Serves network node.respond client.route
  shows : ∀ pubkey, ∃ document, node.answer (.getAccountInfo pubkey) = document.text ∧
    ShowsAccount document (accounts pubkey)
  grown : ∀ pubkey account keys, accounts pubkey = some account → Stores account.data keys →
    keys <+: chain pubkey

/-- Some call has returned the table, from any node at any time. -/
def Fetched (tbl : AddressLookupTableAccount) : Prop :=
  ∃ (source : Source chain) (out : AddressLookupTableAccount),
    Returns (getAddressLookupTable (transport source.network source.client) · tbl.key out) (true, tbl)

/-- Over HTTP, the call does what it does with the node's answer at hand. -/
theorem source_outcome (source : Source chain) (altKey : PublicKey)
    (out : AddressLookupTableAccount) :
    ∃ result, Outcome altKey out (source.accounts altKey) result ∧
      Returns (getAddressLookupTable (transport source.network source.client) · altKey out)
        result := by
  obtain ⟨-, returned⟩ := post_transparent source.network source.client
    (ClientCall.getAccountInfo altKey).body source.node.respond (source.clean _) source.serves
  obtain ⟨document, answered, shows⟩ := source.shows altKey
  obtain ⟨result, outcome, least, fetched⟩ := table_fetched document _ shows altKey out
  have answer := node_answers source.network source.client source.node (.getAccountInfo altKey)
    returned
  rw [answered] at answer
  refine ⟨result, outcome, least, fun fuel enough => ?_⟩
  have same := posts_same (transport source.network source.client) _ _ _
    (get_address_lookup_table_posts fuel altKey out) answer
  dsimp only at same ⊢
  rw [same]
  exact fetched fuel enough

theorem fetched_holds (lookupTables : List AddressLookupTableAccount)
    (fetched : ∀ tbl ∈ lookupTables, Fetched chain tbl) : chain.Holds lookupTables := by
  intro tbl listed
  obtain ⟨source, out, returned⟩ := fetched tbl listed
  obtain ⟨result, outcome, known⟩ := source_outcome chain source tbl.key out
  have same := returns_unique _ _ _ returned known
  cases outcome with
  | nothing never => cases same
  | table stored keys present stores =>
      have addresses : tbl.addresses = keys :=
        congrArg (fun result => AddressLookupTableAccount.addresses (Prod.snd result)) same
      rw [addresses]
      exact source.grown tbl.key stored keys present stores

variable (calls : List ProgramCall) (instructions : List Instruction) (feePayer : PublicKey)
  (recentBlockhash : Text)

/-- A message over tables that were fetched one by one, from several nodes and
at several times, says what was built when the chain takes it apart. -/
theorem fetched_tables_arrive (built : calls.mapM ProgramCall.build = .ok instructions)
    (short : calls.length ≤ 65535) (lookupTables : List AddressLookupTableAccount)
    (fetched : ∀ tbl ∈ lookupTables, Fetched chain tbl) (bounded : Bounded lookupTables)
    (fits : (combined instructions feePayer lookupTables).length ≤ 256) (tx : TransactionV0)
    (compiles : compile instructions feePayer recentBlockhash lookupTables = .ok tx.message)
    (wire : Bytes) (sent : tx.serialize = .ok wire) : nodeCalls chain wire = some calls :=
  versioned_arrives chain calls instructions feePayer recentBlockhash lookupTables
    (calls_built calls instructions built) short bounded (fetched_holds chain lookupTables fetched)
    fits tx compiles wire sent

end Fetches

section Sample

def tableAccount : Account where
  lamports := 1
  owner := Base58.alphabet
  base58 _ listed := listed
  data := (TableState.mk 0 0 0 none sampleTable.addresses).documented
  executable := false
  rentEpoch := 0

def tableDoc : Doc jsonWords :=
  .object
    (.more (JsonTexts.named "lamports") (.number (.ofNat 1)) noSpace
    (.more (JsonTexts.named "data") (.array
      (.more noSpace (.string (plainLetters (base64Encode tableAccount.data))) noSpace
      (.last noSpace (.string (plainLetters (ofLiteral "base64"))) noSpace))) noSpace
    (.more (JsonTexts.named "owner") (.string (plainLetters Base58.alphabet)) noSpace
    (.more (JsonTexts.named "executable") (.bool false) noSpace
    (.last (JsonTexts.named "rentEpoch") (.number (.ofNat 0)) noSpace)))))

theorem table_doc_renders : RendersAccount tableAccount tableDoc where
  lamports := ⟨_, rfl, number_of_nat_text 1⟩
  owner := ⟨_, rfl, plain_spells _ (every_byte _ (by decide))⟩
  executable := rfl
  rentEpoch := ⟨_, rfl, number_of_nat_text 0⟩
  data := ⟨_, _, _, rfl, rfl, plain_spells _ (Submission.base64_plain _),
    plain_spells _ (every_byte _ (by decide))⟩

theorem table_doc_shown : ShowsAccount (valueResponse tableDoc) (some tableAccount) := by
  have closed : AllClosed (valueResponse tableDoc).root := by decide +kernel
  exact ⟨path_closed _ closed, tableDoc, rfl, table_doc_renders,
    members_closed _ (follow_closed valuePath _ closed tableDoc rfl)⟩

theorem table_doc_fetched :
    ∃ result, Outcome (.filled 100) ⟨.default, []⟩ (some tableAccount) result ∧
      Returns (getAddressLookupTable (answering (valueResponse tableDoc).text) · (.filled 100)
        ⟨.default, []⟩) result :=
  table_fetched (valueResponse tableDoc) (some tableAccount) table_doc_shown (.filled 100) ⟨.default, []⟩

/-- A node that shows the table account to everyone. -/
def showing : Node where
  respond _ := echo ⟨[], [], [], (valueResponse tableDoc).text⟩
  answer _ := (valueResponse tableDoc).text
  reads _ _ _ _ _ := rfl

def grownChain : Chain := fun _ => sampleTable.addresses ++ [.filled 7]

def tableSource : Source grownChain where
  network := ⟨fun _ _ => .connected ⟨Streams.single, Streams.single, serve showing.respond⟩,
    fun _ _ => .unresolved, true, false⟩
  client := plainClient
  node := showing
  accounts _ := some tableAccount
  clean _ := plain_client_clean _ _
  serves := ⟨_, rfl, Streams.single_sure, Streams.single_sure, rfl⟩
  shows _ := ⟨_, rfl, table_doc_shown⟩
  grown _ account keys present stores := by
    cases present
    have stored := documented_stores ⟨0, 0, 0, none, sampleTable.addresses⟩
    rw [stores_unique _ keys _ stores stored]
    exact List.prefix_append _ _

theorem sample_table_fetched : Fetched grownChain sampleTable := by
  obtain ⟨result, outcome, returned⟩ := source_outcome grownChain tableSource (.filled 100)
    ⟨.default, []⟩
  have stored := documented_stores ⟨0, 0, 0, none, sampleTable.addresses⟩
  cases outcome with
  | nothing never => exact absurd stored (never _ _ rfl)
  | table account keys present stores =>
      cases present
      rw [stores_unique _ keys _ stores stored] at returned
      exact ⟨tableSource, ⟨.default, []⟩, returned⟩

theorem fetched_sample_arrives :
    ∃ wire, (TransactionV0.new (compiled sampleInstructions (.filled 6) zeroBlockhash
        [sampleTable])).serialize = .ok wire ∧
      nodeCalls grownChain wire = some sampleCalls := by
  obtain ⟨body, serialized⟩ := serialize_v0_valid
    (compiled sampleInstructions (.filled 6) zeroBlockhash [sampleTable]) zero_blockhash_valid
  have sent := envelope_serialized (TransactionV0.new _) body serialized
  refine ⟨_, sent, ?_⟩
  refine fetched_tables_arrive grownChain sampleCalls sampleInstructions (.filled 6) zeroBlockhash
    sample_built (by decide) [sampleTable] ?_ (by decide) (by decide +kernel) _
    (compile_returns _ _ _ _ (by decide)) _ sent
  intro tbl listed
  rw [List.mem_singleton.mp listed]
  exact sample_table_fetched

end Sample

end SolanaSdk.LookupFetching
