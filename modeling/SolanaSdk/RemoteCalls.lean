import SolanaSdk.HttpExchanges
import SolanaSdk.RpcRequests

/-!
The client, the transport and a node together. A node reads the calls off the
bodies of HTTP requests and answers them; a method of the client then does what
it does with that answer at hand, and the node has been asked exactly the call.
-/

namespace SolanaSdk.RemoteCalls

open ByteData JsonText JsonGrammar JsonNavigation JsonDocuments RpcClient AccountResponses
open HttpRequests HttpTransport HttpExchanges JsonWriting RpcRequests TextLines Streams

/-- `rpcPost` as the typed methods use it. -/
def transport (network : Network) (client : Client) : Text → Call Text :=
  fun body => ExceptT.mk (some (rpcPost network client body).result)

section Bodies

/-- Each method posts the body of its call, and depends on nothing else of the transport. -/
theorem get_latest_blockhash_posts :
    Posts getLatestBlockhash ClientCall.getLatestBlockhash.body := post_posts _ _ _

theorem send_transaction_posts (base64Tx : Plain) :
    Posts (sendTransaction · base64Tx.val) (ClientCall.sendTransaction base64Tx).body :=
  post_posts _ _ _

theorem get_balance_posts (pubkey : PublicKeys.PublicKey) :
    Posts (getBalance · pubkey) (ClientCall.getBalance pubkey).body := post_posts _ _ _

theorem get_account_info_posts (fuel : Nat) (pubkey : PublicKeys.PublicKey) :
    Posts (getAccountInfo · fuel pubkey) (ClientCall.getAccountInfo pubkey).body := post_posts _ _ _

theorem get_multiple_accounts_posts (fuel : Nat) (pubkeys : List PublicKeys.PublicKey) :
    Posts (getMultipleAccountsInfo · fuel pubkeys)
      (ClientCall.getMultipleAccountsInfo pubkeys).body := post_posts _ _ _

theorem request_airdrop_posts (pubkey : PublicKeys.PublicKey) (lamports : UInt64) :
    Posts (requestAirdrop · pubkey lamports) (ClientCall.requestAirdrop pubkey lamports).body :=
  post_posts _ _ _

theorem get_slot_posts : Posts getSlot ClientCall.getSlot.body := post_posts _ _ _

end Bodies

section Calls
variable (remote : Text → Call Text)

/-- The method of a call does the same with the transport and with an answer at hand. -/
def ActsOn (answer : Text) : ClientCall → Prop
  | .getLatestBlockhash => getLatestBlockhash remote = getLatestBlockhash (answering answer)
  | .sendTransaction base64Tx =>
      sendTransaction remote base64Tx.val = sendTransaction (answering answer) base64Tx.val
  | .simulateTransaction base64Tx replaceRecentBlockhash =>
      simulateTransaction remote base64Tx.val replaceRecentBlockhash = pure answer
  | .getBalance pubkey => getBalance remote pubkey = getBalance (answering answer) pubkey
  | .getAccountInfo pubkey => ∀ fuel,
      getAccountInfo remote fuel pubkey = getAccountInfo (answering answer) fuel pubkey
  | .getMultipleAccountsInfo pubkeys => ∀ fuel,
      getMultipleAccountsInfo remote fuel pubkeys =
        getMultipleAccountsInfo (answering answer) fuel pubkeys
  | .getProgramAccounts programId commitment =>
      getProgramAccounts remote programId commitment.val = pure answer
  | .requestAirdrop pubkey lamports =>
      requestAirdrop remote pubkey lamports = requestAirdrop (answering answer) pubkey lamports
  | .getSignatureStatuses signatures =>
      getSignatureStatuses remote (signatures.map Subtype.val) = pure answer
  | .getSlot => getSlot remote = getSlot (answering answer)

theorem posts_same {Value : Type} (method : (Text → Call Text) → Call Value) (body answer : Text)
    (posts : Posts method body) (answered : remote body = pure answer) :
    method remote = method (answering answer) := by
  obtain ⟨next, same⟩ := posts
  rw [same, same, answered, answering]

theorem acts_on_answer (call : ClientCall) (answer : Text)
    (answered : remote call.body = pure answer) : ActsOn remote answer call := by
  cases call with
  | getLatestBlockhash => exact posts_same remote _ _ _ get_latest_blockhash_posts answered
  | sendTransaction base64Tx =>
      exact posts_same remote _ _ _ (send_transaction_posts base64Tx) answered
  | simulateTransaction base64Tx flag => exact answered
  | getBalance pubkey => exact posts_same remote _ _ _ (get_balance_posts pubkey) answered
  | getAccountInfo pubkey =>
      exact fun fuel => posts_same remote _ _ _ (get_account_info_posts fuel pubkey) answered
  | getMultipleAccountsInfo pubkeys =>
      exact fun fuel => posts_same remote _ _ _ (get_multiple_accounts_posts fuel pubkeys) answered
  | getProgramAccounts programId commitment => exact answered
  | requestAirdrop pubkey lamports =>
      exact posts_same remote _ _ _ (request_airdrop_posts pubkey lamports) answered
  | getSignatureStatuses signatures => exact answered
  | getSlot => exact posts_same remote _ _ _ get_slot_posts answered

end Calls

/-- A node that reads bodies as JSON: the answer depends on the call it finds there. -/
structure Node where
  respond : HttpRequest → Response
  answer : ClientCall → Text
  reads : ∀ (request : HttpRequest) (document : Document plainWords) (call : ClientCall),
    document.text = request.body → readCall (look document.root) = some call →
      (respond request).body = answer call

theorem node_answers (network : Network) (client : Client) (node : Node) (call : ClientCall)
    (returned : (rpcPost network client call.body).result =
      .ok (node.respond (client.request call.body)).body) :
    transport network client call.body = pure (node.answer call) := by
  have read := node.reads (client.request call.body) (callDocument call) call (call_text call)
    (call_read call)
  rw [transport, returned, read]
  rfl

theorem node_acts (network : Network) (client : Client) (node : Node) (call : ClientCall)
    (returned : (rpcPost network client call.body).result =
      .ok (node.respond (client.request call.body)).body) :
    ActsOn (transport network client) (node.answer call) call :=
  acts_on_answer _ call _ (node_answers network client node call returned)

/-- A node that says `7` to everything. -/
def seven : Node where
  respond _ := ⟨(echo ⟨[], [], [], []⟩).head, (echo ⟨[], [], [], []⟩).status,
    ofLiteral "\x7b\"result\":7\x7d"⟩
  answer _ := ofLiteral "\x7b\"result\":7\x7d"
  reads _ _ _ _ _ := rfl

def toSeven : Network where
  plain _ _ := .connected ⟨single, single, serve seven.respond⟩
  secure _ _ := .unresolved
  context := true
  noTls := false

end SolanaSdk.RemoteCalls
