import SolanaSdk.Confirmation
import SolanaSdk.JobLedgers
import SolanaSdk.Submission

/-!
A payment from the call that sends it to the poll that confirms it. The cluster
behind the nodes is a ledger of its own: it may drop what it has received, run it
later, roll it back and run it again, and take other transactions in between. A
poll may be lost, and each may go another way.
-/

namespace SolanaSdk.Payments

open ByteData PublicKeys Instructions JsonText JsonAccess JsonGrammar JsonNavigation
open JsonDocuments JsonTexts JsonWriting RpcClient AccountResponses Base64 Transactions
open SigningCompleteness EnvelopeDecoding SignedMessage ProgramCalls Delivery RpcRequests
open RemoteCalls HttpRequests HttpTransport HttpExchanges Submission Confirmation Loops
open JobLedgers

section Clusters

/-- How far a transaction has got. -/
inductive Level where
  | processed
  | confirmed
  | finalized
  deriving DecidableEq

def Level.text : Level → Text
  | .processed => ofLiteral "processed"
  | .confirmed => ofLiteral "confirmed"
  | .finalized => ofLiteral "finalized"

theorem level_listed (level : Level) : level.text ∈ levels := by
  cases level <;> decide

/-- Transactions go by their first signature in Base58. -/
abbrev Cluster := Ledger Text (List ProgramCall) Level

variable (cryptoSignVerifyDetached : Signature → Bytes → PublicKey → Bool) (chain : Chain)

/-- What a node passes on of a call: a transaction that it accepts. -/
def jobOf : ClientCall → Option (Text × List ProgramCall)
  | .sendTransaction base64Tx => do
      let envelope ← decodeEnvelope (base64DecodeRpc base64Tx.val)
      let signature ← envelope.signatures.head?
      let calls ← executed cryptoSignVerifyDetached chain (.sendTransaction base64Tx)
      return (Base58.encode signature.bytes, calls)
  | _ => none

def received (cluster : Cluster) (call : ClientCall) : Cluster :=
  match jobOf cryptoSignVerifyDetached chain call with
  | some job => cluster.arrive job
  | none => cluster

/-- The answer to a transaction is its signature. -/
def Acknowledges (node : Node) (base64Tx : Plain) (signature : Text) : Prop :=
  ∃ (document : Document plainWords) (result : Doc plainWords),
    node.answer (.sendTransaction base64Tx) = document.text ∧
    document.root.follow [.key resultKey] = some result ∧ result.kind = .string ∧
    string result = signature

/-- The level in a status is the one in the ledger. -/
def ShowsLevel (node : Node) (signature : Plain) (cluster : Cluster) : Prop :=
  ∃ document : Document plainWords,
    node.answer (.getSignatureStatuses [signature]) = document.text ∧
    level document = ((cluster.level signature.val).map Level.text).getD []

end Clusters

section Polls

theorem poll_posts (signature : Plain) :
    Posts (poll · signature.val) (ClientCall.getSignatureStatuses [signature]).body :=
  ⟨_, fun _ => rfl⟩

theorem poll_same (remote other : Text → Call Text) (signature : Plain)
    (same : remote (ClientCall.getSignatureStatuses [signature]).body =
      other (ClientCall.getSignatureStatuses [signature]).body) :
    poll remote signature.val = poll other signature.val := by
  obtain ⟨next, posts⟩ := poll_posts signature
  exact (posts remote).trans ((congrArg (· >>= next) same).trans (posts other).symm)

/-- The loop looks at nothing but its clock and its polls. -/
theorem confirm_turn_same (around other : Surroundings) (signature : Plain) (timeoutMs : UInt32)
    (clock : around.clock = other.clock)
    (same : ∀ turn, around.rpcPost turn (ClientCall.getSignatureStatuses [signature]).body =
      other.rpcPost turn (ClientCall.getSignatureStatuses [signature]).body) :
    confirmTurn around signature.val timeoutMs = confirmTurn other signature.val timeoutMs := by
  funext turn
  have elapsed : around.elapsed turn = other.elapsed turn := by
    rw [Surroundings.elapsed, Surroundings.elapsed, clock]
  rw [confirmTurn, confirmTurn, elapsed, poll_same _ _ signature (same turn)]

theorem level_shown_iff (cluster : Cluster) (signature : Text) :
    ((cluster.level signature).map Level.text).getD [] ∈ levels ↔
      signature ∈ cluster.records.map Record.key := by
  cases here : cluster.level signature with
  | none =>
      have absent := (Ledger.level_none_iff cluster signature).mp here
      exact iff_of_false (by decide) absent
  | some level =>
      refine iff_of_true (level_listed level) ?_
      by_contra absent
      rw [(Ledger.level_none_iff cluster signature).mpr absent] at here
      cases here

/-- The result of a sent transaction, where it is a string. -/
theorem sent_answered (document : Document plainWords) (result : Doc plainWords)
    (here : document.root.follow [.key resultKey] = some result) (kind : result.kind = .string)
    (base64Tx : Text) :
    sendTransaction (answering document.text) base64Tx = pure (string result) := by
  obtain ⟨found, walked, shown⟩ := plain_walked document [.key resultKey]
  rw [here] at shown
  change (access _ _ (.key resultKey) >>= pure) = _ at walked
  rw [bind_pure] at walked
  change member _ _ resultKey = _ at walked
  rw [sendTransaction, post, answering, pure_bind, plain_parsed, reading_ok, pure_bind, pure_bind]
  dsimp only
  rw [stringResult, walked, reading_ok, pure_bind, if_pos (shown.type.trans kind), shown.asString]
  rfl

end Polls

section Courses
variable (cryptoSignVerifyDetached : Signature → Bytes → PublicKey → Bool) (chain : Chain)
  (base64Tx signature : Plain) (calls : List ProgramCall)

/-- The surroundings of one payment: the way of each post, the node that it comes to
and the ledger behind. Nobody else signs other calls with the same signature. -/
structure Course where
  client : Client
  sending : Network
  first : Node
  polling : Nat → Network
  nodes : Nat → Node
  clock : Nat → Nat
  begun : clock 0 ≤ clock 1
  slept : ∀ turn, clock (turn + 1) + 2000 * millisecond ≤ clock (turn + 2)
  before : Cluster
  clusters : Nat → Cluster
  cleanSend : Posted.Clean ⟨client, (ClientCall.sendTransaction base64Tx).body,
    rpcPost sending client (ClientCall.sendTransaction base64Tx).body⟩
  cleanPoll : ∀ turn, Posted.Clean ⟨client, (ClientCall.getSignatureStatuses [signature]).body,
    rpcPost (polling turn) client (ClientCall.getSignatureStatuses [signature]).body⟩
  serves : Serves sending first.respond client.route
  acknowledges : Acknowledges first base64Tx signature.val
  carries : Carries signature.val calls before
  arrived : ∀ request (document : Document plainWords) call,
    heard (rpcPost sending client (ClientCall.sendTransaction base64Tx).body) = some request →
    document.text = request.body → readCall (look document.root) = some call →
    Steps (Brings signature.val calls) (received cryptoSignVerifyDetached chain before call)
      (clusters 0)
  onward : ∀ turn, Steps (Brings signature.val calls) (clusters turn) (clusters (turn + 1))
  polled : ∀ turn, Serves (polling turn) (nodes turn).respond client.route ∧
      ShowsLevel (nodes turn) signature (clusters turn) ∨
    ∃ what, (rpcPost (polling turn) client (ClientCall.getSignatureStatuses [signature]).body).result =
      .error (.runtimeError what)

variable {cryptoSignVerifyDetached chain base64Tx signature calls}
  (course : Course cryptoSignVerifyDetached chain base64Tx signature calls)

namespace Course

def around : Surroundings where
  clock := course.clock
  begun := course.begun
  slept := course.slept
  rpcPost turn := transport (course.polling turn) course.client

/-- The poll of the turn gets through, and the transaction is in the ledger then. -/
def Shown (turn : Nat) : Prop :=
  Serves (course.polling turn) (course.nodes turn).respond course.client.route ∧
    signature.val ∈ (course.clusters turn).records.map Record.key

theorem poll_answered (turn : Nat) :
    ∃ answer : Except Text (Document plainWords),
      transport (course.polling turn) course.client
          (ClientCall.getSignatureStatuses [signature]).body =
        ExceptT.mk (some ((answer.map Document.text).mapError Problem.runtimeError)) ∧
      (Reports answer ↔ course.Shown turn) := by
  rcases course.polled turn with ⟨serves, document, answered, levelled⟩ | ⟨what, lost⟩
  · obtain ⟨-, returned⟩ := post_transparent _ _ (ClientCall.getSignatureStatuses [signature]).body
      _ (course.cleanPoll turn) serves
    refine ⟨.ok document, ?_, ?_⟩
    · rw [node_answers _ _ _ _ returned, answered]
      rfl
    · rw [Reports, levelled, level_shown_iff]
      exact (and_iff_right serves).symm
  · refine ⟨.error what, ?_, iff_of_false id ?_⟩
    · rw [transport, lost]
      rfl
    · rintro ⟨serves, -⟩
      obtain ⟨-, returned⟩ := post_transparent _ _ (ClientCall.getSignatureStatuses [signature]).body
        _ (course.cleanPoll turn) serves
      rw [lost] at returned
      cases returned

/-- The loop over the network decides as the ledger does. -/
theorem confirmed_iff (timeoutMs : UInt32) (confirmed : Bool) :
    (∃ fuel, confirmTransaction course.around signature.val timeoutMs fuel =
        some (.ok confirmed)) ↔
      ∃ turn, (∀ earlier < turn, ¬ Expired course.around timeoutMs earlier ∧
          ¬ course.Shown earlier) ∧
        if confirmed then ¬ Expired course.around timeoutMs turn ∧ course.Shown turn
        else Expired course.around timeoutMs turn := by
  choose answers answered shown using course.poll_answered
  let other : Surroundings := { course.around with
    rpcPost turn _ := ExceptT.mk (some (((answers turn).map Document.text).mapError
      Problem.runtimeError)) }
  have turns := confirm_turn_same course.around other signature timeoutMs rfl answered
  have answers_all : Answered other answers := fun _ _ => rfl
  have reports := confirms_iff other signature.val answers answers_all
  rw [confirm_returns_iff, turns,
    returned_iff other signature.val timeoutMs (answered_settles other answers answers_all)]
  simp only [Waits, reports, shown]
  rfl

theorem sent_heard :
    heard (rpcPost course.sending course.client (ClientCall.sendTransaction base64Tx).body) =
        some (course.client.request (ClientCall.sendTransaction base64Tx).body) ∧
      sendTransaction (transport course.sending course.client) base64Tx.val = pure signature.val := by
  obtain ⟨asked, returned⟩ := post_transparent _ _ (ClientCall.sendTransaction base64Tx).body _
    course.cleanSend course.serves
  obtain ⟨document, result, answered, here, kind, text⟩ := course.acknowledges
  have acts := posts_same _ _ _ _ (send_transaction_posts base64Tx)
    (node_answers _ _ _ (.sendTransaction base64Tx) returned)
  refine ⟨asked, ?_⟩
  rw [acts, answered, sent_answered document result here kind, text]

/-- At every poll, whatever has run under the signature are the calls. -/
theorem cluster_carries
    (job : jobOf cryptoSignVerifyDetached chain (.sendTransaction base64Tx) =
      some (signature.val, calls)) (turn : Nat) :
    Carries signature.val calls (course.clusters turn) := by
  induction turn with
  | zero =>
      have arrived := course.arrived _ (callDocument (.sendTransaction base64Tx)) _
        course.sent_heard.1 (call_text _) (call_read _)
      rw [received, job] at arrived
      exact steps_carry _ _ _ _ arrived (arrive_carries _ _ _ course.carries _ fun _ => rfl)
  | succ turn ih => exact steps_carry _ _ _ _ (course.onward turn) ih

end Course

end Courses

section Paid
variable (cryptoSignDetached : Bytes → FixedBytes secretKeyLength → Signature)
  (cryptoSignVerifyDetached : Signature → Bytes → PublicKey → Bool) (chain : Chain)
  (calls : List ProgramCall) (instructions : List Instruction) (feePayer : PublicKey)
  (recentBlockhash : Text)

theorem encode_plain (bytes : Bytes) : PlainText (Base58.encode bytes) :=
  fun c member => alphabet_plain c (encode_listed bytes c member)

/-- The fee payer has a slot, so there is a first signature. -/
theorem payer_slot (few : (distinctAccounts instructions feePayer).card ≤ 255)
    (signers : List Keypair) (tx : Transaction)
    (signed : (Transaction.new (LegacyMessage.compile instructions feePayer recentBlockhash)).sign
      cryptoSignDetached signers = .ok tx) : ∃ first, tx.signatures.head? = some first := by
  obtain ⟨run, -, made⟩ := bind_returned _ _ _ signed
  cases made
  have payer : 0 < (requiredSigners instructions feePayer).card :=
    Finset.card_pos.mpr ⟨feePayer, (mem_required_signers instructions feePayer feePayer).mpr (.inl rfl)⟩
  have size : run.signatures.length = (requiredSigners instructions feePayer).card :=
    run.size.trans (legacy_slots instructions feePayer recentBlockhash few)
  have given : run.signatures ≠ [] := List.ne_nil_of_length_pos (size ▸ payer)
  exact ⟨run.signatures.head given, List.head?_eq_some_head given⟩

end Paid

section Sample

/-- A node that says the same to everyone. -/
def saying (text : Text) : Node where
  respond _ := echo ⟨[], [], [], text⟩
  answer _ := text
  reads _ _ _ _ _ := rfl

def straightTo (node : Node) : Network where
  plain _ _ := .connected ⟨Streams.single, Streams.single, serve node.respond⟩
  secure _ _ := .unresolved
  context := true
  noTls := false

def down : Network where
  plain _ _ := .unresolved
  secure _ _ := .unresolved
  context := true
  noTls := false

theorem straight_serves (node : Node) :
    Serves (straightTo node) node.respond plainClient.route :=
  ⟨_, rfl, Streams.single_sure, Streams.single_sure, rfl⟩

def sentDocument (signature : Plain) : Document plainWords :=
  ⟨noSpace, objectOf "result" (textDoc signature.val) [], noSpace⟩

def statusDocument : Document plainWords :=
  ⟨noSpace, objectOf "result" (objectOf "value" (arrayOf noSpace [objectOf "confirmationStatus"
    (textDoc (ofLiteral "processed")) []]) []) [], noSpace⟩

/-- It waits in the first turn, and has run in the second. -/
def sampleClusters (job : Text × List ProgramCall) : Nat → Cluster
  | 0 => Ledger.empty.arrive job
  | _ + 1 => (Ledger.empty.arrive job).run job .processed List.not_mem_nil

theorem sample_shown (job : Text × List ProgramCall) (turn : Nat) :
    job.1 ∈ (sampleClusters job (turn + 1)).records.map Record.key := List.mem_cons_self

theorem sample_level (job : Text × List ProgramCall) (turn : Nat) :
    ((sampleClusters job (turn + 1)).level job.1) = some .processed := by
  change ((_ :: []).find? _).map _ = _
  rw [List.find?_cons_of_pos (by exact decide_eq_true rfl)]
  rfl

theorem sample_onward (job : Text × List ProgramCall) (allowed : Text × List ProgramCall → Prop)
    (turn : Nat) : Steps allowed (sampleClusters job turn) (sampleClusters job (turn + 1)) := by
  cases turn with
  | zero => exact .single (.run _ job Level.processed List.mem_cons_self List.not_mem_nil)
  | succ turn => exact .refl

section Course
variable (cryptoSignVerifyDetached : Signature → Bytes → PublicKey → Bool) (chain : Chain)
  (base64Tx signature : Plain) (calls : List ProgramCall)
  (job : jobOf cryptoSignVerifyDetached chain (.sendTransaction base64Tx) =
    some (signature.val, calls))

/-- The first poll does not find the host. -/
def sampleCourse : Course cryptoSignVerifyDetached chain base64Tx signature calls where
  client := plainClient
  sending := straightTo (saying (sentDocument signature).text)
  first := saying (sentDocument signature).text
  polling turn := if turn = 0 then down else straightTo (saying statusDocument.text)
  nodes _ := saying statusDocument.text
  clock := (everyTwoSeconds outage).clock
  begun := (everyTwoSeconds outage).begun
  slept := (everyTwoSeconds outage).slept
  before := Ledger.empty
  clusters := sampleClusters (signature.val, calls)
  cleanSend := plain_client_clean _ _
  cleanPoll _ := plain_client_clean _ _
  serves := straight_serves _
  acknowledges := ⟨_, textDoc signature.val, rfl, rfl, rfl,
    text_doc_string signature.val signature.property⟩
  carries := empty_carries _ _
  arrived request document call asked same read := by
    have posted := post_transparent (straightTo (saying (sentDocument signature).text)) plainClient
      (ClientCall.sendTransaction base64Tx).body _ (plain_client_clean _ _) (straight_serves _)
    cases asked.symm.trans posted.1
    cases read.symm.trans (found_call (.sendTransaction base64Tx) document same)
    rw [received, job]
    exact .refl
  onward := sample_onward _ _
  polled turn := by
    cases turn with
    | zero => exact .inr ⟨_, rfl⟩
    | succ turn =>
        refine .inl ⟨straight_serves _, statusDocument, rfl, ?_⟩
        rw [sample_level]
        exact (by decide +kernel : level statusDocument = Level.processed.text)

theorem sample_early (turn : Nat) (soon : turn < 15) :
    ¬ Expired (sampleCourse cryptoSignVerifyDetached chain base64Tx signature calls job).around
      30000 turn := two_seconds_early outage turn soon

end Course

end Sample

end SolanaSdk.Payments
