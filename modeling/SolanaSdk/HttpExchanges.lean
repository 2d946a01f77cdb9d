import SolanaSdk.HttpTransport

/-!
What comes back through the transport. A connection that is dropped within the
head of a response is noticed; one that is dropped within the body is not, since
`Content-Length` is never compared. Where nothing fails the client gets what the
other end has answered to the request, however the two streams are cut.
-/

namespace SolanaSdk.HttpExchanges

open ByteData JsonText Decoders TextLines HttpRequests HttpTransport Streams
open RpcClient (Problem)

/-- A status line and fields, an empty line, and any bytes. -/
structure Response where
  head : Lines
  status : head.lines ≠ []
  body : Text

namespace Response
variable (response : Response)

def text : Text := response.head.text ++ (lineEnd ++ response.body)

/-- The size of everything in front of the body. -/
def headSize : Nat := response.head.text.length + lineEnd.length

theorem text_size : response.text.length = response.headSize + response.body.length := by
  simp only [text, headSize, List.length_append, Nat.add_assoc]

end Response

section Stripping

/-- What the client makes of a response of which `size` bytes have arrived. -/
def Cut (malformed : String) (response : Response) (size : Nat) : Except Problem Text :=
  if size < response.headSize then throw (.runtimeError (ofLiteral malformed))
  else pure (response.body.take (size - response.headSize))

theorem strip_missing (malformed : String) (text : Text) (missing : findText blankLine text = none) :
    stripHeaders malformed text = throw (.runtimeError (ofLiteral malformed)) := by
  rw [stripHeaders, missing]

theorem strip_found (malformed : String) (text : Text) (sep : Nat)
    (found : findText blankLine text = some sep) :
    stripHeaders malformed text = pure (text.drop (sep + 4)) := by
  rw [stripHeaders, found]

theorem strip_cut (malformed : String) (response : Response) (size : Nat) :
    stripHeaders malformed (response.text.take size) = Cut malformed response size := by
  obtain ⟨index, found, place⟩ := find_blank_line response.head response.status response.body
  have start : index + 4 = response.headSize := by
    rw [Response.headSize, ← place]
    rfl
  have cut := find_text_take blankLine response.text index (by decide) found size
  have width : blankLine.length = 4 := rfl
  rw [width] at cut
  rw [Cut]
  by_cases short : size < response.headSize
  · rw [if_neg (by omega)] at cut
    rw [if_pos short]
    exact strip_missing malformed _ cut
  · have body : response.text.drop response.headSize = response.body := by
      rw [Response.text, ← List.append_assoc, Response.headSize, ← List.length_append, List.drop_left]
    rw [if_pos (by omega)] at cut
    rw [if_neg short, strip_found malformed _ index cut, start, List.drop_take, body]

theorem strip_received (malformed : String) (response : Response) (incoming : Flow) :
    stripHeaders malformed (received incoming response.text) =
      Cut malformed response (received incoming response.text).length := by
  have moved : received incoming response.text <+: response.text :=
    ⟨_, transfer_splits incoming response.text⟩
  have cut := strip_cut malformed response (received incoming response.text).length
  rwa [← List.prefix_iff_eq_take.mp moved] at cut

end Stripping

section Dropped
variable (network : Network) (body : Text)

/-- The request gets out, and `response` comes back as `incoming` lets it. -/
def Answers (request : Text) (response : Response) (incoming : Flow) : Route → Prop
  | .plain host port => ∃ link, network.plain (cName host) port = .connected link ∧
      (transfer link.outgoing request).rest = [] ∧ link.peer request = response.text ∧
      link.incoming = incoming
  | .secure host port => network.noTls = false ∧ network.context = true ∧
      ∃ session, network.secure (cName host) port = .connected (some session) ∧
        session.through request.length = request.length ∧
        session.peer request = response.text ∧ session.incoming = incoming

def malformed : Route → String
  | .plain _ _ => "Malformed HTTP response"
  | .secure _ _ => "Malformed HTTPS response"

theorem http_answered (host : Text) (port : Int) (path : Text) (response : Response)
    (incoming : Flow)
    (answers : Answers network (requestText host path body) response incoming (.plain host port)) :
    httpPost network host port path body = ⟨requestText host path body,
      Cut "Malformed HTTP response" response (received incoming response.text).length⟩ := by
  obtain ⟨link, connected, sent, answered, rfl⟩ := answers
  have whole := transfer_all link.outgoing _ sent
  rw [httpPost, connected, dialed]
  dsimp only
  rw [sent, if_pos List.isEmpty_nil, whole, answered, strip_received]

theorem https_answered (host : Text) (port : Int) (path : Text) (response : Response)
    (incoming : Flow) (small : (requestText host path body).length < 2 ^ 31)
    (answers : Answers network (requestText host path body) response incoming (.secure host port)) :
    httpsPost network host port path body = ⟨requestText host path body,
      Cut "Malformed HTTPS response" response (received incoming response.text).length⟩ := by
  obtain ⟨tls, context, session, connected, sent, answered, rfl⟩ := answers
  have some : 0 < (requestText host path body).length :=
    List.length_pos_iff.mpr (by simp [requestText, ofLiteral])
  have written : ¬ session.sslWrite (requestText host path body).length ≤ 0 := by
    rw [Session.sslWrite, if_pos ⟨by omega, by rw [sent]; rfl⟩]
    omega
  rw [httpsPost, tls, if_neg (by decide), context, if_neg (by decide), connected, dialed]
  dsimp only
  rw [httpsSend]
  rw [int_size _ small, if_neg written, sent, List.take_length, answered, strip_received]

theorem along_answered (path : Text) (route : Route) (response : Response) (incoming : Flow)
    (small : ∀ host port, route = .secure host port → (requestText host path body).length < 2 ^ 31)
    (answers : Answers network (requestText route.host path body) response incoming route) :
    along network path body route = ⟨requestText route.host path body,
      Cut (malformed route) response (received incoming response.text).length⟩ := by
  cases route with
  | plain host port => exact http_answered network body host port path response incoming answers
  | secure host port =>
      exact https_answered network body host port path response incoming (small host port rfl) answers

/-- A dropped connection is noticed exactly when the head has not arrived; later
the call returns as much of the body as has. -/
theorem dropped_response (client : Client) (response : Response) (incoming : Flow)
    (small : ∀ host port, client.route = .secure host port →
      (requestText host client.endpoint.path body).length < 2 ^ 31)
    (answers : Answers network (requestText client.host client.endpoint.path body) response
      incoming client.route) :
    rpcPost network client body = ⟨requestText client.host client.endpoint.path body,
      Cut (malformed client.route) response (received incoming response.text).length⟩ := by
  rw [← route_host] at answers ⊢
  rw [rpc_along]
  exact along_answered network body _ _ response incoming small answers

end Dropped

section Transparent

/-- The other end reads requests, and answers a complete one only. -/
def serve (node : HttpRequest → Response) (arrived : Text) : Text :=
  match readRequest.run arrived with
  | some (request, _) => (node request).text
  | none => []

/-- Nothing fails on the way to the node, however the streams are cut. -/
def Serves (network : Network) (node : HttpRequest → Response) : Route → Prop
  | .plain host port => ∃ link, network.plain (cName host) port = .connected link ∧
      Sure link.outgoing ∧ Sure link.incoming ∧ link.peer = serve node
  | .secure host port => network.noTls = false ∧ network.context = true ∧
      ∃ session, network.secure (cName host) port = .connected (some session) ∧
        (∀ num, session.through num = num.toNat) ∧ Sure session.incoming ∧
        session.peer = serve node

theorem serve_request (node : HttpRequest → Response) (target : Target) (body : Text) :
    serve node (requestText target.host target.path body) = (node (target.request body)).text := by
  have read := recovers_request target body []
  rw [List.append_nil] at read
  rw [serve, read]

theorem serves_answers (network : Network) (node : HttpRequest → Response) (route : Route)
    (target : Target) (body : Text) (serves : Serves network node route) :
    ∃ incoming, Sure incoming ∧ Answers network (requestText target.host target.path body)
      (node (target.request body)) incoming route := by
  cases route with
  | plain host port =>
      obtain ⟨link, connected, outgoing, incoming, peer⟩ := serves
      refine ⟨link.incoming, incoming, link, connected, transfer_sure _ outgoing _, ?_, rfl⟩
      rw [peer, serve_request]
  | secure host port =>
      obtain ⟨tls, context, session, connected, sent, incoming, peer⟩ := serves
      refine ⟨session.incoming, incoming, tls, context, session, connected, ?_, ?_, rfl⟩
      · exact sent _
      · rw [peer, serve_request]

/-- The transport is a call of the node: it gets the request once, and the body
that it answers comes back. -/
theorem post_transparent (network : Network) (client : Client) (body : Text)
    (node : HttpRequest → Response)
    (clean : Posted.Clean ⟨client, body, rpcPost network client body⟩)
    (serves : Serves network node client.route) :
    heard (rpcPost network client body) = some (client.request body) ∧
      (rpcPost network client body).result = .ok (node (client.request body)).body := by
  let target : Target := ⟨client.host, client.endpoint.path, clean.host, clean.path⟩
  obtain ⟨incoming, sure, answers⟩ :=
    serves_answers network node client.route target body serves
  have same : client.route.host = target.host := route_host client
  rw [← same] at answers
  have posted := along_answered network body client.endpoint.path client.route _ incoming
    (clean_size _ clean) answers
  rw [← rpc_along, same] at posted
  have all := transfer_all incoming _ (transfer_sure incoming sure (node (target.request body)).text)
  refine ⟨heard_whole target body _ (congrArg Exchange.delivered posted), ?_⟩
  rw [posted, received, all, Cut, Response.text_size, if_neg (by omega), Nat.add_sub_cancel_left,
    List.take_length]
  rfl

/-- `HTTP/1.1 200 OK` and the body of the request. -/
def echo (request : HttpRequest) : Response where
  head := ⟨[ofLiteral "HTTP/1.1 200 OK"], fun line member => by
    rw [List.mem_singleton.mp member]
    exact ⟨by decide, by decide⟩⟩
  status := List.cons_ne_nil _ _
  body := request.body

def plainClient : Client := ⟨⟨ofLiteral "h", ofLiteral "/", 80, false⟩, {}⟩

theorem plain_client_clean (network : Network) (body : Text) :
    Posted.Clean ⟨plainClient, body, rpcPost network plainClient body⟩ :=
  ⟨every_byte (ofLiteral "h") (by decide), every_byte (ofLiteral "/") (by decide),
    fun never => by cases never⟩

/-- The first `size` bytes, and then a failure. -/
def droppedAfter (size : Nat) : Flow where
  count turn left := if turn = 0 then ((min left size : Nat) : Int) else 0
  bounded turn left := by
    split <;> omega

def dropping (size : Nat) : Network where
  plain _ _ := .connected ⟨single, droppedAfter size, serve echo⟩
  secure _ _ := .unresolved
  context := true
  noTls := false

theorem dropped_in_body :
    rpcPost (dropping 20) plainClient (ofLiteral "body") =
      ⟨requestText plainClient.host plainClient.endpoint.path (ofLiteral "body"),
        Cut (malformed plainClient.route) (echo (plainClient.request (ofLiteral "body")))
          (received (droppedAfter 20) (echo (plainClient.request (ofLiteral "body"))).text).length⟩ :=
  dropped_response (dropping 20) (ofLiteral "body") plainClient _ (droppedAfter 20)
    (fun _ _ never => by cases never)
    ⟨_, rfl, transfer_sure _ single_sure _,
      serve_request echo ⟨plainClient.host, plainClient.endpoint.path,
        (plain_client_clean (dropping 20) []).host, (plain_client_clean (dropping 20) []).path⟩ _, rfl⟩

end Transparent
end SolanaSdk.HttpExchanges
