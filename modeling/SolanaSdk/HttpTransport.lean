import SolanaSdk.Endpoints
import SolanaSdk.HttpRequests
import SolanaSdk.RpcClient
import SolanaSdk.Streams

/-!
The transport under the RPC client: one connection for each call, a request
text, and a response of which everything up to the first empty line is dropped.
Name resolution, sockets and TLS are the environment; it may cut, delay and end
both streams anywhere.
-/

namespace SolanaSdk.HttpTransport

open ByteData JsonText JsonDocuments Decoders TextLines HttpRequests Streams Endpoints
open RpcClient (Problem)

section Network

/-- How the calls of `send` and `recv` cut the two streams, and what the other end
sends back for what it has received, until it ends the connection. -/
structure Connection where
  outgoing : Flow
  incoming : Flow
  peer : Text → Text

/-- A TLS session lets a part of a buffer through. `SSL_write` succeeds when that
is all of it: partial writes have to be asked for. -/
structure Session where
  through : Int → Nat
  bounded : ∀ num, through num ≤ num.toNat
  incoming : Flow
  peer : Text → Text

def Session.sslWrite (session : Session) (num : Int) : Int :=
  if 0 < num ∧ session.through num = num.toNat then num else -1

inductive Dial (Link : Type) where
  | unresolved
  | noSocket
  | refused
  | connected (link : Link)

structure Network where
  plain : Text → Int → Dial Connection
  /-- There is no session where the handshake fails. -/
  secure : Text → Int → Dial (Option Session)
  context : Bool
  /-- The build flag `SOLANA_SDK_NO_TLS`. -/
  noTls : Bool

end Network

section Posting

structure Exchange where
  delivered : Text
  result : Except Problem Text

def thrown (what : Text) : Exchange := ⟨[], .error (.runtimeError what)⟩

/-- `std::to_string` of an `int`. -/
def toString (number : Int) : Text :=
  if number < 0 then minus :: decimal number.natAbs else decimal number.natAbs

/-- `host.c_str()`, as the resolver reads it. -/
def cName (host : Text) : Text := host.takeWhile (· != 0)

def dialed {Link : Type} (dial : Dial Link) (host : Text) (port : Int)
    (next : Link → Exchange) : Exchange :=
  match dial with
  | .unresolved => thrown (ofLiteral "DNS resolution failed for: " ++ host)
  | .noSocket => thrown (ofLiteral "socket() failed")
  | .refused => thrown (ofLiteral "connect() failed to " ++ host ++ ofLiteral ":" ++ toString port)
  | .connected link => next link

/-- `response.substr(sep + 4)`. -/
def stripHeaders (malformed : String) (response : Text) : Except Problem Text :=
  match findText blankLine response with
  | none => throw (.runtimeError (ofLiteral malformed))
  | some sep => pure (response.drop (sep + 4))

/-- Both receive loops stop alike at the end of the stream and at a failure. -/
def received (incoming : Flow) (answer : Text) : Text := (transfer incoming answer).moved

def httpPost (network : Network) (host : Text) (port : Int) (path body : Text) : Exchange :=
  dialed (network.plain (cName host) port) host port fun link =>
    let sent := transfer link.outgoing (requestText host path body)
    if sent.rest.isEmpty then
      ⟨sent.moved, stripHeaders "Malformed HTTP response"
        (received link.incoming (link.peer sent.moved))⟩
    else ⟨sent.moved, .error (.runtimeError (ofLiteral "send() failed"))⟩

/-- The size of the request becomes an `int`, and the result is compared with zero only. -/
def httpsSend (session : Session) (reqStr : Text) : Exchange :=
  let num := (reqStr.length : Int).bmod (2 ^ 32)
  let delivered := reqStr.take (session.through num)
  if session.sslWrite num ≤ 0 then
    ⟨delivered, .error (.runtimeError (ofLiteral "SSL_write failed"))⟩
  else ⟨delivered, stripHeaders "Malformed HTTPS response"
    (received session.incoming (session.peer delivered))⟩

def httpsPost (network : Network) (host : Text) (port : Int) (path body : Text) : Exchange :=
  if network.noTls then
    thrown (ofLiteral "TLS support disabled at build time (SOLANA_SDK_NO_TLS). " ++
      ofLiteral "Use an HTTP proxy or rebuild with OpenSSL.")
  else if network.context = false then thrown (ofLiteral "SSL_CTX_new failed")
  else dialed (network.secure (cName host) port) host port fun
    | none => thrown (ofLiteral "SSL handshake failed with " ++ host)
    | some session => httpsSend session (requestText host path body)

structure ProxyConfig where
  host : Text := []
  port : Int := 8080
  enabled : Bool := false

structure Client where
  endpoint : Endpoint
  proxy : ProxyConfig

/-- Both constructors; the first one leaves the proxy at its default. -/
def Client.new (endpoint : Text) (proxy : ProxyConfig := {}) : Except PortProblem Client := do
  let parts ← parseEndpoint endpoint
  pure ⟨parts, proxy⟩

def Client.setProxy (client : Client) (proxy : ProxyConfig) : Client := { client with proxy }

def rpcPost (network : Network) (client : Client) (body : Text) : Exchange :=
  if client.proxy.enabled then
    httpPost network client.proxy.host client.proxy.port client.endpoint.path body
  else if client.endpoint.tls then
    httpsPost network client.endpoint.host client.endpoint.port client.endpoint.path body
  else httpPost network client.endpoint.host client.endpoint.port client.endpoint.path body

end Posting

section Delivery

/-- The request that the other end reads from what it has received. -/
def heard (exchange : Exchange) : Option HttpRequest :=
  (readRequest.run exchange.delivered).map Prod.fst

/-- Either the other end has the request, exactly, or it has none and the call throws. -/
def WholeOrNone (request : HttpRequest) (exchange : Exchange) : Prop :=
  heard exchange = some request ∨
    heard exchange = none ∧ ∃ problem, exchange.result = .error problem

variable (target : Target) (body : Text)

theorem heard_whole (exchange : Exchange)
    (whole : exchange.delivered = requestText target.host target.path body) :
    heard exchange = some (target.request body) := by
  have read := recovers_request target body []
  rw [List.append_nil] at read
  rw [heard, whole, read]
  rfl

theorem heard_part (exchange : Exchange) (back : Text) (some : back ≠ [])
    (split : exchange.delivered ++ back = requestText target.host target.path body) :
    heard exchange = none := by
  rw [heard, part_refused readRequest extends_request (target.request body) _ _ back
    (recovers_request target body) split some]
  rfl

theorem request_text_some : requestText target.host target.path body ≠ [] := by
  simp [requestText, ofLiteral]

theorem thrown_none (what : Text) : WholeOrNone (target.request body) (thrown what) :=
  .inr ⟨heard_part target body _ _ (request_text_some target body) (List.nil_append _), _, rfl⟩

theorem dialed_whole_or_none {Link : Type} (dial : Dial Link) (host : Text) (port : Int)
    (next : Link → Exchange)
    (each : ∀ link, WholeOrNone (target.request body) (next link)) :
    WholeOrNone (target.request body) (dialed dial host port next) := by
  cases dial with
  | connected link => exact each link
  | _ => exact thrown_none target body _

theorem http_whole_or_none (network : Network) (port : Int) :
    WholeOrNone (target.request body) (httpPost network target.host port target.path body) := by
  refine dialed_whole_or_none target body _ _ _ _ fun link => ?_
  have split := transfer_splits link.outgoing (requestText target.host target.path body)
  dsimp only
  split
  next all =>
    refine .inl (heard_whole target body _ ?_)
    exact transfer_all link.outgoing _ (List.isEmpty_iff.mp all)
  next part =>
    refine .inr ⟨heard_part target body _ _ (fun none => part ?_) split, _, rfl⟩
    exact List.isEmpty_iff.mpr none

/-- A size that an `int` holds. -/
theorem int_size (length : Nat) (small : length < 2 ^ 31) :
    (length : Int).bmod (2 ^ 32) = length := by
  rw [Int.bmod_eq_of_le (by omega) (by omega)]

theorem https_whole_or_none (network : Network) (port : Int)
    (small : (requestText target.host target.path body).length < 2 ^ 31) :
    WholeOrNone (target.request body) (httpsPost network target.host port target.path body) := by
  unfold httpsPost
  split
  next => exact thrown_none target body _
  next =>
    split
    next => exact thrown_none target body _
    next =>
      refine dialed_whole_or_none target body _ _ _ _ fun link => ?_
      cases link with
      | none => exact thrown_none target body _
      | some session =>
          change WholeOrNone _ (httpsSend session (requestText target.host target.path body))
          unfold httpsSend
          dsimp only
          rw [int_size _ small]
          by_cases all : session.through (requestText target.host target.path body).length =
              (requestText target.host target.path body).length
          · -- Whatever the write returns, everything has got through.
            refine .inl (heard_whole target body _ ?_)
            split <;> exact List.take_of_length_le (Nat.le_of_eq all.symm)
          · have failed : session.sslWrite (requestText target.host target.path body).length ≤ 0 := by
              rw [Session.sslWrite, if_neg (fun both => all both.2)]
              decide
            have bound := session.bounded (requestText target.host target.path body).length
            rw [if_pos failed]
            refine .inr ⟨heard_part target body _ _ ?_ (List.take_append_drop _ _), _, rfl⟩
            intro none
            have length := congrArg List.length none
            rw [List.length_drop, List.length_nil] at length
            have whole : ((requestText target.host target.path body).length : Int).toNat =
              (requestText target.host target.path body).length := Int.toNat_natCast _
            omega

end Delivery

section Runs

inductive Route where
  | plain (host : Text) (port : Int)
  | secure (host : Text) (port : Int)
  deriving DecidableEq

def Route.host : Route → Text
  | .plain host _ => host
  | .secure host _ => host

def along (network : Network) (path body : Text) : Route → Exchange
  | .plain host port => httpPost network host port path body
  | .secure host port => httpsPost network host port path body

namespace Client
variable (client : Client)

def route : Route :=
  if client.proxy.enabled then .plain client.proxy.host client.proxy.port
  else if client.endpoint.tls then .secure client.endpoint.host client.endpoint.port
  else .plain client.endpoint.host client.endpoint.port

/-- The host that the connection is made to, which is also the one in the request. -/
def host : Text := if client.proxy.enabled then client.proxy.host else client.endpoint.host

def request (body : Text) : HttpRequest :=
  ⟨ofLiteral "POST", client.endpoint.path, client.host, body⟩

end Client

inductive Command where
  | setProxy (proxy : ProxyConfig)
  | post (network : Network) (body : Text)

structure Posted where
  client : Client
  body : Text
  exchange : Exchange

/-- The posts of a client whose proxy is set again in between, each in a network of its own. -/
def posts : Client → List Command → List Posted
  | _, [] => []
  | client, .setProxy proxy :: rest => posts (client.setProxy proxy) rest
  | client, .post network body :: rest =>
      ⟨client, body, rpcPost network client body⟩ :: posts client rest

namespace Posted
variable (post : Posted)

def request : HttpRequest := post.client.request post.body

def returned : Bool := post.exchange.result.toBool

def heard : Option HttpRequest := HttpTransport.heard post.exchange

/-- Host and path are visible, and the size of a request over TLS fits an `int`. -/
structure Clean : Prop where
  host : ∀ c ∈ post.client.host, blank < c
  path : ∀ c ∈ post.client.endpoint.path, blank < c
  size : post.client.route = .secure post.client.endpoint.host post.client.endpoint.port →
    (requestText post.client.host post.client.endpoint.path post.body).length < 2 ^ 31

end Posted

theorem rpc_along (network : Network) (client : Client) (body : Text) :
    rpcPost network client body = along network client.endpoint.path body client.route := by
  unfold rpcPost Client.route
  split
  · rfl
  · split <;> rfl

theorem route_host (client : Client) : client.route.host = client.host := by
  unfold Client.route Client.host
  split
  · rfl
  · split <;> rfl

theorem secure_route (client : Client) (host : Text) (port : Int)
    (secure : client.route = .secure host port) :
    host = client.endpoint.host ∧ port = client.endpoint.port := by
  unfold Client.route at secure
  split at secure
  · cases secure
  · split at secure
    · cases secure
      exact ⟨rfl, rfl⟩
    · cases secure

/-- What goes out over TLS from a clean post fits an `int`. -/
theorem clean_size (post : Posted) (clean : post.Clean) (host : Text) (port : Int)
    (secure : post.client.route = .secure host port) :
    (requestText host post.client.endpoint.path post.body).length < 2 ^ 31 := by
  obtain ⟨rfl, rfl⟩ := secure_route post.client host port secure
  have size := clean.size secure
  rwa [← route_host, secure] at size

theorem rpc_whole_or_none (network : Network) (client : Client) (body : Text)
    (clean : Posted.Clean ⟨client, body, rpcPost network client body⟩) :
    WholeOrNone (client.request body) (rpcPost network client body) := by
  have small := clean_size _ clean
  let target : Target := ⟨client.host, client.endpoint.path, clean.host, clean.path⟩
  have same : client.route.host = target.host := route_host client
  change WholeOrNone (target.request body) _
  rw [rpc_along]
  cases route : client.route with
  | plain host port =>
      have host_same : host = target.host := by rw [← same, route, Route.host]
      subst host_same
      exact http_whole_or_none target body network port
  | secure host port =>
      have host_same : host = target.host := by rw [← same, route, Route.host]
      subst host_same
      exact https_whole_or_none target body network port (small _ port route)

theorem posts_whole_or_none (client : Client) (commands : List Command)
    (clean : ∀ post ∈ posts client commands, post.Clean) :
    ∀ post ∈ posts client commands, WholeOrNone post.request post.exchange := by
  induction commands generalizing client with
  | nil => exact List.forall_mem_nil _
  | cons command rest ih =>
      cases command with
      | setProxy proxy => exact ih (client.setProxy proxy) clean
      | post network body =>
          rw [posts] at clean ⊢
          obtain ⟨first, later⟩ := List.forall_mem_cons.mp clean
          exact List.forall_mem_cons.mpr
            ⟨rpc_whole_or_none network client body first, ih client later⟩

/-- Read off in order, the requests that have returned are among those that were
heard, and these are among those that were made: no call is heard twice. -/
theorem heard_at_most_once (client : Client) (commands : List Command)
    (clean : ∀ post ∈ posts client commands, post.Clean) :
    (((posts client commands).filter Posted.returned).map Posted.request).Sublist
        ((posts client commands).filterMap Posted.heard) ∧
      ((posts client commands).filterMap Posted.heard).Sublist
        ((posts client commands).map Posted.request) := by
  have each := posts_whole_or_none client commands clean
  generalize posts client commands = all at each
  induction all with
  | nil => exact ⟨.slnil, .slnil⟩
  | cons post rest ih =>
      obtain ⟨first, later⟩ := List.forall_mem_cons.mp each
      obtain ⟨returned, made⟩ := ih later
      rw [List.map_cons]
      rcases first with whole | ⟨none, problem, failed⟩
      · have here : post.heard = some post.request := whole
        rw [List.filterMap_cons_some here]
        refine ⟨?_, made.cons_cons _⟩
        by_cases done : post.returned = true
        · rw [List.filter_cons_of_pos done, List.map_cons]
          exact returned.cons_cons _
        · rw [List.filter_cons_of_neg done]
          exact returned.cons _
      · have thrown : ¬ post.returned = true := by
          rw [Posted.returned, failed]
          exact Bool.false_ne_true
        have missing : post.heard = Option.none := none
        rw [List.filterMap_cons_none missing, List.filter_cons_of_neg thrown]
        exact ⟨returned, made.cons _⟩

/-- `https://h/` without a proxy. -/
def secureClient : Client := ⟨⟨ofLiteral "h", ofLiteral "/", 443, true⟩, {}⟩

/-- One byte at a time, and an end of the connection that answers nothing. -/
def silent : Network where
  plain _ _ := .connected ⟨single, single, fun _ => []⟩
  secure _ _ := .unresolved
  context := true
  noTls := false

/-- A post over TLS, and one more behind a proxy. -/
def proxiedLater : List Command :=
  [.post silent (ofLiteral "a"), .setProxy ⟨ofLiteral "p", 8080, true⟩, .post silent (ofLiteral "b")]

theorem proxied_later_heard :
    (((posts secureClient proxiedLater).filter Posted.returned).map Posted.request).Sublist
        ((posts secureClient proxiedLater).filterMap Posted.heard) ∧
      ((posts secureClient proxiedLater).filterMap Posted.heard).Sublist
        ((posts secureClient proxiedLater).map Posted.request) := by
  refine heard_at_most_once secureClient proxiedLater ?_
  simp only [proxiedLater, posts, List.forall_mem_cons]
  refine ⟨⟨every_byte _ (by decide), every_byte _ (by decide), fun _ => by decide⟩,
    ⟨every_byte _ (by decide), every_byte _ (by decide), fun never => ?_⟩, List.forall_mem_nil _⟩
  cases never

end Runs
end SolanaSdk.HttpTransport
