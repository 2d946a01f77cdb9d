import Mathlib.Data.List.TakeWhile
import SolanaSdk.JsonDocuments

/-!
The endpoint of an RPC client, taken apart into scheme, host, port and path. The
host ends at the last colon before the first slash, so a bracketed address keeps
its colons only where a port stands behind it.
-/

namespace SolanaSdk.Endpoints

open ByteData JsonText JsonScanning JsonDocuments

abbrev slash : UInt8 := 47

section Parsing

/-- `std::string::find` of a char. -/
def find (c : UInt8) (text : Text) : Option Nat := text.findIdx? (· == c)

/-- `std::string::rfind` of a char. -/
def rfind (c : UInt8) : Text → Option Nat
  | [] => none
  | first :: rest =>
      match rfind c rest with
      | some index => some (index + 1)
      | none => if first = c then some 0 else none

/-- What `std::stoi` throws. -/
inductive PortProblem where
  | invalidArgument
  | outOfRange
  deriving DecidableEq

def isSpace (c : UInt8) : Bool := c == 32 || 9 ≤ c && c ≤ 13

def signed : Text → Bool × Text
  | [] => (false, [])
  | c :: rest =>
      if c = minus then (true, rest) else if c = plus then (false, rest) else (false, c :: rest)

/-- `std::stoi` in base ten. Chars behind the digits are ignored. -/
def stoi (str : Text) : Except PortProblem Int :=
  let (negative, unsigned) := signed (str.dropWhile isSpace)
  let digits := unsigned.takeWhile isDigit
  let magnitude : Nat := digits.foldl (fun acc c => acc * 10 + (c.toNat - 48)) 0
  let value : Int := if negative then -magnitude else magnitude
  if digits.isEmpty then throw .invalidArgument
  else if value < -2 ^ 31 ∨ 2 ^ 31 ≤ value then throw .outOfRange
  else pure value

structure Endpoint where
  host : Text
  path : Text
  port : Int
  tls : Bool
  deriving DecidableEq

def httpsPrefix : Text := ofLiteral "https://"
def httpPrefix : Text := ofLiteral "http://"

/-- The flag, the default port and what stands behind the scheme. -/
def splitScheme (url : Text) : Bool × Int × Text :=
  if url.take 8 = httpsPrefix then (true, 443, url.drop 8)
  else if url.take 7 = httpPrefix then (false, 80, url.drop 7)
  else (false, 80, url)

def splitPath (url : Text) : Text × Text :=
  match find slash url with
  | none => (url, [slash])
  | some index => (url.take index, url.drop index)

def parseEndpoint (endpoint : Text) : Except PortProblem Endpoint := do
  let (tls, port, url) := splitScheme endpoint
  let (hostPort, path) := splitPath url
  match rfind colon hostPort with
  | some index => do
      let port ← stoi (hostPort.drop (index + 1))
      pure ⟨hostPort.take index, path, port, tls⟩
  | none => pure ⟨hostPort, path, port, tls⟩

end Parsing

section Addresses

inductive Scheme where
  | absent
  | http
  | https
  deriving DecidableEq

def Scheme.text : Scheme → Text
  | absent => []
  | http => httpPrefix
  | https => httpsPrefix

/-- A host name: nothing that ends the authority of a URL or sets off its port. -/
def Name (host : Text) : Prop := host ≠ [] ∧ ∀ c ∈ host, c ∉ [slash, colon, 63, 35]

/-- A bracketed IPv6 literal, with any chars inside that could stand in one:
hexadecimal digits, points and a zone, and at least one colon. -/
def Literal (host : Text) : Prop :=
  ∃ inner, host = openBracket :: (inner ++ [closeBracket]) ∧ colon ∈ inner ∧
    ∀ c ∈ inner, c ∉ [slash, 63, 35, openBracket, closeBracket]

/-- The parts of an endpoint URL. -/
structure Address where
  scheme : Scheme
  host : Text
  hostTaken : Name host ∨ Literal host
  port : Option { port : Nat // 1 ≤ port ∧ port ≤ 65535 }
  path : Text
  rooted : path = [] ∨ path.head? = some slash

namespace Address

def portText (address : Address) : Text :=
  match address.port with
  | none => []
  | some port => colon :: decimal port.val

def authority (address : Address) : Text := address.host ++ address.portText

def url (address : Address) : Text :=
  address.scheme.text ++ (address.authority ++ address.path)

def defaultPort (address : Address) : Int := if address.scheme = .https then 443 else 80

/-- The endpoint that a URL of these parts names. -/
def endpoint (address : Address) : Endpoint where
  host := address.host
  path := if address.path = [] then [slash] else address.path
  port := match address.port with
    | none => address.defaultPort
    | some port => port.val
  tls := address.scheme = .https

end Address
end Addresses

section Searches

theorem find_absent (c : UInt8) (text : Text) (absent : c ∉ text) : find c text = none := by
  rw [find, List.findIdx?_eq_none_iff]
  intro other member
  exact beq_eq_false_iff_ne.mpr fun same => absent (same ▸ member)

theorem find_first (c : UInt8) (front back : Text) (absent : c ∉ front) :
    find c (front ++ c :: back) = some front.length := by
  have missed := find_absent c front absent
  rw [find] at missed ⊢
  rw [List.findIdx?_append, missed, List.findIdx?_cons, if_pos (beq_self_eq_true c)]
  simp

theorem rfind_absent (c : UInt8) (text : Text) (absent : c ∉ text) : rfind c text = none := by
  induction text with
  | nil => rfl
  | cons first rest ih =>
      rw [List.mem_cons, not_or] at absent
      rw [rfind, ih absent.2]
      exact if_neg fun same => absent.1 same.symm

theorem rfind_last (c : UInt8) (front back : Text) (absent : c ∉ back) :
    rfind c (front ++ c :: back) = some front.length := by
  induction front with
  | nil =>
      rw [List.nil_append, rfind, rfind_absent c back absent]
      exact if_pos rfl
  | cons first rest ih => rw [List.cons_append, rfind, ih, List.length_cons]

theorem rfind_inside (c : UInt8) (text : Text) (member : c ∈ text) :
    ∃ index, rfind c text = some index ∧ index < text.length := by
  induction text with
  | nil => cases member
  | cons first rest ih =>
      by_cases later : c ∈ rest
      · obtain ⟨index, found, inside⟩ := ih later
        exact ⟨index + 1, by rw [rfind, found], Nat.succ_lt_succ inside⟩
      · have here : first = c := ((List.mem_cons.mp member).resolve_right later).symm
        refine ⟨0, ?_, Nat.succ_pos _⟩
        rw [rfind, rfind_absent c rest later]
        exact if_pos here

end Searches

section Ports

/-- The digits of a port are read completely, from the first char on. -/
theorem stoi_decimal (port : Nat) (small : port ≤ 65535) : stoi (decimal port) = .ok port := by
  have digital := decimal_digits port
  obtain ⟨letter, rest, spelled⟩ := List.exists_cons_of_ne_nil (decimal_some port)
  have digit : isDigit letter = true := digital letter (spelled ▸ List.mem_cons_self)
  obtain ⟨-, -, unsigned, noMinus⟩ := digit_no_mark letter digit
  have noSpace : isSpace letter = false := by
    have every : ∀ code : Fin 256, isDigit (UInt8.ofNat code) = true →
        isSpace (UInt8.ofNat code) = false := by decide +kernel
    have here := every ⟨letter.toNat, letter.toNat_lt⟩
    rw [UInt8.ofNat_toNat] at here
    exact here digit
  have apart : letter ≠ minus ∧ letter ≠ plus := by
    constructor
    · rintro rfl
      cases noMinus
    · rintro rfl
      cases unsigned
  have skipped : (decimal port).dropWhile isSpace = decimal port := by
    rw [spelled]
    exact List.dropWhile_cons_of_neg (by simp [noSpace])
  have noSign : signed (decimal port) = (false, decimal port) := by
    rw [spelled, signed, if_neg apart.1, if_neg apart.2]
  have all : (decimal port).takeWhile isDigit = decimal port :=
    List.takeWhile_eq_self_iff.mpr digital
  have some : (decimal port).isEmpty = false := by
    rw [spelled]
    rfl
  rw [stoi, skipped, noSign]
  simp only [all, some, decimal_value, Bool.false_eq_true, if_false]
  rw [if_neg (by omega)]
  rfl

end Ports

section Parts

variable (address : Address)

theorem no_slash_in_host : slash ∉ address.host := by
  intro member
  rcases address.hostTaken with ⟨-, plain⟩ | ⟨inner, spelled, -, plain⟩
  · exact absurd (plain slash member) (by decide)
  · rw [spelled, List.mem_cons, List.mem_append, List.mem_singleton] at member
    rcases member with same | inside | same
    · exact absurd same (by decide)
    · exact absurd (plain slash inside) (by decide)
    · exact absurd same (by decide)

theorem digit_apart (port : Nat) (c : UInt8) (member : c ∈ decimal port) :
    c ≠ slash ∧ c ≠ colon := by
  have digit := decimal_digits port c member
  constructor
  · rintro rfl
    cases digit
  · rintro rfl
    cases digit

theorem no_slash_in_authority : slash ∉ address.authority := by
  intro member
  rcases List.mem_append.mp member with host | port
  · exact no_slash_in_host address host
  · unfold Address.portText at port
    split at port
    · cases port
    · rcases List.mem_cons.mp port with same | digit
      · exact absurd same (by decide)
      · exact (digit_apart _ slash digit).1 rfl

/-- No authority ends in a colon, so none is the beginning of a scheme. -/
theorem authority_last : address.authority.getLast? ≠ some colon := by
  intro last
  rw [Address.authority, Address.portText] at last
  split at last
  · rw [List.append_nil] at last
    rcases address.hostTaken with ⟨-, plain⟩ | ⟨inner, spelled, -, -⟩
    · exact absurd (plain colon (List.mem_of_getLast? last)) (by decide)
    · rw [spelled, ← List.cons_append, List.getLast?_concat] at last
      exact absurd (Option.some.inj last) (by decide)
  · rename_i port _
    obtain ⟨letter, rest, spelled⟩ := List.exists_cons_of_ne_nil (decimal_some port.val)
    rw [List.getLast?_append_of_ne_nil _ (List.cons_ne_nil _ _), spelled,
      List.getLast?_cons_cons, ← spelled] at last
    exact (digit_apart _ colon (List.mem_of_getLast? last)).2 rfl

theorem path_cases : address.path = [] ∨ ∃ rest, address.path = slash :: rest := by
  rcases address.rooted with empty | first
  · exact .inl empty
  · cases spelled : address.path with
    | nil => exact .inl rfl
    | cons c rest =>
        rw [spelled] at first
        exact .inr ⟨rest, congrArg (· :: rest) (Option.some.inj first)⟩

/-- What precedes the first slash behind the scheme is the authority. -/
theorem before_slash :
    (address.authority ++ address.path).takeWhile (· != slash) = address.authority := by
  have kept : ∀ c ∈ address.authority, (c != slash) = true := by
    intro c member
    exact bne_iff_ne.mpr fun same => no_slash_in_authority address (same ▸ member)
  rw [List.takeWhile_append_of_pos kept]
  rcases path_cases address with empty | ⟨rest, first⟩
  · rw [empty, List.takeWhile_nil, List.append_nil]
  · rw [first, List.takeWhile_cons_of_neg (by decide), List.append_nil]

theorem split_path : splitPath (address.authority ++ address.path) =
    (address.authority, address.endpoint.path) := by
  rw [splitPath]
  rcases path_cases address with empty | ⟨rest, first⟩
  · have missed := find_absent slash address.authority (no_slash_in_authority address)
    rw [empty, List.append_nil, missed, Address.endpoint, empty]
    rfl
  · rw [first, find_first slash _ rest (no_slash_in_authority address), Address.endpoint, first]
    simp

/-- Without a scheme no prefix of the URL is taken for one. -/
theorem no_scheme (rest front : Text) (last : front.getLast? = some colon)
    (plain : ∀ c ∈ front, (c != slash) = true) :
    address.authority ++ address.path ≠ front ++ slash :: rest := by
  intro same
  have before := before_slash address
  rw [same, List.takeWhile_append_of_pos plain, List.takeWhile_cons_of_neg (by decide),
    List.append_nil] at before
  exact authority_last address (before ▸ last)

theorem split_scheme : splitScheme address.url =
    (address.endpoint.tls, address.defaultPort, address.authority ++ address.path) := by
  rw [Address.url, splitScheme]
  cases chosen : address.scheme with
  | https =>
      have front : (httpsPrefix ++ (address.authority ++ address.path)).take 8 = httpsPrefix := rfl
      rw [Scheme.text, if_pos front]
      simp only [Address.endpoint, Address.defaultPort, chosen]
      rfl
  | http =>
      have apart : (httpPrefix ++ (address.authority ++ address.path)).take 8 ≠ httpsPrefix := by
        intro same
        have fifth : some colon = some (115 : UInt8) := congrArg (·[4]?) same
        exact absurd fifth (by decide)
      have front : (httpPrefix ++ (address.authority ++ address.path)).take 7 = httpPrefix := rfl
      rw [Scheme.text, if_neg apart, if_pos front]
      simp only [Address.endpoint, Address.defaultPort, chosen]
      rfl
  | absent =>
      have noHttps : (address.authority ++ address.path).take 8 ≠ httpsPrefix := by
        intro same
        refine no_scheme address (slash :: (address.authority ++ address.path).drop 8)
          (ofLiteral "https:") rfl (every_byte _ (by decide)) ?_
        rw [← List.take_append_drop 8 (address.authority ++ address.path), same]
        simp [httpsPrefix, ofLiteral]
      have noHttp : (address.authority ++ address.path).take 7 ≠ httpPrefix := by
        intro same
        refine no_scheme address (slash :: (address.authority ++ address.path).drop 7)
          (ofLiteral "http:") rfl (every_byte _ (by decide)) ?_
        rw [← List.take_append_drop 7 (address.authority ++ address.path), same]
        simp [httpPrefix, ofLiteral]
      rw [Scheme.text, List.nil_append, if_neg noHttps, if_neg noHttp]
      simp only [Address.endpoint, Address.defaultPort, chosen]
      rfl

end Parts

/-- An endpoint is taken apart as written exactly where its host is a name or a
port follows it: the last colon of a bare bracketed address is its own. -/
theorem endpoint_parsed (address : Address) :
    parseEndpoint address.url = .ok address.endpoint ↔
      Name address.host ∨ address.port.isSome = true := by
  have opened : parseEndpoint address.url = (match rfind colon address.authority with
      | some index => do
          let port ← stoi (address.authority.drop (index + 1))
          pure ⟨address.authority.take index, address.endpoint.path, port, address.endpoint.tls⟩
      | none =>
          pure ⟨address.authority, address.endpoint.path, address.defaultPort,
            address.endpoint.tls⟩) := by
    rw [parseEndpoint, split_scheme]
    simp only [split_path]
  rw [opened]
  cases given : address.port with
  | some port =>
      have spelled : address.authority = address.host ++ colon :: decimal port.val := by
        rw [Address.authority, Address.portText, given]
      have found : rfind colon address.authority = some address.host.length := by
        rw [spelled]
        exact rfind_last colon _ _ fun member => (digit_apart _ colon member).2 rfl
      have host : address.authority.take address.host.length = address.host := by
        rw [spelled, List.take_left]
      have rest : address.authority.drop (address.host.length + 1) = decimal port.val := by
        rw [spelled, List.drop_length_add_append]
        rfl
      rw [found]
      simp only [host, rest, stoi_decimal port.val port.property.2]
      refine iff_of_true ?_ (.inr rfl)
      rw [Address.endpoint, given]
      rfl
  | none =>
      have spelled : address.authority = address.host := by
        rw [Address.authority, Address.portText, given, List.append_nil]
      rw [spelled]
      rcases address.hostTaken with name | literal
      · have missed := rfind_absent colon address.host fun member =>
          absurd (name.2 colon member) (by decide)
        rw [missed]
        refine iff_of_true ?_ (.inl name)
        rw [Address.endpoint, given]
        rfl
      · obtain ⟨inner, bracketed, coloned, -⟩ := literal
        have member : colon ∈ address.host := by
          rw [bracketed]
          exact List.mem_cons_of_mem _ (List.mem_append_left _ coloned)
        obtain ⟨index, found, inside⟩ := rfind_inside colon address.host member
        rw [found]
        refine iff_of_false ?_ ?_
        · -- The host that is kept lacks at least the colon.
          intro parsed
          obtain ⟨port, read, kept⟩ := bind_returned _ _ _ parsed
          have short : address.host.take index = address.host :=
            congrArg Endpoint.host (Except.ok.inj kept)
          have length := congrArg List.length short
          rw [List.length_take] at length
          omega
        · rintro (name | given)
          · exact absurd (name.2 colon member) (by decide)
          · cases given

/-- `http://[::1]`. -/
def loopback : Address where
  scheme := .http
  host := ofLiteral "[::1]"
  hostTaken := .inr ⟨ofLiteral "::1", rfl, by decide, every_byte _ (by decide)⟩
  port := none
  path := []
  rooted := .inl rfl

theorem loopback_misread :
    parseEndpoint loopback.url = .ok ⟨ofLiteral "[:", [slash], 1, false⟩ ∧
      ¬ ∀ address : Address, parseEndpoint address.url = .ok address.endpoint := by
  have misread : parseEndpoint loopback.url = .ok ⟨ofLiteral "[:", [slash], 1, false⟩ := by
    decide +kernel
  refine ⟨misread, fun every => ?_⟩
  have host := congrArg Endpoint.host (Except.ok.inj (misread.symm.trans (every loopback)))
  exact absurd host (by decide)

end SolanaSdk.Endpoints
