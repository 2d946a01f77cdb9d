import SolanaSdk.JsonDocuments
import SolanaSdk.TextLines

/-!
The HTTP requests of the RPC client, and a reader of such requests that stands
for the other end: a request line, fields, and a body of `Content-Length` bytes.
It recovers host, path and body, and takes nothing for a request that is only a
part of one.
-/

namespace SolanaSdk.HttpRequests

open ByteData JsonText JsonScanners JsonScanning JsonDocuments Decoders TextLines

abbrev blank : UInt8 := 32

/-- Both transports stream the same text together. -/
def requestText (host path body : Text) : Text :=
  ofLiteral "POST " ++ path ++ ofLiteral " HTTP/1.1\r\n" ++
    ofLiteral "Host: " ++ host ++ ofLiteral "\r\n" ++
    ofLiteral "Content-Type: application/json\r\n" ++
    ofLiteral "Content-Length: " ++ decimal body.length ++ ofLiteral "\r\n" ++
    ofLiteral "Connection: close\r\n" ++
    ofLiteral "\r\n" ++
    body

section Peer

structure HttpRequest where
  method : Text
  path : Text
  host : Text
  body : Text
  deriving DecidableEq

structure RequestHead where
  method : Text
  path : Text
  host : Text
  contentLength : Nat

/-- The part of a line before the first blank, and the part behind it. -/
def word (line : Text) : Text × Text :=
  (line.takeWhile (· != blank), (line.dropWhile (· != blank)).tail)

def fieldName (line : Text) : Text := line.takeWhile (· != colon)

/-- What stands behind the colon and the blanks after it. -/
def fieldText (line : Text) : Text :=
  ((line.dropWhile (· != colon)).tail).dropWhile (· == blank)

def fieldOf (name : Text) (lines : List Text) : Option Text :=
  (lines.find? fun line => fieldName line == name).map fieldText

def numberOf (digits : Text) : Option Nat :=
  if digits ≠ [] ∧ digits.all isDigit = true then
    some (digits.foldl (fun acc c => acc * 10 + (c.toNat - 48)) 0)
  else none

def judgeHead : List Text → Option RequestHead
  | [] => none
  | requestLine :: fields =>
      let (method, rest) := word requestLine
      let (path, version) := word rest
      if version = ofLiteral "HTTP/1.1" then
        match fieldOf (ofLiteral "Host") fields,
          (fieldOf (ofLiteral "Content-Length") fields).bind numberOf with
        | some host, some contentLength => some ⟨method, path, host, contentLength⟩
        | _, _ => none
      else none

def readRequest : Decoder UInt8 HttpRequest := do
  let lines ← readHead
  let head ← judge (judgeHead lines)
  let body ← exactly head.contentLength
  pure ⟨head.method, head.path, head.host, body.val⟩

end Peer

/-- Where a request goes: no control characters and no blanks in either part. -/
structure Target where
  host : Text
  path : Text
  hostVisible : ∀ c ∈ host, blank < c
  pathVisible : ∀ c ∈ path, blank < c

def Target.request (target : Target) (body : Text) : HttpRequest where
  method := ofLiteral "POST"
  path := target.path
  host := target.host
  body := body

section Lexing

theorem visible_apart (text : Text) (visible : ∀ c ∈ text, blank < c) :
    (13 : UInt8) ∉ text ∧ blank ∉ text :=
  ⟨fun member => absurd (visible 13 member) (by decide),
    fun member => absurd (visible blank member) (by decide)⟩

theorem span_reads (stop : UInt8) (front rest : Text) (absent : stop ∉ front) :
    (front ++ stop :: rest).takeWhile (· != stop) = front ∧
      ((front ++ stop :: rest).dropWhile (· != stop)).tail = rest := by
  have kept : ∀ c ∈ front, (c != stop) = true := fun c member =>
    bne_iff_ne.mpr fun same => absent (same ▸ member)
  constructor
  · rw [List.takeWhile_append_of_pos kept, List.takeWhile_cons_of_neg (by simp), List.append_nil]
  · rw [List.dropWhile_append_of_pos kept, List.dropWhile_cons_of_neg (by simp), List.tail_cons]

theorem word_reads (front rest : Text) (absent : blank ∉ front) :
    word (front ++ blank :: rest) = (front, rest) := by
  obtain ⟨taken, left⟩ := span_reads blank front rest absent
  rw [word, taken, left]

/-- A field as the client writes it. -/
def fieldLine (name value : Text) : Text := name ++ colon :: blank :: value

theorem field_line_reads (name value : Text) (plain : colon ∉ name) (visible : blank ∉ value) :
    fieldName (fieldLine name value) = name ∧ fieldText (fieldLine name value) = value := by
  obtain ⟨taken, left⟩ := span_reads colon name (blank :: value) plain
  refine ⟨taken, ?_⟩
  rw [fieldText, fieldLine, left, List.dropWhile_cons_of_pos (by simp)]
  cases value with
  | nil => rfl
  | cons c rest =>
      rw [List.dropWhile_cons_of_neg]
      exact fun same => visible (beq_iff_eq.mp same ▸ List.mem_cons_self)

theorem field_here (name value : Text) (lines : List Text) (plain : colon ∉ name)
    (visible : blank ∉ value) : fieldOf name (fieldLine name value :: lines) = some value := by
  obtain ⟨named, text⟩ := field_line_reads name value plain visible
  rw [fieldOf, List.find?_cons_of_pos (by rw [named]; exact beq_self_eq_true name), Option.map_some,
    text]

theorem field_behind (name other value : Text) (lines : List Text) (plain : colon ∉ other)
    (apart : other ≠ name) : fieldOf name (fieldLine other value :: lines) = fieldOf name lines := by
  have named : fieldName (fieldLine other value) = other :=
    (span_reads colon other (blank :: value) plain).1
  rw [fieldOf, List.find?_cons_of_neg]
  · rfl
  · rw [named]
    exact fun same => apart (beq_iff_eq.mp same)

theorem number_of_decimal (number : Nat) : numberOf (decimal number) = some number := by
  have all : (decimal number).all isDigit = true := List.all_eq_true.mpr (decimal_digits number)
  rw [numberOf, if_pos ⟨decimal_some number, all⟩, decimal_value]

end Lexing

section Written
variable (target : Target) (body : Text)

def requestLines : List Text :=
  [ofLiteral "POST" ++ blank :: (target.path ++ blank :: ofLiteral "HTTP/1.1"),
    fieldLine (ofLiteral "Host") target.host,
    fieldLine (ofLiteral "Content-Type") (ofLiteral "application/json"),
    fieldLine (ofLiteral "Content-Length") (decimal body.length),
    fieldLine (ofLiteral "Connection") (ofLiteral "close")]

theorem decimal_apart (number : Nat) (c : UInt8) (other : isDigit c = false) :
    c ∉ decimal number := by
  intro member
  have digit := decimal_digits number c member
  rw [other] at digit
  cases digit

theorem request_lines_whole :
    ∀ line ∈ requestLines target body, line ≠ [] ∧ (13 : UInt8) ∉ line := by
  obtain ⟨host, -⟩ := visible_apart target.host target.hostVisible
  obtain ⟨path, -⟩ := visible_apart target.path target.pathVisible
  have length := decimal_apart body.length 13 rfl
  have literal : ∀ text : Text, (text.all (· != 13)) = true → (13 : UInt8) ∉ text := by
    intro text checked member
    exact absurd (List.all_eq_true.mp checked 13 member) (by decide)
  have field : ∀ name value : Text, (name.all (· != 13)) = true → (13 : UInt8) ∉ value →
      fieldLine name value ≠ [] ∧ (13 : UInt8) ∉ fieldLine name value := by
    intro name value checked plain
    refine ⟨by simp [fieldLine], fun member => ?_⟩
    rcases List.mem_append.mp member with front | back
    · exact literal name checked front
    · simp only [List.mem_cons] at back
      rcases back with same | same | back
      · exact absurd same (by decide)
      · exact absurd same (by decide)
      · exact plain back
  have first : (13 : UInt8) ∉
      ofLiteral "POST" ++ blank :: (target.path ++ blank :: ofLiteral "HTTP/1.1") := by
    simp only [List.mem_append, List.mem_cons, not_or]
    exact ⟨literal _ (by decide), by decide, path, by decide, literal _ (by decide)⟩
  simp only [requestLines, List.forall_mem_cons]
  exact ⟨⟨by simp [ofLiteral], first⟩, field _ _ (by decide) host,
    field _ _ (by decide) (literal _ (by decide)), field _ _ (by decide) length,
    field _ _ (by decide) (literal _ (by decide)), List.forall_mem_nil _⟩

def requestHead : Lines := ⟨requestLines target body, request_lines_whole target body⟩

theorem request_text_lines :
    requestText target.host target.path body =
      (requestHead target body).text ++ lineEnd ++ body := by
  simp [requestText, requestHead, Lines.text, requestLines, fieldLine, ofLiteral, lineEnd]

theorem judge_request : judgeHead (requestHead target body).lines =
    some ⟨ofLiteral "POST", target.path, target.host, body.length⟩ := by
  have host := (visible_apart target.host target.hostVisible).2
  have path := (visible_apart target.path target.pathVisible).2
  have length := decimal_apart body.length blank rfl
  change judgeHead (requestLines target body) = _
  unfold judgeHead requestLines
  dsimp only
  rw [word_reads _ _ (by decide)]
  dsimp only
  rw [word_reads _ _ path, field_here _ _ _ (by decide) host,
    field_behind (ofLiteral "Content-Length") (ofLiteral "Host") _ _ (by decide) (by decide),
    field_behind (ofLiteral "Content-Length") (ofLiteral "Content-Type") _ _ (by decide) (by decide),
    field_here _ _ _ (by decide) length, Option.bind_some, number_of_decimal, if_pos rfl]

/-- The other end reads back what has been sent, and where it ends. -/
theorem recovers_request :
    Recovers readRequest (target.request body) (requestText target.host target.path body) := by
  have judged : Recovers (judge (judgeHead (requestHead target body).lines))
      ⟨ofLiteral "POST", target.path, target.host, body.length⟩ ([] : Text) := by
    rw [judge_request]
    exact recovers_judge _
  rw [request_text_lines]
  refine recovers_bind _ _ _ _ _ _ (recovers_head (requestHead target body)) ?_
  refine recovers_bind _ _ _ _ [] body judged ?_
  exact recovers_map (exactly body.length) _ ⟨body, rfl⟩ body (recovers_exactly body.length ⟨body, rfl⟩)

end Written

theorem extends_request : Extends readRequest :=
  extends_bind _ _ extends_head fun lines =>
    extends_bind _ _ (extends_judge (judgeHead lines)) fun head =>
      extends_bind _ _ (extends_exactly head.contentLength) fun _ => extends_pure _

end SolanaSdk.HttpRequests
