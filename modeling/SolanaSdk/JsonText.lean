import Mathlib.Algebra.Order.Ring.Int
import Mathlib.Algebra.Order.Ring.Nat
import SolanaSdk.ByteData

/-!
The JSON reader: values are ranges of the source text and nothing is ever
copied into a tree. A C++ pointer to text is the list of cells that can be read
from it; reading past them is a fault, and so is the `length_error` of a
`reserve` whose argument has wrapped. Offsets never come near `2^64`.
-/

namespace SolanaSdk.JsonText

open ByteData

abbrev Cells := List UInt8

inductive Fault where
  | outside
  | lengthError
  deriving DecidableEq

/-- `enum class Type`. -/
inductive Kind where
  | null
  | bool
  | number
  | string
  | array
  | object
  deriving DecidableEq

/-- `_src` only says whether the pointer is set: every value points into the one text. -/
structure JsonValue where
  _type : Kind
  _src : Bool
  _start : Nat
  _end : Nat
  _boolVal : Bool
  deriving DecidableEq

/-- The default constructor. -/
def JsonValue.absent : JsonValue := ⟨.null, false, 0, 0, false⟩

/-- What a `const char *` argument holds up to its terminator. -/
structure CString where
  chars : Text
  ended : (0 : UInt8) ∉ chars

abbrev quote : UInt8 := 34
abbrev backslash : UInt8 := 92
abbrev comma : UInt8 := 44
abbrev colon : UInt8 := 58
abbrev minus : UInt8 := 45
abbrev plus : UInt8 := 43
abbrev point : UInt8 := 46
abbrev openBrace : UInt8 := 123
abbrev closeBrace : UInt8 := 125
abbrev openBracket : UInt8 := 91
abbrev closeBracket : UInt8 := 93

def trueWord : Text := ofLiteral "true"
def falseWord : Text := ofLiteral "false"
def nullWord : Text := ofLiteral "null"

def isBlank (c : UInt8) : Bool := c == 32 || c == 9 || c == 10 || c == 13

def isDigit (c : UInt8) : Bool := 48 ≤ c && c ≤ 57

section Scanners
variable (src : Cells)

def charAt (pos : Nat) : Except Fault UInt8 :=
  match src[pos]? with
  | some c => .ok c
  | none => .error .outside

/-- `while (pos < len && keep(src[pos])) ++pos;` -/
def skipWhile (keep : UInt8 → Bool) (pos len : Nat) : Except Fault Nat :=
  if pos < len then do
    let c ← charAt src pos
    if keep c then skipWhile keep (pos + 1) len else return pos
  else return pos
termination_by len - pos

def skipWhitespace (pos len : Nat) : Except Fault Nat := skipWhile src isBlank pos len

/-- `pos < len && accepts(src[pos])`. -/
def looksAt (accepts : UInt8 → Bool) (pos len : Nat) : Except Fault Bool :=
  if pos < len then do
    let c ← charAt src pos
    return accepts c
  else return false

def skipOne (accepts : UInt8 → Bool) (pos len : Nat) : Except Fault Nat := do
  if ← looksAt src accepts pos len then return pos + 1 else return pos

/-- The escape-skipping scan that string values and object keys share. A
backslash takes the char after it along, even where the limit comes first. -/
def scanString (pos len : Nat) : Except Fault Nat :=
  if pos < len then do
    let c ← charAt src pos
    if c = quote then return pos
    else if c = backslash then scanString (pos + 2) len
    else scanString (pos + 1) len
  else return pos
termination_by len - pos

/-- `std::strncmp(src + pos, word, length) == 0`, which reads up to the first difference. -/
def matchesAt (pos : Nat) : Text → Except Fault Bool
  | [] => return true
  | letter :: rest => do
      let c ← charAt src pos
      if c = letter then matchesAt (pos + 1) rest else return false

def toggles (inString : Bool) (pos : Nat) (c : UInt8) : Except Fault Bool :=
  if c = quote then
    if pos = 0 then return !inString
    else do
      -- One char of look-behind: whether that backslash is itself escaped is not asked.
      let before ← charAt src (pos - 1)
      return if before = backslash then inString else !inString
  else return inString

def depthAfter (opening closing c : UInt8) (depth : Nat) (inString : Bool) : Nat :=
  if inString then depth
  else if c = opening then depth + 1
  else if c = closing then depth - 1
  else depth

/-- The loop of `findMatchingBrace`, which starts at depth one outside strings. The
source counts in an `int`: the depth here is unbounded, and the two part only where
`2^31 - 1` opening brackets more than closing ones have passed. -/
def matchingBrace (opening closing : UInt8) (pos len depth : Nat) (inString : Bool) :
    Except Fault Nat :=
  if pos < len ∧ 0 < depth then do
    let c ← charAt src pos
    let inString ← toggles src inString pos c
    let depth := depthAfter opening closing c depth inString
    -- At depth zero the position stays on the closing bracket.
    if 0 < depth then matchingBrace opening closing (pos + 1) len depth inString else return pos
  else return pos
termination_by len - pos

def findMatchingBrace (start len : Nat) (opening closing : UInt8) : Except Fault Nat :=
  matchingBrace src opening closing start len 1 false

def scanFraction (pos len : Nat) : Except Fault Nat := do
  if ← looksAt src (· == point) pos len then skipWhile src isDigit (pos + 1) len else return pos

def scanExponent (pos len : Nat) : Except Fault Nat := do
  if ← looksAt src (fun c => c == 101 || c == 69) pos len then
    let pos ← skipOne src (fun c => c == plus || c == minus) (pos + 1) len
    skipWhile src isDigit pos len
  else return pos

def scanNumber (pos len : Nat) : Except Fault Nat := do
  let pos ← skipOne src (· == minus) pos len
  let pos ← skipWhile src isDigit pos len
  let pos ← scanFraction src pos len
  scanExponent src pos len

/-- A literal has to lie before the limit as a whole. -/
def literalAt (c : UInt8) (word : Text) (pos len : Nat) : Except Fault Bool :=
  if word.head? = some c ∧ pos + (word.length - 1) < len then matchesAt src pos word
  else return false

/-- The branches of `parseValue` on the first char of a value. -/
def parseToken (c : UInt8) (pos len : Nat) : Except Fault JsonValue := do
  if c = quote then
    let closing ← scanString src (pos + 1) len
    return ⟨.string, true, pos, if closing < len then closing + 1 else closing, false⟩
  else if c = openBrace then
    let closing ← findMatchingBrace src (pos + 1) len openBrace closeBrace
    -- One past the closing brace, also where there is none.
    return ⟨.object, true, pos, closing + 1, false⟩
  else if c = openBracket then
    let closing ← findMatchingBrace src (pos + 1) len openBracket closeBracket
    return ⟨.array, true, pos, closing + 1, false⟩
  else if ← literalAt src c trueWord pos len then
    return ⟨.bool, true, pos, pos + 4, true⟩
  else if ← literalAt src c falseWord pos len then
    return ⟨.bool, true, pos, pos + 5, false⟩
  else if ← literalAt src c nullWord pos len then
    return ⟨.null, true, pos, pos + 4, false⟩
  else if c == minus || isDigit c then
    let past ← scanNumber src pos len
    return ⟨.number, true, pos, past, false⟩
  else
    -- Nothing starts here: a null of no length, and the position has not moved.
    return ⟨.null, true, pos, pos, false⟩

/-- The value and the position after it, which is the value's end. -/
def parseValue (pos len : Nat) : Except Fault (JsonValue × Nat) := do
  let pos ← skipWhitespace src pos len
  if len ≤ pos then return (.absent, pos)
  else
    let c ← charAt src pos
    let val ← parseToken src c pos len
    return (val, val._end)

/-- `parse(const char *, size_t)`. -/
def parse (len : Nat) : Except Fault JsonValue := do
  let (val, _) ← parseValue src 0 len
  return val

end Scanners

/-- `c_str()`: the chars and their terminator. -/
def cStr (json : Text) : Cells := json ++ [0]

section Accessors

def decodeEscape (c : UInt8) : UInt8 :=
  if c = 110 then 10 else if c = 114 then 13 else if c = 116 then 9 else c

def unescape (src : Cells) (pos stop : Nat) : Except Fault Text :=
  if pos < stop then do
    let c ← charAt src pos
    -- A backslash right before the end stands for itself.
    if c = backslash ∧ pos + 1 < stop then
      let escaped ← charAt src (pos + 1)
      let rest ← unescape src (pos + 2) stop
      return decodeEscape escaped :: rest
    else
      let rest ← unescape src (pos + 1) stop
      return c :: rest
  else return []
termination_by stop - pos

def readRange (src : Cells) (start stop : Nat) : Except Fault Text :=
  (List.range' start (stop - start)).mapM (charAt src)

def skipIsspace : Cells → Except Fault Cells
  | [] => .error .outside
  | c :: rest => if c = 32 ∨ 9 ≤ c ∧ c ≤ 13 then skipIsspace rest else return c :: rest

def readSign : Cells → Except Fault (Bool × Cells)
  | [] => .error .outside
  | c :: rest =>
      if c = minus then return (true, rest)
      else if c = plus then return (false, rest)
      else return (false, c :: rest)

/-- The decimal digits up to the first other char, which has to be there. -/
def readMagnitude (acc : Nat) : Cells → Except Fault Nat
  | [] => .error .outside
  | c :: rest =>
      if isDigit c then readMagnitude (acc * 10 + (c.toNat - 48)) rest else return acc

/-- The C library's function in base ten: it clamps. -/
def strtoll (nptr : Cells) : Except Fault Int := do
  let nptr ← skipIsspace nptr
  let (negative, nptr) ← readSign nptr
  let magnitude ← readMagnitude 0 nptr
  let number : Int := if negative then -magnitude else magnitude
  return max (-2 ^ 63) (min (2 ^ 63 - 1) number)

/-- The C library's function in base ten: a magnitude that fits is negated modulo `2^64`. -/
def strtoull (nptr : Cells) : Except Fault Nat := do
  let nptr ← skipIsspace nptr
  let (negative, nptr) ← readSign nptr
  let magnitude ← readMagnitude 0 nptr
  if 2 ^ 64 ≤ magnitude then return 2 ^ 64 - 1
  else if negative then return (2 ^ 64 - magnitude) % 2 ^ 64
  else return magnitude

namespace JsonValue

def isNull (value : JsonValue) : Bool := value._type == .null

def asBool (value : JsonValue) : Bool := value._boolVal

def asInt (src : Cells) (value : JsonValue) : Except Fault Int :=
  if value._type ≠ .number ∨ value._src = false then return 0
  else strtoll (src.drop value._start)

def asUint (src : Cells) (value : JsonValue) : Except Fault Nat :=
  if value._type ≠ .number ∨ value._src = false then return 0
  else strtoull (src.drop value._start)

def asString (src : Cells) (value : JsonValue) : Except Fault Text :=
  if value._type ≠ .string ∨ value._src = false then return []
  else
    let pos := value._start + 1
    let stop := value._end - 1
    -- `end - pos` has wrapped: `reserve` throws.
    if stop < pos then .error .lengthError else unescape src pos stop

def raw (src : Cells) (value : JsonValue) : Except Fault Text :=
  if value._src = false ∨ value._end ≤ value._start then return []
  else readRange src value._start value._end

end JsonValue

end Accessors

end SolanaSdk.JsonText
