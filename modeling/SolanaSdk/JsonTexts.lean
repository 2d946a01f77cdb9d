import Mathlib.Data.Nat.Digits.Lemmas
import SolanaSdk.JsonDocuments

/-!
All well-formed JSON texts: strings with any escape and numbers with a fraction
or an exponent. The scans that skip the char after a backslash end every string
of such a text where the grammar does. The bracket matcher looks at the char
before a quote only, and so it closes some containers of such a text elsewhere.
-/

namespace SolanaSdk.JsonTexts

open ByteData JsonText JsonScanners JsonGrammar JsonScanning JsonBrackets JsonPlaces
open JsonNavigation JsonDocuments Segments

section Lexemes

structure HexDigit where
  char : UInt8
  hex : isDigit char = true ∨ 65 ≤ char ∧ char ≤ 70 ∨ 97 ≤ char ∧ char ≤ 102

/-- A char of a string in one of its spellings. Chars from 128 on are taken byte by byte. -/
inductive Letter where
  | plain (c : PlainChar)
  | quote
  | backslash
  | slash
  | backspace
  | formFeed
  | lineFeed
  | carriageReturn
  | tab
  | unicode (first second third fourth : HexDigit)

def Letter.text : Letter → Text
  | .plain c => [c.char]
  | .quote => [92, 34]
  | .backslash => [92, 92]
  | .slash => [92, 47]
  | .backspace => [92, 98]
  | .formFeed => [92, 102]
  | .lineFeed => [92, 110]
  | .carriageReturn => [92, 114]
  | .tab => [92, 116]
  | .unicode first second third fourth =>
      [92, 117, first.char, second.char, third.char, fourth.char]

def lettersText (letters : List Letter) : Text := letters.flatMap Letter.text

structure DigitRun where
  digits : Text
  digital : Digits digits
  some : digits ≠ []

structure Exponent where
  mark : UInt8
  marks : mark = 101 ∨ mark = 69
  sign : Text
  signs : sign = [] ∨ sign = [plus] ∨ sign = [minus]
  run : DigitRun

structure Number where
  negative : Bool
  whole : DigitRun
  noZero : whole.digits.head? = some 48 → whole.digits = [48]
  fraction : Option DigitRun
  exponent : Option Exponent

namespace Number

def sign (token : Number) : Text := if token.negative then [minus] else []

def fractionText (token : Number) : Text :=
  match token.fraction with
  | none => []
  | some run => point :: run.digits

def exponentText (token : Number) : Text :=
  match token.exponent with
  | none => []
  | some exponent => exponent.mark :: (exponent.sign ++ exponent.run.digits)

def text (token : Number) : Text :=
  token.sign ++ (token.whole.digits ++ (token.fractionText ++ token.exponentText))

theorem number_text (token : Number) :
    NumberText token.sign token.whole.digits token.fractionText token.exponentText where
  signed := by
    unfold sign
    cases token.negative with
    | true => exact .inr rfl
    | false => exact .inl rfl
  digits := token.whole.digital
  some := token.whole.some
  fraction := by
    unfold fractionText
    cases token.fraction with
    | none => exact .inl rfl
    | some run => exact .inr ⟨run.digits, run.digital, rfl⟩
  exponent := by
    unfold exponentText
    cases token.exponent with
    | none => exact .inl rfl
    | some exponent =>
        exact .inr ⟨exponent.mark, exponent.sign, exponent.run.digits, exponent.marks,
          exponent.signs, exponent.run.digital, rfl⟩

end Number

theorem decimal_no_zero (number : Nat) :
    (decimal number).head? = some 48 → decimal number = [48] := by
  unfold decimal
  split
  next => exact fun _ => rfl
  next some =>
    have none : Nat.digits 10 number ≠ [] := Nat.digits_ne_nil_iff_ne_zero.mpr some
    -- The first char is the last digit of `Nat.digits`, which is not zero.
    have leading := Nat.getLast_digit_ne_zero 10 some
    have small : (Nat.digits 10 number).getLast none < 10 :=
      Nat.digits_lt_base (by decide) (List.getLast_mem none)
    intro zero
    rw [List.head?_map, List.head?_reverse, List.getLast?_eq_some_getLast none] at zero
    have same := (digit_char _ small).2
    rw [Option.some.inj zero] at same
    exact absurd same.symm leading

/-- The shortest spelling of a number without a sign. -/
def Number.ofNat (number : Nat) : Number where
  negative := false
  whole := ⟨decimal number, decimal_digits number, decimal_some number⟩
  noZero := decimal_no_zero number
  fraction := none
  exponent := none

theorem number_of_nat_text (number : Nat) : (Number.ofNat number).text = decimal number :=
  List.append_nil _

/-- Keys are strings like any other. -/
def jsonWords : Lexicon where
  Key := List Letter
  Content := List Letter
  Number := Number
  keyText := lettersText
  contentText := lettersText
  numberText := Number.text

theorem hex_apart (digit : HexDigit) : digit.char ≠ 34 ∧ digit.char ≠ 92 := by
  obtain ⟨c, hex⟩ := digit
  have bounds := digit_bounds c
  constructor <;> rintro rfl <;> revert hex <;> decide

theorem letters_body (letters : List Letter) : StringBody (lettersText letters) := by
  unfold lettersText
  induction letters with
  | nil => exact .nil
  | cons letter rest ih =>
      rw [List.flatMap_cons]
      cases letter with
      | plain c => exact .plain c.char _ c.noQuote c.noEscape ih
      | unicode first second third fourth =>
          have digit : ∀ (digit : HexDigit) (rest : Text), StringBody rest →
              StringBody (digit.char :: rest) :=
            fun digit rest => .plain digit.char rest (hex_apart digit).1 (hex_apart digit).2
          exact .escaped 117 _
            (digit first _ (digit second _ (digit third _ (digit fourth _ ih))))
      | _ => exact .escaped _ _ ih

theorem json_scanned : Scanned jsonWords where
  key := letters_body
  content := letters_body
  number token := ⟨token.sign, token.whole.digits, token.fractionText, token.exponentText,
    token.number_text, rfl⟩

theorem json_matched (doc : Doc jsonWords) (closed : AllClosed doc) : Matched doc :=
  whole_matched json_scanned doc closed

end Lexemes

section Compact

def noSpace : Space := ⟨[], List.forall_mem_nil _⟩

/-- The chars that a string can hold as they are; others are left out. -/
def plainLetters (text : Text) : List Letter :=
  text.filterMap fun c =>
    if plain : 32 ≤ c ∧ c ≠ quote ∧ c ≠ backslash then
      some (.plain ⟨c, plain.1, plain.2.1, plain.2.2⟩)
    else none

def named (key : String) : Name jsonWords :=
  ⟨noSpace, plainLetters (ofLiteral key), noSpace, noSpace⟩

/-- A text without spaces around its root. -/
def compact (root : Doc jsonWords) : Document jsonWords := ⟨noSpace, root, noSpace⟩

end Compact

section Containers
variable {words : Lexicon}

structure Container (words : Lexicon) where
  doc : Doc words
  bracketed : doc.kind = .array ∨ doc.kind = .object

namespace Container

def opening (container : Container words) : UInt8 :=
  if container.doc.kind = .array then openBracket else openBrace

def closing (container : Container words) : UInt8 :=
  if container.doc.kind = .array then closeBracket else closeBrace

/-- The strings and chars between the brackets. -/
def inner (container : Container words) : List Piece :=
  match container.doc with
  | .array items => itemsPieces items
  | .object members => membersPieces members
  | .emptyArray space | .emptyObject space => outsides space.chars
  | _ => []

theorem bracket_pair (container : Container words) :
    BracketPair container.opening container.closing := by
  unfold opening closing
  by_cases array : container.doc.kind = .array
  · rw [if_pos array, if_pos array]
    exact .inr ⟨rfl, rfl⟩
  · rw [if_neg array, if_neg array]
    exact .inl ⟨rfl, rfl⟩

theorem container_text (container : Container words) :
    container.doc.text =
      enclosed container.opening container.closing (piecesText container.inner) := by
  obtain ⟨doc, bracketed⟩ := container
  cases doc with
  | array items => exact congrArg (enclosed _ _) (items_pieces_text items).symm
  | object members => exact congrArg (enclosed _ _) (members_pieces_text members).symm
  | emptyArray space => exact congrArg (enclosed _ _) (pieces_text_outsides space.chars).symm
  | emptyObject space => exact congrArg (enclosed _ _) (pieces_text_outsides space.chars).symm
  | _ => rcases bracketed with never | never <;> cases never

theorem inner_proper (scanned : Scanned words) (container : Container words) :
    ∀ piece ∈ container.inner, piece.Proper := by
  obtain ⟨doc, -⟩ := container
  have proper := scanned_proper scanned
  cases doc with
  | array items => exact items_pieces_hold proper scanned items
  | object members => exact members_pieces_hold proper scanned members
  | emptyArray space => exact outsides_hold proper _ (space_ordinary space)
  | emptyObject space => exact outsides_hold proper _ (space_ordinary space)
  | _ => exact List.forall_mem_nil _

/-- The matcher, started behind the opening bracket, stops at the last char. -/
def Found (container : Container words) (before rest : Text) : Prop :=
  findMatchingBrace (cStr (before ++ (container.doc.text ++ rest))) (before.length + 1)
    (before ++ (container.doc.text ++ rest)).length container.opening container.closing =
    .ok (before.length + container.doc.text.length - 1)

theorem found_closed (scanned : Scanned words) (container : Container words)
    (before rest : Text) :
    container.Found before rest ↔
      Closed container.opening container.closing container.inner := by
  have here : Here (cStr (before ++ (container.doc.text ++ rest))) before.length
      (enclosed container.opening container.closing (piecesText container.inner)) := by
    rw [← container_text, Here, cStr, List.append_assoc, List.drop_left, List.append_assoc]
    exact List.prefix_append _ _
  have fits : before.length + (enclosed container.opening container.closing
      (piecesText container.inner)).length ≤
      (before ++ (container.doc.text ++ rest)).length := by
    rw [← container_text, List.length_append, List.length_append]
    omega
  have last : before.length + container.doc.text.length - 1 =
      before.length + 1 + (piecesText container.inner).length := by
    rw [container_text, enclosed_length]
    omega
  rw [Found, last]
  exact find_closed_iff _ container.bracket_pair container.inner (inner_proper scanned container)
    before.length _ here fits

end Container

/-- Whatever stands before and behind it, the bracket that closes a container is
found exactly when an even number of its strings ends in a backslash and the
brackets that the matcher counts nest. -/
theorem bracket_found_iff (container : Container jsonWords) (before rest : Text) :
    container.Found before rest ↔
      Closed container.opening container.closing container.inner :=
  container.found_closed json_scanned before rest

/-- `{"a":"\\"}`: one member, whose value is one escaped backslash. -/
def escapedBackslash : Container jsonWords where
  doc := .object (.last (named "a") (.string [Letter.backslash]) noSpace)
  bracketed := .inr rfl

theorem escaped_backslash_missed :
    escapedBackslash.doc.text = ofLiteral "\x7b\"a\":\"\\\\\"\x7d" ∧
      ¬ escapedBackslash.Found [] [] := by
  refine ⟨by decide, ?_⟩
  rw [Container.found_closed json_scanned]
  intro closed
  exact absurd closed.even (by decide)

end Containers

end SolanaSdk.JsonTexts
