import SolanaSdk.JsonBrackets

/-!
The place of a node in its text. Cut into pieces, a text shows which of its nodes
the bracket matcher gets right: all of them, by induction on the tree, unless a
string ends in a backslash. `parseValue` ends such a node where its text ends.
-/

namespace SolanaSdk.JsonPlaces

open ByteData JsonText JsonScanners JsonTokens JsonGrammar JsonScanning JsonBrackets Segments
open Nesting

/-- What the scanners rely on: the lexemes of the lexicon are scanned as a whole. -/
structure Scanned (words : Lexicon) : Prop where
  key : ∀ key, StringBody (words.keyText key)
  content : ∀ content, StringBody (words.contentText content)
  number : ∀ token, ∃ sign whole fraction exponent, NumberText sign whole fraction exponent ∧
    words.numberText token = sign ++ (whole ++ (fraction ++ exponent))

section Ordinary

/-- A char that the bracket matcher does not look for. -/
def Ordinary (c : UInt8) : Prop :=
  c ≠ quote ∧ c ≠ backslash ∧ c ≠ openBrace ∧ c ≠ closeBrace ∧ c ≠ openBracket ∧ c ≠ closeBracket

instance (c : UInt8) : Decidable (Ordinary c) := inferInstanceAs (Decidable (_ ∧ _))

theorem space_ordinary (space : Space) : ∀ c ∈ space.chars, Ordinary c := by
  intro c member
  rcases blank_cases c (space.blank c member) with rfl | rfl | rfl | rfl <;> decide

theorem digit_ordinary (c : UInt8) (digit : isDigit c = true) : Ordinary c := by
  have bounds := digit_bounds c digit
  refine ⟨?_, ?_, ?_, ?_, ?_, ?_⟩ <;> rintro rfl <;> exact absurd bounds (by decide)

theorem number_ordinary (sign whole fraction exponent : Text)
    (number : NumberText sign whole fraction exponent) :
    ∀ c ∈ sign ++ (whole ++ (fraction ++ exponent)), Ordinary c := by
  have digits : ∀ digits, Digits digits → ∀ c ∈ digits, Ordinary c :=
    fun digits digital c member => digit_ordinary c (digital c member)
  intro c member
  simp only [List.mem_append] at member
  rcases member with inSign | inWhole | inFraction | inExponent
  · rcases number.signed with rfl | rfl
    · cases inSign
    · rw [List.mem_singleton.mp inSign]
      decide
  · exact digits whole number.digits c inWhole
  · rcases number.fraction with rfl | ⟨rest, digital, rfl⟩
    · cases inFraction
    · rcases List.mem_cons.mp inFraction with rfl | later
      · decide
      · exact digits rest digital c later
  · rcases number.exponent with rfl | ⟨mark, signs, rest, marks, shape, digital, rfl⟩
    · cases inExponent
    · rcases List.mem_cons.mp inExponent with rfl | later
      · rcases marks with rfl | rfl <;> decide
      · rcases List.mem_append.mp later with inSign | inRest
        · rcases shape with rfl | rfl | rfl
          · cases inSign
          · rw [List.mem_singleton.mp inSign]
            decide
          · rw [List.mem_singleton.mp inSign]
            decide
        · exact digits rest digital c inRest

end Ordinary

section Pieces
variable {words : Lexicon} {opening closing : UInt8}

def outsides (text : Text) : List Piece := text.map Piece.outside

def wrapped (first last : UInt8) (inner : List Piece) : List Piece :=
  .outside first :: (inner ++ [.outside last])

def namePieces (name : Name words) : List Piece :=
  outsides name.before.chars ++ (.string (words.keyText name.key) ::
    (outsides name.between.chars ++ (.outside colon :: outsides name.after.chars)))

mutual

def docPieces : Doc words → List Piece
  | .null => outsides nullWord
  | .bool flag => outsides (if flag then trueWord else falseWord)
  | .number token => outsides (words.numberText token)
  | .string content => [.string (words.contentText content)]
  | .emptyArray space => wrapped openBracket closeBracket (outsides space.chars)
  | .array items => wrapped openBracket closeBracket (itemsPieces items)
  | .emptyObject space => wrapped openBrace closeBrace (outsides space.chars)
  | .object members => wrapped openBrace closeBrace (membersPieces members)

def itemsPieces : Items words → List Piece
  | .last before value after =>
      outsides before.chars ++ (docPieces value ++ outsides after.chars)
  | .more before value after rest =>
      outsides before.chars ++ (docPieces value ++
        (outsides after.chars ++ (.outside comma :: itemsPieces rest)))

def membersPieces : Members words → List Piece
  | .last name value after => namePieces name ++ (docPieces value ++ outsides after.chars)
  | .more name value after rest =>
      namePieces name ++ (docPieces value ++
        (outsides after.chars ++ (.outside comma :: membersPieces rest)))

end

@[simp] theorem pieces_text_append (first second : List Piece) :
    piecesText (first ++ second) = piecesText first ++ piecesText second :=
  List.flatMap_append

@[simp] theorem pieces_text_outside (c : UInt8) (rest : List Piece) :
    piecesText (.outside c :: rest) = c :: piecesText rest := rfl

@[simp] theorem pieces_text_string (body : Text) (rest : List Piece) :
    piecesText (.string body :: rest) = quoted body ++ piecesText rest := rfl

@[simp] theorem pieces_text_nil : piecesText [] = [] := rfl

@[simp] theorem pieces_text_outsides (text : Text) : piecesText (outsides text) = text := by
  induction text with
  | nil => rfl
  | cons c rest ih => exact congrArg (c :: ·) ih

theorem name_pieces_text (name : Name words) : piecesText (namePieces name) = name.text := by
  simp [namePieces, Name.text]

mutual

/-- The pieces of a node spell its text. -/
theorem doc_pieces_text : (doc : Doc words) → piecesText (docPieces doc) = doc.text
  | .null | .bool _ | .number _ => pieces_text_outsides _
  | .string _ => by simp [docPieces, Doc.text]
  | .emptyArray _ | .emptyObject _ => by simp [docPieces, wrapped, Doc.text, enclosed]
  | .array items => by simp [docPieces, wrapped, Doc.text, enclosed, items_pieces_text items]
  | .object members => by
      simp [docPieces, wrapped, Doc.text, enclosed, members_pieces_text members]

theorem items_pieces_text : (items : Items words) → piecesText (itemsPieces items) = items.text
  | .last _ value _ => by simp [itemsPieces, Items.text, doc_pieces_text value]
  | .more _ value _ rest => by
      simp [itemsPieces, Items.text, doc_pieces_text value, items_pieces_text rest]

theorem members_pieces_text :
    (members : Members words) → piecesText (membersPieces members) = members.text
  | .last name value _ => by
      simp [membersPieces, Members.text, name_pieces_text name, doc_pieces_text value]
  | .more name value _ rest => by
      simp [membersPieces, Members.text, name_pieces_text name, doc_pieces_text value,
        members_pieces_text rest]

end

theorem number_spelled (scanned : Scanned words) (token : words.Number) :
    ∀ c ∈ words.numberText token, Ordinary c := by
  obtain ⟨sign, whole, fraction, exponent, number, spelled⟩ := scanned.number token
  rw [spelled]
  exact number_ordinary sign whole fraction exponent number

/-- What holds of the strings of a lexicon and of every char that is neither a
quote nor a backslash holds of all pieces. -/
structure Everywhere (words : Lexicon) (holds : Piece → Prop) : Prop where
  outside : ∀ c, c ≠ quote ∧ c ≠ backslash → holds (.outside c)
  key : ∀ key, holds (.string (words.keyText key))
  content : ∀ content, holds (.string (words.contentText content))

section Everywhere
variable {holds : Piece → Prop} (everywhere : Everywhere words holds)
include everywhere

theorem outsides_hold (text : Text) (ordinary : ∀ c ∈ text, Ordinary c) :
    ∀ piece ∈ outsides text, holds piece := by
  intro piece member
  obtain ⟨c, inside, rfl⟩ := List.mem_map.mp member
  exact everywhere.outside c ⟨(ordinary c inside).1, (ordinary c inside).2.1⟩

theorem name_pieces_hold (name : Name words) : ∀ piece ∈ namePieces name, holds piece := by
  simp only [namePieces, List.forall_mem_append, List.forall_mem_cons]
  exact ⟨outsides_hold everywhere _ (space_ordinary name.before), everywhere.key name.key,
    outsides_hold everywhere _ (space_ordinary name.between),
    everywhere.outside colon ⟨by decide, by decide⟩,
    outsides_hold everywhere _ (space_ordinary name.after)⟩

theorem wrapped_hold {first last : UInt8} (pair : BracketPair first last) (inner : List Piece)
    (within : ∀ piece ∈ inner, holds piece) : ∀ piece ∈ wrapped first last inner, holds piece := by
  obtain ⟨-, openQuote, closeQuote, openEscape, closeEscape⟩ := pair_apart pair
  simp only [wrapped, List.forall_mem_append, List.forall_mem_cons]
  exact ⟨everywhere.outside first ⟨openQuote, openEscape⟩, within,
    everywhere.outside last ⟨closeQuote, closeEscape⟩, List.forall_mem_nil _⟩

mutual

theorem doc_pieces_hold (scanned : Scanned words) :
    (doc : Doc words) → ∀ piece ∈ docPieces doc, holds piece
  | .null => outsides_hold everywhere _ (every_byte nullWord (by decide))
  | .bool true => outsides_hold everywhere _ (every_byte trueWord (by decide))
  | .bool false => outsides_hold everywhere _ (every_byte falseWord (by decide))
  | .number token => outsides_hold everywhere _ (number_spelled scanned token)
  | .string content => List.forall_mem_singleton.mpr (everywhere.content content)
  | .emptyArray space =>
      wrapped_hold everywhere (.inr ⟨rfl, rfl⟩) _ (outsides_hold everywhere _ (space_ordinary space))
  | .array items => wrapped_hold everywhere (.inr ⟨rfl, rfl⟩) _ (items_pieces_hold scanned items)
  | .emptyObject space =>
      wrapped_hold everywhere (.inl ⟨rfl, rfl⟩) _ (outsides_hold everywhere _ (space_ordinary space))
  | .object members => wrapped_hold everywhere (.inl ⟨rfl, rfl⟩) _ (members_pieces_hold scanned members)

theorem items_pieces_hold (scanned : Scanned words) :
    (items : Items words) → ∀ piece ∈ itemsPieces items, holds piece
  | .last before value after => by
      simp only [itemsPieces, List.forall_mem_append]
      exact ⟨outsides_hold everywhere _ (space_ordinary before), doc_pieces_hold scanned value,
        outsides_hold everywhere _ (space_ordinary after)⟩
  | .more before value after rest => by
      simp only [itemsPieces, List.forall_mem_append, List.forall_mem_cons]
      exact ⟨outsides_hold everywhere _ (space_ordinary before), doc_pieces_hold scanned value,
        outsides_hold everywhere _ (space_ordinary after),
        everywhere.outside comma ⟨by decide, by decide⟩, items_pieces_hold scanned rest⟩

theorem members_pieces_hold (scanned : Scanned words) :
    (members : Members words) → ∀ piece ∈ membersPieces members, holds piece
  | .last name value after => by
      simp only [membersPieces, List.forall_mem_append]
      exact ⟨name_pieces_hold everywhere name, doc_pieces_hold scanned value,
        outsides_hold everywhere _ (space_ordinary after)⟩
  | .more name value after rest => by
      simp only [membersPieces, List.forall_mem_append, List.forall_mem_cons]
      exact ⟨name_pieces_hold everywhere name, doc_pieces_hold scanned value,
        outsides_hold everywhere _ (space_ordinary after),
        everywhere.outside comma ⟨by decide, by decide⟩, members_pieces_hold scanned rest⟩

end

end Everywhere

/-- Every string of the lexicon is a string body. -/
theorem scanned_proper (scanned : Scanned words) : Everywhere words Piece.Proper where
  outside _ apart := apart
  key := scanned.key
  content := scanned.content

end Pieces

section Levels
variable {words : Lexicon} {opening closing : UInt8}

/-- What stands between the strings. -/
def shown (pieces : List Piece) : Text := pieces.flatMap (Piece.counted false)

@[simp] theorem shown_append (first second : List Piece) :
    shown (first ++ second) = shown first ++ shown second := List.flatMap_append

@[simp] theorem shown_outside (c : UInt8) (rest : List Piece) :
    shown (.outside c :: rest) = [c] ++ shown rest := rfl

@[simp] theorem shown_string (body : Text) (rest : List Piece) :
    shown (.string body :: rest) = shown rest := rfl

@[simp] theorem shown_nil : shown [] = [] := rfl

@[simp] theorem shown_outsides (text : Text) : shown (outsides text) = text := by
  induction text with
  | nil => rfl
  | cons c rest ih => exact congrArg (c :: ·) ih

/-- Without unclosed strings the roles are never exchanged. -/
theorem visible_shown (pieces : List Piece) (whole : ∀ piece ∈ pieces, piece.unclosed = false) :
    visible false pieces = shown pieces := by
  induction pieces with
  | nil => rfl
  | cons piece rest ih =>
      rw [visible, whole piece List.mem_cons_self, Bool.xor_false,
        ih fun piece member => whole piece (List.mem_cons_of_mem _ member)]
      rfl

theorem ordinary_neutral (pair : BracketPair opening closing) (text : Text)
    (ordinary : ∀ c ∈ text, Ordinary c) : Neutral opening closing text := by
  apply neutral_all
  intro c member
  obtain ⟨-, -, openBrace, closeBrace, openBracket, closeBracket⟩ := ordinary c member
  rcases pair with ⟨rfl, rfl⟩ | ⟨rfl, rfl⟩
  · exact ⟨openBrace, closeBrace⟩
  · exact ⟨openBracket, closeBracket⟩

/-- Brackets of the other pair are ordinary chars to the matcher. -/
theorem enclosed_neutral {first last : UInt8} (pair : BracketPair opening closing)
    (other : BracketPair first last) (inner : Text) (within : Neutral opening closing inner) :
    Neutral opening closing (enclosed first last inner) := by
  have flat : ∀ c : UInt8, c ≠ opening → c ≠ closing → Neutral opening closing [c] :=
    neutral_plain opening closing
  -- The same pair nests; the chars of the other one are like any char.
  rcases pair with ⟨rfl, rfl⟩ | ⟨rfl, rfl⟩ <;> rcases other with ⟨rfl, rfl⟩ | ⟨rfl, rfl⟩
  · exact neutral_nested _ _ (by decide) inner within
  · exact neutral_append _ _ [openBracket] _ (flat _ (by decide) (by decide))
      (neutral_append _ _ inner _ within (flat _ (by decide) (by decide)))
  · exact neutral_append _ _ [openBrace] _ (flat _ (by decide) (by decide))
      (neutral_append _ _ inner _ within (flat _ (by decide) (by decide)))
  · exact neutral_nested _ _ (by decide) inner within

theorem name_neutral (pair : BracketPair opening closing) (name : Name words) :
    Neutral opening closing (shown (namePieces name)) := by
  simp only [namePieces, shown_append, shown_string, shown_outside, shown_outsides]
  refine neutral_append _ _ _ _ (ordinary_neutral pair _ (space_ordinary name.before)) ?_
  refine neutral_append _ _ _ _ (ordinary_neutral pair _ (space_ordinary name.between)) ?_
  exact neutral_append _ _ _ _ (ordinary_neutral pair _ (every_byte [colon] (by decide)))
    (ordinary_neutral pair _ (space_ordinary name.after))

theorem wrapped_neutral {first last : UInt8} (pair : BracketPair opening closing)
    (other : BracketPair first last) (inner : List Piece)
    (within : Neutral opening closing (shown inner)) :
    Neutral opening closing (shown (wrapped first last inner)) := by
  rw [wrapped, shown_outside, shown_append]
  exact enclosed_neutral pair other (shown inner) within

mutual

/-- Between the strings of a node the brackets nest, for both pairs. -/
theorem doc_neutral (scanned : Scanned words) (pair : BracketPair opening closing) :
    (doc : Doc words) → Neutral opening closing (shown (docPieces doc))
  | .null => ordinary_neutral pair _ (every_byte nullWord (by decide))
  | .bool true => ordinary_neutral pair _ (every_byte trueWord (by decide))
  | .bool false => ordinary_neutral pair _ (every_byte falseWord (by decide))
  | .number token => by
      rw [docPieces, shown_outsides]
      exact ordinary_neutral pair _ (number_spelled scanned token)
  | .string _ => neutral_nil _ _
  | .emptyArray space => wrapped_neutral pair (.inr ⟨rfl, rfl⟩) _ (by
      rw [shown_outsides]
      exact ordinary_neutral pair _ (space_ordinary space))
  | .array items => wrapped_neutral pair (.inr ⟨rfl, rfl⟩) _ (items_neutral scanned pair items)
  | .emptyObject space => wrapped_neutral pair (.inl ⟨rfl, rfl⟩) _ (by
      rw [shown_outsides]
      exact ordinary_neutral pair _ (space_ordinary space))
  | .object members => wrapped_neutral pair (.inl ⟨rfl, rfl⟩) _ (members_neutral scanned pair members)

theorem items_neutral (scanned : Scanned words) (pair : BracketPair opening closing) :
    (items : Items words) → Neutral opening closing (shown (itemsPieces items))
  | .last before value after => by
      simp only [itemsPieces, shown_append, shown_outsides]
      exact neutral_append _ _ _ _ (ordinary_neutral pair _ (space_ordinary before))
        (neutral_append _ _ _ _ (doc_neutral scanned pair value)
          (ordinary_neutral pair _ (space_ordinary after)))
  | .more before value after rest => by
      simp only [itemsPieces, shown_append, shown_outside, shown_outsides]
      exact neutral_append _ _ _ _ (ordinary_neutral pair _ (space_ordinary before))
        (neutral_append _ _ _ _ (doc_neutral scanned pair value)
          (neutral_append _ _ _ _ (ordinary_neutral pair _ (space_ordinary after))
            (neutral_append _ _ _ _ (ordinary_neutral pair _ (every_byte [comma] (by decide)))
              (items_neutral scanned pair rest))))

theorem members_neutral (scanned : Scanned words) (pair : BracketPair opening closing) :
    (members : Members words) → Neutral opening closing (shown (membersPieces members))
  | .last name value after => by
      simp only [membersPieces, shown_append, shown_outsides]
      exact neutral_append _ _ _ _ (name_neutral pair name)
        (neutral_append _ _ _ _ (doc_neutral scanned pair value)
          (ordinary_neutral pair _ (space_ordinary after)))
  | .more name value after rest => by
      simp only [membersPieces, shown_append, shown_outside, shown_outsides]
      exact neutral_append _ _ _ _ (name_neutral pair name)
        (neutral_append _ _ _ _ (doc_neutral scanned pair value)
          (neutral_append _ _ _ _ (ordinary_neutral pair _ (space_ordinary after))
            (neutral_append _ _ _ _ (ordinary_neutral pair _ (every_byte [comma] (by decide)))
              (members_neutral scanned pair rest))))

end

theorem whole_closed (pair : BracketPair opening closing) (pieces : List Piece)
    (whole : ∀ piece ∈ pieces, piece.unclosed = false)
    (level : Neutral opening closing (shown pieces)) : Closed opening closing pieces := by
  constructor
  · rw [List.countP_eq_zero.mpr fun piece member => by rw [whole piece member]; decide]
  · rw [← levels_levelled _ _ (pair_apart pair).1, visible_shown pieces whole]
    exact level 1 Nat.one_pos

theorem outsides_closed (text : Text) : ∀ piece ∈ outsides text, piece.unclosed = false := by
  intro piece member
  obtain ⟨c, -, rfl⟩ := List.mem_map.mp member
  rfl

theorem spaces_closed (pair : BracketPair opening closing) (space : Space) :
    Closed opening closing (outsides space.chars) := by
  refine whole_closed pair _ (outsides_closed space.chars) ?_
  rw [shown_outsides]
  exact ordinary_neutral pair _ (space_ordinary space)

/-- The bracket matcher finds the bracket that closes the node. -/
def Matched : Doc words → Prop
  | .array items => Closed openBracket closeBracket (itemsPieces items)
  | .object members => Closed openBrace closeBrace (membersPieces members)
  | _ => True

/-- No string of the lexicon ends in a backslash. -/
def Whole (words : Lexicon) : Prop := Everywhere words fun piece => piece.unclosed = false

theorem whole_of_last (key : ∀ key, (words.keyText key).getLast? ≠ some backslash)
    (content : ∀ content, (words.contentText content).getLast? ≠ some backslash) :
    Whole words where
  outside _ _ := rfl
  key word := beq_false_of_ne (key word)
  content word := beq_false_of_ne (content word)

/-- Nodes without unclosed strings are matched. -/
theorem whole_matched (scanned : Scanned words) (doc : Doc words)
    (whole : ∀ piece ∈ docPieces doc, piece.unclosed = false) : Matched doc := by
  cases doc with
  | array items =>
      refine whole_closed (.inr ⟨rfl, rfl⟩) _ (fun piece member => whole piece ?_)
        (items_neutral scanned (.inr ⟨rfl, rfl⟩) items)
      exact List.mem_cons_of_mem _ (List.mem_append_left _ member)
  | object members =>
      refine whole_closed (.inl ⟨rfl, rfl⟩) _ (fun piece member => whole piece ?_)
        (members_neutral scanned (.inl ⟨rfl, rfl⟩) members)
      exact List.mem_cons_of_mem _ (List.mem_append_left _ member)
  | _ => trivial

end Levels

section Parsing
variable {words : Lexicon} (src : Cells)

/-- The text of a node stands at `pos` and something that ends a value follows it. -/
structure Located (pos : Nat) (doc : Doc words) : Prop where
  here : Here src pos doc.text
  followed : Followed src (pos + doc.text.length)

theorem doc_head (scanned : Scanned words) (doc : Doc words) :
    ∃ c rest, doc.text = c :: rest ∧ isBlank c = false := by
  cases doc with
  | null => exact ⟨110, _, rfl, rfl⟩
  | bool flag =>
      cases flag with
      | true => exact ⟨116, _, rfl, rfl⟩
      | false => exact ⟨102, _, rfl, rfl⟩
  | number token =>
      obtain ⟨sign, whole, fraction, exponent, number, spelled⟩ := scanned.number token
      rcases number.signed with rfl | rfl
      · obtain ⟨letter, rest, digits⟩ := List.exists_cons_of_ne_nil number.some
        have digit := digit_bounds letter (number.digits letter (digits ▸ List.mem_cons_self))
        refine ⟨letter, rest ++ (fraction ++ exponent), by rw [Doc.text, spelled, digits]; rfl, ?_⟩
        rw [Bool.eq_false_iff]
        intro blank
        rcases blank_cases letter blank with rfl | rfl | rfl | rfl <;>
          exact absurd digit (by decide)
      · exact ⟨minus, _, by rw [Doc.text, spelled]; rfl, rfl⟩
  | string content => exact ⟨quote, _, rfl, rfl⟩
  | emptyArray space => exact ⟨openBracket, _, rfl, rfl⟩
  | array items => exact ⟨openBracket, _, rfl, rfl⟩
  | emptyObject space => exact ⟨openBrace, _, rfl, rfl⟩
  | object members => exact ⟨openBrace, _, rfl, rfl⟩

theorem enclosed_length (opening closing : UInt8) (inner : Text) :
    (enclosed opening closing inner).length = inner.length + 2 := by
  simp [enclosed]

theorem array_token (pieces : List Piece) (proper : ∀ piece ∈ pieces, piece.Proper)
    (closed : Closed openBracket closeBracket pieces) (pos len : Nat) (value : JsonValue)
    (here : Here src pos (enclosed openBracket closeBracket (piecesText pieces)))
    (fits : pos + (enclosed openBracket closeBracket (piecesText pieces)).length ≤ len)
    (token : Token src openBracket pos len value) :
    value = ⟨.array, true, pos,
      pos + (enclosed openBracket closeBracket (piecesText pieces)).length, false⟩ := by
  have first := ((here_cons src pos openBracket _).mp here).1
  have found := (find_closed_iff src (.inr ⟨rfl, rfl⟩) pieces proper pos len here fits).mpr closed
  rw [token_array src pos len value first token _ found, enclosed_length]
  simp only [JsonValue.mk.injEq, true_and, and_true]
  omega

theorem object_token (pieces : List Piece) (proper : ∀ piece ∈ pieces, piece.Proper)
    (closed : Closed openBrace closeBrace pieces) (pos len : Nat) (value : JsonValue)
    (here : Here src pos (enclosed openBrace closeBrace (piecesText pieces)))
    (fits : pos + (enclosed openBrace closeBrace (piecesText pieces)).length ≤ len)
    (token : Token src openBrace pos len value) :
    value = ⟨.object, true, pos,
      pos + (enclosed openBrace closeBrace (piecesText pieces)).length, false⟩ := by
  have first := ((here_cons src pos openBrace _).mp here).1
  have found := (find_closed_iff src (.inl ⟨rfl, rfl⟩) pieces proper pos len here fits).mpr closed
  rw [token_object src pos len value first token _ found, enclosed_length]
  simp only [JsonValue.mk.injEq, true_and, and_true]
  omega

theorem string_token (body : Text) (strings : StringBody body) (pos len : Nat) (value : JsonValue)
    (here : Here src pos (quoted body)) (fits : pos + (quoted body).length ≤ len)
    (token : Token src quote pos len value) :
    value = ⟨.string, true, pos, pos + (quoted body).length, false⟩ := by
  obtain ⟨first, rest⟩ := (here_cons src pos quote _).mp here
  simp only [quoted, List.length_cons, List.length_append, List.length_nil] at fits ⊢
  have scanned := scan_string_body src body strings (pos + 1) len rest (by omega)
  rw [token_string src pos len value first token _ scanned (by omega)]
  simp only [JsonValue.mk.injEq, true_and, and_true]
  omega

theorem number_token (sign whole fraction exponent : Text)
    (number : NumberText sign whole fraction exponent) (pos len : Nat) (c : UInt8)
    (value : JsonValue) (first : src[pos]? = some c)
    (here : Here src pos (sign ++ (whole ++ (fraction ++ exponent))))
    (followed : Followed src (pos + (sign ++ (whole ++ (fraction ++ exponent))).length))
    (fits : pos + (sign ++ (whole ++ (fraction ++ exponent))).length ≤ len)
    (token : Token src c pos len value) :
    value = ⟨.number, true, pos, pos + (sign ++ (whole ++ (fraction ++ exponent))).length,
      false⟩ := by
  -- The first char is the sign or, without one, the first digit.
  have starts : (c == minus || isDigit c) = true := by
    rcases number.signed with rfl | rfl
    · obtain ⟨letter, rest, digits⟩ := List.exists_cons_of_ne_nil number.some
      have head := number.digits letter (digits ▸ List.mem_cons_self)
      rw [digits, List.nil_append, List.cons_append, here_cons, first] at here
      rw [Option.some.inj here.1, head, Bool.or_true]
    · rw [List.cons_append, here_cons, first] at here
      rw [Option.some.inj here.1]
      rfl
  exact token_number src pos len value c first token starts _
    (scan_number_text src sign whole fraction exponent number pos len here followed fits)

theorem doc_token (scanned : Scanned words) (doc : Doc words) (matched : Matched doc)
    (pos len : Nat) (c : UInt8) (value : JsonValue) (first : src[pos]? = some c)
    (located : Located src pos doc) (fits : pos + doc.text.length ≤ len)
    (token : Token src c pos len value) :
    value = doc.valueAt pos := by
  obtain ⟨here, followed⟩ := located
  -- The char at `pos` is the first one of the text, whatever the node.
  have same : ∀ letter rest, doc.text = letter :: rest → c = letter := by
    intro letter rest spelled
    have head := ((here_cons src pos letter rest).mp (spelled ▸ here)).1
    exact Option.some.inj (first.symm.trans head)
  cases doc with
  | null =>
      exact token_literal src pos len value c first token nullWord .null false (by decide)
        ⟨here, fits⟩
  | bool flag =>
      cases flag with
      | true =>
          exact token_literal src pos len value c first token trueWord .bool true (by decide)
            ⟨here, fits⟩
      | false =>
          exact token_literal src pos len value c first token falseWord .bool false (by decide)
            ⟨here, fits⟩
  | number word =>
      obtain ⟨sign, whole, fraction, exponent, number, spelled⟩ := scanned.number word
      rw [Doc.text, spelled] at here followed fits
      rw [number_token src sign whole fraction exponent number pos len c value first here followed
        fits token, Doc.valueAt, Doc.text, spelled]
      rfl
  | string content =>
      cases same quote _ rfl
      exact string_token src _ (scanned.content content) pos len value here fits token
  | emptyArray space =>
      cases same openBracket _ rfl
      have ordinary := space_ordinary space
      rw [Doc.text, ← pieces_text_outsides space.chars] at here fits
      rw [array_token src (outsides space.chars) (outsides_hold (scanned_proper scanned) _ ordinary)
        (spaces_closed (.inr ⟨rfl, rfl⟩) space) pos len value here fits token, pieces_text_outsides]
      rfl
  | array items =>
      cases same openBracket _ rfl
      rw [Doc.text, ← items_pieces_text items] at here fits
      have proper := items_pieces_hold (scanned_proper scanned) scanned items
      rw [array_token src _ proper matched pos len value here fits token, items_pieces_text]
      rfl
  | emptyObject space =>
      cases same openBrace _ rfl
      have ordinary := space_ordinary space
      rw [Doc.text, ← pieces_text_outsides space.chars] at here fits
      rw [object_token src (outsides space.chars) (outsides_hold (scanned_proper scanned) _ ordinary)
        (spaces_closed (.inl ⟨rfl, rfl⟩) space) pos len value here fits token, pieces_text_outsides]
      rfl
  | object members =>
      cases same openBrace _ rfl
      rw [Doc.text, ← members_pieces_text members] at here fits
      have proper := members_pieces_hold (scanned_proper scanned) scanned members
      rw [object_token src _ proper matched pos len value here fits token, members_pieces_text]
      rfl

/-- `parseValue` gives the place of a node, behind any spaces. -/
theorem doc_parsed (scanned : Scanned words) (space : Space) (doc : Doc words)
    (matched : Matched doc) (pos len : Nat)
    (spaceHere : Here src pos space.chars) (located : Located src (pos + space.chars.length) doc)
    (fits : pos + space.chars.length + doc.text.length ≤ len) (inside : len ≤ src.length) :
    parseValue src pos len = .ok (doc.valueAt (pos + space.chars.length),
      pos + space.chars.length + doc.text.length) := by
  obtain ⟨letter, rest, spelled, ink⟩ := doc_head scanned doc
  have head := ((here_cons src _ letter rest).mp (spelled ▸ located.here)).1
  have long : 0 < doc.text.length := by
    rw [spelled]
    exact Nat.succ_pos _
  have skipped := skip_space src space pos len spaceHere (by omega) (.inr ⟨letter, head, ink⟩)
  obtain ⟨value, later, parsed⟩ := parse_value_total src pos len inside
  -- Only one token is possible at the place of the node.
  obtain ⟨first, again, found⟩ := parse_value_returned src pos len later value parsed
  rw [skipped] at again
  cases again
  rcases found with ⟨past, -, -⟩ | ⟨-, rfl, c, there, token⟩
  · omega
  · have same := doc_token src scanned doc matched _ len c value there located fits token
    rw [parsed, same]
    rfl

end Parsing

end SolanaSdk.JsonPlaces
