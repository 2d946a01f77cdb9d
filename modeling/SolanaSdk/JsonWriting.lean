import SolanaSdk.AccountResponses

/-!
Documents put together from values, and what a text says. Two documents of one
text show the same at every path: the reader finds one value there, and it shows
what either of them has.
-/

namespace SolanaSdk.JsonWriting

open ByteData JsonText JsonAccess JsonGrammar JsonContainers JsonNavigation JsonDocuments JsonTexts
open AccountResponses

section Views

/-- What there is to see of a node without going further down. -/
structure View where
  kind : Kind
  flag : Bool
  number : Int
  text : Text
  size : Nat
  deriving DecidableEq

def view (node : Doc plainWords) : View :=
  ⟨node.kind, node.flag, integer node, string node, node.values.length⟩

def look (root : Doc plainWords) (path : List Access) : Option View := (root.follow path).map view

theorem integer_range (node : Doc plainWords) : -2 ^ 63 ≤ integer node ∧ integer node < 2 ^ 64 := by
  cases node with
  | number token =>
      change -2 ^ 63 ≤ Integer.value token ∧ Integer.value token < 2 ^ 64
      have fits := token.fits
      unfold Integer.value
      split at fits
      next negative => rw [if_pos negative]; omega
      next positive => rw [if_neg positive]; omega
  | _ =>
      change -2 ^ 63 ≤ (0 : Int) ∧ (0 : Int) < 2 ^ 64
      decide

/-- A clamped and a wrapped copy of a number in range tell which one it is. -/
theorem clamp_wrap_unique (left right : Int) (low : -2 ^ 63 ≤ left) (high : left < 2 ^ 64)
    (low' : -2 ^ 63 ≤ right) (high' : right < 2 ^ 64)
    (clamped : max (-2 ^ 63) (min (2 ^ 63 - 1) left) = max (-2 ^ 63) (min (2 ^ 63 - 1) right))
    (wrapped : (left % 2 ^ 64).toNat = (right % 2 ^ 64).toNat) : left = right := by
  omega

theorem shows_view (src : Cells) (found : JsonValue) (left right : Doc plainWords)
    (one : Shows src found left) (two : Shows src found right) : view left = view right := by
  have kind : left.kind = right.kind := one.type.symm.trans two.type
  have flag : left.flag = right.flag := one.asBool.symm.trans two.asBool
  have text : string left = string right := Except.ok.inj (one.asString.symm.trans two.asString)
  have number : integer left = integer right := by
    obtain ⟨low, high⟩ := integer_range left
    obtain ⟨low', high'⟩ := integer_range right
    exact clamp_wrap_unique _ _ low high low' high'
      (Except.ok.inj (one.asInt.symm.trans two.asInt))
      (Except.ok.inj (one.asUint.symm.trans two.asUint))
  have size : left.values.length = right.values.length := by
    obtain ⟨few, first⟩ := one.arraySize
    obtain ⟨many, second⟩ := two.arraySize
    have first := array_size_more src found few _ first (few + many) (by omega)
    have second := array_size_more src found many _ second (few + many) (by omega)
    exact Except.ok.inj (Option.some.inj (first.symm.trans second))
  rw [view, view, kind, flag, text, number, size]

theorem no_absent (src : Cells) (node : Doc plainWords) : ¬ Shows src .absent node := by
  intro shows
  have none : node.text = [] := (Except.ok.inj shows.raw).symm
  have long := doc_long plain_scanned node
  rw [none] at long
  exact absurd long (Nat.lt_irrefl 0)

theorem finds_agree (src : Cells) (found : JsonValue) (node : Option (Doc plainWords))
    (finds : Finds src found node) : Agrees src found node := by
  cases node with
  | none => exact finds
  | some node =>
      obtain ⟨pos, rfl, located⟩ := finds
      exact located_shows src node pos located

theorem plain_parsed (document : Document plainWords) :
    parse (cStr document.text) document.text.length =
      .ok (document.root.valueAt document.before.chars.length) :=
  document_parsed plain_scanned document (plain_matched document.root)

theorem plain_walked (document : Document plainWords) (path : List Access) :
    ∃ found, walk (cStr document.text) (document.root.valueAt document.before.chars.length) path =
      .ok found ∧ Agrees (cStr document.text) found (document.root.follow path) := by
  obtain ⟨-, located⟩ := document_here document
  obtain ⟨found, walked, finds⟩ := walk_finds (cStr document.text) plain_scanned path document.root _
    located fun node _ => plain_matched node
  exact ⟨found, walked, finds_agree _ found _ finds⟩

theorem agree_views (src : Cells) (found : JsonValue) (left right : Option (Doc plainWords))
    (one : Agrees src found left) (two : Agrees src found right) : left.map view = right.map view := by
  cases left with
  | none =>
      cases right with
      | none => rfl
      | some node =>
          cases (show found = .absent from one)
          exact absurd two (no_absent _ node)
  | some node =>
      cases right with
      | none =>
          cases (show found = .absent from two)
          exact absurd one (no_absent _ node)
      | some other => exact congrArg some (shows_view src found node other one two)

/-- A text says one thing only. -/
theorem same_text_look (left right : Document plainWords) (same : left.text = right.text)
    (path : List Access) : look left.root path = look right.root path := by
  have parsed := plain_parsed left
  have parsed' := plain_parsed right
  obtain ⟨found, walked, one⟩ := plain_walked left path
  obtain ⟨found', walked', two⟩ := plain_walked right path
  rw [← same] at parsed' walked' two
  rw [Except.ok.inj (parsed'.symm.trans parsed)] at walked'
  rw [Except.ok.inj (walked'.symm.trans walked)] at two
  exact agree_views _ found _ _ one two

end Views

section Values

/-- Chars that stand for themselves in a string. -/
def PlainText (text : Text) : Prop := ∀ c ∈ text, 32 ≤ c ∧ c ≠ quote ∧ c ≠ backslash

instance (text : Text) : Decidable (PlainText text) := inferInstanceAs (Decidable (∀ c ∈ text, _))

theorem literal_plain (text : Text)
    (checked : (text.all fun c => decide (32 ≤ c ∧ c ≠ quote ∧ c ≠ backslash)) = true) :
    PlainText text := every_byte text checked

def PlainByte (c : UInt8) : Prop := 32 ≤ c ∧ c ≠ quote ∧ c ≠ backslash

instance (c : UInt8) : Decidable (PlainByte c) := inferInstanceAs (Decidable (_ ∧ _))

theorem plain_printable {c : UInt8} (plain : PlainByte c) : 32 ≤ c := plain.1

theorem plain_no_quote {c : UInt8} (plain : PlainByte c) : c ≠ quote := plain.2.1

theorem plain_no_escape {c : UInt8} (plain : PlainByte c) : c ≠ backslash := plain.2.2

def plainChars (text : Text) : List PlainChar :=
  text.filterMap fun c =>
    if plain : PlainByte c then
      some ⟨c, plain_printable plain, plain_no_quote plain, plain_no_escape plain⟩
    else none

theorem plain_chars_text (text : Text) (plain : PlainText text) :
    (plainChars text).map PlainChar.char = text := by
  induction text with
  | nil => rfl
  | cons c rest ih =>
      obtain ⟨here, later⟩ := List.forall_mem_cons.mp plain
      rw [plainChars, List.filterMap_cons_some (dif_pos here), List.map_cons]
      exact congrArg (c :: ·) (ih later)

/-- A string value that needs no escapes. -/
def textDoc (text : Text) : Doc plainWords := .string ((plainChars text).map Part.plain)

theorem text_doc_text (text : Text) (plain : PlainText text) : (textDoc text).text = quoted text := by
  have spelled : ((plainChars text).map Part.plain).flatMap Part.text = text := by
    rw [List.flatMap_map]
    have single : ∀ c : PlainChar, (Part.plain c).text = [c.char] := fun _ => rfl
    simp only [single]
    rw [← List.map_eq_flatMap]
    exact plain_chars_text text plain
  change quoted (((plainChars text).map Part.plain).flatMap Part.text) = _
  rw [spelled]

theorem text_doc_string (text : Text) (plain : PlainText text) : string (textDoc text) = text := by
  change ((plainChars text).map Part.plain).map Part.denotes = text
  rw [List.map_map]
  exact plain_chars_text text plain

def numberDoc (number : UInt64) : Doc plainWords := .number ⟨false, number.toNat, number.toNat_lt⟩

theorem number_doc_text (number : UInt64) : (numberDoc number).text = decimal number.toNat := rfl

end Values

section Containers

def itemsOf (gap : Space) (before : Space) (first : Doc plainWords) :
    List (Doc plainWords) → Items plainWords
  | [] => .last before first noSpace
  | next :: rest => .more before first noSpace (itemsOf gap gap next rest)

/-- An array with some space before every item but the first. -/
def arrayOf (gap : Space) : List (Doc plainWords) → Doc plainWords
  | [] => .emptyArray noSpace
  | first :: rest => .array (itemsOf gap noSpace first rest)

theorem items_of_text (gap before : Space) (first : Doc plainWords) (rest : List (Doc plainWords)) :
    (itemsOf gap before first rest).text =
      before.chars ++ (comma :: gap.chars).intercalate ((first :: rest).map Doc.text) := by
  induction rest generalizing before first with
  | nil => simp [itemsOf, Items.text, noSpace, List.intercalate]
  | cons next rest ih =>
      rw [itemsOf, Items.text, ih gap next]
      simp [noSpace, List.intercalate]

theorem array_of_text (gap : Space) (items : List (Doc plainWords)) :
    (arrayOf gap items).text =
      enclosed openBracket closeBracket ((comma :: gap.chars).intercalate (items.map Doc.text)) := by
  cases items with
  | nil => rfl
  | cons first rest =>
      change enclosed _ _ (itemsOf gap noSpace first rest).text = _
      rw [items_of_text]
      rfl

theorem items_of_values (gap before : Space) (first : Doc plainWords)
    (rest : List (Doc plainWords)) : (itemsOf gap before first rest).values = first :: rest := by
  induction rest generalizing before first with
  | nil => rfl
  | cons next rest ih => rw [itemsOf, Items.values, ih]

theorem array_of_values (gap : Space) (items : List (Doc plainWords)) :
    (arrayOf gap items).values = items := by
  cases items with
  | nil => rfl
  | cons first rest => exact items_of_values gap noSpace first rest

theorem array_of_kind (gap : Space) (items : List (Doc plainWords)) :
    (arrayOf gap items).kind = .array := by
  cases items <;> rfl

def keyName (key : String) : Name plainWords :=
  ⟨noSpace, plainChars (ofLiteral key), noSpace, noSpace⟩

def membersOf (key : String) (value : Doc plainWords) :
    List (String × Doc plainWords) → Members plainWords
  | [] => .last (keyName key) value noSpace
  | next :: rest => .more (keyName key) value noSpace (membersOf next.1 next.2 rest)

/-- An object with a first member and others, without any space. -/
def objectOf (key : String) (value : Doc plainWords) (rest : List (String × Doc plainWords)) :
    Doc plainWords := .object (membersOf key value rest)

theorem members_of_entries (key : String) (value : Doc plainWords)
    (rest : List (String × Doc plainWords)) :
    (membersOf key value rest).entries = ((key, value) :: rest).map fun entry =>
      ((plainChars (ofLiteral entry.1)).map PlainChar.char, entry.2) := by
  induction rest generalizing key value with
  | nil => rfl
  | cons next rest ih =>
      rw [membersOf, Members.entries, ih next.1 next.2]
      rfl

theorem object_of_child (key : String) (value : Doc plainWords)
    (rest : List (String × Doc plainWords)) (move : CString) (plain : PlainText (ofLiteral key)) :
    (objectOf key value rest).child (.key move) =
      if ofLiteral key = move.chars then some value
      else match rest with
        | [] => none
        | next :: later => (objectOf next.1 next.2 later).child (.key move) := by
  have spelled := plain_chars_text _ plain
  change ((membersOf key value rest).entries.find? (·.1 == move.chars)).map (·.2) = _
  rw [members_of_entries, List.map_cons, spelled]
  by_cases here : ofLiteral key = move.chars
  · have hit : (ofLiteral key == move.chars) = true := beq_iff_eq.mpr here
    rw [if_pos here, List.find?_cons_of_pos (p := fun entry : Text × Doc plainWords => entry.1 == move.chars) hit]
    rfl
  · have missed : ¬ (ofLiteral key == move.chars) = true := fun same => here (beq_iff_eq.mp same)
    rw [if_neg here, List.find?_cons_of_neg (p := fun entry : Text × Doc plainWords => entry.1 == move.chars) missed]
    cases rest with
    | nil => rfl
    | cons next later =>
        change _ = ((membersOf next.1 next.2 later).entries.find? (·.1 == move.chars)).map (·.2)
        rw [members_of_entries]

theorem child_here (key : String) (value : Doc plainWords) (rest : List (String × Doc plainWords))
    (move : CString) (plain : PlainText (ofLiteral key)) (same : ofLiteral key = move.chars) :
    (objectOf key value rest).child (.key move) = some value := by
  rw [object_of_child key value rest move plain, if_pos same]

theorem child_behind (key next : String) (value later : Doc plainWords)
    (rest : List (String × Doc plainWords)) (move : CString) (plain : PlainText (ofLiteral key))
    (apart : ofLiteral key ≠ move.chars) :
    (objectOf key value ((next, later) :: rest)).child (.key move) =
      (objectOf next later rest).child (.key move) := by
  rw [object_of_child key value _ move plain, if_neg apart]

theorem object_of_text (key : String) (value : Doc plainWords) (rest : List (String × Doc plainWords))
    (plain : ∀ entry ∈ (key, value) :: rest, PlainText (ofLiteral entry.1)) :
    (objectOf key value rest).text = enclosed openBrace closeBrace
      ([comma].intercalate (((key, value) :: rest).map fun entry =>
        quoted (ofLiteral entry.1) ++ colon :: entry.2.text)) := by
  change enclosed _ _ (membersOf key value rest).text = _
  congr 1
  induction rest generalizing key value with
  | nil =>
      have spelled := plain_chars_text _ (plain _ List.mem_cons_self)
      simp only [membersOf, Members.text, Name.text, keyName, noSpace]
      change quoted ((plainChars (ofLiteral key)).map PlainChar.char) ++ colon :: [] ++ (value.text ++ []) = _
      rw [spelled]
      simp [List.intercalate]
  | cons next rest ih =>
      obtain ⟨first, later⟩ := List.forall_mem_cons.mp plain
      have spelled := plain_chars_text _ first
      simp only [membersOf, Members.text, Name.text, keyName, noSpace]
      rw [ih next.1 next.2 later]
      change quoted ((plainChars (ofLiteral key)).map PlainChar.char) ++ colon :: [] ++
        (value.text ++ ([] ++ comma :: _)) = _
      rw [spelled]
      simp [List.intercalate]

end Containers
end SolanaSdk.JsonWriting
