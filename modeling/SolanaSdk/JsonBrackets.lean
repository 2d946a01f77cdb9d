import SolanaSdk.JsonScanning
import SolanaSdk.Nesting

/-!
The bracket matcher on well-formed text. It looks one char back from a quote, so
a string that ends in an escaped backslash stays open for it: from there on it
counts the brackets in the strings instead of those between them, up to the next
such string. A container is closed at its own bracket exactly when the brackets
that are counted in this way nest.
-/

namespace SolanaSdk.JsonBrackets

open ByteData JsonText JsonScanners JsonTokens JsonGrammar JsonScanning Segments Nesting

/-- Either of the two pairs that `findMatchingBrace` is called with. -/
def BracketPair (opening closing : UInt8) : Prop :=
  opening = openBrace ∧ closing = closeBrace ∨ opening = openBracket ∧ closing = closeBracket

theorem pair_apart {opening closing : UInt8} (pair : BracketPair opening closing) :
    opening ≠ closing ∧ opening ≠ quote ∧ closing ≠ quote ∧ opening ≠ backslash ∧
      closing ≠ backslash := by
  rcases pair with ⟨rfl, rfl⟩ | ⟨rfl, rfl⟩ <;> decide

section Pieces

/-- A text as the escape-skipping scans see it: strings, and single chars between them. -/
inductive Piece where
  | outside (c : UInt8)
  | string (body : Text)

namespace Piece

def text : Piece → Text
  | outside c => [c]
  | string body => quoted body

def Proper : Piece → Prop
  | outside c => c ≠ quote ∧ c ≠ backslash
  | string body => StringBody body

/-- A string whose closing quote has a backslash before it. -/
def unclosed : Piece → Bool
  | outside _ => false
  | string body => body.getLast? == some backslash

/-- The chars whose brackets are counted: those between strings or, with the
roles exchanged, those in strings. -/
def counted (swapped : Bool) : Piece → Text
  | outside c => if swapped then [] else [c]
  | string body => if swapped then body else []

end Piece

/-- Every unclosed string exchanges the roles for what follows it. -/
def visible : Bool → List Piece → Text
  | _, [] => []
  | swapped, piece :: rest => piece.counted swapped ++ visible (swapped ^^ piece.unclosed) rest

def swappedAfter (swapped : Bool) (pieces : List Piece) : Bool :=
  pieces.foldl (fun swapped piece => swapped ^^ piece.unclosed) swapped

/-- What the text between two brackets has to be for the matcher to find the second one. -/
structure Closed (opening closing : UInt8) (pieces : List Piece) : Prop where
  even : pieces.countP Piece.unclosed % 2 = 0
  levelled : Levelled opening closing (visible false pieces)

def piecesText (pieces : List Piece) : Text := pieces.flatMap Piece.text

theorem swapped_after_count (swapped : Bool) (pieces : List Piece) :
    swappedAfter swapped pieces = (swapped ^^ decide (pieces.countP Piece.unclosed % 2 = 1)) := by
  unfold swappedAfter
  induction pieces generalizing swapped with
  | nil => simp
  | cons piece rest ih =>
      rw [List.foldl_cons, ih]
      cases open' : piece.unclosed with
      | false => rw [List.countP_cons_of_neg (by rw [open']; decide), Bool.xor_false]
      | true =>
          rw [List.countP_cons_of_pos open', Bool.xor_assoc, Bool.true_xor, ← decide_not]
          exact congrArg (swapped ^^ ·) (decide_eq_decide.mpr (by omega))

end Pieces

section Readings
variable (opening closing : UInt8)

def toggled (before c : UInt8) (inString : Bool) : Bool :=
  if c = quote ∧ before ≠ backslash then !inString else inString

/-- Where a text leaves the matcher: in a string or not, and at which depth; none
where it stops in the text. -/
def reading : UInt8 → Bool → Nat → Text → Option (Bool × Nat)
  | _, inString, depth, [] => some (inString, depth)
  | before, inString, depth, c :: rest =>
      if depthAfter opening closing c depth (toggled before c inString) = 0 then none
      else reading c (toggled before c inString)
        (depthAfter opening closing c depth (toggled before c inString)) rest

variable {opening closing}

theorem levels_pos (depth level : Nat) (text : Text) (deep : 0 < depth)
    (left : levels opening closing depth text = some level) : 0 < level := by
  induction text generalizing depth with
  | nil =>
      cases left
      exact deep
  | cons c rest ih =>
      rw [levels] at left
      split at left
      · cases left
      · next some => exact ih _ (Nat.pos_of_ne_zero some) left

/-- A char that changes no string state is counted outside strings only. -/
theorem reading_kept (before c : UInt8) (inString : Bool) (depth : Nat) (rest : Text)
    (deep : 0 < depth) (kept : ¬ (c = quote ∧ before ≠ backslash)) :
    reading opening closing before inString depth (c :: rest) =
      (levels opening closing depth (if inString then [] else [c])).bind fun level =>
        reading opening closing c inString level rest := by
  rw [reading, toggled, if_neg kept]
  cases inString with
  | true => exact if_neg (Nat.ne_of_gt deep)
  | false =>
      change (if levelAfter opening closing c depth = 0 then none else _) =
        (if levelAfter opening closing c depth = 0 then none
          else some (levelAfter opening closing c depth)).bind _
      split <;> rfl

theorem reading_body (body : Text) (strings : StringBody body) (before : UInt8) (inString : Bool)
    (depth : Nat) (more : Text) (deep : 0 < depth) :
    reading opening closing before inString depth (body ++ more) =
      (levels opening closing depth (if inString then [] else body)).bind fun level =>
        reading opening closing (body.getLastD before) inString level more := by
  -- Every char is read in the state that the body is entered in.
  have step : ∀ (c : UInt8) (rest : Text) (before : UInt8) (depth : Nat), 0 < depth →
      ¬ (c = quote ∧ before ≠ backslash) →
      (∀ depth, 0 < depth → reading opening closing c inString depth (rest ++ more) =
        (levels opening closing depth (if inString then [] else rest)).bind fun level =>
          reading opening closing (rest.getLastD c) inString level more) →
      reading opening closing before inString depth (c :: rest ++ more) =
        (levels opening closing depth (if inString then [] else c :: rest)).bind fun level =>
          reading opening closing ((c :: rest).getLastD before) inString level more := by
    intro c rest before depth deep kept later
    rw [List.cons_append, reading_kept before c inString depth _ deep kept, List.getLastD_cons]
    have split : (if inString then [] else c :: rest) =
        (if inString then [] else [c]) ++ (if inString then [] else rest) := by
      cases inString <;> rfl
    rw [split, levels_append, Option.bind_assoc]
    cases left : levels opening closing depth (if inString then [] else [c]) with
    | none => rfl
    | some level => exact later level (levels_pos depth level _ deep left)
  induction strings generalizing before depth with
  | nil => cases inString <;> rfl
  | plain c rest noQuote noEscape strings ih =>
      exact step c rest before depth deep (fun both => noQuote both.1) fun depth => ih c depth
  | escaped c rest strings ih =>
      -- The quote that a backslash escapes has the backslash before it.
      exact step backslash (c :: rest) before depth deep (by rintro ⟨⟨⟩, -⟩) fun depth deep =>
        step c rest backslash depth deep (fun both => both.2 rfl) fun depth => ih c depth

theorem reading_string (pair : BracketPair opening closing) (body : Text)
    (strings : StringBody body) (before : UInt8) (swapped : Bool) (depth : Nat) (more : Text)
    (deep : 0 < depth) (single : before ≠ backslash) :
    reading opening closing before swapped depth (quoted body ++ more) =
      (levels opening closing depth ((Piece.string body).counted swapped)).bind fun level =>
        reading opening closing quote (swapped ^^ (Piece.string body).unclosed) level more := by
  obtain ⟨-, openQuote, closeQuote, -⟩ := pair_apart pair
  have mark : ∀ depth inString, depthAfter opening closing quote depth inString = depth := by
    intro depth inString
    rw [depthAfter, if_neg openQuote.symm, if_neg closeQuote.symm, ite_self]
  have spelled : quoted body ++ more = quote :: (body ++ (quote :: more)) := by
    simp [quoted]
  rw [spelled, reading, mark, if_neg (Nat.ne_of_gt deep), toggled, if_pos ⟨rfl, single⟩,
    reading_body body strings quote _ depth _ deep]
  have shown : (if !swapped then [] else body) = (Piece.string body).counted swapped := by
    cases swapped <;> rfl
  rw [shown]
  cases left : levels opening closing depth ((Piece.string body).counted swapped) with
  | none => rfl
  | some level =>
      -- The closing quote toggles unless the last char of the body is a backslash.
      have kept := levels_pos depth level _ deep left
      rw [Option.bind_some, Option.bind_some, reading, mark, if_neg (Nat.ne_of_gt kept)]
      congr 1
      rw [toggled, Piece.unclosed, List.getLastD_eq_getLast?]
      cases last : body.getLast? with
      | none => cases swapped <;> rfl
      | some c =>
          by_cases escape : c = backslash
          · subst escape
            cases swapped <;> rfl
          · rw [if_pos ⟨rfl, escape⟩, beq_false_of_ne (fun same => escape (Option.some.inj same))]
            cases swapped <;> rfl

/-- The pieces are read one after another, each in the roles that the ones before leave. -/
theorem reading_pieces (pair : BracketPair opening closing) (pieces : List Piece)
    (proper : ∀ piece ∈ pieces, piece.Proper) (before : UInt8) (single : before ≠ backslash) :
    ∃ last, last ≠ backslash ∧ ∀ swapped depth more, 0 < depth →
      reading opening closing before swapped depth (piecesText pieces ++ more) =
        (levels opening closing depth (visible swapped pieces)).bind fun level =>
          reading opening closing last (swappedAfter swapped pieces) level more := by
  induction pieces generalizing before with
  | nil => exact ⟨before, single, fun _ _ _ _ => rfl⟩
  | cons piece rest ih =>
      have first : ∃ last, last ≠ backslash ∧ ∀ swapped depth more, 0 < depth →
          reading opening closing before swapped depth (piece.text ++ more) =
            (levels opening closing depth (piece.counted swapped)).bind fun level =>
              reading opening closing last (swapped ^^ piece.unclosed) level more := by
        have fits := proper piece List.mem_cons_self
        cases piece with
        | outside c =>
            refine ⟨c, fits.2, fun swapped depth more deep => ?_⟩
            rw [Piece.unclosed, Bool.xor_false]
            exact reading_kept before c swapped depth more deep fun both => fits.1 both.1
        | string body =>
            exact ⟨quote, by decide, fun swapped depth more deep =>
              reading_string pair body fits before swapped depth more deep single⟩
      obtain ⟨middle, plain, first⟩ := first
      obtain ⟨last, ends, later⟩ :=
        ih (fun piece member => proper piece (List.mem_cons_of_mem _ member)) middle plain
      refine ⟨last, ends, fun swapped depth more deep => ?_⟩
      rw [piecesText, List.flatMap_cons, List.append_assoc, first swapped depth _ deep, visible,
        levels_append, Option.bind_assoc]
      cases left : levels opening closing depth (piece.counted swapped) with
      | none => rfl
      | some level => exact later _ level more (levels_pos depth level _ deep left)

end Readings

section Matching
variable (src : Cells) (opening closing : UInt8)

theorem toggles_toggled (before c : UInt8) (inString : Bool) (pos : Nat)
    (behind : 0 < pos ∧ src[pos - 1]? = some before) :
    toggles src inString pos c = .ok (toggled before c inString) := by
  unfold toggles toggled
  by_cases mark : c = quote
  · rw [if_pos mark, if_neg (Nat.ne_of_gt behind.1), (char_here src _ before).mpr behind.2]
    by_cases escape : before = backslash
    · rw [if_neg fun both => both.2 escape]
      change Except.ok (if before = backslash then inString else !inString) = _
      rw [if_pos escape]
    · rw [if_pos ⟨mark, escape⟩]
      change Except.ok (if before = backslash then inString else !inString) = _
      rw [if_neg escape]
  · rw [if_neg mark, if_neg fun both => mark both.1]
    rfl

/-- The matcher reads the text and goes on behind it, or stops in it. -/
theorem matching_reading (text : Text) (before : UInt8) (inString : Bool) (pos len depth : Nat)
    (deep : 0 < depth) (behind : 0 < pos ∧ src[pos - 1]? = some before) (here : Here src pos text)
    (fits : pos + text.length ≤ len) :
    match reading opening closing before inString depth text with
    | some (later, level) => matchingBrace src opening closing pos len depth inString =
        matchingBrace src opening closing (pos + text.length) len level later
    | none => ∃ stop, stop < pos + text.length ∧
        matchingBrace src opening closing pos len depth inString = .ok stop := by
  induction text generalizing before inString pos depth with
  | nil => rfl
  | cons c rest ih =>
      obtain ⟨head, tail⟩ := (here_cons src pos c rest).mp here
      rw [List.length_cons] at fits ⊢
      have step := matching_brace_step src opening closing pos len depth inString _ c (by omega) deep
        head (toggles_toggled src before c inString pos behind)
      rw [reading]
      by_cases done : depthAfter opening closing c depth (toggled before c inString) = 0
      · rw [if_pos done]
        rw [if_neg (by omega)] at step
        exact ⟨pos, by omega, step⟩
      · rw [if_neg done]
        rw [if_pos (Nat.pos_of_ne_zero done)] at step
        have later := ih c (toggled before c inString) (pos + 1) _ (Nat.pos_of_ne_zero done)
          ⟨Nat.succ_pos pos, head⟩ tail (by omega)
        rw [step, Nat.add_comm rest.length 1, ← Nat.add_assoc]
        exact later

variable {opening closing}

/-- At the closing bracket the matcher stops if it is outside strings and at depth one. -/
theorem matching_closing (pair : BracketPair opening closing) (inString : Bool)
    (pos len depth : Nat) (deep : 0 < depth) (here : src[pos]? = some closing) (inside : pos < len) :
    matchingBrace src opening closing pos len depth inString = .ok pos ↔
      inString = false ∧ depth = 1 := by
  obtain ⟨apart, -, closeQuote, -⟩ := pair_apart pair
  have kept : toggles src inString pos closing = .ok inString := by
    rw [toggles, if_neg closeQuote]
    rfl
  rw [matching_brace_step src opening closing pos len depth inString inString closing inside deep here
    kept]
  constructor
  · intro stops
    split at stops
    · have onward := (matching_brace_returned src opening closing _ len _ pos inString stops).1
      omega
    · next done =>
        cases inString with
        | true => exact absurd deep done
        | false =>
            refine ⟨rfl, ?_⟩
            simp only [depthAfter, Bool.false_eq_true, ↓reduceIte, apart.symm] at done
            omega
  · rintro ⟨rfl, rfl⟩
    simp only [depthAfter, Bool.false_eq_true, ↓reduceIte, apart.symm, Nat.sub_self,
      Nat.lt_irrefl]

theorem find_closed_iff (pair : BracketPair opening closing) (pieces : List Piece)
    (proper : ∀ piece ∈ pieces, piece.Proper) (pos len : Nat)
    (here : Here src pos (enclosed opening closing (piecesText pieces)))
    (fits : pos + (enclosed opening closing (piecesText pieces)).length ≤ len) :
    findMatchingBrace src (pos + 1) len opening closing =
        .ok (pos + 1 + (piecesText pieces).length) ↔ Closed opening closing pieces := by
  obtain ⟨apart, -, -, openEscape, -⟩ := pair_apart pair
  obtain ⟨head, tail⟩ := (here_cons src pos opening _).mp here
  obtain ⟨innerHere, last⟩ := (here_append src _ (piecesText pieces) _).mp tail
  have last := ((here_cons src _ closing _).mp last).1
  simp only [enclosed, List.length_cons, List.length_append, List.length_nil] at fits
  have matched := matching_reading src opening closing (piecesText pieces) opening false (pos + 1) len
    1 Nat.one_pos ⟨Nat.succ_pos pos, head⟩ innerHere (by omega)
  obtain ⟨_, -, read⟩ := reading_pieces pair pieces proper opening openEscape
  have read := read false 1 [] Nat.one_pos
  rw [List.append_nil] at read
  rw [read] at matched
  have closed : Closed opening closing pieces ↔ swappedAfter false pieces = false ∧
      levels opening closing 1 (visible false pieces) = some 1 := by
    rw [levels_levelled opening closing apart, swapped_after_count, Bool.false_xor,
      decide_eq_false_iff_not, Nat.mod_two_not_eq_one]
    exact ⟨fun closed => ⟨closed.even, closed.levelled⟩, fun both => ⟨both.1, both.2⟩⟩
  rw [closed, findMatchingBrace]
  cases left : levels opening closing 1 (visible false pieces) with
  | none =>
      rw [left] at matched
      obtain ⟨stop, before, stops⟩ := matched
      rw [stops]
      constructor
      · intro same
        have same := Except.ok.inj same
        omega
      · rintro ⟨-, ⟨⟩⟩
  | some level =>
      rw [left] at matched
      have deep := levels_pos 1 level _ Nat.one_pos left
      change matchingBrace src opening closing (pos + 1) len 1 false = matchingBrace src opening
        closing (pos + 1 + (piecesText pieces).length) len level (swappedAfter false pieces) at matched
      rw [matched, matching_closing src pair _ _ len level deep last (by omega), Option.some.injEq]

end Matching

end SolanaSdk.JsonBrackets
