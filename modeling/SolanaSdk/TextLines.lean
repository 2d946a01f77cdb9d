import Mathlib.Data.List.TakeWhile
import SolanaSdk.ByteData
import SolanaSdk.Decoders

/-!
Texts whose lines end in a carriage return and a line feed, with an empty line
behind the last one. A reader of such a head does not look past that line, and a
search for the two line ends in a row finds it, whatever stands behind it.
-/

namespace SolanaSdk.TextLines

open ByteData Decoders

def lineEnd : Text := [13, 10]

section Reading

/-- The line up to the first line end, and what is behind that. -/
def splitLine : Text → Option (Text × Text)
  | [] => none
  | c :: rest =>
      if c = 13 ∧ rest.head? = some 10 then some ([], rest.tail)
      else (splitLine rest).map fun split => (c :: split.1, split.2)

theorem split_line_shorter (input line rest : Text) (found : splitLine input = some (line, rest)) :
    rest.length < input.length := by
  induction input generalizing line with
  | nil => cases found
  | cons c later ih =>
      rw [splitLine] at found
      split at found
      next =>
        cases found
        rw [List.length_tail, List.length_cons]
        omega
      next =>
        obtain ⟨⟨line', rest'⟩, inner, same⟩ := Option.map_eq_some_iff.mp found
        cases same
        exact Nat.lt_succ_of_lt (ih line' inner)

/-- The lines up to the first empty one. -/
def splitHead (input : Text) : Option (List Text × Text) :=
  match _found : splitLine input with
  | none => none
  | some ([], rest) => some ([], rest)
  | some (c :: line, rest) =>
      (splitHead rest).map fun split => ((c :: line) :: split.1, split.2)
termination_by input.length
decreasing_by exact split_line_shorter input _ _ _found

def readHead : Decoder UInt8 (List Text) := splitHead

theorem split_line_plain (line rest : Text) (plain : (13 : UInt8) ∉ line) :
    splitLine (line ++ (lineEnd ++ rest)) = some (line, rest) := by
  induction line with
  | nil => rfl
  | cons c later ih =>
      rw [List.mem_cons, not_or] at plain
      rw [List.cons_append, splitLine, if_neg fun both => plain.1 both.1.symm, ih plain.2]
      rfl

theorem split_line_extends (input line rest more : Text)
    (found : splitLine input = some (line, rest)) :
    splitLine (input ++ more) = some (line, rest ++ more) := by
  induction input generalizing line with
  | nil => cases found
  | cons c later ih =>
      rw [splitLine] at found
      rw [List.cons_append, splitLine]
      cases later with
      | nil =>
          -- Nothing behind the char: no line ends here, and none is found in the rest.
          rw [if_neg (by simp)] at found
          cases found
      | cons d last =>
          change (if c = 13 ∧ some d = some 10 then some ([], last ++ more) else _) = _
          change (if c = 13 ∧ some d = some 10 then some ([], last) else _) = _ at found
          by_cases ended : c = 13 ∧ some d = some 10
          · rw [if_pos ended] at found ⊢
            cases found
            rfl
          · rw [if_neg ended] at found ⊢
            obtain ⟨⟨line', rest'⟩, inner, same⟩ := Option.map_eq_some_iff.mp found
            cases same
            rw [ih line' inner]
            rfl

theorem split_head_end (input rest : Text) (found : splitLine input = some ([], rest)) :
    splitHead input = some ([], rest) := by
  rw [splitHead]
  split
  next missed => cases found.symm.trans missed
  next other here =>
    cases found.symm.trans here
    rfl
  next here => cases found.symm.trans here

theorem split_head_more (input line rest : Text) (c : UInt8)
    (found : splitLine input = some (c :: line, rest)) :
    splitHead input = (splitHead rest).map fun split => ((c :: line) :: split.1, split.2) := by
  rw [splitHead]
  split
  next missed => cases found.symm.trans missed
  next here => cases found.symm.trans here
  next here =>
    cases found.symm.trans here
    rfl

theorem extends_head : Extends readHead := by
  intro input lines rest more
  change splitHead input = some (lines, rest) → splitHead (input ++ more) = some (lines, rest ++ more)
  intro read
  induction input using splitHead.induct generalizing lines with
  | case1 input missed =>
      rw [splitHead] at read
      split at read
      next => cases read
      next here => cases missed.symm.trans here
      next here => cases missed.symm.trans here
  | case2 input rest' found =>
      rw [split_head_end input rest' found] at read
      cases read
      exact split_head_end _ _ (split_line_extends _ _ _ more found)
  | case3 input c line rest' found ih =>
      rw [split_head_more input line rest' c found] at read
      obtain ⟨⟨later, last⟩, inner, same⟩ := Option.map_eq_some_iff.mp read
      cases same
      rw [split_head_more _ _ _ c (split_line_extends _ _ _ more found), ih later inner]
      rfl

end Reading

/-- Lines that are not empty and in which no line ends. -/
structure Lines where
  lines : List Text
  whole : ∀ line ∈ lines, line ≠ [] ∧ (13 : UInt8) ∉ line

namespace Lines

def text (head : Lines) : Text := head.lines.flatMap fun line => line ++ lineEnd

end Lines

theorem recovers_head (head : Lines) : Recovers readHead head.lines (head.text ++ lineEnd) := by
  obtain ⟨lines, whole⟩ := head
  intro rest
  change splitHead (lines.flatMap (fun line => line ++ lineEnd) ++ lineEnd ++ rest) = some (lines, rest)
  induction lines with
  | nil => exact split_head_end _ _ (split_line_plain [] rest List.not_mem_nil)
  | cons line later ih =>
      obtain ⟨here, others⟩ := List.forall_mem_cons.mp whole
      obtain ⟨c, line', rfl⟩ := List.exists_cons_of_ne_nil here.1
      have found := split_line_plain (c :: line')
        (later.flatMap (fun line => line ++ lineEnd) ++ lineEnd ++ rest) here.2
      rw [List.flatMap_cons, List.append_assoc, List.append_assoc, List.append_assoc,
        ← List.append_assoc (List.flatMap _ later), split_head_more _ _ _ c found, ih others]
      rfl

section Searching

/-- `std::string::find` of a string. -/
def findText (pattern : Text) : Text → Option Nat
  | [] => if pattern = [] then some 0 else none
  | c :: rest =>
      if pattern <+: c :: rest then some 0 else (findText pattern rest).map (· + 1)

theorem find_text_some (pattern text : Text) (index : Nat) :
    findText pattern text = some index ↔
      index ≤ text.length ∧ pattern <+: text.drop index ∧
        ∀ earlier < index, ¬ pattern <+: text.drop earlier := by
  induction text generalizing index with
  | nil =>
      rw [findText, List.drop_nil, List.prefix_nil, List.length_nil, Nat.le_zero]
      by_cases empty : pattern = []
      · rw [if_pos empty]
        constructor
        · intro found
          cases found
          exact ⟨rfl, empty, fun _ never => absurd never (Nat.not_lt_zero _)⟩
        · rintro ⟨rfl, -, -⟩
          rfl
      · rw [if_neg empty]
        simp [empty]
  | cons c rest ih =>
      rw [findText]
      by_cases here : pattern <+: c :: rest
      · rw [if_pos here]
        constructor
        · intro found
          cases found
          exact ⟨Nat.zero_le _, here, fun _ never => absurd never (Nat.not_lt_zero _)⟩
        · rintro ⟨-, -, first⟩
          cases index with
          | zero => rfl
          | succ index => exact absurd here (first 0 (Nat.succ_pos index))
      · rw [if_neg here, Option.map_eq_some_iff]
        constructor
        · rintro ⟨later, found, rfl⟩
          obtain ⟨inside, there, first⟩ := (ih later).mp found
          refine ⟨Nat.succ_le_succ inside, there, fun earlier before => ?_⟩
          cases earlier with
          | zero => exact here
          | succ earlier => exact first earlier (Nat.lt_of_succ_lt_succ before)
        · rintro ⟨inside, there, first⟩
          cases index with
          | zero => exact absurd there here
          | succ later =>
              refine ⟨later, (ih later).mpr ⟨Nat.le_of_succ_le_succ inside, there,
                fun earlier before => ?_⟩, rfl⟩
              exact first (earlier + 1) (Nat.succ_lt_succ before)

/-- In a text that has been cut off the place is the same, or there is none. -/
theorem find_text_take (pattern text : Text) (index : Nat) (given : pattern ≠ [])
    (found : findText pattern text = some index) (size : Nat) :
    findText pattern (text.take size) =
      if index + pattern.length ≤ size then some index else none := by
  obtain ⟨inside, here, first⟩ := (find_text_some pattern text index).mp found
  -- A pattern within the cut text is one in the whole text.
  have within : ∀ place, pattern <+: (text.take size).drop place →
      pattern <+: text.drop place ∧ place + pattern.length ≤ size := by
    intro place there
    have cut := there.length_le
    have full := List.length_pos_iff.mpr given
    rw [List.length_drop, List.length_take] at cut
    rw [List.drop_take] at there
    exact ⟨there.trans (List.take_prefix _ _), by omega⟩
  by_cases fits : index + pattern.length ≤ size
  · rw [if_pos fits]
    have span := here.length_le
    rw [List.length_drop] at span
    refine (find_text_some _ _ _).mpr ⟨by rw [List.length_take]; omega, ?_, fun earlier before there =>
      first earlier before (within earlier there).1⟩
    rw [List.drop_take]
    exact List.prefix_take_iff.mpr ⟨here, by omega⟩
  · rw [if_neg fits]
    cases other : findText pattern (text.take size) with
    | none => rfl
    | some place =>
        obtain ⟨-, there, -⟩ := (find_text_some _ _ _).mp other
        obtain ⟨there, short⟩ := within place there
        have ahead : ¬ place < index := fun before => first place before there
        omega

/-- Two line ends in a row: the end of the last line and the empty line. -/
def blankLine : Text := lineEnd ++ lineEnd

theorem find_text_plain (line text : Text) (plain : (13 : UInt8) ∉ line) :
    findText blankLine (line ++ text) = (findText blankLine text).map (· + line.length) := by
  induction line with
  | nil => exact Option.map_id'.symm
  | cons c later ih =>
      rw [List.mem_cons, not_or] at plain
      have apart : ¬ blankLine <+: c :: (later ++ text) := by
        intro here
        exact plain.1 (List.cons_prefix_cons.mp here).1
      rw [List.cons_append, findText, if_neg apart, ih plain.2, Option.map_map]
      rfl

/-- The empty line behind some lines is the first one in the text. -/
theorem find_blank_line (head : Lines) (given : head.lines ≠ []) (rest : Text) :
    ∃ index, findText blankLine (head.text ++ (lineEnd ++ rest)) = some index ∧
      index + lineEnd.length = head.text.length := by
  obtain ⟨lines, whole⟩ := head
  change ∃ index, findText blankLine (lines.flatMap (fun line => line ++ lineEnd) ++ _) = _ ∧
    _ = (lines.flatMap fun line => line ++ lineEnd).length
  induction lines with
  | nil => exact absurd rfl given
  | cons line later ih =>
      obtain ⟨here, others⟩ := List.forall_mem_cons.mp whole
      rw [List.flatMap_cons, List.append_assoc, List.append_assoc, find_text_plain line _ here.2]
      cases later with
      | nil =>
          refine ⟨line.length, ?_, by simp⟩
          have first : findText blankLine (lineEnd ++ (lineEnd ++ rest)) = some 0 := by
            rw [← List.append_assoc]
            exact (find_text_some _ _ _).mpr
              ⟨Nat.zero_le _, List.prefix_append _ _, fun _ never => absurd never (Nat.not_lt_zero _)⟩
          rw [List.flatMap_nil, List.nil_append, first, Option.map_some, Nat.zero_add]
      | cons next last =>
          obtain ⟨index, found, place⟩ := ih others (List.cons_ne_nil _ _)
          obtain ⟨c, next', rfl⟩ := List.exists_cons_of_ne_nil (List.forall_mem_cons.mp others).1.1
          have plain := (List.forall_mem_cons.mp others).1.2
          rw [List.mem_cons, not_or] at plain
          -- Behind this line end the next line begins, and not an empty one.
          have apart : ∀ text, ¬ blankLine <+: 13 :: 10 :: (c :: next' ++ text) := by
            intro text here
            have third := (List.cons_prefix_cons.mp (List.cons_prefix_cons.mp here).2).2
            exact plain.1 (List.cons_prefix_cons.mp third).1
          have below : ∀ text, ¬ blankLine <+: 10 :: text := by
            intro text here
            exact absurd (List.cons_prefix_cons.mp here).1 (by decide)
          refine ⟨index + 2 + line.length, ?_, ?_⟩
          · rw [List.flatMap_cons, List.append_assoc, List.append_assoc]
            rw [List.flatMap_cons, List.append_assoc, List.append_assoc] at found
            change Option.map _ (findText blankLine (13 :: 10 :: (c :: next' ++ _))) = _
            rw [findText, if_neg (apart _), findText, if_neg (below _), found]
            rfl
          · rw [List.length_append, List.length_append, ← place]
            change _ = line.length + 2 + (index + 2)
            change index + 2 + line.length + 2 = _
            omega

end Searching
end SolanaSdk.TextLines
