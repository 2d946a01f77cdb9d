import SolanaSdk.JsonScanners

/-!
What `parseValue` makes of the first char of a value: one case for each branch,
and the range that the value gets. Only the last branch leaves the position
where it was.
-/

namespace SolanaSdk.JsonTokens

open ByteData JsonText JsonScanners Segments

variable (src : Cells)

/-- The three literals with the values that they stand for. -/
def literals : List (Text × Kind × Bool) :=
  [(trueWord, .bool, true), (falseWord, .bool, false), (nullWord, .null, false)]

def StartsNothing (c : UInt8) (pos len : Nat) : Prop :=
  c ≠ quote ∧ c ≠ openBrace ∧ c ≠ openBracket ∧ (c == minus || isDigit c) = false ∧
    ∀ literal ∈ literals, ¬ WordAt src literal.1 pos len

/-- What `parseValue` makes of a value that starts with `c` at `pos`. -/
inductive Token (c : UInt8) (pos len : Nat) : JsonValue → Prop where
  | string (closing : Nat) (first : c = quote)
      (scanned : scanString src (pos + 1) len = .ok closing) :
      Token c pos len ⟨.string, true, pos, if closing < len then closing + 1 else closing, false⟩
  | object (closing : Nat) (first : c = openBrace)
      (matched : findMatchingBrace src (pos + 1) len openBrace closeBrace = .ok closing) :
      Token c pos len ⟨.object, true, pos, closing + 1, false⟩
  | array (closing : Nat) (first : c = openBracket)
      (matched : findMatchingBrace src (pos + 1) len openBracket closeBracket = .ok closing) :
      Token c pos len ⟨.array, true, pos, closing + 1, false⟩
  | literal (word : Text) (kind : Kind) (flag : Bool) (listed : (word, kind, flag) ∈ literals)
      (found : WordAt src word pos len) :
      Token c pos len ⟨kind, true, pos, pos + word.length, flag⟩
  | number (past : Nat) (starts : (c == minus || isDigit c) = true)
      (scanned : scanNumber src pos len = .ok past) :
      Token c pos len ⟨.number, true, pos, past, false⟩
  | nothing (unknown : StartsNothing src c pos len) :
      Token c pos len ⟨.null, true, pos, pos, false⟩

theorem parse_token_returned (c : UInt8) (pos len : Nat) (value : JsonValue)
    (here : src[pos]? = some c) (returned : parseToken src c pos len = .ok value) :
    Token src c pos len value := by
  unfold parseToken at returned
  by_cases text : c = quote
  · rw [if_pos text] at returned
    obtain ⟨closing, scanned, rest⟩ := bind_returned _ _ _ returned
    cases rest
    exact .string closing text scanned
  rw [if_neg text] at returned
  by_cases brace : c = openBrace
  · rw [if_pos brace] at returned
    obtain ⟨closing, matched, rest⟩ := bind_returned _ _ _ returned
    cases rest
    exact .object closing brace matched
  rw [if_neg brace] at returned
  by_cases bracket : c = openBracket
  · rw [if_pos bracket] at returned
    obtain ⟨closing, matched, rest⟩ := bind_returned _ _ _ returned
    cases rest
    exact .array closing bracket matched
  rw [if_neg bracket] at returned
  -- The three literals are tried in this order.
  obtain ⟨affirmed, first, returned⟩ := bind_returned _ _ _ returned
  have whether := literal_at_returned src c trueWord pos len affirmed here (by decide) first
  cases affirmed with
  | true =>
      cases returned
      exact .literal trueWord .bool true (by decide) (whether.mp rfl)
  | false =>
  obtain ⟨denied, second, returned⟩ := bind_returned _ _ _ returned
  have whetherNot := literal_at_returned src c falseWord pos len denied here (by decide) second
  cases denied with
  | true =>
      cases returned
      exact .literal falseWord .bool false (by decide) (whetherNot.mp rfl)
  | false =>
  obtain ⟨empty, third, returned⟩ := bind_returned _ _ _ returned
  have whetherNull := literal_at_returned src c nullWord pos len empty here (by decide) third
  cases empty with
  | true =>
      cases returned
      exact .literal nullWord .null false (by decide) (whetherNull.mp rfl)
  | false =>
  by_cases starts : (c == minus || isDigit c) = true
  · simp only [Bool.false_eq_true, ↓reduceIte, starts] at returned
    obtain ⟨past, scanned, rest⟩ := bind_returned _ _ _ returned
    cases rest
    exact .number past starts scanned
  · simp only [Bool.false_eq_true, ↓reduceIte, starts] at returned
    cases returned
    refine .nothing ⟨text, brace, bracket, by simpa using starts, ?_⟩
    intro literal listed found
    simp only [literals, List.mem_cons, List.not_mem_nil, or_false] at listed
    rcases listed with rfl | rfl | rfl
    · exact absurd (whether.mpr found) Bool.false_ne_true
    · exact absurd (whetherNot.mpr found) Bool.false_ne_true
    · exact absurd (whetherNull.mpr found) Bool.false_ne_true

theorem parse_token_total (c : UInt8) (pos len : Nat) (fits : len ≤ src.length) :
    ∃ value, parseToken src c pos len = .ok value := by
  obtain ⟨closing, scanned⟩ := scan_string_total src (pos + 1) len fits
  obtain ⟨brace, braced⟩ :=
    matching_brace_total src openBrace closeBrace (pos + 1) len 1 false fits
  obtain ⟨bracket, bracketed⟩ :=
    matching_brace_total src openBracket closeBracket (pos + 1) len 1 false fits
  obtain ⟨affirmed, first⟩ := literal_at_total src c trueWord pos len fits (by decide)
  obtain ⟨denied, second⟩ := literal_at_total src c falseWord pos len fits (by decide)
  obtain ⟨empty, third⟩ := literal_at_total src c nullWord pos len fits (by decide)
  obtain ⟨past, number⟩ := scan_number_total src pos len fits
  simp only [parseToken, findMatchingBrace, scanned, braced, bracketed, first, second, third,
    number, bind, Except.bind, pure, Except.pure]
  split_ifs <;> exact ⟨_, rfl⟩

theorem literal_listed (word : Text) (kind : Kind) (flag : Bool)
    (listed : (word, kind, flag) ∈ literals) :
    (∃ letter rest, word = letter :: rest ∧ letter ≠ quote ∧ letter ≠ openBrace ∧
        letter ≠ openBracket ∧ (letter == minus || isDigit letter) = false) ∧
      kind ≠ .string ∧ kind ≠ .array ∧ kind ≠ .object ∧ kind ≠ .number := by
  simp only [literals, List.mem_cons, Prod.mk.injEq, List.not_mem_nil, or_false] at listed
  rcases listed with ⟨rfl, rfl, rfl⟩ | ⟨rfl, rfl, rfl⟩ | ⟨rfl, rfl, rfl⟩
  · exact ⟨⟨116, _, rfl, by decide⟩, by decide⟩
  · exact ⟨⟨102, _, rfl, by decide⟩, by decide⟩
  · exact ⟨⟨110, _, rfl, by decide⟩, by decide⟩

/-- A literal starts with none of the chars that open another value. -/
theorem literal_first (word : Text) (kind : Kind) (flag : Bool) (pos len : Nat) (c : UInt8)
    (listed : (word, kind, flag) ∈ literals) (found : WordAt src word pos len)
    (here : src[pos]? = some c) :
    c ≠ quote ∧ c ≠ openBrace ∧ c ≠ openBracket ∧ (c == minus || isDigit c) = false := by
  obtain ⟨⟨letter, rest, spelled, starts⟩, -⟩ := literal_listed word kind flag listed
  have same := ((here_cons src pos letter rest).mp (spelled ▸ found.1)).1
  rw [here] at same
  cases same
  exact starts

/-- Only a string cut in an escape and a container that never closes end past the limit. -/
theorem token_ranged (c : UInt8) (pos len : Nat) (value : JsonValue) (inside : pos < len)
    (here : src[pos]? = some c) (token : Token src c pos len value) :
    value._src = true ∧ value._start = pos ∧ pos ≤ value._end ∧ value._end ≤ len + 1 := by
  cases token with
  | string closing first scanned =>
      obtain ⟨onward, within⟩ := scan_string_returned src (pos + 1) len closing scanned
      have short := within inside
      refine ⟨rfl, rfl, ?_, ?_⟩
      · change pos ≤ if closing < len then closing + 1 else closing
        split <;> omega
      · change (if closing < len then closing + 1 else closing) ≤ len + 1
        split <;> omega
  | object closing first matched =>
      obtain ⟨onward, within⟩ := matching_brace_returned src _ _ _ _ _ _ _ matched
      exact ⟨rfl, rfl, by dsimp only; omega, Nat.succ_le_succ (within inside)⟩
  | array closing first matched =>
      obtain ⟨onward, within⟩ := matching_brace_returned src _ _ _ _ _ _ _ matched
      exact ⟨rfl, rfl, by dsimp only; omega, Nat.succ_le_succ (within inside)⟩
  | literal word kind flag listed found =>
      exact ⟨rfl, rfl, Nat.le_add_right _ _, Nat.le_succ_of_le found.2⟩
  | number past starts scanned =>
      obtain ⟨moved, within⟩ := scan_number_returned src pos len past c inside here starts scanned
      exact ⟨rfl, rfl, Nat.le_of_lt moved, Nat.le_succ_of_le within⟩
  | nothing unknown => exact ⟨rfl, rfl, Nat.le_refl _, by dsimp only; omega⟩

theorem token_moves (c : UInt8) (pos len : Nat) (value : JsonValue) (inside : pos < len)
    (here : src[pos]? = some c) (token : Token src c pos len value) :
    pos < value._end ∨ StartsNothing src c pos len ∧ value._end = pos := by
  cases token with
  | string closing first scanned =>
      have onward := (scan_string_returned src (pos + 1) len closing scanned).1
      left
      change pos < if closing < len then closing + 1 else closing
      split <;> omega
  | object closing first matched =>
      have onward := (matching_brace_returned src _ _ _ _ _ _ _ matched).1
      exact .inl (by dsimp only; omega)
  | array closing first matched =>
      have onward := (matching_brace_returned src _ _ _ _ _ _ _ matched).1
      exact .inl (by dsimp only; omega)
  | literal word kind flag listed found =>
      obtain ⟨⟨letter, rest, spelled, -⟩, -⟩ := literal_listed word kind flag listed
      rw [spelled]
      exact .inl (Nat.lt_add_of_pos_right (Nat.succ_pos _))
  | number past starts scanned =>
      exact .inl (scan_number_returned src pos len past c inside here starts scanned).1
  | nothing unknown => exact .inr ⟨unknown, rfl⟩

/-- A string has room for its two quotes unless its first one stands right
before the limit; a container always has room for its brackets. -/
theorem token_room (c : UInt8) (pos len : Nat) (value : JsonValue) (inside : pos < len)
    (token : Token src c pos len value) :
    (value._type = .string →
        (pos + 1 = len → value._end = len) ∧ (pos + 1 ≠ len → pos + 2 ≤ value._end)) ∧
      (value._type = .array ∨ value._type = .object → pos + 2 ≤ value._end) := by
  cases token with
  | string closing first scanned =>
      have onward := (scan_string_returned src (pos + 1) len closing scanned).1
      refine ⟨fun _ => ?_, by rintro (never | never) <;> cases never⟩
      constructor
      · -- Behind a lone quote the scan stops where it starts.
        intro last
        rw [last, scan_string_past src len len (Nat.le_refl _)] at scanned
        cases scanned
        exact if_neg (Nat.lt_irrefl _)
      · intro more
        change pos + 2 ≤ if closing < len then closing + 1 else closing
        split <;> omega
  | object closing first matched =>
      have onward := (matching_brace_returned src _ _ _ _ _ _ _ matched).1
      exact ⟨by rintro ⟨⟩, fun _ => Nat.succ_le_succ onward⟩
  | array closing first matched =>
      have onward := (matching_brace_returned src _ _ _ _ _ _ _ matched).1
      exact ⟨by rintro ⟨⟩, fun _ => Nat.succ_le_succ onward⟩
  | literal word kind flag listed found =>
      obtain ⟨-, noString, noArray, noObject, -⟩ := literal_listed word kind flag listed
      exact ⟨fun never => absurd never noString,
        fun never => never.elim (fun never => absurd never noArray)
          (fun never => absurd never noObject)⟩
  | number past starts scanned => exact ⟨by rintro ⟨⟩, by rintro (never | never) <;> cases never⟩
  | nothing unknown => exact ⟨by rintro ⟨⟩, by rintro (never | never) <;> cases never⟩

section First
variable (pos len : Nat) (value : JsonValue)

theorem token_quote (here : src[pos]? = some quote) (token : Token src quote pos len value)
    (closing : Nat) (scanned : scanString src (pos + 1) len = .ok closing) :
    value = ⟨.string, true, pos, if closing < len then closing + 1 else closing, false⟩ := by
  cases token with
  | string found first other =>
      rw [scanned] at other
      cases other
      rfl
  | object found first matched => exact absurd first (by decide)
  | array found first matched => exact absurd first (by decide)
  | literal word kind flag listed found =>
      exact absurd rfl (literal_first src word kind flag pos len quote listed found here).1
  | number past starts scanned => exact absurd starts (by decide)
  | nothing unknown => exact absurd rfl unknown.1

theorem token_string (here : src[pos]? = some quote) (token : Token src quote pos len value)
    (closing : Nat) (scanned : scanString src (pos + 1) len = .ok closing)
    (inside : closing < len) :
    value = ⟨.string, true, pos, closing + 1, false⟩ := by
  rw [token_quote src pos len value here token closing scanned, if_pos inside]

theorem token_object (here : src[pos]? = some openBrace) (token : Token src openBrace pos len value)
    (closing : Nat)
    (matched : findMatchingBrace src (pos + 1) len openBrace closeBrace = .ok closing) :
    value = ⟨.object, true, pos, closing + 1, false⟩ := by
  cases token with
  | string found first scanned => exact absurd first (by decide)
  | object found first other =>
      rw [matched] at other
      cases other
      rfl
  | array found first matched => exact absurd first (by decide)
  | literal word kind flag listed found =>
      exact absurd rfl (literal_first src word kind flag pos len openBrace listed found here).2.1
  | number past starts scanned => exact absurd starts (by decide)
  | nothing unknown => exact absurd rfl unknown.2.1

theorem token_array (here : src[pos]? = some openBracket)
    (token : Token src openBracket pos len value) (closing : Nat)
    (matched : findMatchingBrace src (pos + 1) len openBracket closeBracket = .ok closing) :
    value = ⟨.array, true, pos, closing + 1, false⟩ := by
  cases token with
  | string found first scanned => exact absurd first (by decide)
  | object found first matched => exact absurd first (by decide)
  | array found first other =>
      rw [matched] at other
      cases other
      rfl
  | literal word kind flag listed found =>
      have first := literal_first src word kind flag pos len openBracket listed found here
      exact absurd rfl first.2.2.1
  | number past starts scanned => exact absurd starts (by decide)
  | nothing unknown => exact absurd rfl unknown.2.2.1

theorem token_number (c : UInt8) (here : src[pos]? = some c) (token : Token src c pos len value)
    (starts : (c == minus || isDigit c) = true) (past : Nat)
    (scanned : scanNumber src pos len = .ok past) :
    value = ⟨.number, true, pos, past, false⟩ := by
  cases token with
  | string found first scanned =>
      rw [first] at starts
      exact absurd starts (by decide)
  | object found first matched =>
      rw [first] at starts
      exact absurd starts (by decide)
  | array found first matched =>
      rw [first] at starts
      exact absurd starts (by decide)
  | literal word kind flag listed found =>
      have first := literal_first src word kind flag pos len c listed found here
      rw [first.2.2.2] at starts
      cases starts
  | number found starts other =>
      rw [scanned] at other
      cases other
      rfl
  | nothing unknown =>
      rw [unknown.2.2.2.1] at starts
      cases starts

/-- The three literals start with different chars. -/
theorem token_literal (c : UInt8) (here : src[pos]? = some c) (token : Token src c pos len value)
    (word : Text) (kind : Kind) (flag : Bool) (listed : (word, kind, flag) ∈ literals)
    (found : WordAt src word pos len) :
    value = ⟨kind, true, pos, pos + word.length, flag⟩ := by
  have first := literal_first src word kind flag pos len c listed found here
  cases token with
  | string found same scanned => exact absurd same first.1
  | object found same matched => exact absurd same first.2.1
  | array found same matched => exact absurd same first.2.2.1
  | literal other otherKind otherFlag otherListed otherFound =>
      obtain ⟨⟨letter, rest, spelled, -⟩, -⟩ := literal_listed word kind flag listed
      obtain ⟨⟨otherLetter, otherRest, otherSpelled, -⟩, -⟩ :=
        literal_listed other otherKind otherFlag otherListed
      have one := ((here_cons src pos letter rest).mp (spelled ▸ found.1)).1
      have two := ((here_cons src pos otherLetter otherRest).mp (otherSpelled ▸ otherFound.1)).1
      -- Both words start with the char that stands there.
      have heads : word.head? = other.head? := by
        rw [spelled, otherSpelled, List.head?_cons, List.head?_cons, ← one, two]
      have same : ∀ one ∈ literals, ∀ two ∈ literals, one.1.head? = two.1.head? → one = two := by
        decide
      cases same _ listed _ otherListed heads
      rfl
  | number past starts scanned =>
      rw [first.2.2.2] at starts
      cases starts
  | nothing unknown => exact absurd found (unknown.2.2.2.2 _ listed)

theorem token_nothing (c : UInt8) (unknown : StartsNothing src c pos len)
    (token : Token src c pos len value) : value = ⟨.null, true, pos, pos, false⟩ := by
  obtain ⟨noQuote, noBrace, noBracket, noNumber, noLiteral⟩ := unknown
  cases token with
  | string closing first scanned => exact absurd first noQuote
  | object closing first matched => exact absurd first noBrace
  | array closing first matched => exact absurd first noBracket
  | literal word kind flag listed found => exact absurd found (noLiteral _ listed)
  | number past starts scanned =>
      rw [noNumber] at starts
      cases starts
  | nothing unknown => rfl

end First

theorem token_scalar (c : UInt8) (pos len : Nat) (value : JsonValue) (inside : pos < len)
    (here : src[pos]? = some c) (token : Token src c pos len value)
    (noString : value._type ≠ .string) (noArray : value._type ≠ .array)
    (noObject : value._type ≠ .object) :
    (c ≠ quote ∧ c ≠ openBrace ∧ c ≠ openBracket) ∧ value._end ≤ len := by
  cases token with
  | string closing first scanned => exact absurd rfl noString
  | object closing first matched => exact absurd rfl noObject
  | array closing first matched => exact absurd rfl noArray
  | literal word kind flag listed found =>
      have first := literal_first src word kind flag pos len c listed found here
      exact ⟨⟨first.1, first.2.1, first.2.2.1⟩, found.2⟩
  | number past starts scanned =>
      refine ⟨⟨?_, ?_, ?_⟩,
        (scan_number_returned src pos len past c inside here starts scanned).2⟩
      · rintro rfl
        exact absurd starts (by decide)
      · rintro rfl
        exact absurd starts (by decide)
      · rintro rfl
        exact absurd starts (by decide)
  | nothing unknown =>
      obtain ⟨noQuote, noBrace, noBracket, -⟩ := unknown
      exact ⟨⟨noQuote, noBrace, noBracket⟩, Nat.le_of_lt inside⟩

theorem parse_value_returned (pos len later : Nat) (value : JsonValue)
    (returned : parseValue src pos len = .ok (value, later)) :
    ∃ first, skipWhitespace src pos len = .ok first ∧
      (len ≤ first ∧ value = .absent ∧ later = first ∨
        first < len ∧ later = value._end ∧
          ∃ c, src[first]? = some c ∧ Token src c first len value) := by
  obtain ⟨first, skipped, rest⟩ := bind_returned _ _ _ returned
  refine ⟨first, skipped, ?_⟩
  by_cases past : len ≤ first
  · rw [if_pos past] at rest
    cases rest
    exact .inl ⟨past, rfl, rfl⟩
  · rw [if_neg past] at rest
    obtain ⟨c, read, rest⟩ := bind_returned _ _ _ rest
    obtain ⟨found, parsed, rest⟩ := bind_returned _ _ _ rest
    cases rest
    have here := (char_here src first c).mp read
    exact .inr ⟨Nat.lt_of_not_le past, rfl, c, here,
      parse_token_returned src c first len value here parsed⟩

theorem parse_value_total (pos len : Nat) (fits : len ≤ src.length) :
    ∃ value later, parseValue src pos len = .ok (value, later) := by
  obtain ⟨first, skipped⟩ := skip_while_total src isBlank pos len fits
  rw [parseValue, skipWhitespace, skipped]
  by_cases past : len ≤ first
  · exact ⟨.absent, first, if_pos past⟩
  · obtain ⟨c, read⟩ := char_inside src first (by omega)
    obtain ⟨value, parsed⟩ := parse_token_total src c first len fits
    refine ⟨value, value._end, ?_⟩
    change (if len ≤ first then _ else charAt src first >>= _) = _
    rw [if_neg past, read]
    change (parseToken src c first len >>= _) = _
    rw [parsed]
    rfl

/-- The position after a value is not before it. -/
theorem parse_value_onward (pos len later : Nat) (value : JsonValue)
    (returned : parseValue src pos len = .ok (value, later)) : pos ≤ later := by
  obtain ⟨first, skipped, parsed⟩ := parse_value_returned src pos len later value returned
  have onward := (skip_while_returned src isBlank pos len first skipped).1
  rcases parsed with ⟨-, -, rfl⟩ | ⟨inside, rfl, c, here, token⟩
  · exact onward
  · exact Nat.le_trans onward (token_ranged src c first len value inside here token).2.2.1

end SolanaSdk.JsonTokens
