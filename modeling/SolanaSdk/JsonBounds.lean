import SolanaSdk.JsonAccess

/-!
Where the values of a text lie. A container that never closes and a string cut
right after a backslash end one past their limit; a child's limit is the closing
bracket of its container, so only the root can get past the text. A string whose
first quote is the last char before the limit has no room for a second one.
-/

namespace SolanaSdk.JsonBounds

open ByteData JsonText JsonScanners JsonTokens JsonAccess Segments Loops

section Text

/-- The text behind an opening quote ends in a backslash before any closing quote. -/
def cutInEscape : Text → Bool
  | [] => false
  | c :: rest =>
      if c = quote then false
      else if c = backslash then
        match rest with
        | [] => true
        | _ :: later => cutInEscape later
      else cutInEscape rest

theorem cut_cons (c : UInt8) (rest : Text) :
    cutInEscape (c :: rest) =
      if c = quote then false
      else if c = backslash then
        match rest with
        | [] => true
        | _ :: later => cutInEscape later
      else cutInEscape rest := by
  cases rest with
  | nil => rfl
  | cons escaped later => rfl

/-- The text behind an opening bracket has its closing one. -/
def closes (opening closing : UInt8) (depth : Nat) (inString : Bool) (before : UInt8) :
    Text → Bool
  | [] => false
  | c :: rest =>
      let inString := if c = quote ∧ before ≠ backslash then !inString else inString
      let depth := depthAfter opening closing c depth inString
      if 0 < depth then closes opening closing depth inString c rest else true

/-- The first value of the text gets to its end, as far as that value has one to look for. -/
def RootEnds (text : Text) : Prop :=
  match text.dropWhile isBlank with
  | [] => True
  | c :: rest =>
      if c = quote then cutInEscape rest = false
      else if c = openBrace then closes openBrace closeBrace 1 false c rest = true
      else if c = openBracket then closes openBracket closeBracket 1 false c rest = true
      else True

variable (src : Cells)

/-- The chars from a position up to the limit. -/
def upTo (len pos : Nat) : Text := (src.take len).drop pos

theorem up_to_here (len pos : Nat) (c : UInt8) (inside : pos < len) (here : src[pos]? = some c) :
    upTo src len pos = c :: upTo src len (pos + 1) := by
  apply drop_here
  rw [List.getElem?_take_of_lt inside, here]

theorem up_to_past (len pos : Nat) (past : len ≤ pos) : upTo src len pos = [] := by
  rw [upTo, List.drop_eq_nil_iff]
  exact Nat.le_trans (List.length_take_le len src) past

theorem skip_while_drops (keep : UInt8 → Bool) (pos len later : Nat)
    (returned : skipWhile src keep pos len = .ok later) :
    (upTo src len pos).dropWhile keep = upTo src len later := by
  induction pos using skipWhile.induct len with
  | case1 pos inside ih =>
      rw [skipWhile, if_pos inside] at returned
      obtain ⟨c, read, rest⟩ := bind_returned _ _ _ returned
      have here := (char_here src pos c).mp read
      rw [up_to_here src len pos c inside here, List.dropWhile_cons]
      split at rest
      next kept => rw [if_pos kept, ih rest]
      next refused =>
        cases rest
        rw [if_neg refused, ← up_to_here src len _ c inside here]
  | case2 pos past =>
      rw [skip_while_past src keep pos len (Nat.not_lt.mp past)] at returned
      cases returned
      rw [up_to_past src len _ (Nat.not_lt.mp past)]
      rfl

theorem scan_string_cut (pos len later : Nat) (fits : len ≤ src.length) (within : pos ≤ len)
    (returned : scanString src pos len = .ok later) :
    later ≤ len ↔ cutInEscape (upTo src len pos) = false := by
  induction pos using scanString.induct len with
  | case1 pos inside escape plain =>
      rw [scanString, if_pos inside] at returned
      obtain ⟨c, read, rest⟩ := bind_returned _ _ _ returned
      have here := (char_here src pos c).mp read
      rw [up_to_here src len pos c inside here, cut_cons]
      by_cases closing : c = quote
      · rw [if_pos closing] at rest ⊢
        cases rest
        exact ⟨fun _ => rfl, fun _ => within⟩
      rw [if_neg closing] at rest ⊢
      by_cases escaped : c = backslash
      · rw [if_pos escaped] at rest ⊢
        by_cases more : pos + 1 < len
        · -- The escaped char lies before the limit and is skipped on both sides.
          rw [up_to_here src len (pos + 1) _ more
            (List.getElem?_eq_getElem (Nat.lt_of_lt_of_le more fits))]
          exact escape more rest
        · -- Nothing is left to escape: the scan ends past the limit.
          rw [scan_string_past src (pos + 2) len (by omega)] at rest
          cases rest
          rw [up_to_past src len (pos + 1) (Nat.not_lt.mp more)]
          exact ⟨fun short => absurd short (by omega), fun never => by cases never⟩
      · rw [if_neg escaped] at rest ⊢
        exact plain inside rest
  | case2 pos past =>
      rw [scan_string_past src pos len (Nat.not_lt.mp past)] at returned
      cases returned
      rw [up_to_past src len _ (Nat.not_lt.mp past)]
      exact ⟨fun _ => rfl, fun _ => within⟩

theorem toggles_behind (inString toggled : Bool) (pos : Nat) (c before : UInt8)
    (behind : 0 < pos ∧ src[pos - 1]? = some before)
    (turned : toggles src inString pos c = .ok toggled) :
    toggled = if c = quote ∧ before ≠ backslash then !inString else inString := by
  have read := (char_here src (pos - 1) before).mpr behind.2
  unfold toggles at turned
  by_cases mark : c = quote
  · rw [if_pos mark, if_neg (by omega), read] at turned
    by_cases escaped : before = backslash
    · rw [if_neg (fun both => both.2 escaped)]
      simpa [escaped, bind, Except.bind, pure, Except.pure] using turned.symm
    · rw [if_pos ⟨mark, escaped⟩]
      simpa [escaped, bind, Except.bind, pure, Except.pure] using turned.symm
  · rw [if_neg mark] at turned
    rw [if_neg (fun both => mark both.1)]
    exact (Except.ok.inj turned).symm

theorem matching_brace_closes (opening closing : UInt8) (pos len depth later : Nat)
    (inString : Bool) (before : UInt8) (deep : 0 < depth) (within : pos ≤ len)
    (behind : 0 < pos ∧ src[pos - 1]? = some before)
    (returned : matchingBrace src opening closing pos len depth inString = .ok later) :
    later < len ↔ closes opening closing depth inString before (upTo src len pos) = true := by
  induction pos, depth, inString using matchingBrace.induct opening closing len
    generalizing before with
  | case1 pos depth inString inside ih =>
      rw [matchingBrace, if_pos inside] at returned
      obtain ⟨c, read, rest⟩ := bind_returned _ _ _ returned
      obtain ⟨toggled, turned, rest⟩ := bind_returned _ _ _ rest
      have here := (char_here src pos c).mp read
      have same := toggles_behind src inString toggled pos c before behind turned
      rw [up_to_here src len pos c inside.1 here, closes, ← same]
      dsimp only at rest ⊢
      split at rest
      next more =>
        -- The char just read is the one behind the next position.
        rw [if_pos more]
        exact ih c toggled c more inside.1 ⟨Nat.succ_pos _, here⟩ rest
      next done =>
        rw [if_neg done]
        cases rest
        exact ⟨fun _ => rfl, fun _ => inside.1⟩
  | case2 pos depth inString done =>
      rw [matchingBrace, if_neg done] at returned
      cases returned
      rw [up_to_past src len _ (by omega)]
      exact ⟨fun inside => absurd ⟨inside, deep⟩ done, fun never => absurd never Bool.false_ne_true⟩

end Text

section Root
variable (text : Text)

theorem c_str_up_to : upTo (cStr text) text.length 0 = text := by
  rw [upTo, cStr, List.take_left, List.drop_zero]

theorem root_ends_iff (value : JsonValue)
    (parsed : parse (cStr text) text.length = .ok value) :
    value._end ≤ text.length ↔ RootEnds text := by
  obtain ⟨⟨found, later⟩, returned, rest⟩ := bind_returned _ _ _ parsed
  cases rest
  obtain ⟨first, skipped, start⟩ := parse_value_returned _ 0 _ later value returned
  have dropped := skip_while_drops (cStr text) isBlank 0 text.length first skipped
  rw [c_str_up_to] at dropped
  unfold RootEnds
  rw [dropped]
  rcases start with ⟨past, same, -⟩ | ⟨inside, -, c, here, token⟩
  · rw [up_to_past _ _ _ past, same]
    exact ⟨fun _ => trivial, fun _ => Nat.zero_le _⟩
  rw [up_to_here _ _ _ c inside here]
  dsimp only
  have behind : 0 < first + 1 ∧ (cStr text)[first + 1 - 1]? = some c := ⟨by omega, here⟩
  -- A root of any other kind ends within the text and has no end to look for.
  have scalar : value._type ≠ .string → value._type ≠ .array → value._type ≠ .object →
      (value._end ≤ text.length ↔
        if c = quote then cutInEscape (upTo (cStr text) text.length (first + 1)) = false
        else if c = openBrace then
          closes openBrace closeBrace 1 false c
            (upTo (cStr text) text.length (first + 1)) = true
        else if c = openBracket then
          closes openBracket closeBracket 1 false c
            (upTo (cStr text) text.length (first + 1)) = true
        else True) := by
    intro noString noArray noObject
    obtain ⟨⟨noQuote, noBrace, noBracket⟩, bounded⟩ :=
      token_scalar _ c first _ value inside here token noString noArray noObject
    rw [if_neg noQuote, if_neg noBrace, if_neg noBracket]
    exact ⟨fun _ => trivial, fun _ => bounded⟩
  cases token with
  | string closing same scanned =>
      rw [if_pos same, ← scan_string_cut _ _ _ closing (c_str_fits text) inside scanned]
      dsimp only
      split <;> omega
  | object closing same matched =>
      subst same
      rw [if_neg (by decide), if_pos rfl,
        ← matching_brace_closes _ _ _ _ _ 1 closing false _ Nat.one_pos inside behind matched]
      exact Iff.rfl
  | array closing same matched =>
      subst same
      rw [if_neg (by decide), if_neg (by decide), if_pos rfl,
        ← matching_brace_closes _ _ _ _ _ 1 closing false _ Nat.one_pos inside behind matched]
      exact Iff.rfl
  | literal word kind flag listed found =>
      obtain ⟨-, noString, noArray, noObject, -⟩ := literal_listed word kind flag listed
      exact scalar noString noArray noObject
  | number past starts scanned => exact scalar (by rintro ⟨⟩) (by rintro ⟨⟩) (by rintro ⟨⟩)
  | nothing unknown => exact scalar (by rintro ⟨⟩) (by rintro ⟨⟩) (by rintro ⟨⟩)

/-- A child ends at most one past its limit, which is where its container ends. -/
theorem reachable_bounded (ends : RootEnds text) (limit : Nat) (value : JsonValue)
    (reached : Reachable text limit value) : value._end ≤ text.length := by
  induction reached with
  | root value parsed => exact (root_ends_iff text value parsed).mpr ends
  | step limit value found move before accessed ih =>
      rcases access_placed (cStr text) value found move accessed with rfl | ⟨inside, c, here, token⟩
      · exact Nat.zero_le _
      · -- One past the limit is the end of the container, which the hypothesis bounds.
        have ranged := token_ranged _ c _ _ found inside here token
        omega

end Root

section Inside

/-- A range within the text whose accessors read only chars of the text. With
the text itself for cells, reading at its length is a fault. -/
structure Inside (text : Text) (value : JsonValue) : Prop where
  ordered : value._start ≤ value._end
  bounded : value._end ≤ text.length
  room : value._type = .string ∨ value._type = .array ∨ value._type = .object →
    1 ≤ value._end ∧ value._start + 1 ≤ value._end - 1
  raw : ∃ chars, value.raw text = .ok chars
  asString : ∃ chars, value.asString text = .ok chars
  member : ∀ key, ∃ found, member text value key = .ok found
  element : ∀ index, ∃ found, element text value index = .ok found
  arraySize : ∀ fuel fault, arraySize text value fuel ≠ some (.error fault)

/-- A string whose opening quote is the last char before its limit. -/
def LoneQuote (limit : Nat) (value : JsonValue) : Prop :=
  value._type = .string ∧ value._start + 1 = limit

variable (text : Text)

theorem read_range_total (start stop : Nat) (fits : stop ≤ text.length) :
    ∃ chars, readRange text start stop = .ok chars := by
  have reads : ∀ pos ∈ List.range' start (stop - start),
      charAt text pos = pure (text.getD pos 0) := by
    intro pos member
    have bounds := List.mem_range'_1.mp member
    have inside : pos < text.length := by omega
    exact (char_here text pos _).mpr (by simp [inside])
  exact ⟨_, map_m_total (charAt text) (text.getD · 0) _ reads⟩

theorem unescape_total (pos stop : Nat) (fits : stop ≤ text.length) :
    ∃ chars, unescape text pos stop = .ok chars := by
  induction pos using unescape.induct stop with
  | case1 pos inside escaped plain =>
      obtain ⟨c, read⟩ := char_inside text pos (by omega)
      obtain ⟨later, rest⟩ := plain
      rw [unescape, if_pos inside, read]
      by_cases escape : c = backslash ∧ pos + 1 < stop
      · obtain ⟨second, readSecond⟩ := char_inside text (pos + 1) (by omega)
        obtain ⟨skipped, others⟩ := escaped c escape
        exact ⟨decodeEscape second :: skipped, by simp [escape, readSecond, others, bind,
          Except.bind, pure, Except.pure]⟩
      · exact ⟨c :: later, by simp only [escape, rest, bind, Except.bind, pure, Except.pure,
          ↓reduceIte]⟩
  | case2 pos past => exact ⟨[], by rw [unescape, if_neg past]; rfl⟩

theorem placed_inside (limit : Nat) (value : JsonValue) (src : Cells)
    (placed : Placed src limit value) (bounded : value._end ≤ text.length)
    (paired : ¬ LoneQuote limit value) : Inside text value := by
  obtain ⟨inside, c, here, token⟩ := placed
  have ranged := token_ranged src c _ limit value inside here token
  have room := token_room src c _ limit value inside token
  -- The kinds whose accessors subtract have room for both of their end chars.
  have wide : value._type = .string ∨ value._type = .array ∨ value._type = .object →
      value._start + 2 ≤ value._end := by
    rintro (text | container)
    · exact (room.1 text).2 fun last => paired ⟨text, last⟩
    · exact room.2 container
  exact {
    ordered := ranged.2.2.1
    bounded := bounded
    room := fun kind => by
      have wide := wide kind
      omega
    raw := by
      unfold JsonValue.raw
      split
      · exact ⟨[], rfl⟩
      · exact read_range_total text _ _ bounded
    asString := by
      unfold JsonValue.asString
      split
      · exact ⟨[], rfl⟩
      next kind =>
        have wide := wide (.inl (by tauto))
        dsimp only
        rw [if_neg (by omega)]
        exact unescape_total text _ _ (by omega)
    member := fun key => by
      by_cases kind : value._type = .object
      · have wide := wide (.inr (.inr kind))
        exact member_total text value key (by omega)
      · exact ⟨.absent, if_pos (.inl kind)⟩
    element := fun index => element_total text value index (by omega)
    arraySize := fun fuel fault => by
      unfold arraySize
      split
      · rintro ⟨⟩
      · intro ran
        obtain ⟨size, same⟩ := attempt_returned _
          (fun state => size_body_total text _ state (by omega)) _ _ ⟨fuel, ran⟩
        cases same }

theorem absent_inside : Inside text .absent where
  ordered := Nat.le_refl 0
  bounded := Nat.zero_le _
  room := by rintro (never | never | never) <;> cases never
  raw := ⟨[], rfl⟩
  asString := ⟨[], rfl⟩
  member := fun _ => ⟨.absent, rfl⟩
  element := fun _ => ⟨.absent, rfl⟩
  arraySize := by rintro fuel fault ⟨⟩

/-- Every value stays inside the text exactly when the root gets to its end and
no string has its first quote right before its limit. -/
theorem values_stay_inside :
    ((∃ root, parse text text.length = .ok root) ∧
        ∀ limit value, Reachable text limit value → Inside text value) ↔
      RootEnds text ∧ ∀ limit value, Reachable text limit value → ¬ LoneQuote limit value := by
  obtain ⟨found, later, parsed⟩ := parse_value_total (cStr text) 0 text.length (c_str_fits text)
  have root : parse (cStr text) text.length = .ok found := by
    rw [parse, parsed]
    rfl
  constructor
  · rintro ⟨-, inside⟩
    refine ⟨(root_ends_iff text found root).mp
      (inside text.length found (.root found root)).bounded, ?_⟩
    rintro limit value reached ⟨kind, last⟩
    -- The lone quote ends at its limit, which leaves no room for the second one.
    obtain ⟨low, narrow⟩ := (inside limit value reached).room (.inl kind)
    rcases reachable_placed text limit value reached with rfl | ⟨before, c, here, token⟩
    · cases kind
    · have short := ((token_room _ c _ limit value before token).1 kind).1 last
      omega
  · rintro ⟨ends, paired⟩
    constructor
    · obtain ⟨own, past, same⟩ := parse_value_total text 0 text.length (Nat.le_refl _)
      exact ⟨own, by rw [parse, same]; rfl⟩
    · intro limit value reached
      have bounded := reachable_bounded text ends limit value reached
      rcases reachable_placed text limit value reached with rfl | placed
      · exact absent_inside text
      · exact placed_inside text limit value _ placed bounded (paired limit value reached)

/-- A bracket that never closes ends past the text, and the string of one quote
has no length to reserve. -/
theorem unfinished_values_leave :
    (∃ value, Reachable (ofLiteral "[1") 2 value ∧ value._end = 3 ∧
      ¬ Inside (ofLiteral "[1") value) ∧
    ∃ value, Reachable [quote] 1 value ∧
      value.asString (cStr [quote]) = .error .lengthError ∧ ¬ Inside [quote] value := by
  constructor
  · refine ⟨⟨.array, true, 0, 3, false⟩, .root _ (by decide +kernel), rfl, ?_⟩
    intro inside
    exact absurd inside.bounded (by decide)
  · refine ⟨⟨.string, true, 0, 1, false⟩, .root _ (by decide +kernel), by decide +kernel, ?_⟩
    intro inside
    exact absurd (inside.room (.inl rfl)).2 (by decide)

end Inside

end SolanaSdk.JsonBounds
