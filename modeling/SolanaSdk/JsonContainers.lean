import SolanaSdk.JsonPlaces

/-!
The three container scans on well-formed text, by induction along the items or
the members. Each turn takes one of them with its comma; a scan ends with the
place of the node that the tree has there, or at the closing bracket.
-/

namespace SolanaSdk.JsonContainers

open ByteData JsonText JsonScanners JsonTokens JsonAccess JsonGrammar JsonScanning JsonPlaces
open Segments Loops

section Containers
variable {words : Lexicon} (src : Cells)

/-- The place of the node, or the default value where there is none. -/
def Finds (found : JsonValue) : Option (Doc words) → Prop
  | some doc => ∃ pos, found = doc.valueAt pos ∧ Located src pos doc
  | none => found = .absent

/-- The values up to the first one under the key. -/
def readUpTo (key : Text) : List (Text × Doc words) → List (Doc words)
  | [] => []
  | (name, value) :: rest => value :: if name == key then [] else readUpTo key rest

/-- The children that an access parses. -/
def parsedBy (doc : Doc words) : Access → List (Doc words)
  | .key key => readUpTo key.chars doc.entries
  | .index index => doc.values.take (index + 1)

/-- One item with its spaces, up to the comma or the end behind it. -/
theorem item_read (scanned : Scanned words) (before : Space) (value : Doc words)
    (matched : Matched value) (after : Space) (pos limit : Nat) (inside : limit ≤ src.length)
    (beforeHere : Here src pos before.chars)
    (valueHere : Here src (pos + before.chars.length) value.text)
    (afterHere : Here src (pos + before.chars.length + value.text.length) after.chars)
    (followed : Followed src
      (pos + before.chars.length + value.text.length + after.chars.length))
    (fits : pos + before.chars.length + value.text.length + after.chars.length ≤ limit) :
    Located src (pos + before.chars.length) value ∧ pos + before.chars.length < limit ∧
      skipWhitespace src pos limit = .ok (pos + before.chars.length) ∧
      parseValue src (pos + before.chars.length) limit =
        .ok (value.valueAt (pos + before.chars.length),
          pos + before.chars.length + value.text.length) := by
  have located : Located src (pos + before.chars.length) value :=
    ⟨valueHere, followed_space src _ after afterHere followed⟩
  obtain ⟨letter, rest, spelled, ink⟩ := doc_head scanned value
  have head := ((here_cons src _ letter rest).mp (spelled ▸ valueHere)).1
  have long : 0 < value.text.length := by
    rw [spelled]
    exact Nat.succ_pos _
  refine ⟨located, by omega, ?_, ?_⟩
  · exact skip_space src before pos limit beforeHere (by omega) (.inr ⟨letter, head, ink⟩)
  · -- The spaces have been skipped, so none are left before the value.
    exact doc_parsed src scanned ⟨[], fun c never => absurd never List.not_mem_nil⟩ value matched _
      limit (here_nil src _) located (by rw [List.length_nil]; omega) inside

theorem past_comma_here (space : Space) (pos limit : Nat) (here : Here src pos space.chars)
    (mark : src[pos + space.chars.length]? = some comma) (fits : pos + space.chars.length < limit) :
    pastComma src pos limit = .ok (pos + space.chars.length + 1) := by
  rw [pastComma, skip_space src space pos limit here (by omega) (.inr ⟨comma, mark, by decide⟩)]
  exact skip_one_here src _ _ limit comma fits mark rfl

theorem past_comma_end (space : Space) (pos limit : Nat) (here : Here src pos space.chars)
    (last : pos + space.chars.length = limit) : pastComma src pos limit = .ok limit := by
  rw [pastComma, skip_space src space pos limit here (by omega) (.inl (by omega)), last]
  change skipOne src (· == comma) limit limit = _
  rw [skipOne, looks_at_past src _ limit limit (Nat.le_refl _)]
  rfl

/-- Where only spaces are left, the scan ends with the default value. -/
theorem element_blank (index limit pos i first : Nat)
    (skipped : skipWhitespace src pos limit = .ok first) (past : limit ≤ first) :
    Returns (elementTurn src index limit) (pos, i) (.ok .absent) := by
  apply returns_stop
  apply (attempt_stop _ _ _).mpr
  dsimp only [elementBody]
  rw [skipped]
  split
  · rfl
  · exact if_pos past

theorem element_past (index limit i : Nat) :
    Returns (elementTurn src index limit) (limit, i) (.ok .absent) :=
  element_blank src index limit limit i limit
    (skip_while_past src isBlank limit limit (Nat.le_refl _)) (Nat.le_refl _)

/-- The turn on an item ends the scan at its index. -/
theorem element_stops (index limit pos first later : Nat) (val : JsonValue)
    (skipped : skipWhitespace src pos limit = .ok first) (inside : first < limit)
    (parsed : parseValue src first limit = .ok (val, later)) :
    elementTurn src index limit (pos, index) = .stop (.ok val) := by
  have start : pos ≤ first := (skip_while_returned src isBlank pos limit first skipped).1
  apply (attempt_stop _ _ _).mpr
  dsimp only [elementBody]
  rw [if_neg (by omega), skipped]
  change (if limit ≤ first then _ else parseValue src first limit >>= _) = _
  rw [if_neg (by omega), parsed]
  change (if index = index then _ else _) = _
  rw [if_pos rfl]
  rfl

theorem element_passes (index limit pos i first later next : Nat) (val : JsonValue)
    (skipped : skipWhitespace src pos limit = .ok first) (inside : first < limit)
    (parsed : parseValue src first limit = .ok (val, later)) (other : i ≠ index)
    (comma : pastComma src later limit = .ok next) :
    Turn (elementTurn src index limit) (pos, i) (next, i + 1) := by
  have start : pos ≤ first := (skip_while_returned src isBlank pos limit first skipped).1
  apply (attempt_next _ _ _).mpr
  dsimp only [elementBody]
  rw [if_neg (by omega), skipped]
  change (if limit ≤ first then _ else parseValue src first limit >>= _) = _
  rw [if_neg (by omega), parsed]
  change (if i = index then _ else pastComma src later limit >>= _) = _
  rw [if_neg other, comma]
  rfl

theorem items_text_more (before : Space) (value : Doc words) (after : Space) (rest : Items words)
    (pos : Nat) (here : Here src pos (Items.more before value after rest).text) :
    Here src pos before.chars ∧ Here src (pos + before.chars.length) value.text ∧
      Here src (pos + before.chars.length + value.text.length) after.chars ∧
      src[pos + before.chars.length + value.text.length + after.chars.length]? = some comma ∧
      Here src (pos + before.chars.length + value.text.length + after.chars.length + 1)
        rest.text := by
  simpa only [Items.text, here_append, here_cons] using here

theorem element_items (scanned : Scanned words) (index limit : Nat) (inside : limit ≤ src.length)
    (followed : Followed src limit) (items : Items words) (pos i : Nat) (reached : i ≤ index)
    (matched : ∀ node ∈ items.values.take (index - i + 1), Matched node)
    (here : Here src pos items.text) (last : pos + items.text.length = limit) :
    ∃ found, Returns (elementTurn src index limit) (pos, i) (.ok found) ∧
      Finds src found items.values[index - i]? := by
  induction items using Items.along generalizing pos i with
  | last before value after =>
      simp only [Items.text, here_append] at here
      obtain ⟨beforeHere, valueHere, afterHere⟩ := here
      simp only [Items.text, List.length_append, ← Nat.add_assoc] at last
      obtain ⟨located, start, skipped, parsed⟩ := item_read src scanned before value
        (matched value List.mem_cons_self) after pos limit inside beforeHere valueHere afterHere
        (last ▸ followed) (by omega)
      by_cases same : i = index
      · subst same
        have stops := element_stops src i limit pos _ _ _ skipped start parsed
        refine ⟨_, returns_stop _ _ _ stops, ?_⟩
        rw [Nat.sub_self]
        exact ⟨_, rfl, located⟩
      · -- The index is out of range: one more turn, at the closing bracket.
        have turn := element_passes src index limit pos i _ _ _ _ skipped start parsed same
          (past_comma_end src after _ limit afterHere last)
        refine ⟨_, returns_next _ _ _ _ turn (element_past src index limit (i + 1)), ?_⟩
        rw [Items.values, List.getElem?_eq_none (by rw [List.length_singleton]; omega)]
        rfl
  | more before value after rest ih =>
      obtain ⟨beforeHere, valueHere, afterHere, mark, restHere⟩ :=
        items_text_more src before value after rest pos here
      simp only [Items.text, List.length_append, List.length_cons, ← Nat.add_assoc] at last
      obtain ⟨located, start, skipped, parsed⟩ := item_read src scanned before value
        (matched value List.mem_cons_self) after pos limit inside beforeHere valueHere afterHere
        ⟨comma, mark, .inr (.inl rfl)⟩ (by omega)
      by_cases same : i = index
      · subst same
        have stops := element_stops src i limit pos _ _ _ skipped start parsed
        refine ⟨_, returns_stop _ _ _ stops, ?_⟩
        rw [Nat.sub_self]
        exact ⟨_, rfl, located⟩
      · have turn := element_passes src index limit pos i _ _ _ _ skipped start parsed same
          (past_comma_here src after _ limit afterHere mark (by omega))
        -- What is left to count down is the index among the other items.
        have shifted : index - i = index - (i + 1) + 1 := by omega
        rw [Items.values, List.take_succ_cons, shifted] at matched
        obtain ⟨found, returns, finds⟩ := ih _ (i + 1) (by omega)
          (fun node member => matched node (List.mem_cons_of_mem _ member)) restHere (by omega)
        refine ⟨found, returns_next _ _ _ _ turn returns, ?_⟩
        rw [Items.values, shifted, List.getElem?_cons_succ]
        exact finds

theorem size_past (limit count : Nat) :
    Returns (sizeTurn src limit) (limit, count) (.ok count) := by
  apply returns_stop
  apply (attempt_stop _ _ _).mpr
  dsimp only [sizeBody]
  rw [if_pos (Nat.le_refl _)]
  rfl

theorem size_items (scanned : Scanned words) (limit : Nat) (inside : limit ≤ src.length)
    (followed : Followed src limit) (items : Items words)
    (matched : ∀ node ∈ items.values, Matched node) (pos count : Nat)
    (here : Here src pos items.text) (last : pos + items.text.length = limit) :
    Returns (sizeTurn src limit) (pos, count) (.ok (count + items.values.length)) := by
  induction items using Items.along generalizing pos count with
  | last before value after =>
      simp only [Items.text, here_append] at here
      obtain ⟨beforeHere, valueHere, afterHere⟩ := here
      simp only [Items.text, List.length_append, ← Nat.add_assoc] at last
      obtain ⟨-, start, skipped, parsed⟩ := item_read src scanned before value
        (matched value List.mem_cons_self) after pos limit inside beforeHere valueHere afterHere
        (last ▸ followed) (by omega)
      have turn := size_passes src limit pos count _ _ _ _ skipped start parsed
        (past_comma_end src after _ limit afterHere last)
      exact returns_next _ _ _ _ turn (size_past src limit (count + 1))
  | more before value after rest ih =>
      obtain ⟨beforeHere, valueHere, afterHere, mark, restHere⟩ :=
        items_text_more src before value after rest pos here
      simp only [Items.text, List.length_append, List.length_cons, ← Nat.add_assoc] at last
      obtain ⟨-, start, skipped, parsed⟩ := item_read src scanned before value
        (matched value List.mem_cons_self) after pos limit inside beforeHere valueHere afterHere
        ⟨comma, mark, .inr (.inl rfl)⟩ (by omega)
      have turn := size_passes src limit pos count _ _ _ _ skipped start parsed
        (past_comma_here src after _ limit afterHere mark (by omega))
      have later := ih (fun node member => matched node (List.mem_cons_of_mem _ member)) _
        (count + 1) restHere (by omega)
      rw [Items.values, List.length_cons, Nat.add_comm rest.values.length 1, ← Nat.add_assoc]
      exact returns_next _ _ _ _ turn later

/-- A scan of an empty container sees only spaces. -/
theorem element_empty (index : Nat) (space : Space) (pos : Nat) (i : Nat)
    (here : Here src pos space.chars) :
    Returns (elementTurn src index (pos + space.chars.length)) (pos, i) (.ok .absent) :=
  element_blank src index _ pos i _
    (skip_space src space pos _ here (Nat.le_refl _) (.inl (Nat.le_refl _))) (Nat.le_refl _)

theorem size_empty (space : Space) (pos count : Nat) (here : Here src pos space.chars) :
    Returns (sizeTurn src (pos + space.chars.length)) (pos, count) (.ok count) := by
  apply returns_stop
  apply (attempt_stop _ _ _).mpr
  dsimp only [sizeBody]
  rw [skip_space src space pos _ here (Nat.le_refl _) (.inl (Nat.le_refl _))]
  split
  · rfl
  · exact if_pos (Nat.le_refl _)

theorem member_keyless (key : Text) (limit pos first : Nat)
    (skipped : skipWhitespace src pos limit = .ok first)
    (mark : looksAt src (· == quote) first limit = .ok false) :
    Returns (memberTurn src key limit) pos (.ok .absent) := by
  apply returns_stop
  apply (attempt_stop _ _ _).mpr
  unfold memberBody
  rw [skipped]
  split
  · rfl
  · change (looksAt src (· == quote) first limit >>= _) = _
    rw [mark]
    rfl

theorem member_blank (key : Text) (limit pos first : Nat)
    (skipped : skipWhitespace src pos limit = .ok first) (past : limit ≤ first) :
    Returns (memberTurn src key limit) pos (.ok .absent) :=
  member_keyless src key limit pos first skipped (looks_at_past src _ first limit past)

theorem member_empty (key : Text) (space : Space) (pos : Nat) (here : Here src pos space.chars) :
    Returns (memberTurn src key (pos + space.chars.length)) pos (.ok .absent) :=
  member_blank src key _ pos _
    (skip_space src space pos _ here (Nat.le_refl _) (.inl (Nat.le_refl _))) (Nat.le_refl _)

theorem member_past (key : Text) (limit : Nat) :
    Returns (memberTurn src key limit) limit (.ok .absent) :=
  member_blank src key limit limit limit (skip_while_past src isBlank limit limit (Nat.le_refl _))
    (Nat.le_refl _)

theorem key_matches_here (key text : Text) (keyStart : Nat) (here : Here src keyStart text)
    (inside : keyStart + text.length ≤ src.length) :
    keyMatches src key keyStart (keyStart + text.length) = .ok (text == key) := by
  unfold keyMatches
  split
  next same =>
    -- Of equal length, so being a prefix of the same text is being equal.
    rw [Nat.add_sub_cancel_left] at same
    obtain ⟨answer, matched⟩ := matches_total src key keyStart (by omega)
    have whether := matches_returned src key keyStart answer matched
    rw [matched]
    congr 1
    rw [Bool.eq_iff_iff, whether, beq_iff_eq]
    constructor
    · intro found
      exact (List.prefix_of_prefix_length_le here found (by omega)).eq_of_length same
    · rintro rfl
      exact here
  next other =>
    rw [Nat.add_sub_cancel_left] at other
    have apart : text ≠ key := by
      rintro rfl
      exact other rfl
    rw [beq_false_of_ne apart]
    rfl

theorem name_length (name : Name words) :
    name.text.length = name.before.chars.length + 1 + (words.keyText name.key).length + 1 +
      name.between.chars.length + 1 + name.after.chars.length := by
  simp only [Name.text, quoted, List.length_append, List.length_cons, List.length_nil]
  omega

theorem name_here (name : Name words) (pos : Nat) (here : Here src pos name.text) :
    let opened := pos + name.before.chars.length
    let closed := opened + 1 + (words.keyText name.key).length
    let marked := closed + 1 + name.between.chars.length
    Here src pos name.before.chars ∧ src[opened]? = some quote ∧
      Here src (opened + 1) (words.keyText name.key) ∧
      Here src (opened + 1) (words.keyText name.key ++ [quote]) ∧
      Here src (closed + 1) name.between.chars ∧ src[marked]? = some colon ∧
      Here src (marked + 1) name.after.chars := by
  simp only [Name.text, quoted, here_append, here_cons, List.length_nil, List.cons_append,
    List.append_assoc] at here ⊢
  obtain ⟨before, mark, body, last, -, between, point, after⟩ := here
  exact ⟨before, mark, body, ⟨body, last, here_nil src _⟩, between, point, after⟩

/-- The turn on a member, from what each call in it returns. -/
theorem member_steps (key : Text) (limit pos first keyEnd second third later : Nat) (found : Bool)
    (val : JsonValue) (inside : pos < limit)
    (skipped : skipWhitespace src pos limit = .ok first)
    (mark : looksAt src (· == quote) first limit = .ok true)
    (closed : scanString src (first + 1) limit = .ok keyEnd)
    (compared : keyMatches src key (first + 1) keyEnd = .ok found)
    (again : skipWhitespace src (if keyEnd < limit then keyEnd + 1 else keyEnd) limit = .ok second)
    (point : skipOne src (· == colon) second limit = .ok third)
    (parsed : parseValue src third limit = .ok (val, later)) :
    memberBody src key limit pos =
      if found = true then .ok (.stop val)
      else do
        let next ← pastComma src later limit
        return .next next := by
  rw [memberBody, if_neg (by omega), skipped]
  change (looksAt src (· == quote) _ limit >>= _) = _
  rw [mark]
  change (scanString src _ limit >>= _) = _
  rw [closed]
  change (keyMatches src key _ _ >>= _) = _
  rw [compared]
  change (skipWhitespace src (if _ < limit then _ else _) limit >>= _) = _
  rw [again]
  change (skipOne src _ _ limit >>= _) = _
  rw [point]
  change (parseValue src _ limit >>= _) = _
  rw [parsed]
  rfl

/-- The turn on a member, up to what comes after a value under another key. -/
theorem member_turned (scanned : Scanned words) (key : Text) (name : Name words) (value : Doc words)
    (matched : Matched value) (pos limit : Nat) (inside : limit ≤ src.length)
    (nameHere : Here src pos name.text)
    (located : Located src (pos + name.text.length) value)
    (fits : pos + name.text.length + value.text.length ≤ limit) :
    memberBody src key limit pos =
      if (words.keyText name.key == key) = true then
        .ok (.stop (value.valueAt (pos + name.text.length)))
      else do
        let next ← pastComma src (pos + name.text.length + value.text.length) limit
        return .next next := by
  obtain ⟨before, mark, body, string, between, point, after⟩ := name_here src name pos nameHere
  rw [name_length] at fits
  rw [name_length, ← Nat.add_assoc, ← Nat.add_assoc, ← Nat.add_assoc, ← Nat.add_assoc,
    ← Nat.add_assoc, ← Nat.add_assoc] at located ⊢
  -- What each call of the turn returns, in the order of the source.
  have first := skip_space src name.before pos limit before (by omega) (.inr ⟨quote, mark, rfl⟩)
  have closed := scan_string_body src _ (scanned.key name.key) _ limit string (by omega)
  have compared := key_matches_here src key _ _ body (by omega)
  have second := skip_space src name.between _ limit between (by omega) (.inr ⟨colon, point, rfl⟩)
  have third := skip_one_here src (· == colon) _ limit colon (by omega) point rfl
  have parsed := doc_parsed src scanned name.after value matched _ limit after located (by omega)
    inside
  exact member_steps src key limit pos _ _ _ _ _ _ _ (by omega) first
    (looks_at_here src _ _ limit quote (by omega) mark) closed compared
    (by rw [if_pos (by omega)]; exact second) third parsed

theorem members_text_more (name : Name words) (value : Doc words) (after : Space)
    (rest : Members words) (pos : Nat)
    (here : Here src pos (Members.more name value after rest).text) :
    Here src pos name.text ∧ Here src (pos + name.text.length) value.text ∧
      Here src (pos + name.text.length + value.text.length) after.chars ∧
      src[pos + name.text.length + value.text.length + after.chars.length]? = some comma ∧
      Here src (pos + name.text.length + value.text.length + after.chars.length + 1)
        rest.text := by
  simpa only [Members.text, here_append, here_cons] using here

theorem member_entries (scanned : Scanned words) (key : Text) (limit : Nat)
    (inside : limit ≤ src.length) (followed : Followed src limit) (members : Members words)
    (matched : ∀ node ∈ readUpTo key members.entries, Matched node) (pos : Nat)
    (here : Here src pos members.text) (last : pos + members.text.length = limit) :
    ∃ found, Returns (memberTurn src key limit) pos (.ok found) ∧
      Finds src found ((members.entries.find? (·.1 == key)).map (·.2)) := by
  induction members using Members.along generalizing pos with
  | last name value after =>
      simp only [Members.text, here_append] at here
      obtain ⟨nameHere, valueHere, afterHere⟩ := here
      simp only [Members.text, List.length_append, ← Nat.add_assoc] at last
      have located : Located src (pos + name.text.length) value :=
        ⟨valueHere, followed_space src _ after afterHere (last ▸ followed)⟩
      have turned := member_turned src scanned key name value (matched value List.mem_cons_self) pos
        limit inside nameHere located (by omega)
      rw [Members.entries, List.find?_cons]
      cases same : words.keyText name.key == key with
      | true =>
          -- The first member under the key ends the scan.
          rw [if_pos same] at turned
          exact ⟨_, returns_stop _ _ _ ((attempt_stop _ _ _).mpr turned), _, rfl, located⟩
      | false =>
          rw [if_neg (by rw [same]; decide), past_comma_end src after _ limit afterHere last]
            at turned
          exact ⟨_, returns_next _ _ _ _ ((attempt_next _ _ _).mpr turned)
            (member_past src key limit), rfl⟩
  | more name value after rest ih =>
      obtain ⟨nameHere, valueHere, afterHere, mark, restHere⟩ :=
        members_text_more src name value after rest pos here
      simp only [Members.text, List.length_append, List.length_cons, ← Nat.add_assoc] at last
      have located : Located src (pos + name.text.length) value :=
        ⟨valueHere, followed_space src _ after afterHere ⟨comma, mark, .inr (.inl rfl)⟩⟩
      have turned := member_turned src scanned key name value (matched value List.mem_cons_self) pos
        limit inside nameHere located (by omega)
      rw [Members.entries, List.find?_cons]
      cases same : words.keyText name.key == key with
      | true =>
          rw [if_pos same] at turned
          exact ⟨_, returns_stop _ _ _ ((attempt_stop _ _ _).mpr turned), _, rfl, located⟩
      | false =>
          rw [if_neg (by rw [same]; decide),
            past_comma_here src after _ limit afterHere mark (by omega)] at turned
          rw [Members.entries, readUpTo, same] at matched
          obtain ⟨found, returns, finds⟩ := ih
            (fun node member => matched node (List.mem_cons_of_mem _ member)) _ restHere (by omega)
          exact ⟨found, returns_next _ _ _ _ ((attempt_next _ _ _).mpr turned) returns, finds⟩

end Containers

end SolanaSdk.JsonContainers
