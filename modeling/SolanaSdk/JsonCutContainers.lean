import SolanaSdk.JsonCuts

/-!
The two container scans of a cut text, by induction along the items or the
members. A scan finds the place that the tree has there if its first char is in
front of the cut; otherwise it finds nothing, whatever the cut has left of a key.
-/

namespace SolanaSdk.JsonCutContainers

open ByteData JsonText JsonScanners JsonTokens JsonAccess JsonGrammar JsonScanning JsonPlaces
open JsonContainers JsonNavigation JsonCuts Segments Loops

section Turns
variable {words : Lexicon} (bare : Bare words) {whole src : Cells} {limit : Nat}
variable (cut : Cut whole src limit)

theorem skip_beyond (pos : Nat) (past : limit ≤ pos) : skipWhitespace src pos limit = .ok pos :=
  skip_while_past src isBlank pos limit past

theorem skip_one_beyond (accepts : UInt8 → Bool) (pos : Nat) (past : limit ≤ pos) :
    skipOne src accepts pos limit = .ok pos := by
  rw [skipOne, looks_at_past src accepts pos limit past]
  rfl

theorem past_comma_beyond (pos : Nat) (past : limit ≤ pos) :
    pastComma src pos limit = .ok pos := by
  rw [pastComma, skip_beyond pos past]
  exact skip_one_beyond _ pos past

theorem parse_beyond (pos : Nat) (past : limit ≤ pos) :
    parseValue src pos limit = .ok (.absent, pos) := by
  rw [parseValue, skip_beyond pos past]
  exact if_pos past

include cut

theorem space_cut (space : Space) (pos : Nat) (here : Here whole pos space.chars)
    (inside : pos ≤ limit)
    (stops : ∃ c, whole[pos + space.chars.length]? = some c ∧ isBlank c = false) :
    skipWhitespace src pos limit = .ok (min (pos + space.chars.length) limit) := by
  have skipped := skip_space whole space pos (max (pos + space.chars.length) limit) here
    (Nat.le_max_left _ _) (.inr stops)
  have follows := (skip_while_follows cut (Nat.le_max_right _ _) isBlank pos _ skipped).2
  rwa [Nat.min_eq_left inside] at follows

theorem comma_cut (after : Space) (pos : Nat) (here : Here whole pos after.chars)
    (mark : whole[pos + after.chars.length]? = some comma) (inside : pos ≤ limit) :
    pastComma src pos limit = .ok (min (pos + after.chars.length + 1) limit) := by
  have passed := past_comma_here whole after pos (max (pos + after.chars.length + 1) limit) here mark
    (by omega)
  have follows := (past_comma_follows cut (Nat.le_max_right _ _) pos _ passed).2
  rwa [Nat.min_eq_left inside] at follows

/-- Behind the last value there are spaces up to the limit. -/
theorem end_cut (after : Space) (pos : Nat) (here : Here whole pos after.chars)
    (inside : pos ≤ limit) (short : limit ≤ pos + after.chars.length) :
    pastComma src pos limit = .ok limit := by
  have passed := past_comma_end whole after pos (pos + after.chars.length) here rfl
  have follows := (past_comma_follows cut short pos _ passed).2
  rwa [Nat.min_eq_left inside, Nat.min_eq_right short] at follows

include bare

/-- Where a scan is behind a value that the limit goes through: at the limit, or still at
the first char of a literal. -/
def Spent (src : Cells) (limit : Nat) (place : Place words) (next : Nat) : Prop :=
  limit ≤ next ∨ next = place.start ∧ (place.under limit)._type = .null ∧
    ∃ c, src[next]? = some c ∧ (c == quote) = false

omit bare in
theorem past_through (place : Place words) (located : Located whole place.start place.doc)
    (inside : place.start < limit) (through : limit < place.finish) :
    ∃ next, pastComma src (place.under limit)._end limit = .ok next ∧
      Spent src limit place next := by
  have under : place.under limit = _ := if_neg (Nat.not_le.mpr through)
  have beyond (past : limit ≤ (place.under limit)._end) : ∃ next,
      pastComma src (place.under limit)._end limit = .ok next ∧ Spent src limit place next :=
    ⟨_, past_comma_beyond _ past, .inl past⟩
  have literal : ∀ c rest, place.doc.text = c :: rest → isBlank c = false → (c == comma) = false →
      (c == quote) = false →
      place.under limit = ⟨.null, true, place.start, place.start, false⟩ →
      ∃ next, pastComma src (place.under limit)._end limit = .ok next ∧
        Spent src limit place next := by
    intro c rest spelled ink noComma noQuote same
    have first := ((here_cons whole _ c rest).mp (spelled ▸ located.here)).1
    have here := (cut.same place.start inside).trans first
    refine ⟨place.start, ?_, .inr ⟨rfl, by rw [same], c, here, noQuote⟩⟩
    rw [same, pastComma, skipWhitespace, skip_while_stop src isBlank place.start limit c here ink]
    change skipOne src (· == comma) place.start limit = _
    rw [skipOne, looks_at_refused src _ place.start limit c here noComma]
    rfl
  obtain ⟨start, doc⟩ := place
  cases doc with
  | null => exact literal 110 _ rfl (by decide) (by decide) (by decide) under
  | bool flag =>
      cases flag with
      | true => exact literal 116 _ rfl (by decide) (by decide) (by decide) under
      | false => exact literal 102 _ rfl (by decide) (by decide) (by decide) under
  | number token => exact beyond (Nat.le_of_eq (congrArg JsonValue._end under).symm)
  | string content => exact beyond (Nat.le_of_eq (congrArg JsonValue._end under).symm)
  | emptyArray space =>
      exact beyond (Nat.le_of_succ_le (Nat.le_of_eq (congrArg JsonValue._end under).symm))
  | array items =>
      exact beyond (Nat.le_of_succ_le (Nat.le_of_eq (congrArg JsonValue._end under).symm))
  | emptyObject space =>
      exact beyond (Nat.le_of_succ_le (Nat.le_of_eq (congrArg JsonValue._end under).symm))
  | object members =>
      exact beyond (Nat.le_of_succ_le (Nat.le_of_eq (congrArg JsonValue._end under).symm))

/-- From there on an element scan finds nothing, as often as it turns. -/
theorem element_spent (place : Place words) (located : Located whole place.start place.doc)
    (inside : place.start < limit) (next : Nat)
    (passed : pastComma src (place.under limit)._end limit = .ok next)
    (spent : Spent src limit place next) (index i : Nat) (reached : i ≤ index) :
    ∃ found, Returns (elementTurn src index limit) (next, i) (.ok found) ∧
      found._type = .null := by
  rcases spent with past | ⟨rfl, null, -⟩
  · exact ⟨.absent, element_blank src index limit next i next (skip_beyond next past) past, rfl⟩
  obtain ⟨skipped, parsed⟩ := place_parsed bare cut place located inside
  obtain ⟨count, rfl⟩ := Nat.exists_eq_add_of_le reached
  induction count generalizing i with
  | zero =>
      have stops := element_stops src i limit _ _ _ _ skipped inside parsed
      exact ⟨_, returns_stop _ _ _ stops, null⟩
  | succ count ih =>
      have turn := element_passes src (i + (count + 1)) limit _ i _ _ _ _ skipped inside parsed
        (by omega) passed
      obtain ⟨found, returns, none⟩ := ih (i + 1) (by omega)
      rw [Nat.add_assoc, Nat.add_comm 1] at returns
      exact ⟨found, returns_next _ _ _ _ turn returns, none⟩

theorem member_spent (place : Place words) (located : Located whole place.start place.doc)
    (inside : place.start < limit) (next : Nat) (spent : Spent src limit place next) (key : Text) :
    Returns (memberTurn src key limit) next (.ok .absent) := by
  rcases spent with past | ⟨rfl, -, c, here, noQuote⟩
  · exact member_blank src key limit next next (skip_beyond next past) past
  · have skipped := (place_parsed bare cut place located inside).1
    exact member_keyless src key limit _ _ skipped (looks_at_refused src _ _ limit c here noQuote)

end Turns

section Containers
variable {words : Lexicon} (bare : Bare words) {whole src : Cells} {limit : Nat}
variable (cut : Cut whole src limit)

/-- What an access finds in the cut text, given the place that the tree has there. -/
def Sees (limit : Nat) (found : JsonValue) : Option (Place words) → Prop
  | none => found._type = .null
  | some place => if place.start < limit then found = place.under limit else found._type = .null

theorem sees_behind (found : JsonValue) (null : found._type = .null)
    (place : Option (Place words)) (behind : ∀ here ∈ place, limit ≤ here.start) :
    Sees limit found place := by
  cases place with
  | none => exact null
  | some here =>
      rw [Sees, if_neg (Nat.not_lt.mpr (behind here rfl))]
      exact null

theorem item_places_from (items : Items words) (pos : Nat) :
    ∀ place ∈ itemPlaces pos items, pos ≤ place.start := by
  induction items using Items.along generalizing pos with
  | last before value after => exact List.forall_mem_singleton.mpr (Nat.le_add_right _ _)
  | more before value after rest ih =>
      refine List.forall_mem_cons.mpr ⟨Nat.le_add_right _ _, fun place member => ?_⟩
      have later := ih _ place member
      omega

theorem member_places_from (members : Members words) (pos : Nat) :
    ∀ entry ∈ memberPlaces pos members, pos ≤ entry.2.start := by
  induction members using Members.along generalizing pos with
  | last name value after => exact List.forall_mem_singleton.mpr (Nat.le_add_right _ _)
  | more name value after rest ih =>
      refine List.forall_mem_cons.mpr ⟨Nat.le_add_right _ _, fun place member => ?_⟩
      have later := ih _ place member
      omega

include bare cut

/-- The turn on an item ends the scan, or the item is in front of the limit and not the one
that is looked for. -/
theorem item_cut (index i : Nat) (reached : i ≤ index) (before : Space) (pos : Nat)
    (here : Here whole pos before.chars) (inside : pos ≤ limit) (place : Place words)
    (start : place.start = pos + before.chars.length)
    (located : Located whole place.start place.doc) :
    (∃ found, Returns (elementTurn src index limit) (pos, i) (.ok found) ∧
        (i = index → Sees limit found (some place)) ∧
        (i ≠ index → found._type = .null ∧ limit < place.finish)) ∨
      i ≠ index ∧ place.finish ≤ limit ∧ ∀ next, pastComma src place.finish limit = .ok next →
        Turn (elementTurn src index limit) (pos, i) (next, i + 1) := by
  have long := doc_long bare.toScanned place.doc
  have skipped := space_cut cut before pos here inside
    (start ▸ first_ink bare.toScanned place.doc place.start located)
  rw [← start] at skipped
  rcases Nat.lt_or_ge place.start limit with front | behind
  · rw [Nat.min_eq_left (Nat.le_of_lt front)] at skipped
    have parsed := (place_parsed bare cut place located front).2
    by_cases same : i = index
    · subst same
      refine .inl ⟨_, returns_stop _ _ _ (element_stops src i limit pos _ _ _ skipped front parsed),
        fun _ => if_pos front |>.mpr rfl, fun other => absurd rfl other⟩
    · rcases Nat.lt_or_ge limit place.finish with through | complete
      · obtain ⟨next, passed, spent⟩ := past_through cut place located front through
        obtain ⟨found, returns, null⟩ := element_spent bare cut place located front next passed
          spent index (i + 1) (by omega)
        have turn := element_passes src index limit pos i _ _ _ _ skipped front parsed same passed
        exact .inl ⟨found, returns_next _ _ _ _ turn returns, fun equal => absurd equal same,
          fun _ => ⟨null, through⟩⟩
      · refine .inr ⟨same, complete, fun next passed => ?_⟩
        have ends : (place.under limit)._end = place.finish := by
          rw [Place.under, if_pos complete]
          rfl
        exact element_passes src index limit pos i _ _ _ _ skipped front parsed same (ends ▸ passed)
  · rw [Nat.min_eq_right behind] at skipped
    refine .inl ⟨.absent, element_blank src index limit pos i limit skipped (Nat.le_refl _),
      fun _ => ?_, fun _ => ⟨rfl, ?_⟩⟩
    · exact sees_behind .absent rfl (some place) fun here same => Option.some.inj same ▸ behind
    · rw [Place.finish]
      omega

/-- An item and those behind it, from how the scan goes on where the item is in front of
the limit and another one is looked for. -/
theorem item_first (index i : Nat) (reached : i ≤ index) (before : Space) (pos : Nat)
    (here : Here whole pos before.chars) (inside : pos ≤ limit) (place : Place words)
    (start : place.start = pos + before.chars.length)
    (located : Located whole place.start place.doc) (others : List (Place words))
    (behind : ∀ other ∈ others, place.finish ≤ other.start)
    (onward : i < index → place.finish ≤ limit → ∃ next found,
      pastComma src place.finish limit = .ok next ∧
        Returns (elementTurn src index limit) (next, i + 1) (.ok found) ∧
        Sees limit found others[index - (i + 1)]?) :
    ∃ found, Returns (elementTurn src index limit) (pos, i) (.ok found) ∧
      Sees limit found (place :: others)[index - i]? := by
  rcases item_cut bare cut index i reached before pos here inside place start located with
    ⟨found, returns, sees, none⟩ | ⟨other, complete, turns⟩
  · refine ⟨found, returns, ?_⟩
    by_cases same : i = index
    · subst same
      rw [Nat.sub_self]
      exact sees rfl
    · obtain ⟨null, through⟩ := none same
      have shifted : index - i = index - (i + 1) + 1 := by omega
      rw [shifted, List.getElem?_cons_succ]
      refine sees_behind found null _ fun node member => ?_
      have later := behind node (List.mem_of_getElem? member)
      omega
  · obtain ⟨next, found, passed, returns, sees⟩ := onward (by omega) complete
    have shifted : index - i = index - (i + 1) + 1 := by omega
    rw [shifted, List.getElem?_cons_succ]
    exact ⟨found, returns_next _ _ _ _ (turns next passed) returns, sees⟩

theorem element_cut (index : Nat) (items : Items words) (pos i : Nat) (reached : i ≤ index)
    (here : Here whole pos items.text) (followed : Followed whole (pos + items.text.length))
    (inside : pos ≤ limit) (short : limit ≤ pos + items.text.length) :
    ∃ found, Returns (elementTurn src index limit) (pos, i) (.ok found) ∧
      Sees limit found (itemPlaces pos items)[index - i]? := by
  induction items using Items.along generalizing pos i with
  | last before value after =>
      simp only [Items.text, here_append] at here
      obtain ⟨beforeHere, valueHere, afterHere⟩ := here
      simp only [Items.text, List.length_append, ← Nat.add_assoc] at followed short
      refine item_first bare cut index i reached before pos beforeHere inside ⟨_, value⟩ rfl
        ⟨valueHere, followed_space whole _ after afterHere followed⟩ [] (List.forall_mem_nil _)
        fun _ complete => ⟨limit, .absent, end_cut cut after _ afterHere complete short,
          element_past src index limit (i + 1), ?_⟩
      rw [List.getElem?_nil]
      rfl
  | more before value after rest ih =>
      obtain ⟨beforeHere, valueHere, afterHere, mark, restHere⟩ :=
        items_text_more whole before value after rest pos here
      simp only [Items.text, List.length_append, List.length_cons, ← Nat.add_assoc]
        at followed short
      have from' := item_places_from rest
        (pos + before.chars.length + value.text.length + after.chars.length + 1)
      refine item_first bare cut index i reached before pos beforeHere inside ⟨_, value⟩ rfl
        ⟨valueHere, followed_space whole _ after afterHere ⟨comma, mark, .inr (.inl rfl)⟩⟩
        (itemPlaces _ rest) (fun other member => ?_) fun more complete => ?_
      · have later := from' other member
        dsimp only [Place.finish]
        omega
      have passed := comma_cut cut after _ afterHere mark complete
      rcases Nat.lt_or_ge limit
        (pos + before.chars.length + value.text.length + after.chars.length + 1) with cutOff | front
      · -- The other items are all behind the limit.
        rw [Nat.min_eq_right (Nat.le_of_lt cutOff)] at passed
        refine ⟨limit, .absent, passed, element_past src index limit (i + 1),
          sees_behind .absent rfl _ fun node member => ?_⟩
        have later := from' node (List.mem_of_getElem? member)
        omega
      · rw [Nat.min_eq_left front] at passed
        obtain ⟨found, returns, finds⟩ := ih _ (i + 1) more restHere
          (by rwa [Nat.add_right_comm] at followed) front (by omega)
        exact ⟨_, found, passed, returns, finds⟩

omit bare cut in
/-- A turn that has no value in front of the limit ends the scan, whatever its key is. -/
theorem valueless_blank (key : Text) (pos : Nat) (found : Bool)
    (turned : memberBody src key limit pos =
      if found = true then .ok (.stop .absent)
      else do
        let next ← pastComma src limit limit
        return .next next) :
    Returns (memberTurn src key limit) pos (.ok .absent) := by
  cases found with
  | true => exact returns_stop _ _ _ ((attempt_stop _ _ _).mpr turned)
  | false =>
      rw [if_neg (by decide), past_comma_beyond limit (Nat.le_refl _)] at turned
      exact returns_next _ _ _ _ ((attempt_next _ _ _).mpr turned) (member_past src key limit)

/-- What is left of a key may be the key that is looked for, but no value follows it. -/
theorem unfinished_key (key : Text) (name : Name words) (pos : Nat)
    (here : Here whole pos name.text) (inside : pos < limit)
    (inKey : limit ≤ pos + name.before.chars.length + 1 + (words.keyText name.key).length) :
    Returns (memberTurn src key limit) pos (.ok .absent) := by
  obtain ⟨before, mark, body, -⟩ := name_here whole name pos here
  have skipped := space_cut cut name.before pos before (Nat.le_of_lt inside) ⟨quote, mark, rfl⟩
  rcases Nat.lt_or_ge (pos + name.before.chars.length) limit with opened | beforeKey
  · rw [Nat.min_eq_left (Nat.le_of_lt opened)] at skipped
    have first := looks_at_here src (· == quote) _ limit quote opened
      ((cut.same _ opened).trans mark)
    have stops := scan_string_cut _ (bare.bareKey name.key) _ cut body opened inKey
    obtain ⟨found, compared⟩ := key_matches_total src key _ limit opened (cut_inside cut)
    exact valueless_blank key pos found (member_steps src key limit pos _ _ limit limit limit _ _
      inside skipped first stops compared
      (by rw [if_neg (Nat.lt_irrefl _)]; exact skip_beyond limit (Nat.le_refl _))
      (skip_one_beyond _ limit (Nat.le_refl _)) (parse_beyond limit (Nat.le_refl _)))
  · rw [Nat.min_eq_right beforeKey] at skipped
    exact member_blank src key limit pos limit skipped (Nat.le_refl _)

/-- Behind a key in front of the limit the scan goes on to the value or to the limit. -/
theorem finished_key (key : Text) (name : Name words) (pos : Nat)
    (here : Here whole pos name.text) (inside : pos < limit)
    (closed : pos + name.before.chars.length + 1 + (words.keyText name.key).length < limit)
    (ink : ∃ c, whole[pos + name.text.length]? = some c ∧ isBlank c = false) :
    ∃ third, skipWhitespace src third limit = .ok (min (pos + name.text.length) limit) ∧
      ∀ val later, parseValue src third limit = .ok (val, later) →
        memberBody src key limit pos =
          if (words.keyText name.key == key) = true then .ok (.stop val)
          else do
            let next ← pastComma src later limit
            return .next next := by
  obtain ⟨before, mark, body, string, between, point, after⟩ := name_here whole name pos here
  have opened : pos + name.before.chars.length < limit := by omega
  have skipped := space_cut cut name.before pos before (Nat.le_of_lt inside) ⟨quote, mark, rfl⟩
  rw [Nat.min_eq_left (Nat.le_of_lt opened)] at skipped
  have first := looks_at_here src (· == quote) _ limit quote opened ((cut.same _ opened).trans mark)
  have stops := scan_string_body src _ (bare.key name.key) _ limit
    ((cut_here cut _ _ (by rw [List.length_append, List.length_singleton]; omega)).mpr string) closed
  have compared := key_matches_here src key _ _ ((cut_here cut _ _ (by omega)).mpr body)
    (Nat.le_trans (by omega) (cut_inside cut))
  have again := space_cut cut name.between _ between closed ⟨colon, point, rfl⟩
  have third := (skip_one_follows cut (Nat.le_max_right _ _) (· == colon) _ _
    (skip_one_here whole (· == colon) _ (max _ limit) colon
      (Nat.lt_of_lt_of_le (Nat.lt_succ_self _) (Nat.le_max_left _ _)) point rfl)).2
  refine ⟨_, ?_, fun val later parsed => member_steps src key limit pos _ _ _ _ later _ val inside
    skipped first stops compared (by rw [if_pos closed]; exact again) third parsed⟩
  rw [name_length, ← Nat.add_assoc, ← Nat.add_assoc, ← Nat.add_assoc, ← Nat.add_assoc,
    ← Nat.add_assoc, ← Nat.add_assoc] at ink ⊢
  rcases Nat.lt_or_ge limit (pos + name.before.chars.length + 1 + (words.keyText name.key).length +
    1 + name.between.chars.length + 1) with behind | front
  · rw [Nat.min_eq_right (Nat.le_of_lt behind), Nat.min_eq_right (by omega)]
    exact skip_beyond limit (Nat.le_refl _)
  · rw [Nat.min_eq_left front]
    exact space_cut cut name.after _ after front ink

theorem name_cut (key : Text) (name : Name words) (pos : Nat) (here : Here whole pos name.text)
    (inside : pos < limit) (place : Place words) (start : place.start = pos + name.text.length)
    (located : Located whole place.start place.doc) :
    (limit ≤ place.start → Returns (memberTurn src key limit) pos (.ok .absent)) ∧
      (place.start < limit → memberBody src key limit pos =
        if (words.keyText name.key == key) = true then .ok (.stop (place.under limit))
        else do
          let next ← pastComma src (place.under limit)._end limit
          return .next next) := by
  rcases Nat.lt_or_ge
    (pos + name.before.chars.length + 1 + (words.keyText name.key).length) limit with closed | inKey
  · have ink := first_ink bare.toScanned place.doc place.start located
    obtain ⟨third, last, turned⟩ := finished_key bare cut key name pos here inside closed
      (start ▸ ink)
    rw [← start] at last
    have parsed := parse_skipped _ _ last
    constructor
    · intro behind
      rw [Nat.min_eq_right behind, parse_beyond limit (Nat.le_refl _)] at parsed
      exact valueless_blank key pos _ (turned .absent limit parsed)
    · intro front
      rw [Nat.min_eq_left (Nat.le_of_lt front), (place_parsed bare cut place located front).2]
        at parsed
      exact turned _ _ parsed
  · refine ⟨fun _ => unfinished_key bare cut key name pos here inside inKey, fun front => ?_⟩
    rw [start, name_length] at front
    omega

/-- The turn on a member, like the one on an item. -/
theorem entry_cut (key : Text) (name : Name words) (pos : Nat) (here : Here whole pos name.text)
    (inside : pos ≤ limit) (place : Place words) (start : place.start = pos + name.text.length)
    (located : Located whole place.start place.doc) :
    (∃ found, Returns (memberTurn src key limit) pos (.ok found) ∧
        ((words.keyText name.key == key) = true → Sees limit found (some place)) ∧
        ((words.keyText name.key == key) = false → found._type = .null ∧ limit < place.finish)) ∨
      (words.keyText name.key == key) = false ∧ place.finish ≤ limit ∧
        ∀ next, pastComma src place.finish limit = .ok next →
          Turn (memberTurn src key limit) pos next := by
  have long := doc_long bare.toScanned place.doc
  rcases Nat.lt_or_ge place.start limit with front | behind
  · have turned := (name_cut bare cut key name pos here (by omega) place start located).2 front
    cases same : words.keyText name.key == key with
    | true =>
        rw [same, if_pos rfl] at turned
        exact .inl ⟨_, returns_stop _ _ _ ((attempt_stop _ _ _).mpr turned),
          fun _ => if_pos front |>.mpr rfl, fun other => absurd other.symm Bool.false_ne_true⟩
    | false =>
        rw [same, if_neg (by decide)] at turned
        rcases Nat.lt_or_ge limit place.finish with through | complete
        · obtain ⟨next, passed, spent⟩ := past_through cut place located front through
          rw [passed] at turned
          exact .inl ⟨.absent, returns_next _ _ _ _ ((attempt_next _ _ _).mpr turned)
            (member_spent bare cut place located front next spent key), 
            fun equal => absurd equal Bool.false_ne_true, fun _ => ⟨rfl, through⟩⟩
        · refine .inr ⟨rfl, complete, fun next passed => (attempt_next _ _ _).mpr ?_⟩
          have ends : (place.under limit)._end = place.finish := by
            rw [Place.under, if_pos complete]
            rfl
          rw [turned, ends, passed]
          rfl
  · have returns : Returns (memberTurn src key limit) pos (.ok .absent) := by
      rcases Nat.lt_or_eq_of_le inside with before | rfl
      · exact (name_cut bare cut key name pos here before place start located).1 behind
      · exact member_past src key pos
    refine .inl ⟨.absent, returns, fun _ => ?_, fun _ => ⟨rfl, ?_⟩⟩
    · exact sees_behind .absent rfl (some place) fun here same => Option.some.inj same ▸ behind
    · rw [Place.finish]
      omega

/-- A member and those behind it, from how the scan goes on where it is in front of the
limit and has another key. -/
theorem entry_first (key : Text) (name : Name words) (pos : Nat) (here : Here whole pos name.text)
    (inside : pos ≤ limit) (place : Place words) (start : place.start = pos + name.text.length)
    (located : Located whole place.start place.doc) (others : List (Text × Place words))
    (behind : ∀ other ∈ others, place.finish ≤ other.2.start)
    (onward : place.finish ≤ limit → ∃ next found, pastComma src place.finish limit = .ok next ∧
      Returns (memberTurn src key limit) next (.ok found) ∧
        Sees limit found ((others.find? (·.1 == key)).map (·.2))) :
    ∃ found, Returns (memberTurn src key limit) pos (.ok found) ∧
      Sees limit found
        ((((words.keyText name.key, place) :: others).find? (·.1 == key)).map (·.2)) := by
  rw [List.find?_cons]
  rcases entry_cut bare cut key name pos here inside place start located with
    ⟨found, returns, sees, none⟩ | ⟨other, complete, turns⟩
  · refine ⟨found, returns, ?_⟩
    cases same : words.keyText name.key == key with
    | true => exact sees same
    | false =>
        obtain ⟨null, through⟩ := none same
        refine sees_behind found null _ fun node member => ?_
        obtain ⟨entry, chosen, rfl⟩ := Option.map_eq_some_iff.mp member
        have later := behind entry (List.mem_of_find?_eq_some chosen)
        omega
  · obtain ⟨next, found, passed, returns, sees⟩ := onward complete
    rw [other]
    exact ⟨found, returns_next _ _ _ _ (turns next passed) returns, sees⟩

theorem member_cut (key : Text) (members : Members words) (pos : Nat)
    (here : Here whole pos members.text) (followed : Followed whole (pos + members.text.length))
    (inside : pos ≤ limit) (short : limit ≤ pos + members.text.length) :
    ∃ found, Returns (memberTurn src key limit) pos (.ok found) ∧
      Sees limit found (((memberPlaces pos members).find? (·.1 == key)).map (·.2)) := by
  induction members using Members.along generalizing pos with
  | last name value after =>
      simp only [Members.text, here_append] at here
      obtain ⟨nameHere, valueHere, afterHere⟩ := here
      simp only [Members.text, List.length_append, ← Nat.add_assoc] at followed short
      exact entry_first bare cut key name pos nameHere inside ⟨_, value⟩ rfl
        ⟨valueHere, followed_space whole _ after afterHere followed⟩ [] (List.forall_mem_nil _)
        fun complete => ⟨limit, .absent, end_cut cut after _ afterHere complete short,
          member_past src key limit, rfl⟩
  | more name value after rest ih =>
      obtain ⟨nameHere, valueHere, afterHere, mark, restHere⟩ :=
        members_text_more whole name value after rest pos here
      simp only [Members.text, List.length_append, List.length_cons, ← Nat.add_assoc]
        at followed short
      have from' := member_places_from rest
        (pos + name.text.length + value.text.length + after.chars.length + 1)
      refine entry_first bare cut key name pos nameHere inside ⟨_, value⟩ rfl
        ⟨valueHere, followed_space whole _ after afterHere ⟨comma, mark, .inr (.inl rfl)⟩⟩
        (memberPlaces _ rest) (fun other member => ?_) fun complete => ?_
      · have later := from' other member
        dsimp only [Place.finish]
        omega
      have passed := comma_cut cut after _ afterHere mark complete
      rcases Nat.lt_or_ge limit
        (pos + name.text.length + value.text.length + after.chars.length + 1) with cutOff | front
      · rw [Nat.min_eq_right (Nat.le_of_lt cutOff)] at passed
        refine ⟨limit, .absent, passed, member_past src key limit,
          sees_behind .absent rfl _ fun node member => ?_⟩
        obtain ⟨entry, chosen, rfl⟩ := Option.map_eq_some_iff.mp member
        have later := from' entry (List.mem_of_find?_eq_some chosen)
        omega
      · rw [Nat.min_eq_left front] at passed
        obtain ⟨found, returns, finds⟩ := ih _ restHere (by rwa [Nat.add_right_comm] at followed)
          front (by omega)
        exact ⟨_, found, passed, returns, finds⟩

end Containers

end SolanaSdk.JsonCutContainers
