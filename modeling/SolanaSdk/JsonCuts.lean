import SolanaSdk.JsonNavigation

/-!
Texts that are cut off. Every scan of a cut text stops where the scan of the
whole text does, or at the cut. A value in front of the cut is parsed as before,
and one that the cut goes through keeps its kind unless it is a literal.
-/

namespace SolanaSdk.JsonCuts

open ByteData JsonText JsonScanners JsonTokens JsonAccess JsonGrammar JsonScanning JsonPlaces
open JsonContainers JsonNavigation Segments Loops

section Scans
variable (whole src : Cells) (limit : Nat)

/-- Up to the limit the two texts are the same, and what stands there ends a value. -/
structure Cut : Prop where
  same : ∀ pos < limit, src[pos]? = whole[pos]?
  ended : Followed src limit

/-- The scan stops where it stops in the whole text, or at the limit. -/
def Follows (len : Nat) (scan : Cells → Nat → Nat → Except Fault Nat) : Prop :=
  ∀ pos later, scan whole pos len = .ok later →
    pos ≤ later ∧ scan src (min pos limit) limit = .ok (min later limit)

variable {whole src limit} (cut : Cut whole src limit) {len : Nat} (shorter : limit ≤ len)

include cut in
theorem cut_inside : limit ≤ src.length := by
  obtain ⟨c, here, -⟩ := cut.ended
  exact Nat.le_of_lt (List.getElem?_eq_some_iff.mp here).1

include cut in
theorem cut_here (pos : Nat) (segment : Text) (fits : pos + segment.length ≤ limit) :
    Here src pos segment ↔ Here whole pos segment := by
  induction segment generalizing pos with
  | nil => exact iff_of_true (here_nil src pos) (here_nil whole pos)
  | cons c rest ih =>
      rw [List.length_cons] at fits
      rw [here_cons, here_cons, cut.same pos (by omega), ih (pos + 1) (by omega)]

include cut in
theorem cut_followed (pos : Nat) (followed : Followed whole pos) (fits : pos ≤ limit) :
    Followed src pos := by
  obtain ⟨c, here, delimits⟩ := followed
  rcases Nat.lt_or_eq_of_le fits with before | rfl
  · exact ⟨c, (cut.same pos before).trans here, delimits⟩
  · exact cut.ended

include cut in
theorem char_cut (pos : Nat) (before : pos < limit) : charAt src pos = charAt whole pos := by
  rw [charAt, charAt, cut.same pos before]

include cut shorter

theorem skip_while_follows (keep : UInt8 → Bool) :
    Follows whole src limit len fun src pos len => skipWhile src keep pos len := by
  intro pos later returned
  have onward := (skip_while_returned whole keep pos len later returned).1
  refine ⟨onward, ?_⟩
  dsimp only at returned ⊢
  induction pos using skipWhile.induct len with
  | case1 pos inside ih =>
      by_cases before : pos < limit
      · rw [skipWhile, if_pos inside] at returned
        obtain ⟨c, read, rest⟩ := bind_returned _ _ _ returned
        have here := (cut.same pos before).trans ((char_here whole pos c).mp read)
        rw [Nat.min_eq_left (Nat.le_of_lt before), skip_while_step src keep pos limit c before here]
        by_cases kept : keep c = true
        · rw [if_pos kept] at rest ⊢
          have next := ih rest (skip_while_returned whole keep _ len later rest).1
          rwa [Nat.min_eq_left before] at next
        · rw [if_neg kept] at rest ⊢
          cases rest
          rw [Nat.min_eq_left (Nat.le_of_lt before)]
      · rw [Nat.min_eq_right (by omega), Nat.min_eq_right (by omega)]
        exact skip_while_past src keep limit limit (Nat.le_refl _)
  | case2 pos past =>
      rw [Nat.min_eq_right (by omega), Nat.min_eq_right (by omega)]
      exact skip_while_past src keep limit limit (Nat.le_refl _)

/-- A branch on the next char, with a scan behind it. -/
theorem branch_follows (accepts : UInt8 → Bool) (scan : Cells → Nat → Nat → Except Fault Nat)
    (follows : Follows whole src limit len scan) :
    Follows whole src limit len fun src pos len => do
      if ← looksAt src accepts pos len then scan src (pos + 1) len else return pos := by
  intro pos later returned
  obtain ⟨answer, looked, rest⟩ := bind_returned _ _ _ returned
  have onward : pos ≤ later := by
    cases answer with
    | false =>
        cases rest
        exact Nat.le_refl _
    | true => exact Nat.le_of_succ_le (follows (pos + 1) later rest).1
  refine ⟨onward, ?_⟩
  by_cases before : pos < limit
  · -- Both scans see the same char here.
    have same : looksAt src accepts pos limit = .ok answer := by
      rw [← looked, looksAt, looksAt, if_pos before, if_pos (by omega), char_cut cut pos before]
    dsimp only
    rw [Nat.min_eq_left (Nat.le_of_lt before), same]
    cases answer with
    | false =>
        cases rest
        rw [Nat.min_eq_left (Nat.le_of_lt before)]
        rfl
    | true =>
        have next := (follows (pos + 1) later rest).2
        rwa [Nat.min_eq_left before] at next
  · dsimp only
    rw [Nat.min_eq_right (by omega), Nat.min_eq_right (by omega),
      looks_at_past src accepts limit limit (Nat.le_refl _)]
    rfl

omit cut shorter in
theorem then_follows (first second : Cells → Nat → Nat → Except Fault Nat)
    (one : Follows whole src limit len first) (two : Follows whole src limit len second) :
    Follows whole src limit len fun src pos len =>
      first src pos len >>= fun pos => second src pos len := by
  intro pos later returned
  obtain ⟨middle, before, after⟩ := bind_returned _ _ _ returned
  obtain ⟨onward, stops⟩ := one pos middle before
  obtain ⟨further, ends⟩ := two middle later after
  refine ⟨Nat.le_trans onward further, ?_⟩
  dsimp only
  rw [stops]
  exact ends

omit cut shorter in
theorem stay_follows : Follows whole src limit len fun _ pos _ => return pos := by
  intro pos later returned
  cases returned
  exact ⟨Nat.le_refl _, rfl⟩

theorem skip_one_follows (accepts : UInt8 → Bool) :
    Follows whole src limit len fun src pos len => skipOne src accepts pos len :=
  branch_follows cut shorter accepts _ stay_follows

theorem past_comma_follows : Follows whole src limit len pastComma :=
  then_follows _ _ (skip_while_follows cut shorter isBlank) (skip_one_follows cut shorter _)

theorem scan_number_follows : Follows whole src limit len scanNumber := by
  have digits := skip_while_follows cut shorter isDigit
  have fraction : Follows whole src limit len scanFraction :=
    branch_follows cut shorter (· == point) _ digits
  have exponent : Follows whole src limit len scanExponent :=
    branch_follows cut shorter (fun c => c == 101 || c == 69) _
      (then_follows _ _ (skip_one_follows cut shorter _) digits)
  exact then_follows _ _ (skip_one_follows cut shorter (· == minus))
    (then_follows _ _ digits (then_follows _ _ fraction exponent))

theorem matching_brace_follows (opening closing : UInt8) (pos depth later : Nat) (inString : Bool)
    (deep : 0 < depth) (before : pos ≤ limit)
    (returned : matchingBrace whole opening closing pos len depth inString = .ok later) :
    matchingBrace src opening closing pos limit depth inString = .ok (min later limit) := by
  induction pos, depth, inString using matchingBrace.induct opening closing len with
  | case1 pos depth inString inside ih =>
      rcases Nat.lt_or_eq_of_le before with before | rfl
      · rw [matchingBrace, if_pos inside] at returned
        obtain ⟨c, read, rest⟩ := bind_returned _ _ _ returned
        obtain ⟨toggled, turned, rest⟩ := bind_returned _ _ _ rest
        have here := (cut.same pos before).trans ((char_here whole pos c).mp read)
        -- The look-behind is in front of the limit as well.
        have same : toggles src inString pos c = .ok toggled := by
          rw [← turned, toggles, toggles, char_cut cut (pos - 1) (by omega)]
        rw [matching_brace_step src opening closing pos limit depth inString toggled c before
          inside.2 here same]
        dsimp only at rest
        split at rest
        next still =>
          rw [if_pos still]
          exact ih c toggled still before rest
        next done =>
          cases rest
          rw [if_neg done, Nat.min_eq_left (Nat.le_of_lt before)]
      · have onward := (matching_brace_returned whole opening closing pos len depth later inString
          returned).1
        rw [matchingBrace, if_neg (by omega), Nat.min_eq_right onward]
        rfl
  | case2 pos depth inString done =>
      have last : pos = limit := by omega
      have onward := (matching_brace_returned whole opening closing pos len depth later inString
        returned).1
      rw [matchingBrace, if_neg (by omega), last, Nat.min_eq_right (by omega)]
      rfl

end Scans

section Places
variable {words : Lexicon}

/-- A node with the position that its text starts at. -/
structure Place (words : Lexicon) where
  start : Nat
  doc : Doc words

def itemPlaces (pos : Nat) : Items words → List (Place words)
  | .last before value _ => [⟨pos + before.chars.length, value⟩]
  | .more before value after rest =>
      ⟨pos + before.chars.length, value⟩ ::
        itemPlaces (pos + before.chars.length + value.text.length + after.chars.length + 1) rest

def memberPlaces (pos : Nat) : Members words → List (Text × Place words)
  | .last name value _ => [(words.keyText name.key, ⟨pos + name.text.length, value⟩)]
  | .more name value after rest =>
      (words.keyText name.key, ⟨pos + name.text.length, value⟩) ::
        memberPlaces (pos + name.text.length + value.text.length + after.chars.length + 1) rest

namespace Place

def finish (place : Place words) : Nat := place.start + place.doc.text.length

def child (place : Place words) : Access → Option (Place words)
  | .key key =>
      match place.doc with
      | .object members =>
          ((memberPlaces (place.start + 1) members).find? (·.1 == key.chars)).map (·.2)
      | _ => none
  | .index index =>
      match place.doc with
      | .array items => (itemPlaces (place.start + 1) items)[index]?
      | _ => none

def follow (place : Place words) (path : List Access) : Option (Place words) :=
  path.foldlM child place

/-- What the parser makes of a place whose first char is in front of the limit. -/
def under (place : Place words) (limit : Nat) : JsonValue :=
  if place.finish ≤ limit then place.doc.valueAt place.start
  else
    match place.doc.kind with
    | .null | .bool => ⟨.null, true, place.start, place.start, false⟩
    | .number => ⟨.number, true, place.start, limit, false⟩
    | .string => ⟨.string, true, place.start, limit, false⟩
    | .array => ⟨.array, true, place.start, limit + 1, false⟩
    | .object => ⟨.object, true, place.start, limit + 1, false⟩

end Place

/-- Keys and strings are spelled without escapes. -/
structure Bare (words : Lexicon) : Prop extends Scanned words where
  bareKey : ∀ key, ∀ c ∈ words.keyText key, c ≠ quote ∧ c ≠ backslash
  bareContent : ∀ content, ∀ c ∈ words.contentText content, c ≠ quote ∧ c ≠ backslash

theorem bare_matched (bare : Bare words) (doc : Doc words) : Matched doc := by
  have closed : Whole words := whole_of_last
    (fun key last => (bare.bareKey key _ (List.mem_of_getLast? last)).2 rfl)
    (fun content last => (bare.bareContent content _ (List.mem_of_getLast? last)).2 rfl)
  exact whole_matched bare.toScanned doc (doc_pieces_hold closed bare.toScanned doc)

end Places

section Tokens
variable {words : Lexicon} (bare : Bare words) {whole src : Cells} {limit : Nat}
variable (cut : Cut whole src limit)

theorem scan_string_bare (segment : Text) (plain : ∀ c ∈ segment, c ≠ quote ∧ c ≠ backslash)
    (pos : Nat) (here : Here src pos segment) (last : pos + segment.length = limit) :
    scanString src pos limit = .ok limit := by
  induction segment generalizing pos with
  | nil => exact last ▸ scan_string_past src pos pos (Nat.le_refl _)
  | cons c rest ih =>
      obtain ⟨head, tail⟩ := (here_cons src pos c rest).mp here
      obtain ⟨noQuote, noEscape⟩ := plain c List.mem_cons_self
      rw [List.length_cons] at last
      rw [scan_string_step src pos limit c (by omega) head, if_neg noQuote, if_neg noEscape]
      exact ih (fun c member => plain c (List.mem_cons_of_mem _ member)) (pos + 1) tail (by omega)

/-- A string without escapes whose closing quote is behind the limit. -/
theorem scan_string_cut (body : Text) (plain : ∀ c ∈ body, c ≠ quote ∧ c ≠ backslash) (pos : Nat)
    (cut : Cut whole src limit) (here : Here whole pos body) (inside : pos ≤ limit)
    (open' : limit ≤ pos + body.length) : scanString src pos limit = .ok limit := by
  have long : (body.take (limit - pos)).length = limit - pos := by
    rw [List.length_take]
    omega
  have front : Here whole pos (body.take (limit - pos)) := (List.take_prefix _ _).trans here
  refine scan_string_bare (body.take (limit - pos)) (fun c member => ?_) pos ?_ (by omega)
  · exact plain c (List.mem_of_mem_take member)
  · exact (cut_here cut pos _ (by omega)).mpr front

include bare cut

omit bare in
/-- No literal fits in front of the limit where the whole token ends behind it. -/
theorem no_literal (pos finish : Nat) (c : UInt8) (there : whole[pos]? = some c) (value : JsonValue)
    (token : Token whole c pos finish value) (ends : value._end = finish)
    (through : limit < finish) : ∀ literal ∈ literals, ¬ WordAt src literal.1 pos limit := by
  rintro ⟨word, kind, flag⟩ listed ⟨found, within⟩
  have spelled := token_literal whole pos finish value c there token word kind flag listed
    ⟨(cut_here cut pos word within).mp found, Nat.le_trans within (Nat.le_of_lt through)⟩
  rw [spelled] at ends
  dsimp only at ends within
  omega

theorem open_string (start : Nat) (content : words.Content)
    (located : Located whole start (.string content : Doc words)) (inside : start < limit)
    (through : limit < start + (Doc.string content : Doc words).text.length) (value : JsonValue)
    (here : src[start]? = some quote) (token : Token src quote start limit value) :
    value = ⟨.string, true, start, limit, false⟩ := by
  obtain ⟨-, rest⟩ := (here_cons whole start quote _).mp located.here
  have body := ((here_append whole _ _ _).mp rest).1
  simp only [Doc.text, quoted, List.length_cons, List.length_append, List.length_nil] at through
  have stops := scan_string_cut _ (bare.bareContent content) (start + 1) cut body inside (by omega)
  rw [token_quote src start limit value here token limit stops, if_neg (Nat.lt_irrefl _)]

omit bare in
/-- The matcher runs into the limit. -/
theorem open_brackets (opening closing : UInt8) (pos finish last : Nat) (inside : pos < limit)
    (through : limit < finish) (ends : last + 1 = finish)
    (matched : findMatchingBrace whole (pos + 1) finish opening closing = .ok last) :
    findMatchingBrace src (pos + 1) limit opening closing = .ok limit := by
  have stops := matching_brace_follows cut (Nat.le_of_lt through) opening closing (pos + 1) 1 last
    false Nat.one_pos inside matched
  rwa [Nat.min_eq_right (by omega)] at stops

/-- A literal is null where the limit cuts it, a container ends one past the limit. -/
theorem cut_token (place : Place words) (located : Located whole place.start place.doc)
    (inside : place.start < limit) (through : limit < place.finish) (c : UInt8)
    (here : src[place.start]? = some c) (value : JsonValue)
    (token : Token src c place.start limit value) : value = place.under limit := by
  -- The token of the whole text says which scans have been made there.
  have there : whole[place.start]? = some c := (cut.same place.start inside).symm.trans here
  obtain ⟨next, behind, -⟩ := located.followed
  have fits : place.finish ≤ whole.length :=
    Nat.le_of_lt (List.getElem?_eq_some_iff.mp behind).1
  obtain ⟨full, parsed⟩ := parse_token_total whole c place.start place.finish fits
  have fullToken := parse_token_returned whole c place.start place.finish full there parsed
  have same := doc_token whole bare.toScanned place.doc (bare_matched bare place.doc) place.start
    place.finish c full there located (Nat.le_refl _) fullToken
  have ends : full._end = place.finish := congrArg JsonValue._end same
  have shape : place.doc.kind = full._type := (congrArg JsonValue._type same).symm
  have short := no_literal cut place.start place.finish c there full fullToken ends through
  rw [Place.under, if_neg (by omega), shape]
  cases fullToken with
  | string closing first scanned =>
      subst first
      obtain ⟨start, doc⟩ := place
      cases doc with
      | string content =>
          exact open_string bare cut start content located inside through value here token
      | _ => cases shape
  | object closing first matched =>
      subst first
      exact token_object src place.start limit value here token limit
        (open_brackets cut _ _ place.start place.finish closing inside through ends matched)
  | array closing first matched =>
      subst first
      exact token_array src place.start limit value here token limit
        (open_brackets cut _ _ place.start place.finish closing inside through ends matched)
  | number past starts scanned =>
      have stops := (scan_number_follows cut (Nat.le_of_lt through) place.start past scanned).2
      dsimp only at ends
      rw [Nat.min_eq_left (Nat.le_of_lt inside), Nat.min_eq_right (by omega)] at stops
      exact token_number src place.start limit value c here token starts limit stops
  | literal word kind flag listed found =>
      obtain ⟨noQuote, noBrace, noBracket, noNumber⟩ :=
        literal_first whole word kind flag place.start place.finish c listed found there
      rw [token_nothing src place.start limit value c ⟨noQuote, noBrace, noBracket, noNumber, short⟩
        token]
      obtain ⟨-, noString, noArray, noObject, noNumber⟩ := literal_listed word kind flag listed
      cases kind with
      | null => rfl
      | bool => rfl
      | number => exact absurd rfl noNumber
      | string => exact absurd rfl noString
      | array => exact absurd rfl noArray
      | object => exact absurd rfl noObject
  | nothing unknown =>
      have long := doc_long bare.toScanned place.doc
      dsimp only [Place.finish] at ends
      omega

omit bare cut in
theorem first_ink (scanned : Scanned words) (doc : Doc words) (pos : Nat)
    (located : Located src pos doc) : ∃ c, src[pos]? = some c ∧ isBlank c = false := by
  obtain ⟨letter, rest, spelled, ink⟩ := doc_head scanned doc
  exact ⟨letter, ((here_cons src pos letter rest).mp (spelled ▸ located.here)).1, ink⟩

omit bare cut in
theorem parse_skipped (pos first : Nat) (skipped : skipWhitespace src pos limit = .ok first) :
    parseValue src pos limit = parseValue src first limit := by
  have again : skipWhitespace src first limit = .ok first :=
    skip_while_again src isBlank pos limit first skipped
  rw [parseValue, parseValue, skipped, again]

theorem place_parsed (place : Place words) (located : Located whole place.start place.doc)
    (inside : place.start < limit) :
    skipWhitespace src place.start limit = .ok place.start ∧
      parseValue src place.start limit = .ok (place.under limit, (place.under limit)._end) := by
  obtain ⟨letter, first, ink⟩ := first_ink bare.toScanned place.doc place.start located
  have here := (cut.same place.start inside).trans first
  have skipped : skipWhitespace src place.start limit = .ok place.start :=
    skip_while_stop src isBlank place.start limit letter here ink
  refine ⟨skipped, ?_⟩
  obtain ⟨value, later, parsed⟩ := parse_value_total src place.start limit (cut_inside cut)
  obtain ⟨start, again, found⟩ := parse_value_returned src place.start limit later value parsed
  cases skipped.symm.trans again
  rcases found with ⟨past, -, -⟩ | ⟨-, rfl, c, there, token⟩
  · omega
  · have same : value = place.under limit := by
      rcases Nat.lt_or_ge limit place.finish with through | before
      · exact cut_token bare cut place located inside through c there value token
      · rw [Place.under, if_pos before]
        refine doc_token src bare.toScanned place.doc (bare_matched bare place.doc) place.start limit
          c value there ⟨?_, cut_followed cut _ located.followed before⟩ before token
        exact (cut_here cut _ _ before).mpr located.here
    rw [parsed, same]

end Tokens

end SolanaSdk.JsonCuts
