import SolanaSdk.JsonCutNavigation
import SolanaSdk.NumberReads

/-!
Responses that end early. Nothing checks that a response is complete, and the
accessors take the end of the text for the end of a value: a number that is cut
is read from the digits that are left, and a string loses one char more than the
cut has taken.
-/

namespace SolanaSdk.Truncation

open ByteData JsonText JsonScanners JsonAccess JsonGrammar JsonScanning JsonPlaces
open JsonNavigation JsonDocuments JsonTexts NumberReads JsonCuts JsonCutContainers
open JsonCutNavigation Segments

section Responses

/-- JSON texts whose keys and strings have no escapes. -/
def bareWords : Lexicon where
  Key := List PlainChar
  Content := List PlainChar
  Number := JsonTexts.Number
  keyText key := key.map PlainChar.char
  contentText content := content.map PlainChar.char
  numberText := Number.text

/-- An object as it was sent, and how many of its chars have been received. -/
structure Response where
  document : Document bareWords
  isObject : document.root.kind = .object
  kept : Nat
  short : kept < document.text.length

def Response.sent (response : Response) : Text := response.document.text

def Response.received (response : Response) : Text := response.sent.take response.kept

/-- `parse`, `operator[]` along the path and an accessor. -/
def readAt {α : Type} (accessor : Cells → JsonValue → Except Fault α) (text : Text)
    (path : List Access) : Except Fault α := do
  let root ← parse (cStr text) text.length
  let value ← walk (cStr text) root path
  accessor (cStr text) value

def readUint : Text → List Access → Except Fault Nat := readAt JsonValue.asUint

def readString : Text → List Access → Except Fault Text := readAt JsonValue.asString

/-- At the path, what is left shows what the whole text does, or nothing. -/
def Response.Faithful (response : Response) (path : List Access) : Prop :=
  (∃ number, readUint response.sent path = .ok number ∧
    (readUint response.received path = .ok number ∨ readUint response.received path = .ok 0)) ∧
  ∃ text, readString response.sent path = .ok text ∧
    (readString response.received path = .ok text ∨ readString response.received path = .ok [])

/-- A number is not misread from its first `left` chars: its whole digits are all there or
all gone, or they do not fit and what is left of them reads as the value they are clamped to. -/
def NumberSpared (token : JsonTexts.Number) (left : Nat) : Prop :=
  left ≤ token.sign.length ∨ token.sign.length + token.whole.digits.length ≤ left ∨
    2 ^ 64 ≤ digitsValue token.whole.digits ∧
      (2 ^ 64 ≤ digitsValue (token.whole.digits.take (left - token.sign.length)) ∨
        digitsValue (token.whole.digits.take (left - token.sign.length)) =
          if token.negative then 1 else 2 ^ 64 - 1)

/-- The cut goes through no number or string at the path, or spares it. -/
def Response.Spared (response : Response) (path : List Access) : Prop :=
  ∀ place ∈ (rootPlace response.document).follow path,
    place.start < response.kept → response.kept < place.finish →
      match place.doc with
      | .number token => NumberSpared token (response.kept - place.start)
      | .string _ => response.kept = place.start + 2
      | _ => True

theorem bare_words : Bare bareWords where
  key := key_body
  content := key_body
  number token := ⟨token.sign, token.whole.digits, token.fractionText, token.exponentText,
    token.number_text, rfl⟩
  bareKey key c member := by
    obtain ⟨plain, -, rfl⟩ := List.mem_map.mp member
    exact ⟨plain.noQuote, plain.noEscape⟩
  bareContent content c member := by
    obtain ⟨plain, -, rfl⟩ := List.mem_map.mp member
    exact ⟨plain.noQuote, plain.noEscape⟩

end Responses

section Numbers

/-- No digit follows the whole digits, wherever the token is cut. -/
theorem tail_stops (token : JsonTexts.Number) (count : Nat) (next : UInt8) (rest : Text)
    (delimits : Delimiter next) :
    ∃ c later, (token.fractionText ++ token.exponentText).take count ++ next :: rest = c :: later ∧
      isDigit c = false := by
  have behind : ∃ c later, next :: rest = c :: later ∧ isDigit c = false :=
    ⟨next, rest, rfl, (delimiter_stops next delimits).1⟩
  cases count with
  | zero => exact behind
  | succ count =>
      unfold Number.fractionText Number.exponentText
      cases token.fraction with
      | some run => exact ⟨point, _, rfl, by decide⟩
      | none =>
          cases token.exponent with
          | none => exact behind
          | some exponent =>
              refine ⟨exponent.mark, _, rfl, ?_⟩
              rcases exponent.marks with same | same <;> rw [same] <;> decide

/-- `strtoull` on the first chars of a token. -/
theorem strtoull_cut (token : JsonTexts.Number) (left : Nat) (some : 0 < left) (next : UInt8)
    (rest : Text) (delimits : Delimiter next) :
    strtoull (token.text.take left ++ next :: rest) =
      .ok (unsignedOf token.negative (token.whole.digits.take (left - token.sign.length))) := by
  have sign : token.sign.length ≤ left := by
    unfold Number.sign
    split
    · exact some
    · exact Nat.zero_le left
  obtain ⟨c, later, behind, stops⟩ := tail_stops token
    (left - token.sign.length - token.whole.digits.length) next rest delimits
  have spelled : token.text.take left ++ next :: rest =
      (if token.negative then [minus] else []) ++
        (token.whole.digits.take (left - token.sign.length) ++ c :: later) := by
    rw [Number.text, List.take_append, List.take_of_length_le sign, List.take_append, ← behind]
    simp only [List.append_assoc, Number.sign]
  rw [spelled]
  refine strtoull_digits _ _ _ _ (fun d member => ?_) ?_ stops
  · exact token.whole.digital d (List.mem_of_mem_take member)
  · cases negative : token.negative with
    | true => exact .inl rfl
    | false =>
        -- Without a sign at least one digit is left.
        right
        have none : token.sign.length = 0 := by
          rw [Number.sign, negative]
          rfl
        rw [none, Nat.sub_zero, ne_eq, List.take_eq_nil_iff]
        rintro (zero | empty)
        · omega
        · exact token.whole.some empty

theorem digits_append (front back : Text) :
    digitsValue (front ++ back) = digitsValue front * 10 ^ back.length + digitsValue back := by
  rw [digitsValue, List.foldl_append]
  exact digits_fold back _

/-- Digits that are cut are worth less than a tenth of all of them, but not nothing. -/
theorem digits_cut (token : JsonTexts.Number) (count : Nat) (some : 0 < count)
    (short : count < token.whole.digits.length) :
    0 < digitsValue (token.whole.digits.take count) ∧
      digitsValue (token.whole.digits.take count) * 10 ≤ digitsValue token.whole.digits := by
  obtain ⟨letter, rest, spelled⟩ := List.exists_cons_of_ne_nil token.whole.some
  have noZero : letter ≠ 48 := by
    rintro rfl
    have single := token.noZero (by rw [spelled]; rfl)
    rw [single, List.length_singleton] at short
    omega
  constructor
  · apply Nat.pos_of_ne_zero
    intro zero
    have digital : Digits (token.whole.digits.take count) :=
      fun c member => token.whole.digital c (List.mem_of_mem_take member)
    refine noZero ((digits_value_zero _ digital).mp zero letter ?_)
    obtain ⟨fewer, rfl⟩ := Nat.exists_eq_succ_of_ne_zero (Nat.ne_of_gt some)
    rw [spelled, List.take_succ_cons]
    exact List.mem_cons_self
  · have whole := digits_append (token.whole.digits.take count) (token.whole.digits.drop count)
    rw [List.take_append_drop, List.length_drop] at whole
    have power : 10 ≤ 10 ^ (token.whole.digits.length - count) :=
      Nat.le_self_pow (by omega) 10
    have scaled := Nat.mul_le_mul_left (digitsValue (token.whole.digits.take count)) power
    omega

theorem number_spared_iff (token : JsonTexts.Number) (left : Nat) :
    NumberSpared token left ↔
      unsignedOf token.negative (token.whole.digits.take (left - token.sign.length)) =
          unsignedOf token.negative token.whole.digits ∨
        unsignedOf token.negative (token.whole.digits.take (left - token.sign.length)) = 0 := by
  unfold NumberSpared
  by_cases gone : left ≤ token.sign.length
  · refine iff_of_true (.inl gone) (.inr ?_)
    rw [Nat.sub_eq_zero_of_le gone, List.take_zero]
    cases token.negative <;> decide
  by_cases complete : token.sign.length + token.whole.digits.length ≤ left
  · refine iff_of_true (.inr (.inl complete)) (.inl ?_)
    rw [List.take_of_length_le (by omega)]
  rw [or_iff_right gone, or_iff_right complete]
  obtain ⟨some, less⟩ := digits_cut token (left - token.sign.length) (by omega) (by omega)
  unfold unsignedOf
  generalize digitsValue (token.whole.digits.take (left - token.sign.length)) = front
    at some less ⊢
  generalize digitsValue token.whole.digits = whole at less ⊢
  cases token.negative with
  | true =>
      simp only [if_true]
      split <;> split <;> omega
  | false =>
      simp only [Bool.false_eq_true, if_false]
      split <;> split <;> omega

end Numbers

section Reads
variable {whole src : Cells} {limit : Nat} (cut : Cut whole src limit)

theorem under_shape (place : Place bareWords)
    (kind : place.doc.kind = .number ∨ place.doc.kind = .string) :
    place.under limit = ⟨place.doc.kind, true, place.start, min place.finish limit, false⟩ := by
  have flag : place.doc.flag = false := by
    apply no_flag
    rcases kind with same | same <;> rw [same] <;> decide
  rw [Place.under]
  split
  next complete =>
    rw [Nat.min_eq_left complete, Doc.valueAt, flag]
    rfl
  next through =>
    rw [Nat.min_eq_right (by omega)]
    rcases kind with same | same <;> rw [same]

include cut

/-- What is left of a place is followed by something that ends a value. -/
theorem front_here (place : Place bareWords) (located : Located whole place.start place.doc)
    (inside : place.start < limit) :
    ∃ next rest, src.drop place.start =
        place.doc.text.take (limit - place.start) ++ next :: rest ∧ Delimiter next := by
  have front : Here whole place.start (place.doc.text.take (limit - place.start)) :=
    (List.take_prefix _ _).trans located.here
  have long : place.start + (place.doc.text.take (limit - place.start)).length =
      min limit place.finish := by
    rw [List.length_take, Place.finish]
    omega
  have here := (cut_here cut place.start _ (by omega)).mpr front
  obtain ⟨next, there, delimits⟩ : Followed src (min limit place.finish) := by
    rcases Nat.lt_or_ge limit place.finish with through | complete
    · rw [Nat.min_eq_left (Nat.le_of_lt through)]
      exact cut.ended
    · rw [Nat.min_eq_right complete]
      exact cut_followed cut _ located.followed complete
  obtain ⟨rest, same⟩ := here_before src _ place.start next here (long ▸ there)
  exact ⟨next, rest, same, delimits⟩

theorem uint_cut (start : Nat) (token : JsonTexts.Number)
    (located : Located whole start (.number token : Doc bareWords)) (inside : start < limit) :
    (Place.under ⟨start, (.number token : Doc bareWords)⟩ limit).asUint src =
      .ok (unsignedOf token.negative
        (token.whole.digits.take (limit - start - token.sign.length))) := by
  obtain ⟨next, rest, same, delimits⟩ :=
    front_here cut ⟨start, (.number token : Doc bareWords)⟩ located inside
  rw [under_shape _ (.inl rfl)]
  change strtoull (src.drop start) = _
  rw [same]
  exact strtoull_cut token (limit - start) (by omega) next rest delimits

omit cut in
theorem unescape_bare (body : Text) (plain : ∀ c ∈ body, c ≠ backslash) (pos stop : Nat)
    (here : Here src pos body) (last : pos + body.length = stop) :
    unescape src pos stop = .ok body := by
  induction body generalizing pos with
  | nil =>
      have ended : pos = stop := last
      rw [unescape, if_neg (by omega)]
      rfl
  | cons c rest ih =>
      obtain ⟨head, tail⟩ := (here_cons src pos c rest).mp here
      rw [List.length_cons] at last
      exact unescape_plain src pos stop c rest (by omega) head (plain c List.mem_cons_self)
        (ih (fun c member => plain c (List.mem_cons_of_mem _ member)) (pos + 1) tail (by omega))

omit cut in
theorem string_finish (start : Nat) (content : List PlainChar) :
    Place.finish ⟨start, (.string content : Doc bareWords)⟩ = start + content.length + 2 := by
  simp only [Place.finish, Doc.text, quoted, List.length_cons, List.length_append,
    List.length_nil, bareWords, List.length_map]
  omega

/-- The char in front of the end is taken for the closing quote. -/
theorem string_cut (start : Nat) (content : List PlainChar)
    (located : Located whole start (.string content : Doc bareWords)) (inside : start < limit) :
    (Place.under ⟨start, (.string content : Doc bareWords)⟩ limit).asString src =
      if limit = start + 1 then .error .lengthError
      else .ok ((content.map PlainChar.char).take (limit - start - 2)) := by
  rw [under_shape _ (.inr rfl), string_finish]
  change (if min (start + content.length + 2) limit - 1 < start + 1 then _
    else unescape src (start + 1) (min (start + content.length + 2) limit - 1)) = _
  by_cases lone : limit = start + 1
  · rw [if_pos lone, if_pos (by omega)]
  · rw [if_neg lone, if_neg (by omega)]
    obtain ⟨-, rest⟩ := (here_cons whole start quote _).mp located.here
    have body := ((here_append whole _ (content.map PlainChar.char) _).mp rest).1
    have front : Here whole (start + 1) ((content.map PlainChar.char).take (limit - start - 2)) :=
      (List.take_prefix _ _).trans body
    have long : ((content.map PlainChar.char).take (limit - start - 2)).length =
        min (limit - start - 2) content.length := by
      rw [List.length_take, List.length_map]
    refine unescape_bare _ (fun c member => ?_) _ _ ((cut_here cut _ _ (by omega)).mpr front)
      (by omega)
    exact (bare_words.bareContent content c (List.mem_of_mem_take member)).2

end Reads

section Answers
variable (response : Response) (path : List Access)

/-- What `asUint` returns at a place of a text with `kept` chars. -/
def uintAnswer (kept : Nat) : Option (Place bareWords) → Nat
  | some ⟨start, .number token⟩ =>
      if start < kept then
        unsignedOf token.negative (token.whole.digits.take (kept - start - token.sign.length))
      else 0
  | _ => 0

def stringAnswer (kept : Nat) : Option (Place bareWords) → Except Fault Text
  | some ⟨start, .string content⟩ =>
      if start < kept then
        if kept = start + 1 then .error .lengthError
        else .ok ((content.map PlainChar.char).take (kept - start - 2))
      else .ok []
  | _ => .ok []

theorem number_answer (kept start : Nat) (token : JsonTexts.Number) :
    uintAnswer kept (some ⟨start, .number token⟩) =
      if start < kept then
        unsignedOf token.negative (token.whole.digits.take (kept - start - token.sign.length))
      else 0 := rfl

theorem text_answer (kept start : Nat) (content : List PlainChar) :
    stringAnswer kept (some ⟨start, .string content⟩) =
      if start < kept then
        if kept = start + 1 then .error .lengthError
        else .ok ((content.map PlainChar.char).take (kept - start - 2))
      else .ok [] := rfl

theorem null_reads (src : Cells) (value : JsonValue) (null : value._type = .null) :
    value.asUint src = .ok 0 ∧ value.asString src = .ok [] := by
  rw [JsonValue.asUint, JsonValue.asString, null]
  exact ⟨rfl, rfl⟩

theorem sees_reads {whole src : Cells} {kept : Nat} (cut : Cut whole src kept) (found : JsonValue)
    (place : Option (Place bareWords))
    (located : ∀ here ∈ place, Located whole here.start here.doc) (sees : Sees kept found place) :
    found.asUint src = .ok (uintAnswer kept place) ∧
      found.asString src = stringAnswer kept place := by
  cases place with
  | none => exact null_reads src found sees
  | some here =>
      obtain ⟨start, doc⟩ := here
      by_cases inside : start < kept
      · have located := located _ rfl
        rw [Sees, if_pos inside] at sees
        subst sees
        have other (noNumber : doc.kind ≠ .number) (noString : doc.kind ≠ .string) :
            (Place.under ⟨start, doc⟩ kept).asUint src = .ok 0 ∧
              (Place.under ⟨start, doc⟩ kept).asString src = .ok [] := by
          rcases under_kind kept ⟨start, doc⟩ with same | null
          · exact ⟨if_pos (.inl (same ▸ noNumber)), if_pos (.inl (same ▸ noString))⟩
          · exact null_reads src _ null
        cases doc with
        | number token =>
            refine ⟨?_, ?_⟩
            · rw [uintAnswer, if_pos inside]
              exact uint_cut cut start token located inside
            · rw [under_shape _ (.inl rfl)]
              rfl
        | string content =>
            refine ⟨?_, ?_⟩
            · rw [under_shape _ (.inr rfl)]
              rfl
            · rw [stringAnswer, if_pos inside]
              exact string_cut cut start content located inside
        | _ => exact other (by rintro ⟨⟩) (by rintro ⟨⟩)
      · rw [Sees, if_neg inside] at sees
        obtain ⟨unsigned, text⟩ := null_reads src found sees
        rw [unsigned, text]
        cases doc with
        | number token =>
            rw [uintAnswer, if_neg inside]
            exact ⟨rfl, rfl⟩
        | string content =>
            rw [stringAnswer, if_neg inside]
            exact ⟨rfl, rfl⟩
        | _ => exact ⟨rfl, rfl⟩

/-- The two reads of a document cut at `kept`. -/
theorem reads_cut (document : Document bareWords) (kept : Nat)
    (inside : kept ≤ document.text.length) :
    readUint (document.text.take kept) path =
        .ok (uintAnswer kept ((rootPlace document).follow path)) ∧
      readString (document.text.take kept) path =
        stringAnswer kept ((rootPlace document).follow path) := by
  obtain ⟨root, found, parsed, walked, sees⟩ := document_cut bare_words document path kept inside
  obtain ⟨unsigned, text⟩ := sees_reads (cut_text document.text kept inside) found _
    (fun here member => (follow_inside document path here member).1) sees
  have read {α : Type} (accessor : Cells → JsonValue → Except Fault α) :
      readAt accessor (document.text.take kept) path =
        accessor (cStr (document.text.take kept)) found := by
    rw [readAt, parsed]
    change (walk _ root path >>= _) = _
    rw [walked]
    rfl
  exact ⟨(read JsonValue.asUint).trans unsigned, (read JsonValue.asString).trans text⟩

theorem sent_reads :
    readUint response.sent path =
        .ok (uintAnswer response.sent.length ((rootPlace response.document).follow path)) ∧
      readString response.sent path =
        stringAnswer response.sent.length ((rootPlace response.document).follow path) := by
  have reads := reads_cut path response.document response.sent.length (Nat.le_refl _)
  have whole : response.document.text.take response.sent.length = response.sent :=
    List.take_length
  rwa [whole] at reads

theorem received_reads :
    readUint response.received path =
        .ok (uintAnswer response.kept ((rootPlace response.document).follow path)) ∧
      readString response.received path =
        stringAnswer response.kept ((rootPlace response.document).follow path) :=
  reads_cut path response.document response.kept (Nat.le_of_lt response.short)

/-- The number of a place that the text holds as a whole is that of all its digits. -/
theorem whole_number (start length : Nat) (token : JsonTexts.Number)
    (complete : Place.finish ⟨start, (.number token : Doc bareWords)⟩ ≤ length) :
    uintAnswer length (some ⟨start, .number token⟩) =
      unsignedOf token.negative token.whole.digits := by
  have some := List.length_pos_of_ne_nil token.whole.some
  simp only [Place.finish, Doc.text, bareWords, Number.text, List.length_append] at complete
  rw [number_answer, if_pos (by omega), List.take_of_length_le (by omega)]

theorem number_faithful (start kept length : Nat) (token : JsonTexts.Number)
    (complete : Place.finish ⟨start, (.number token : Doc bareWords)⟩ ≤ length) :
    (uintAnswer kept (some ⟨start, .number token⟩) =
          uintAnswer length (some ⟨start, .number token⟩) ∨
        uintAnswer kept (some ⟨start, .number token⟩) = 0) ↔
      (start < kept → kept < Place.finish ⟨start, (.number token : Doc bareWords)⟩ →
        NumberSpared token (kept - start)) := by
  by_cases inside : start < kept
  · rcases Nat.lt_or_ge kept (Place.finish ⟨start, (.number token : Doc bareWords)⟩)
      with through | before
    · rw [whole_number start length token complete, number_answer, if_pos inside,
        ← number_spared_iff]
      exact ⟨fun spared _ _ => spared, fun spared => spared inside through⟩
    · rw [whole_number start length token complete, whole_number start kept token before]
      exact iff_of_true (.inl rfl) fun _ through => absurd through (Nat.not_lt.mpr before)
  · refine iff_of_true (.inr ?_) fun front => absurd front inside
    rw [number_answer, if_neg inside]

theorem whole_string (start length : Nat) (content : List PlainChar)
    (complete : Place.finish ⟨start, (.string content : Doc bareWords)⟩ ≤ length) :
    stringAnswer length (some ⟨start, .string content⟩) = .ok (content.map PlainChar.char) := by
  rw [string_finish] at complete
  rw [text_answer, if_pos (by omega), if_neg (by omega),
    List.take_of_length_le (by rw [List.length_map]; omega)]

/-- Of a string that the cut goes through, one char less is shown than is left. -/
theorem string_faithful (start kept length : Nat) (content : List PlainChar)
    (complete : Place.finish ⟨start, (.string content : Doc bareWords)⟩ ≤ length) :
    (∃ text, stringAnswer length (some ⟨start, .string content⟩) = .ok text ∧
        (stringAnswer kept (some ⟨start, .string content⟩) = .ok text ∨
          stringAnswer kept (some ⟨start, .string content⟩) = .ok [])) ↔
      (start < kept → kept < Place.finish ⟨start, (.string content : Doc bareWords)⟩ →
        kept = start + 2) := by
  rw [whole_string start length content complete]
  by_cases inside : start < kept
  · rcases Nat.lt_or_ge kept (Place.finish ⟨start, (.string content : Doc bareWords)⟩)
      with through | before
    · rw [text_answer, if_pos inside]
      rw [string_finish] at through ⊢
      constructor
      · rintro ⟨text, sent, answer⟩ - -
        cases sent
        split at answer
        · rcases answer with never | never <;> cases never
        · -- Fewer chars than the string has are left, so it is shown empty.
          have short : ((content.map PlainChar.char).take (kept - start - 2)).length = 0 := by
            rcases answer with same | none
            · have long := congrArg List.length (Except.ok.inj same)
              rw [List.length_take, List.length_map] at long
              omega
            · rw [Except.ok.inj none]
              rfl
          rw [List.length_take, List.length_map] at short
          omega
      · intro spared
        have two := spared inside through
        refine ⟨_, rfl, .inr ?_⟩
        rw [if_neg (by omega), two, Nat.add_sub_cancel_left, Nat.sub_self, List.take_zero]
    · rw [whole_string start kept content before]
      exact iff_of_true ⟨_, rfl, .inl rfl⟩ fun _ through => absurd through (Nat.not_lt.mpr before)
  · refine iff_of_true ⟨_, rfl, .inr ?_⟩ fun front => absurd front inside
    rw [text_answer, if_neg inside]

/-- A response that breaks off shows at a path what the whole one does, or nothing, exactly
where the cut goes through no number or string there, or through one that it spares. -/
theorem faithful_iff (response : Response) (path : List Access) :
    response.Faithful path ↔ response.Spared path := by
  obtain ⟨sentUint, sentString⟩ := sent_reads response path
  obtain ⟨keptUint, keptString⟩ := received_reads response path
  have complete (place : Place bareWords)
      (member : place ∈ (rootPlace response.document).follow path) :
      place.finish ≤ response.sent.length :=
    (follow_inside response.document path place member).2
  have number (kept sent : Nat) : (∃ number, (.ok sent : Except Fault Nat) = .ok number ∧
      ((.ok kept : Except Fault Nat) = .ok number ∨ (.ok kept : Except Fault Nat) = .ok 0)) ↔
      kept = sent ∨ kept = 0 := by
    simp
  unfold Response.Faithful Response.Spared
  rw [sentUint, keptUint, sentString, keptString, number]
  generalize (rootPlace response.document).follow path = answer at complete ⊢
  cases answer with
  | none => exact iff_of_true ⟨.inl rfl, _, rfl, .inl rfl⟩ fun place never => by cases never
  | some place =>
      have complete := complete place rfl
      obtain ⟨start, doc⟩ := place
      have only (holds : Place bareWords → Prop) :
          (∀ place ∈ some (⟨start, doc⟩ : Place bareWords), holds place) ↔ holds ⟨start, doc⟩ :=
        ⟨fun all => all _ rfl, fun here place member => Option.some.inj member ▸ here⟩
      rw [only]
      cases doc with
      | number token =>
          refine (and_iff_left ⟨_, rfl, .inl rfl⟩).trans ?_
          exact number_faithful start response.kept response.sent.length token complete
      | string content =>
          refine (and_iff_right (.inl rfl)).trans ?_
          exact string_faithful start response.kept response.sent.length content complete
      | _ => exact iff_of_true ⟨.inl rfl, _, rfl, .inl rfl⟩ fun _ _ => trivial

/-- `{"a":12}`, of which `{"a":1` is received. -/
def cutNumber : Response where
  document := ⟨noSpace, .object (.last
    ⟨noSpace, [⟨97, by decide, by decide, by decide⟩], noSpace, noSpace⟩
    (.number ⟨false, ⟨[49, 50], List.forall_mem_cons.mpr ⟨rfl, List.forall_mem_singleton.mpr rfl⟩,
      List.cons_ne_nil _ _⟩, by decide, none, none⟩) noSpace), noSpace⟩
  isObject := rfl
  kept := 6
  short := by decide

theorem cut_number_misread :
    ¬ ∀ (response : Response) (path : List Access), response.Faithful path := by
  intro every
  obtain ⟨⟨number, sent, received⟩, -⟩ := every cutNumber [.key ⟨[97], by decide⟩]
  have twelve : readUint cutNumber.sent [.key ⟨[97], by decide⟩] = .ok 12 := by decide +kernel
  have one : readUint cutNumber.received [.key ⟨[97], by decide⟩] = .ok 1 := by decide +kernel
  rw [one] at received
  cases twelve.symm.trans sent
  rcases received with never | never <;> cases never

end Answers

end SolanaSdk.Truncation
