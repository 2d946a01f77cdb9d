import Mathlib.Data.Nat.Digits.Defs
import SolanaSdk.JsonNavigation

/-!
The documents that the reader handles completely: keys without escapes, strings
whose only escapes are those of the quote, the slash, the line breaks and the
tab, and integers of 64 bits. Every path through such a document leads to a
value that shows what the tree has there.
-/

namespace SolanaSdk.JsonDocuments

open ByteData JsonText JsonScanners JsonAccess JsonGrammar JsonScanning JsonPlaces JsonNavigation
open Segments

section Lexemes

structure PlainChar where
  char : UInt8
  printable : 32 ≤ char
  noQuote : char ≠ quote
  noEscape : char ≠ backslash

inductive Part where
  | plain (c : PlainChar)
  | quote
  | slash
  | lineFeed
  | carriageReturn
  | tab

def Part.text : Part → Text
  | .plain c => [c.char]
  | .quote => [backslash, 34]
  | .slash => [backslash, 47]
  | .lineFeed => [backslash, 110]
  | .carriageReturn => [backslash, 114]
  | .tab => [backslash, 116]

def Part.denotes : Part → UInt8
  | .plain c => c.char
  | .quote => 34
  | .slash => 47
  | .lineFeed => 10
  | .carriageReturn => 13
  | .tab => 9

/-- A decimal integer that an `int64_t` or a `uint64_t` holds; zero may be signed. -/
structure Integer where
  negative : Bool
  magnitude : Nat
  fits : if negative then magnitude ≤ 2 ^ 63 else magnitude < 2 ^ 64

def digitChar (digit : Nat) : UInt8 := 48 + UInt8.ofNat digit

def decimal (number : Nat) : Text :=
  if number = 0 then [48] else (Nat.digits 10 number).reverse.map digitChar

namespace Integer

def sign (token : Integer) : Text := if token.negative then [minus] else []

def text (token : Integer) : Text := token.sign ++ decimal token.magnitude

def value (token : Integer) : Int := if token.negative then -token.magnitude else token.magnitude

end Integer

def plainWords : Lexicon where
  Key := List PlainChar
  Content := List Part
  Number := Integer
  keyText key := key.map PlainChar.char
  contentText parts := parts.flatMap Part.text
  numberText := Integer.text

end Lexemes

section Numbers

theorem digit_char (digit : Nat) (small : digit < 10) :
    isDigit (digitChar digit) = true ∧ (digitChar digit).toNat - 48 = digit := by
  have every : ∀ digit : Fin 10,
      isDigit (digitChar digit.val) = true ∧ (digitChar digit.val).toNat - 48 = digit.val := by
    decide
  exact every ⟨digit, small⟩

theorem decimal_digits (number : Nat) : Digits (decimal number) := by
  intro c member
  unfold decimal at member
  split at member
  · rw [List.mem_singleton.mp member]
    decide
  · obtain ⟨digit, listed, rfl⟩ := List.mem_map.mp member
    exact (digit_char digit (Nat.digits_lt_base (by decide) (List.mem_reverse.mp listed))).1

theorem decimal_some (number : Nat) : decimal number ≠ [] := by
  unfold decimal
  split
  next => exact List.cons_ne_nil _ _
  next some =>
    rw [ne_eq, List.map_eq_nil_iff, List.reverse_eq_nil_iff, Nat.digits_eq_nil_iff_eq_zero]
    exact some

/-- Reading the digits of a number gives it back. -/
theorem decimal_value (number : Nat) :
    (decimal number).foldl (fun acc c => acc * 10 + (c.toNat - 48)) 0 = number := by
  unfold decimal
  split
  next none => exact none.symm
  next some =>
    rw [List.foldl_map, List.foldl_reverse]
    have small : ∀ digit ∈ Nat.digits 10 number, digit < 10 :=
      fun digit listed => Nat.digits_lt_base (by decide) listed
    -- `Nat.digits` has the last digit first, and so has the fold of the reversed text.
    have folded : ∀ digits : List Nat, (∀ digit ∈ digits, digit < 10) →
        digits.foldr (fun digit acc => acc * 10 + ((digitChar digit).toNat - 48)) 0 =
          Nat.ofDigits 10 digits := by
      intro digits
      induction digits with
      | nil => exact fun _ => rfl
      | cons digit rest ih =>
          intro small
          rw [List.foldr_cons, ih fun digit listed => small digit (List.mem_cons_of_mem _ listed),
            (digit_char digit (small digit List.mem_cons_self)).2, Nat.ofDigits_cons]
          omega
    rw [folded _ small, Nat.ofDigits_digits]

theorem magnitude_read (digits rest : Text) (next : UInt8) (acc : Nat) (digital : Digits digits)
    (stops : isDigit next = false) :
    readMagnitude acc (digits ++ next :: rest) =
      .ok (digits.foldl (fun acc c => acc * 10 + (c.toNat - 48)) acc) := by
  induction digits generalizing acc with
  | nil =>
      rw [List.nil_append, readMagnitude, stops]
      rfl
  | cons c later ih =>
      rw [List.cons_append, readMagnitude, if_pos (digital c List.mem_cons_self)]
      exact ih _ fun c member => digital c (List.mem_cons_of_mem _ member)

theorem skip_isspace_digit (letter : UInt8) (rest : Text) (digit : isDigit letter = true) :
    skipIsspace (letter :: rest) = .ok (letter :: rest) := by
  have bounds := digit_bounds letter digit
  rw [skipIsspace, if_neg]
  · rfl
  · rintro (rfl | ⟨-, small⟩)
    · exact absurd bounds (by decide)
    · have bound : letter.toNat ≤ 13 := UInt8.le_iff_toNat_le.mp small
      omega

/-- An optional minus sign and digits: nothing is skipped, and the sign is read off. -/
theorem sign_steps (negative : Bool) (digits rest : Text) (digital : Digits digits)
    (some : digits ≠ []) :
    skipIsspace ((if negative then [minus] else []) ++ (digits ++ rest)) =
        .ok ((if negative then [minus] else []) ++ (digits ++ rest)) ∧
      readSign ((if negative then [minus] else []) ++ (digits ++ rest)) =
        .ok (negative, digits ++ rest) := by
  obtain ⟨letter, later, spelled⟩ := List.exists_cons_of_ne_nil some
  have digit : isDigit letter = true := digital letter (spelled ▸ List.mem_cons_self)
  cases negative with
  | true => exact ⟨rfl, rfl⟩
  | false =>
      obtain ⟨-, -, unsigned, noMinus⟩ := digit_no_mark letter digit
      -- Without a sign the digits are read from the start.
      have apart : letter ≠ minus ∧ letter ≠ plus := by
        constructor
        · rintro rfl
          cases noMinus
        · rintro rfl
          cases unsigned
      rw [if_neg (by decide), List.nil_append, spelled, List.cons_append]
      refine ⟨skip_isspace_digit letter _ digit, ?_⟩
      rw [readSign, if_neg apart.1, if_neg apart.2]
      rfl

/-- The three steps of both C functions on an integer with another char behind it. -/
theorem integer_read (token : Integer) (next : UInt8) (rest : Text)
    (stops : isDigit next = false) :
    skipIsspace (token.text ++ next :: rest) = .ok (token.text ++ next :: rest) ∧
      readSign (token.text ++ next :: rest) =
        .ok (token.negative, decimal token.magnitude ++ next :: rest) ∧
      readMagnitude 0 (decimal token.magnitude ++ next :: rest) = .ok token.magnitude := by
  have read := magnitude_read (decimal token.magnitude) rest next 0
    (decimal_digits token.magnitude) stops
  rw [decimal_value] at read
  obtain ⟨spaces, signed⟩ := sign_steps token.negative (decimal token.magnitude) (next :: rest)
    (decimal_digits _) (decimal_some _)
  rw [Integer.text, Integer.sign, List.append_assoc]
  exact ⟨spaces, signed, read⟩

/-- `strtoll` on the token: the value, within the bounds of an `int64_t`. -/
theorem strtoll_integer (token : Integer) (next : UInt8) (rest : Text)
    (stops : isDigit next = false) :
    strtoll (token.text ++ next :: rest) =
      .ok (max (-2 ^ 63) (min (2 ^ 63 - 1) token.value)) := by
  obtain ⟨spaces, signed, digits⟩ := integer_read token next rest stops
  rw [strtoll, spaces]
  change (readSign (token.text ++ next :: rest) >>= _) = _
  rw [signed]
  change (readMagnitude 0 (decimal token.magnitude ++ next :: rest) >>= _) = _
  rw [digits]
  rfl

/-- `strtoull` on the token: the value modulo `2^64`. -/
theorem strtoull_integer (token : Integer) (next : UInt8) (rest : Text)
    (stops : isDigit next = false) :
    strtoull (token.text ++ next :: rest) = .ok (token.value % 2 ^ 64).toNat := by
  obtain ⟨spaces, signed, digits⟩ := integer_read token next rest stops
  have small : token.magnitude < 2 ^ 64 := by
    have fits := token.fits
    split at fits
    · exact Nat.lt_of_le_of_lt fits (by decide)
    · exact fits
  rw [strtoull, spaces]
  change (readSign (token.text ++ next :: rest) >>= _) = _
  rw [signed]
  change (readMagnitude 0 (decimal token.magnitude ++ next :: rest) >>= _) = _
  rw [digits]
  change (if 2 ^ 64 ≤ token.magnitude then _ else _) = _
  rw [if_neg (Nat.not_le.mpr small), Integer.value]
  cases token.negative with
  | true =>
      change Except.ok ((2 ^ 64 - token.magnitude) % 2 ^ 64) = _
      congr 1
      rw [if_pos rfl]
      omega
  | false =>
      change Except.ok token.magnitude = _
      congr 1
      rw [if_neg (by decide)]
      omega

end Numbers

section Strings

theorem parts_body (parts : List Part) : StringBody (parts.flatMap Part.text) := by
  induction parts with
  | nil => exact .nil
  | cons part rest ih =>
      rw [List.flatMap_cons]
      cases part with
      | plain c => exact .plain c.char _ c.noQuote c.noEscape ih
      | quote => exact .escaped 34 _ ih
      | slash => exact .escaped 47 _ ih
      | lineFeed => exact .escaped 110 _ ih
      | carriageReturn => exact .escaped 114 _ ih
      | tab => exact .escaped 116 _ ih

theorem key_body (key : List PlainChar) : StringBody (key.map PlainChar.char) := by
  induction key with
  | nil => exact .nil
  | cons c rest ih => exact .plain c.char _ c.noQuote c.noEscape ih

theorem parts_last (parts : List Part) :
    (parts.flatMap Part.text).getLast? ≠ some backslash := by
  induction parts with
  | nil => rintro ⟨⟩
  | cons part rest ih =>
      rw [List.flatMap_cons, List.getLast?_append]
      cases behind : (rest.flatMap Part.text).getLast? with
      | some c =>
          rw [behind] at ih
          exact ih
      | none =>
          cases part with
          | plain c => exact fun same => c.noEscape (Option.some.inj same)
          | _ => decide

theorem key_last (key : List PlainChar) : (key.map PlainChar.char).getLast? ≠ some backslash := by
  intro last
  obtain ⟨c, -, same⟩ := List.mem_map.mp (List.mem_of_getLast? last)
  exact c.noEscape same

variable (src : Cells)

theorem unescape_plain (pos stop : Nat) (c : UInt8) (rest : Text) (inside : pos < stop)
    (here : src[pos]? = some c) (noEscape : c ≠ backslash)
    (later : unescape src (pos + 1) stop = .ok rest) : unescape src pos stop = .ok (c :: rest) := by
  rw [unescape, if_pos inside, (char_here src pos c).mpr here]
  change (if c = backslash ∧ pos + 1 < stop then _ else unescape src (pos + 1) stop >>= _) = _
  rw [if_neg (fun both => noEscape both.1), later]
  rfl

theorem unescape_escaped (pos stop : Nat) (c : UInt8) (rest : Text) (inside : pos + 1 < stop)
    (mark : src[pos]? = some backslash) (here : src[pos + 1]? = some c)
    (later : unescape src (pos + 2) stop = .ok rest) :
    unescape src pos stop = .ok (decodeEscape c :: rest) := by
  rw [unescape, if_pos (by omega), (char_here src pos backslash).mpr mark]
  change (if backslash = backslash ∧ pos + 1 < stop then charAt src (pos + 1) >>= _ else _) = _
  rw [if_pos ⟨rfl, inside⟩, (char_here src (pos + 1) c).mpr here]
  change (unescape src (pos + 2) stop >>= _) = _
  rw [later]
  rfl

theorem unescape_parts (parts : List Part) (pos stop : Nat)
    (here : Here src pos (parts.flatMap Part.text))
    (last : pos + (parts.flatMap Part.text).length = stop) :
    unescape src pos stop = .ok (parts.map Part.denotes) := by
  induction parts generalizing pos with
  | nil =>
      have ended : pos = stop := last
      rw [unescape, if_neg (by omega)]
      rfl
  | cons part rest ih =>
      rw [List.flatMap_cons, here_append] at here
      rw [List.flatMap_cons, List.length_append] at last
      obtain ⟨first, others⟩ := here
      have later := ih _ others (by omega)
      -- The five escapes differ in their second char and in what it decodes to only.
      have escape : ∀ c, part.text = [backslash, c] → decodeEscape c = part.denotes →
          unescape src pos stop = .ok ((part :: rest).map Part.denotes) := by
        intro c spelled decoded
        rw [spelled] at first later last
        simp only [here_cons] at first
        simp only [List.length_cons, List.length_nil] at last
        rw [List.map_cons, ← decoded]
        exact unescape_escaped src pos stop c _ (by omega) first.1 first.2.1 later
      cases part with
      | plain c =>
          simp only [Part.text, List.length_cons, List.length_nil] at last
          exact unescape_plain src pos stop c.char _ (by omega)
            ((here_cons src pos c.char []).mp first).1 c.noEscape later
      | quote => exact escape 34 rfl rfl
      | slash => exact escape 47 rfl rfl
      | lineFeed => exact escape 110 rfl rfl
      | carriageReturn => exact escape 114 rfl rfl
      | tab => exact escape 116 rfl rfl

end Strings

section Documents

theorem plain_scanned : Scanned plainWords where
  key := key_body
  content := parts_body
  number token := by
    refine ⟨token.sign, decimal token.magnitude, [], [], ⟨?_, decimal_digits _, decimal_some _,
      .inl rfl, .inl rfl⟩, ?_⟩
    · unfold Integer.sign
      cases token.negative with
      | true => exact .inr rfl
      | false => exact .inl rfl
    · simp only [List.append_nil]
      rfl

/-- No string of these documents ends in a backslash, so every bracket is matched. -/
theorem plain_matched (doc : Doc plainWords) : Matched doc :=
  whole_matched plain_scanned doc
    (doc_pieces_hold (whole_of_last key_last parts_last) plain_scanned doc)

/-- The number of a node, zero for the other kinds. -/
def integer : Doc plainWords → Int
  | .number token => Integer.value token
  | _ => 0

def string : Doc plainWords → Text
  | .string parts => List.map Part.denotes parts
  | _ => []

/-- What the accessors of a value give for a node. `asInt` clamps the numbers
above its range, `asUint` takes the negative ones modulo `2^64`. -/
structure Shows (src : Cells) (value : JsonValue) (doc : Doc plainWords) : Prop where
  type : value._type = doc.kind
  asBool : value.asBool = doc.flag
  asInt : value.asInt src = .ok (max (-2 ^ 63) (min (2 ^ 63 - 1) (integer doc)))
  asUint : value.asUint src = .ok (integer doc % 2 ^ 64).toNat
  exactInt : -2 ^ 63 ≤ integer doc → integer doc < 2 ^ 63 → value.asInt src = .ok (integer doc)
  exactUint : 0 ≤ integer doc → integer doc < 2 ^ 64 →
    value.asUint src = .ok (integer doc).toNat
  asString : value.asString src = .ok (string doc)
  arraySize : ∃ fuel, arraySize src value fuel = some (.ok doc.values.length)
  raw : value.raw src = .ok doc.text
  hasKey : ∀ key, hasKey src value key = .ok (doc.child (.key key)).isSome

variable (src : Cells)

/-- A located number with the delimiter behind it, as the C functions see it. -/
theorem number_here (token : Integer) (pos : Nat) (here : Here src pos token.text)
    (followed : Followed src (pos + token.text.length)) :
    ∃ next rest, src.drop pos = token.text ++ next :: rest ∧ isDigit next = false := by
  obtain ⟨next, there, delimits⟩ := followed
  obtain ⟨rest, same⟩ := here_before src token.text pos next here there
  exact ⟨next, rest, same, (delimiter_stops next delimits).1⟩

theorem as_int_here (doc : Doc plainWords) (pos : Nat) (located : Located src pos doc) :
    (doc.valueAt pos).asInt src = .ok (max (-2 ^ 63) (min (2 ^ 63 - 1) (integer doc))) := by
  cases doc with
  | number token =>
      obtain ⟨next, rest, same, stops⟩ := number_here src token pos located.here located.followed
      rw [JsonValue.asInt, if_neg (place_read (.number token) pos .number rfl)]
      change strtoll (src.drop pos) = _
      rw [same]
      exact strtoll_integer token next rest stops
  | _ => rfl

/-- `asUint` of any number value that starts on the token. -/
theorem uint_read (token : Integer) (value : JsonValue) (kind : value._type = .number)
    (set : value._src = true) (here : Here src value._start token.text)
    (followed : Followed src (value._start + token.text.length)) :
    value.asUint src = .ok (token.value % 2 ^ 64).toNat := by
  obtain ⟨next, rest, same, stops⟩ := number_here src token value._start here followed
  rw [JsonValue.asUint, if_neg (by simp [kind, set]), same]
  exact strtoull_integer token next rest stops

theorem as_uint_here (doc : Doc plainWords) (pos : Nat) (located : Located src pos doc) :
    (doc.valueAt pos).asUint src = .ok (integer doc % 2 ^ 64).toNat := by
  cases doc with
  | number token => exact uint_read src token _ rfl rfl located.here located.followed
  | _ => rfl

/-- `asString` of any string value whose quotes enclose the parts. -/
theorem string_read (parts : List Part) (value : JsonValue) (kind : value._type = .string)
    (set : value._src = true) (here : Here src value._start (quoted (parts.flatMap Part.text)))
    (ends : value._end = value._start + (quoted (parts.flatMap Part.text)).length) :
    value.asString src = .ok (parts.map Part.denotes) := by
  obtain ⟨-, rest⟩ := (here_cons src _ _ _).mp here
  have body := ((here_append src _ _ _).mp rest).1
  -- The end of the value is one past the closing quote.
  have last : value._end - 1 = value._start + 1 + (parts.flatMap Part.text).length := by
    rw [ends]
    simp only [quoted, List.length_cons, List.length_append, List.length_nil]
    omega
  rw [JsonValue.asString, if_neg (by simp [kind, set])]
  change (if value._end - 1 < value._start + 1 then _
    else unescape src (value._start + 1) (value._end - 1)) = _
  rw [last, if_neg (by omega)]
  exact unescape_parts src parts _ _ body rfl

theorem as_string_here (doc : Doc plainWords) (pos : Nat) (located : Located src pos doc) :
    (doc.valueAt pos).asString src = .ok (string doc) := by
  cases doc with
  | string parts => exact string_read src parts _ rfl rfl located.here rfl
  | _ => rfl

theorem located_shows (doc : Doc plainWords) (pos : Nat) (located : Located src pos doc) :
    Shows src (doc.valueAt pos) doc where
  type := rfl
  asBool := rfl
  asInt := as_int_here src doc pos located
  asUint := as_uint_here src doc pos located
  exactInt low high := by
    rw [as_int_here src doc pos located, min_eq_right (by omega), max_eq_right low]
  exactUint low high := by
    rw [as_uint_here src doc pos located, Int.emod_eq_of_lt low high]
  asString := as_string_here src doc pos located
  arraySize := array_size_here src plain_scanned doc pos located fun node _ => plain_matched node
  raw := raw_here src plain_scanned doc pos located
  hasKey key := has_key_here src plain_scanned doc pos located key fun node _ => plain_matched node

/-- What a path leads to: the default null where the tree has nothing. -/
def Agrees (found : JsonValue) : Option (Doc plainWords) → Prop
  | some node => Shows src found node
  | none => found = .absent

/-- Navigation from the parsed root agrees with the tree at every path. -/
theorem navigation_agrees (document : Document plainWords) (path : List Access) :
    ∃ root found, parse (cStr document.text) document.text.length = .ok root ∧
      walk (cStr document.text) root path = .ok found ∧
      Agrees (cStr document.text) found (document.root.follow path) := by
  obtain ⟨-, located⟩ := document_here document
  obtain ⟨found, walked, finds⟩ := walk_finds (cStr document.text) plain_scanned path document.root _
    located fun node _ => plain_matched node
  refine ⟨_, found, document_parsed plain_scanned document (plain_matched document.root), walked, ?_⟩
  cases node : document.root.follow path with
  | none =>
      rw [node] at finds
      exact finds
  | some node' =>
      rw [node] at finds
      obtain ⟨pos, rfl, there⟩ := finds
      exact located_shows _ node' pos there

end Documents

end SolanaSdk.JsonDocuments
