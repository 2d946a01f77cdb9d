import SolanaSdk.JsonTexts

/-!
The two decoders of string literals. `asString` reads between the ends that the
parser recorded, `parseStringContent` up to the closing quote; the first lacks
two of the escapes of the second, and neither takes a `\u` escape apart.
-/

namespace SolanaSdk.StringDecoding

open ByteData JsonText JsonScanners JsonGrammar JsonScanning JsonPlaces JsonNavigation
open JsonDocuments JsonTexts Segments

section Decoder

def contentEscape (c : UInt8) : UInt8 :=
  if c = 110 then 10 else if c = 114 then 13 else if c = 116 then 9
  else if c = 98 then 8 else if c = 102 then 12 else c

/-- The loop of `parseStringContent`: the chars that it appends and where it stops. -/
def contentLoop (src : Cells) (pos len : Nat) : Except Fault (Text × Nat) :=
  if pos < len then do
    let c ← charAt src pos
    if c = quote then return ([], pos)
    else if c = backslash ∧ pos + 1 < len then
      let escaped ← charAt src (pos + 1)
      let (rest, stop) ← contentLoop src (pos + 2) len
      return (contentEscape escaped :: rest, stop)
    else
      let (rest, stop) ← contentLoop src (pos + 1) len
      return (c :: rest, stop)
  else return ([], pos)
termination_by len - pos

/-- The result and the position behind the closing quote. -/
def parseStringContent (src : Cells) (pos len : Nat) : Except Fault (Text × Nat) := do
  let (result, pos) ← contentLoop src pos len
  return (result, if pos < len then pos + 1 else pos)

end Decoder

section Meaning

def hexValue (digit : HexDigit) : Nat :=
  if isDigit digit.char then digit.char.toNat - 48
  else if digit.char ≤ 70 then digit.char.toNat - 55
  else digit.char.toNat - 87

/-- The UTF-16 unit of a `\u` escape. -/
def codeUnit (first second third fourth : HexDigit) : Nat :=
  ((hexValue first * 16 + hexValue second) * 16 + hexValue third) * 16 + hexValue fourth

/-- The UTF-8 form of a code point, which no surrogate has. -/
def utf8 (point : Nat) : Option Text :=
  if point.isValidChar then some (String.utf8EncodeChar (Char.ofNat point)) else none

/-- The byte that a letter stands for, other than by its code point. -/
def fixedByte : Letter → Option UInt8
  | .plain c => some c.char
  | .quote => some 34
  | .backslash => some 92
  | .slash => some 47
  | .backspace => some 8
  | .formFeed => some 12
  | .lineFeed => some 10
  | .carriageReturn => some 13
  | .tab => some 9
  | .unicode _ _ _ _ => none

/-- The string that a literal denotes. A high surrogate and the low one behind it
are one char; a literal with a surrogate on its own denotes no string. -/
def denoted : List Letter → Option Text
  | [] => some []
  | .unicode a b c d :: .unicode e f g h :: rest =>
      let high := codeUnit a b c d
      let low := codeUnit e f g h
      if 0xD800 ≤ high ∧ high < 0xDC00 ∧ 0xDC00 ≤ low ∧ low < 0xE000 then do
        let front ← utf8 (0x10000 + (high - 0xD800) * 0x400 + (low - 0xDC00))
        let back ← denoted rest
        return front ++ back
      else do
        let front ← utf8 high
        let back ← denoted (.unicode e f g h :: rest)
        return front ++ back
  | .unicode a b c d :: rest => do
      let front ← utf8 (codeUnit a b c d)
      let back ← denoted rest
      return front ++ back
  | letter :: rest => do
      let byte ← fixedByte letter
      let back ← denoted rest
      return byte :: back

def isUnicode (letter : Letter) : Bool := (fixedByte letter).isNone

/-- The letters that `asString` decodes as JSON has them. -/
def Decoded : Letter → Prop
  | .backspace | .formFeed | .unicode _ _ _ _ => False
  | _ => True

def literal (letters : List Letter) : Text := quoted (lettersText letters)

/-- Parsing the literal and `asString` give the string that it denotes, and so
does the second decoder if the literal has no `\u` escape. -/
def Decodes (letters : List Letter) : Prop :=
  ∃ value text, parse (cStr (literal letters)) (literal letters).length = .ok value ∧
    value.asString (cStr (literal letters)) = .ok text ∧ denoted letters = some text ∧
    ((∀ letter ∈ letters, isUnicode letter = false) →
      ∃ pos, parseStringContent (cStr (literal letters)) 1 (literal letters).length =
        .ok (text, pos))

end Meaning

section Bodies
variable (decode : UInt8 → UInt8)

/-- What a decoder makes of a string body, given what it makes of the char behind a backslash. -/
def decodeBody : Text → Text
  | [] => []
  | [c] => [c]
  | c :: d :: rest =>
      if c = backslash then decode d :: decodeBody rest else c :: decodeBody (d :: rest)

theorem decode_body_plain (c : UInt8) (rest : Text) (noEscape : c ≠ backslash) :
    decodeBody decode (c :: rest) = c :: decodeBody decode rest := by
  cases rest with
  | nil => rfl
  | cons d later => rw [decodeBody, if_neg noEscape]

theorem decode_body_escaped (d : UInt8) (rest : Text) :
    decodeBody decode (backslash :: d :: rest) = decode d :: decodeBody decode rest := by
  rw [decodeBody, if_pos rfl]

variable (src : Cells)

theorem unescape_body (body : Text) (proper : StringBody body) (pos stop : Nat)
    (here : Here src pos body) (last : pos + body.length = stop) :
    unescape src pos stop = .ok (decodeBody decodeEscape body) := by
  induction proper generalizing pos with
  | nil =>
      rw [List.length_nil, Nat.add_zero] at last
      rw [unescape, if_neg (by omega)]
      rfl
  | plain c rest noQuote noEscape proper ih =>
      obtain ⟨first, others⟩ := (here_cons src pos c rest).mp here
      rw [List.length_cons] at last
      rw [decode_body_plain _ c rest noEscape]
      exact unescape_plain src pos stop c _ (by omega) first noEscape (ih _ others (by omega))
  | escaped c rest proper ih =>
      obtain ⟨mark, others⟩ := (here_cons src pos backslash _).mp here
      obtain ⟨first, later⟩ := (here_cons src _ c rest).mp others
      rw [List.length_cons, List.length_cons] at last
      rw [decode_body_escaped]
      exact unescape_escaped src pos stop c _ (by omega) mark first (ih _ later (by omega))

theorem content_body (body : Text) (proper : StringBody body) (pos len : Nat)
    (here : Here src pos (body ++ [quote])) (inside : pos + body.length < len) :
    contentLoop src pos len = .ok (decodeBody contentEscape body, pos + body.length) := by
  induction proper generalizing pos with
  | nil =>
      have first := ((here_cons src pos quote []).mp here).1
      rw [List.length_nil, Nat.add_zero] at inside
      rw [contentLoop, if_pos inside, (char_here src pos quote).mpr first]
      rfl
  | plain c rest noQuote noEscape proper ih =>
      obtain ⟨first, others⟩ := (here_cons src pos c _).mp here
      rw [List.length_cons] at inside ⊢
      have later := ih _ others (by omega)
      rw [decode_body_plain _ c rest noEscape, contentLoop, if_pos (by omega),
        (char_here src pos c).mpr first]
      change (if c = quote then _ else if c = backslash ∧ pos + 1 < len then _
        else contentLoop src (pos + 1) len >>= _) = _
      rw [if_neg noQuote, if_neg (fun both => noEscape both.1), later]
      change Except.ok _ = Except.ok _
      rw [Nat.add_assoc, Nat.add_comm 1]
  | escaped c rest proper ih =>
      obtain ⟨mark, others⟩ := (here_cons src pos backslash _).mp here
      obtain ⟨first, behind⟩ := (here_cons src _ c _).mp others
      rw [List.length_cons, List.length_cons] at inside ⊢
      have later := ih _ behind (by omega)
      rw [decode_body_escaped, contentLoop, if_pos (by omega),
        (char_here src pos backslash).mpr mark]
      change (if backslash = quote then return ([], pos)
        else if backslash = backslash ∧ pos + 1 < len then charAt src (pos + 1) >>= _ else _) = _
      rw [if_neg (by decide), if_pos ⟨rfl, by omega⟩, (char_here src (pos + 1) c).mpr first]
      change (contentLoop src (pos + 1 + 1) len >>= _) = _
      have ends : pos + 1 + 1 + rest.length = pos + (rest.length + 1 + 1) := by omega
      rw [later, ends]
      rfl

/-- `asString` of any string value whose quotes enclose the body. -/
theorem string_body_read (body : Text) (proper : StringBody body) (value : JsonValue)
    (kind : value._type = .string) (set : value._src = true)
    (here : Here src value._start (quoted body))
    (ends : value._end = value._start + (quoted body).length) :
    value.asString src = .ok (decodeBody decodeEscape body) := by
  obtain ⟨-, rest⟩ := (here_cons src _ _ _).mp here
  have inner := ((here_append src _ _ _).mp rest).1
  have last : value._end - 1 = value._start + 1 + body.length := by
    rw [ends]
    simp only [quoted, List.length_cons, List.length_append, List.length_nil]
    omega
  rw [JsonValue.asString, if_neg (by simp [kind, set])]
  change (if value._end - 1 < value._start + 1 then _
    else unescape src (value._start + 1) (value._end - 1)) = _
  rw [last, if_neg (by omega)]
  exact unescape_body src body proper _ _ inner rfl

end Bodies

section Letters
variable (decode : UInt8 → UInt8)

theorem decode_body_hex (digit : HexDigit) (rest : Text) :
    decodeBody decode (digit.char :: rest) = digit.char :: decodeBody decode rest :=
  decode_body_plain decode digit.char rest (hex_apart digit).2

theorem decode_body_letter (letter : Letter) (rest : Text) :
    decodeBody decode (letter.text ++ rest) =
      decodeBody decode letter.text ++ decodeBody decode rest := by
  cases letter with
  | plain c => exact decode_body_plain decode c.char rest c.noEscape
  | unicode first second third fourth =>
      simp only [Letter.text, List.cons_append, List.nil_append, decode_body_escaped,
        decode_body_hex]
      rfl
  | _ => exact decode_body_escaped decode _ rest

theorem decode_letters (letters : List Letter) :
    decodeBody decode (lettersText letters) =
      letters.flatMap fun letter => decodeBody decode letter.text := by
  induction letters with
  | nil => rfl
  | cons letter rest ih =>
      change decodeBody decode (letter.text ++ lettersText rest) = _
      rw [decode_body_letter, ih, List.flatMap_cons]

/-- A decoder leaves one char of a fixed letter, and five of a `\u` escape. -/
theorem decoded_length (letter : Letter) :
    (decodeBody decode letter.text).length = if isUnicode letter then 5 else 1 := by
  cases letter with
  | unicode first second third fourth =>
      simp only [Letter.text, decode_body_escaped, decode_body_hex]
      rfl
  | _ => rfl

theorem content_fixed (letter : Letter) (byte : UInt8) (fixed : fixedByte letter = some byte) :
    decodeBody contentEscape letter.text = [byte] := by
  cases letter with
  | unicode => cases fixed
  | _ =>
      cases fixed
      rfl

theorem escape_decoded (letter : Letter) (decoded : Decoded letter) :
    decodeBody decodeEscape letter.text = decodeBody contentEscape letter.text := by
  cases letter with
  | backspace | formFeed | unicode => exact decoded.elim
  | _ => rfl

/-- The two escapes that only the second decoder has. -/
theorem escape_apart (letter : Letter) (fixed : isUnicode letter = false)
    (same : decodeBody decodeEscape letter.text = decodeBody contentEscape letter.text) :
    Decoded letter := by
  cases letter with
  | backspace => exact absurd same (by decide)
  | formFeed => exact absurd same (by decide)
  | unicode => cases fixed
  | _ => trivial

theorem letters_agree (letters : List Letter)
    (fixed : ∀ letter ∈ letters, isUnicode letter = false)
    (same : decodeBody decodeEscape (lettersText letters) =
      decodeBody contentEscape (lettersText letters)) :
    ∀ letter ∈ letters, Decoded letter := by
  induction letters with
  | nil => exact List.forall_mem_nil _
  | cons letter rest ih =>
      have here := fixed letter List.mem_cons_self
      have later : ∀ letter ∈ rest, isUnicode letter = false :=
        fun letter member => fixed letter (List.mem_cons_of_mem _ member)
      change decodeBody _ (letter.text ++ lettersText rest) =
        decodeBody _ (letter.text ++ lettersText rest) at same
      rw [decode_body_letter, decode_body_letter] at same
      -- Both decoders make one char of a fixed letter, so the two texts agree part by part.
      obtain ⟨first, others⟩ := List.append_inj same (by rw [decoded_length, decoded_length])
      exact List.forall_mem_cons.mpr ⟨escape_apart letter here first, ih later others⟩

end Letters

section Denotations

/-- Without `\u` escapes the second decoder gives what the literal denotes. -/
theorem denoted_content (letters : List Letter)
    (fixed : ∀ letter ∈ letters, isUnicode letter = false) :
    denoted letters = some (decodeBody contentEscape (lettersText letters)) := by
  induction letters with
  | nil => rfl
  | cons letter rest ih =>
      have tail := ih fun later member => fixed later (List.mem_cons_of_mem _ member)
      have here := fixed letter List.mem_cons_self
      obtain ⟨byte, stands⟩ : ∃ byte, fixedByte letter = some byte :=
        Option.isSome_iff_exists.mp (by simpa [isUnicode] using here)
      have content : decodeBody contentEscape (lettersText (letter :: rest)) =
          byte :: decodeBody contentEscape (lettersText rest) := by
        change decodeBody contentEscape (letter.text ++ lettersText rest) = _
        rw [decode_body_letter, content_fixed letter byte stands]
        rfl
      rw [content]
      cases letter with
      | unicode => cases stands
      | _ =>
          cases stands
          rw [denoted, tail]
          · rfl
          all_goals simp

theorem utf8_length (point : Nat) (text : Text) (encoded : utf8 point = some text) :
    text.length ≤ 4 := by
  unfold utf8 at encoded
  split at encoded
  · cases encoded
    rw [String.length_utf8EncodeChar]
    exact Char.utf8Size_le_four _
  · cases encoded

theorem letters_length (decode : UInt8 → UInt8) (letter : Letter) (rest : List Letter) :
    (decodeBody decode (lettersText (letter :: rest))).length =
      (if isUnicode letter then 5 else 1) + (decodeBody decode (lettersText rest)).length := by
  change (decodeBody decode (letter.text ++ lettersText rest)).length = _
  rw [decode_body_letter, List.length_append, decoded_length]

/-- A `\u` escape denotes fewer bytes than any decoder leaves of it. -/
theorem denoted_shorter (decode : UInt8 → UInt8) (letters : List Letter) (text : Text)
    (denotes : denoted letters = some text) :
    text.length + letters.countP isUnicode ≤ (decodeBody decode (lettersText letters)).length := by
  have five : ∀ a b c d (rest : List Letter),
      (decodeBody decode (lettersText (.unicode a b c d :: rest))).length =
        5 + (decodeBody decode (lettersText rest)).length :=
    fun a b c d rest => letters_length decode (.unicode a b c d) rest
  have counted : ∀ a b c d (rest : List Letter),
      List.countP isUnicode (.unicode a b c d :: rest) = rest.countP isUnicode + 1 :=
    fun a b c d rest => List.countP_cons_of_pos rfl
  induction letters using denoted.induct generalizing text with
  | case1 =>
      cases denotes
      exact Nat.le_refl 0
  | case2 a b c d e f g h rest high low pair ih =>
      rw [denoted, if_pos pair] at denotes
      obtain ⟨front, encoded, denotes⟩ := Option.bind_eq_some_iff.mp denotes
      obtain ⟨back, tail, denotes⟩ := Option.bind_eq_some_iff.mp denotes
      cases denotes
      have short := utf8_length _ front encoded
      have behind := ih back tail
      rw [five, five, counted, counted, List.length_append]
      omega
  | case3 a b c d e f g h rest high low apart ih =>
      rw [denoted, if_neg apart] at denotes
      obtain ⟨front, encoded, denotes⟩ := Option.bind_eq_some_iff.mp denotes
      obtain ⟨back, tail, denotes⟩ := Option.bind_eq_some_iff.mp denotes
      cases denotes
      have short := utf8_length _ front encoded
      have behind := ih back tail
      rw [five, counted, List.length_append]
      omega
  | case4 a b c d rest single ih =>
      rw [denoted] at denotes
      · obtain ⟨front, encoded, denotes⟩ := Option.bind_eq_some_iff.mp denotes
        obtain ⟨back, tail, denotes⟩ := Option.bind_eq_some_iff.mp denotes
        cases denotes
        have short := utf8_length _ front encoded
        have behind := ih back tail
        rw [five, counted, List.length_append]
        omega
      · exact single
  | case5 letter rest notPair notSingle ih =>
      rw [denoted] at denotes
      · obtain ⟨byte, stands, denotes⟩ := Option.bind_eq_some_iff.mp denotes
        obtain ⟨back, tail, denotes⟩ := Option.bind_eq_some_iff.mp denotes
        cases denotes
        have fixed : isUnicode letter = false := by simp [isUnicode, stands]
        have behind := ih back tail
        rw [letters_length, fixed, List.countP_cons_of_neg (by simp [fixed]), List.length_cons,
          if_neg (by decide)]
        omega
      · exact notPair
      · exact notSingle

end Denotations

section Literals

/-- What the two decoders give for any literal. -/
theorem literal_read (letters : List Letter) :
    ∃ value, parse (cStr (literal letters)) (literal letters).length = .ok value ∧
      value.asString (cStr (literal letters)) =
        .ok (decodeBody decodeEscape (lettersText letters)) ∧
      parseStringContent (cStr (literal letters)) 1 (literal letters).length =
        .ok (decodeBody contentEscape (lettersText letters), (literal letters).length) := by
  have spelled : (compact (.string letters : Doc jsonWords)).text = literal letters :=
    List.append_nil _
  have parsed := document_parsed json_scanned (compact (.string letters)) trivial
  have length : (literal letters).length = (lettersText letters).length + 2 := by
    simp [literal, quoted]
  have here : Here (cStr (literal letters)) 0
      (quote :: (lettersText letters ++ [quote])) := List.prefix_append _ _
  have body := ((here_cons _ _ _ _).mp here).2
  rw [spelled] at parsed
  refine ⟨_, parsed, ?_, ?_⟩
  · exact string_body_read _ _ (letters_body letters) _ rfl rfl here rfl
  · have content := content_body _ _ (letters_body letters) _ (literal letters).length body
      (by omega)
    rw [parseStringContent, content]
    change Except.ok (_, if 1 + (lettersText letters).length < _ then _ else _) = _
    rw [if_pos (by omega), length]
    congr 2
    omega

/-- Exactly the literals without `\b`, `\f` and `\u` escapes are decoded as JSON has them. -/
theorem decodes_iff (letters : List Letter) :
    Decodes letters ↔ ∀ letter ∈ letters, Decoded letter := by
  obtain ⟨value, parsed, read, content⟩ := literal_read letters
  constructor
  · rintro ⟨same, text, again, shown, denotes, -⟩
    cases parsed.symm.trans again
    cases read.symm.trans shown
    have shorter := denoted_shorter decodeEscape letters _ denotes
    -- A `\u` escape would have made the text shorter than what was read.
    have none : letters.countP isUnicode = 0 := by omega
    have fixed : ∀ letter ∈ letters, isUnicode letter = false := by
      intro letter member
      exact Bool.eq_false_iff.mpr (List.countP_eq_zero.mp none letter member)
    have equal := Option.some.inj (denotes.symm.trans (denoted_content letters fixed))
    exact letters_agree letters fixed equal
  · intro decoded
    have fixed : ∀ letter ∈ letters, isUnicode letter = false := by
      intro letter member
      have plain := decoded letter member
      cases letter with
      | unicode => exact plain.elim
      | _ => rfl
    have equal : decodeBody decodeEscape (lettersText letters) =
        decodeBody contentEscape (lettersText letters) := by
      rw [decode_letters, decode_letters]
      exact List.flatMap_congr fun letter member => escape_decoded letter (decoded letter member)
    rw [equal] at read
    exact ⟨value, _, parsed, read, denoted_content letters fixed, fun _ => ⟨_, content⟩⟩

theorem backspace_not_decoded : ¬ ∀ letters, Decodes letters := by
  intro every
  obtain ⟨value, text, parsed, read, denotes, -⟩ := every [.backspace]
  obtain ⟨same, again, shown, -⟩ := literal_read [.backspace]
  cases parsed.symm.trans again
  cases denotes
  exact absurd (read.symm.trans shown) (by decide)

end Literals
end SolanaSdk.StringDecoding
