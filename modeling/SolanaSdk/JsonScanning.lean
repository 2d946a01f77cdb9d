import SolanaSdk.JsonGrammar

/-!
The scanners on well-formed text. A string body ends where the escape-skipping
scan thinks it does, whatever its escapes are, and a number ends at the char that
delimits it.
-/

namespace SolanaSdk.JsonScanning

open ByteData JsonText JsonScanners JsonTokens JsonGrammar Segments

/-- What may follow a value: a space, a comma, a closing bracket or the terminator. -/
def Delimiter (c : UInt8) : Prop :=
  isBlank c = true ∨ c = comma ∨ c = closeBracket ∨ c = closeBrace ∨ c = 0

inductive StringBody : Text → Prop where
  | nil : StringBody []
  | plain (c : UInt8) (rest : Text) (noQuote : c ≠ quote) (noEscape : c ≠ backslash)
      (body : StringBody rest) : StringBody (c :: rest)
  | escaped (c : UInt8) (rest : Text) (body : StringBody rest) :
      StringBody (backslash :: c :: rest)

def Digits (digits : Text) : Prop := ∀ c ∈ digits, isDigit c = true

/-- `fraction` and `exponent` are empty or start with their marks. -/
structure NumberText (sign whole fraction exponent : Text) : Prop where
  signed : sign = [] ∨ sign = [minus]
  digits : Digits whole
  some : whole ≠ []
  fraction : fraction = [] ∨ ∃ digits, Digits digits ∧ fraction = point :: digits
  exponent : exponent = [] ∨ ∃ mark sign digits, (mark = 101 ∨ mark = 69) ∧
    (sign = [] ∨ sign = [plus] ∨ sign = [minus]) ∧ Digits digits ∧
    exponent = mark :: (sign ++ digits)

theorem blank_cases (c : UInt8) (blank : isBlank c = true) : c = 32 ∨ c = 9 ∨ c = 10 ∨ c = 13 := by
  simpa [isBlank, or_assoc] using blank

theorem digit_bounds (c : UInt8) (digit : isDigit c = true) : 48 ≤ c.toNat ∧ c.toNat ≤ 57 := by
  simpa [isDigit, UInt8.le_iff_toNat_le] using digit

theorem delimiter_cases (c : UInt8) (delimits : Delimiter c) :
    c = 32 ∨ c = 9 ∨ c = 10 ∨ c = 13 ∨ c = 44 ∨ c = 93 ∨ c = 125 ∨ c = 0 := by
  rcases delimits with blank | same | same | same | same
  · rcases blank_cases c blank with same | same | same | same <;> simp [same]
  all_goals simp [same]

/-- A delimiter continues no number. -/
theorem delimiter_stops (c : UInt8) (delimits : Delimiter c) :
    isDigit c = false ∧ (c == point) = false ∧ (c == 101 || c == 69) = false := by
  rcases delimiter_cases c delimits with rfl | rfl | rfl | rfl | rfl | rfl | rfl | rfl <;> decide

section Segments
variable (src : Cells)

/-- A delimiter can be read at `pos`. -/
def Followed (pos : Nat) : Prop := ∃ c, src[pos]? = some c ∧ Delimiter c

theorem followed_space (pos : Nat) (space : Space) (here : Here src pos space.chars)
    (followed : Followed src (pos + space.chars.length)) : Followed src pos := by
  obtain ⟨chars, blank⟩ := space
  cases chars with
  | nil => exact followed
  | cons c rest =>
      exact ⟨c, ((here_cons src pos c rest).mp here).1, .inl (blank c List.mem_cons_self)⟩

theorem skip_while_stop (keep : UInt8 → Bool) (pos len : Nat) (c : UInt8)
    (here : src[pos]? = some c) (refused : keep c = false) :
    skipWhile src keep pos len = .ok pos := by
  by_cases inside : pos < len
  · rw [skip_while_step src keep pos len c inside here, refused]
    rfl
  · exact skip_while_past src keep pos len (Nat.not_lt.mp inside)

theorem skip_while_segment (keep : UInt8 → Bool) (segment : Text) (pos len : Nat)
    (kept : ∀ c ∈ segment, keep c = true) (here : Here src pos segment)
    (fits : pos + segment.length ≤ len) :
    skipWhile src keep pos len = skipWhile src keep (pos + segment.length) len := by
  induction segment generalizing pos with
  | nil => rfl
  | cons c rest ih =>
      obtain ⟨head, tail⟩ := (here_cons src pos c rest).mp here
      rw [List.length_cons] at fits
      rw [skip_while_step src keep pos len c (by omega) head,
        if_pos (kept c List.mem_cons_self),
        ih (pos + 1) (fun c member => kept c (List.mem_cons_of_mem _ member)) tail (by omega),
        List.length_cons, Nat.add_assoc, Nat.add_comm 1]

theorem skip_space (space : Space) (pos len : Nat) (here : Here src pos space.chars)
    (fits : pos + space.chars.length ≤ len)
    (stops : len ≤ pos + space.chars.length ∨
      ∃ c, src[pos + space.chars.length]? = some c ∧ isBlank c = false) :
    skipWhitespace src pos len = .ok (pos + space.chars.length) := by
  rw [skipWhitespace, skip_while_segment src isBlank space.chars pos len space.blank here fits]
  rcases stops with past | ⟨c, there, refused⟩
  · exact skip_while_past src isBlank _ len past
  · exact skip_while_stop src isBlank _ len c there refused

theorem looks_at_refused (accepts : UInt8 → Bool) (pos len : Nat) (c : UInt8)
    (here : src[pos]? = some c) (refused : accepts c = false) :
    looksAt src accepts pos len = .ok false := by
  by_cases inside : pos < len
  · rw [looks_at_here src accepts pos len c inside here, refused]
  · exact looks_at_past src accepts pos len (Nat.not_lt.mp inside)

theorem skip_one_here (accepts : UInt8 → Bool) (pos len : Nat) (c : UInt8) (inside : pos < len)
    (here : src[pos]? = some c) (accepted : accepts c = true) :
    skipOne src accepts pos len = .ok (pos + 1) := by
  rw [skipOne, looks_at_here src accepts pos len c inside here, accepted]
  rfl

/-- A part that may be missing is skipped where it stands; the char after it is not skipped. -/
theorem skip_one_part (accepts : UInt8 → Bool) (part : Text) (pos len : Nat) (next : UInt8)
    (shape : part = [] ∨ ∃ c, accepts c = true ∧ part = [c]) (here : Here src pos part)
    (fits : pos + part.length ≤ len) (there : src[pos + part.length]? = some next)
    (refused : accepts next = false) :
    skipOne src accepts pos len = .ok (pos + part.length) := by
  rcases shape with rfl | ⟨c, accepted, rfl⟩
  · rw [skipOne, looks_at_refused src accepts pos len next there refused]
    rfl
  · exact skip_one_here src accepts pos len c fits ((here_cons src pos c []).mp here).1 accepted

theorem scan_string_body (body : Text) (strings : StringBody body) (pos len : Nat)
    (here : Here src pos (body ++ [quote])) (fits : pos + body.length < len) :
    scanString src pos len = .ok (pos + body.length) := by
  induction strings generalizing pos with
  | nil =>
      rw [scan_string_step src pos len quote fits ((here_cons src pos quote []).mp here).1]
      rfl
  | plain c rest noQuote noEscape strings ih =>
      obtain ⟨head, tail⟩ := (here_cons src pos c _).mp here
      rw [List.length_cons] at fits ⊢
      rw [scan_string_step src pos len c (by omega) head, if_neg noQuote, if_neg noEscape,
        ih (pos + 1) tail (by omega), Nat.add_assoc, Nat.add_comm 1]
  | escaped c rest strings ih =>
      obtain ⟨head, tail⟩ := (here_cons src pos backslash _).mp here
      obtain ⟨-, tail⟩ := (here_cons src (pos + 1) c _).mp tail
      simp only [List.length_cons] at fits ⊢
      -- The scan takes the backslash and the char after it in one step.
      rw [scan_string_step src pos len backslash (by omega) head, if_neg (by decide),
        if_pos rfl, ih (pos + 2) tail (by omega)]
      congr 1
      omega

end Segments

section Numbers
variable (src : Cells)

theorem digits_head (digits : Text) (pos : Nat) (next : UInt8) (digital : Digits digits)
    (here : Here src pos digits) (there : src[pos + digits.length]? = some next) :
    ∃ c, src[pos]? = some c ∧ (isDigit c = true ∨ c = next) := by
  cases digits with
  | nil => exact ⟨next, there, .inr rfl⟩
  | cons c rest =>
      exact ⟨c, ((here_cons src pos c rest).mp here).1, .inl (digital c List.mem_cons_self)⟩

theorem skip_digits (digits : Text) (pos len : Nat) (next : UInt8) (digital : Digits digits)
    (here : Here src pos digits) (fits : pos + digits.length ≤ len)
    (there : src[pos + digits.length]? = some next) (stops : isDigit next = false) :
    skipWhile src isDigit pos len = .ok (pos + digits.length) := by
  rw [skip_while_segment src isDigit digits pos len digital here fits]
  exact skip_while_stop src isDigit _ len next there stops

theorem digit_no_mark (c : UInt8) (digit : isDigit c = true) :
    (c == point) = false ∧ (c == 101 || c == 69) = false ∧ (c == plus || c == minus) = false ∧
      (c == minus) = false := by
  have bounds := digit_bounds c digit
  have apart : ∀ other : UInt8, other.toNat < 48 ∨ 57 < other.toNat → (c == other) = false := by
    intro other outside
    apply beq_false_of_ne
    rintro rfl
    omega
  rw [apart 101 (by decide), apart 69 (by decide), apart point (by decide), apart plus (by decide),
    apart minus (by decide)]
  decide

theorem scan_exponent_text (exponent : Text) (pos len : Nat)
    (shape : exponent = [] ∨ ∃ mark sign digits, (mark = 101 ∨ mark = 69) ∧
      (sign = [] ∨ sign = [plus] ∨ sign = [minus]) ∧ Digits digits ∧
      exponent = mark :: (sign ++ digits))
    (here : Here src pos exponent) (followed : Followed src (pos + exponent.length))
    (fits : pos + exponent.length ≤ len) :
    scanExponent src pos len = .ok (pos + exponent.length) := by
  obtain ⟨next, there, delimits⟩ := followed
  obtain ⟨noDigit, noPoint, noMark⟩ := delimiter_stops next delimits
  rcases shape with rfl | ⟨mark, sign, digits, marks, signs, digital, rfl⟩
  · rw [scanExponent, looks_at_refused src _ pos len next there noMark]
    rfl
  obtain ⟨head, tail⟩ := (here_cons src pos mark _).mp here
  obtain ⟨signHere, digitsHere⟩ := (here_append src _ sign digits).mp tail
  simp only [List.length_cons, List.length_append] at there fits ⊢
  have last : pos + 1 + sign.length + digits.length = pos + (sign.length + digits.length + 1) := by
    omega
  rw [← last] at there fits ⊢
  have marked : (mark == 101 || mark == 69) = true := by
    rcases marks with rfl | rfl <;> rfl
  -- The char behind the sign is a digit or the delimiter.
  obtain ⟨c, behind, either⟩ := digits_head src digits _ next digital digitsHere there
  have unsigned : (c == plus || c == minus) = false := by
    rcases either with digit | rfl
    · exact (digit_no_mark c digit).2.2.1
    · rcases delimiter_cases c delimits with rfl | rfl | rfl | rfl | rfl | rfl | rfl | rfl <;> rfl
  have shape : sign = [] ∨ ∃ c, (c == plus || c == minus) = true ∧ sign = [c] := by
    rcases signs with none | same | same
    · exact .inl none
    · exact .inr ⟨plus, rfl, same⟩
    · exact .inr ⟨minus, rfl, same⟩
  rw [scanExponent, looks_at_here src _ pos len mark (by omega) head, marked]
  change (skipOne src _ (pos + 1) len >>= _) = _
  rw [skip_one_part src _ sign (pos + 1) len c shape signHere (by omega) behind unsigned]
  exact skip_digits src digits _ len next digital digitsHere fits there noDigit

theorem scan_fraction_text (fraction : Text) (pos len : Nat) (next : UInt8)
    (shape : fraction = [] ∨ ∃ digits, Digits digits ∧ fraction = point :: digits)
    (here : Here src pos fraction) (fits : pos + fraction.length ≤ len)
    (there : src[pos + fraction.length]? = some next) (noDigit : isDigit next = false)
    (noPoint : (next == point) = false) :
    scanFraction src pos len = .ok (pos + fraction.length) := by
  rcases shape with rfl | ⟨digits, digital, rfl⟩
  · rw [scanFraction, looks_at_refused src _ pos len next there noPoint]
    rfl
  · obtain ⟨head, tail⟩ := (here_cons src pos point _).mp here
    rw [List.length_cons] at fits there ⊢
    rw [scanFraction, looks_at_here src _ pos len point (by omega) head]
    change skipWhile src isDigit (pos + 1) len = _
    rw [skip_digits src digits (pos + 1) len next digital tail (by omega)
      (by rw [← there]; congr 1; omega) noDigit]
    congr 1
    omega

theorem scan_number_text (sign whole fraction exponent : Text)
    (number : NumberText sign whole fraction exponent) (pos len : Nat)
    (here : Here src pos (sign ++ (whole ++ (fraction ++ exponent))))
    (followed : Followed src (pos + (sign ++ (whole ++ (fraction ++ exponent))).length))
    (fits : pos + (sign ++ (whole ++ (fraction ++ exponent))).length ≤ len) :
    scanNumber src pos len = .ok (pos + (sign ++ (whole ++ (fraction ++ exponent))).length) := by
  simp only [here_append] at here
  simp only [List.length_append, ← Nat.add_assoc] at followed fits ⊢
  obtain ⟨signHere, wholeHere, fractionHere, exponentHere⟩ := here
  obtain ⟨next, there, delimits⟩ := followed
  obtain ⟨noDigit, noPoint, noMark⟩ := delimiter_stops next delimits
  -- What stands behind the fraction, behind the whole part and behind the sign.
  have third : ∃ c, src[pos + sign.length + whole.length + fraction.length]? = some c ∧
      isDigit c = false ∧ (c == point) = false := by
    rcases number.exponent with rfl | ⟨mark, signs, digits, marks, -, -, rfl⟩
    · exact ⟨next, there, noDigit, noPoint⟩
    · refine ⟨mark, ((here_cons _ _ _ _).mp exponentHere).1, ?_⟩
      rcases marks with rfl | rfl <;> decide
  obtain ⟨c, thirdHere, thirdDigit, thirdPoint⟩ := third
  have second : ∃ c, src[pos + sign.length + whole.length]? = some c ∧ isDigit c = false := by
    rcases number.fraction with rfl | ⟨digits, -, rfl⟩
    · exact ⟨c, thirdHere, thirdDigit⟩
    · exact ⟨point, ((here_cons _ _ _ _).mp fractionHere).1, by decide⟩
  obtain ⟨d, secondHere, secondDigit⟩ := second
  have first : ∃ c, src[pos + sign.length]? = some c ∧ (c == minus) = false := by
    obtain ⟨letter, rest, spelled⟩ := List.exists_cons_of_ne_nil number.some
    have digit := number.digits letter (spelled ▸ List.mem_cons_self)
    rw [spelled, here_cons] at wholeHere
    exact ⟨letter, wholeHere.1, (digit_no_mark letter digit).2.2.2⟩
  obtain ⟨e, firstHere, firstMinus⟩ := first
  have shape : sign = [] ∨ ∃ c, (c == minus) = true ∧ sign = [c] :=
    number.signed.imp id fun same => ⟨minus, rfl, same⟩
  rw [scanNumber, skip_one_part src _ sign pos len e shape signHere (by omega) firstHere firstMinus]
  change (skipWhile src isDigit (pos + sign.length) len >>= _) = _
  rw [skip_digits src whole _ len d number.digits wholeHere (by omega) secondHere secondDigit]
  change (scanFraction src (pos + sign.length + whole.length) len >>= _) = _
  rw [scan_fraction_text src fraction _ len c number.fraction fractionHere (by omega) thirdHere
    thirdDigit thirdPoint]
  exact scan_exponent_text src exponent _ len number.exponent exponentHere ⟨next, there, delimits⟩
    fits

end Numbers

end SolanaSdk.JsonScanning
