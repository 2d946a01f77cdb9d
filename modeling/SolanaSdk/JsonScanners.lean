import SolanaSdk.JsonText
import SolanaSdk.Segments

/-!
What the scanners return, wherever they are started: where they stop, what they
saw there and how far past their limit they can get. Nothing is read outside the
text as long as the limit lies in it.
-/

namespace SolanaSdk.JsonScanners

open ByteData JsonText Segments

variable (src : Cells)

theorem char_here (pos : Nat) (c : UInt8) : charAt src pos = .ok c ↔ src[pos]? = some c := by
  unfold charAt
  cases src[pos]? with
  | none => simp
  | some here => simp

theorem char_inside (pos : Nat) (inside : pos < src.length) : ∃ c, charAt src pos = .ok c :=
  ⟨src[pos], (char_here src pos _).mpr (List.getElem?_eq_getElem inside)⟩

section Skipping

theorem skip_while_step (keep : UInt8 → Bool) (pos len : Nat) (c : UInt8) (inside : pos < len)
    (here : src[pos]? = some c) :
    skipWhile src keep pos len =
      if keep c then skipWhile src keep (pos + 1) len else .ok pos := by
  rw [skipWhile, if_pos inside, (char_here src pos c).mpr here]
  rfl

theorem skip_while_past (keep : UInt8 → Bool) (pos len : Nat) (past : len ≤ pos) :
    skipWhile src keep pos len = .ok pos := by
  rw [skipWhile, if_neg (Nat.not_lt.mpr past)]
  rfl

theorem skip_while_returned (keep : UInt8 → Bool) (pos len later : Nat)
    (returned : skipWhile src keep pos len = .ok later) :
    pos ≤ later ∧ (pos ≤ len → later ≤ len) ∧
      (later < len → ∃ c, src[later]? = some c ∧ keep c = false) := by
  induction pos using skipWhile.induct len with
  | case1 pos inside ih =>
      rw [skipWhile, if_pos inside] at returned
      obtain ⟨c, read, rest⟩ := bind_returned _ _ _ returned
      by_cases kept : keep c = true
      · rw [if_pos kept] at rest
        obtain ⟨onward, within, stopped⟩ := ih rest
        exact ⟨Nat.le_of_succ_le onward, fun _ => within inside, stopped⟩
      · rw [if_neg kept] at rest
        cases rest
        exact ⟨Nat.le_refl _, id, fun _ => ⟨c, (char_here src _ c).mp read, by simpa using kept⟩⟩
  | case2 pos past =>
      rw [skip_while_past src keep pos len (Nat.not_lt.mp past)] at returned
      cases returned
      exact ⟨Nat.le_refl _, id, fun inside => absurd inside past⟩

theorem skip_while_total (keep : UInt8 → Bool) (pos len : Nat) (fits : len ≤ src.length) :
    ∃ later, skipWhile src keep pos len = .ok later := by
  induction pos using skipWhile.induct len with
  | case1 pos inside ih =>
      rw [skip_while_step src keep pos len _ inside
        (List.getElem?_eq_getElem (Nat.lt_of_lt_of_le inside fits))]
      split
      · exact ih
      · exact ⟨pos, rfl⟩
  | case2 pos past => exact ⟨pos, skip_while_past src keep pos len (Nat.not_lt.mp past)⟩

/-- A second scan from where the first one stopped stays there. -/
theorem skip_while_again (keep : UInt8 → Bool) (pos len later : Nat)
    (returned : skipWhile src keep pos len = .ok later) :
    skipWhile src keep later len = .ok later := by
  obtain ⟨-, -, stopped⟩ := skip_while_returned src keep pos len later returned
  by_cases inside : later < len
  · obtain ⟨c, here, refused⟩ := stopped inside
    rw [skip_while_step src keep later len c inside here, refused]
    rfl
  · exact skip_while_past src keep later len (Nat.not_lt.mp inside)

theorem looks_at_here (accepts : UInt8 → Bool) (pos len : Nat) (c : UInt8) (inside : pos < len)
    (here : src[pos]? = some c) : looksAt src accepts pos len = .ok (accepts c) := by
  rw [looksAt, if_pos inside, (char_here src pos c).mpr here]
  rfl

theorem looks_at_past (accepts : UInt8 → Bool) (pos len : Nat) (past : len ≤ pos) :
    looksAt src accepts pos len = .ok false := by
  rw [looksAt, if_neg (Nat.not_lt.mpr past)]
  rfl

theorem looks_at_returned (accepts : UInt8 → Bool) (pos len : Nat)
    (returned : looksAt src accepts pos len = .ok true) :
    pos < len ∧ ∃ c, src[pos]? = some c ∧ accepts c = true := by
  unfold looksAt at returned
  split at returned
  next inside =>
    obtain ⟨c, read, accepted⟩ := bind_returned _ _ _ returned
    exact ⟨inside, c, (char_here src pos c).mp read, Except.ok.inj accepted⟩
  next past => cases returned

theorem looks_at_total (accepts : UInt8 → Bool) (pos len : Nat) (fits : len ≤ src.length) :
    ∃ answer, looksAt src accepts pos len = .ok answer := by
  by_cases inside : pos < len
  · exact ⟨_, looks_at_here src accepts pos len _ inside
      (List.getElem?_eq_getElem (Nat.lt_of_lt_of_le inside fits))⟩
  · exact ⟨false, looks_at_past src accepts pos len (Nat.not_lt.mp inside)⟩

theorem skip_one_returned (accepts : UInt8 → Bool) (pos len later : Nat)
    (returned : skipOne src accepts pos len = .ok later) :
    later = pos ∨ later = pos + 1 ∧ pos < len := by
  obtain ⟨answer, looked, rest⟩ := bind_returned _ _ _ returned
  cases answer with
  | false =>
      cases rest
      exact .inl rfl
  | true =>
      cases rest
      exact .inr ⟨rfl, (looks_at_returned src accepts pos len looked).1⟩

theorem skip_one_total (accepts : UInt8 → Bool) (pos len : Nat) (fits : len ≤ src.length) :
    ∃ later, skipOne src accepts pos len = .ok later := by
  obtain ⟨answer, looked⟩ := looks_at_total src accepts pos len fits
  rw [skipOne, looked]
  cases answer with
  | false => exact ⟨pos, rfl⟩
  | true => exact ⟨pos + 1, rfl⟩

end Skipping

section Strings

theorem scan_string_step (pos len : Nat) (c : UInt8) (inside : pos < len)
    (here : src[pos]? = some c) :
    scanString src pos len =
      if c = quote then .ok pos
      else if c = backslash then scanString src (pos + 2) len
      else scanString src (pos + 1) len := by
  rw [scanString, if_pos inside, (char_here src pos c).mpr here]
  rfl

theorem scan_string_past (pos len : Nat) (past : len ≤ pos) : scanString src pos len = .ok pos := by
  rw [scanString, if_neg (Nat.not_lt.mpr past)]
  rfl

/-- A backslash right before the limit carries the scan one past it. -/
theorem scan_string_returned (pos len later : Nat)
    (returned : scanString src pos len = .ok later) :
    pos ≤ later ∧ (pos ≤ len → later ≤ len + 1) := by
  induction pos using scanString.induct len with
  | case1 pos inside escape plain =>
      rw [scanString, if_pos inside] at returned
      obtain ⟨c, read, rest⟩ := bind_returned _ _ _ returned
      by_cases closing : c = quote
      · rw [if_pos closing] at rest
        cases rest
        exact ⟨Nat.le_refl _, fun _ => by omega⟩
      · rw [if_neg closing] at rest
        by_cases escaped : c = backslash
        · rw [if_pos escaped] at rest
          -- The position may now lie one past the limit, where the scan stops.
          by_cases short : pos + 2 ≤ len
          · obtain ⟨onward, within⟩ := escape rest
            exact ⟨by omega, fun _ => within short⟩
          · rw [scan_string_past src (pos + 2) len (by omega)] at rest
            cases rest
            exact ⟨by omega, fun _ => by omega⟩
        · rw [if_neg escaped] at rest
          obtain ⟨onward, within⟩ := plain rest
          exact ⟨by omega, fun _ => within inside⟩
  | case2 pos past =>
      rw [scan_string_past src pos len (Nat.not_lt.mp past)] at returned
      cases returned
      exact ⟨Nat.le_refl _, fun _ => by omega⟩

theorem scan_string_total (pos len : Nat) (fits : len ≤ src.length) :
    ∃ later, scanString src pos len = .ok later := by
  induction pos using scanString.induct len with
  | case1 pos inside escape plain =>
      rw [scan_string_step src pos len _ inside
        (List.getElem?_eq_getElem (Nat.lt_of_lt_of_le inside fits))]
      split
      · exact ⟨pos, rfl⟩
      · split
        · exact escape
        · exact plain
  | case2 pos past => exact ⟨pos, scan_string_past src pos len (Nat.not_lt.mp past)⟩

theorem matches_total (word : Text) (pos : Nat) (fits : pos + word.length ≤ src.length) :
    ∃ answer, matchesAt src pos word = .ok answer := by
  induction word generalizing pos with
  | nil => exact ⟨true, rfl⟩
  | cons letter rest ih =>
      rw [List.length_cons] at fits
      obtain ⟨c, read⟩ := char_inside src pos (by omega)
      rw [matchesAt, read]
      by_cases same : c = letter
      · obtain ⟨answer, later⟩ := ih (pos + 1) (by omega)
        exact ⟨answer, by simpa [same, bind, Except.bind] using later⟩
      · exact ⟨false, by simp [same, bind, Except.bind, pure, Except.pure]⟩

end Strings

section Brackets

theorem toggles_total (inString : Bool) (pos : Nat) (c : UInt8) (inside : pos < src.length) :
    ∃ later, toggles src inString pos c = .ok later := by
  unfold toggles
  split
  · split
    · exact ⟨_, rfl⟩
    · obtain ⟨before, read⟩ := char_inside src (pos - 1) (by omega)
      rw [read]
      exact ⟨_, rfl⟩
  · exact ⟨_, rfl⟩

theorem matching_brace_step (opening closing : UInt8) (pos len depth : Nat) (inString later : Bool)
    (c : UInt8) (inside : pos < len) (deep : 0 < depth) (here : src[pos]? = some c)
    (toggled : toggles src inString pos c = .ok later) :
    matchingBrace src opening closing pos len depth inString =
      if 0 < depthAfter opening closing c depth later then
        matchingBrace src opening closing (pos + 1) len
          (depthAfter opening closing c depth later) later
      else .ok pos := by
  rw [matchingBrace, if_pos ⟨inside, deep⟩, (char_here src pos c).mpr here]
  change (toggles src inString pos c >>= _) = _
  rw [toggled]
  rfl

theorem matching_brace_returned (opening closing : UInt8) (pos len depth later : Nat)
    (inString : Bool)
    (returned : matchingBrace src opening closing pos len depth inString = .ok later) :
    pos ≤ later ∧ (pos ≤ len → later ≤ len) := by
  induction pos, depth, inString using matchingBrace.induct opening closing len with
  | case1 pos depth inString inside ih =>
      rw [matchingBrace, if_pos inside] at returned
      obtain ⟨c, read, rest⟩ := bind_returned _ _ _ returned
      obtain ⟨toggled, turned, rest⟩ := bind_returned _ _ _ rest
      dsimp only at rest
      split at rest
      · obtain ⟨onward, within⟩ := ih c toggled rest
        exact ⟨by omega, fun _ => within inside.1⟩
      · cases rest
        exact ⟨Nat.le_refl _, id⟩
  | case2 pos depth inString done =>
      rw [matchingBrace, if_neg done] at returned
      cases returned
      exact ⟨Nat.le_refl _, id⟩

theorem matching_brace_total (opening closing : UInt8) (pos len depth : Nat) (inString : Bool)
    (fits : len ≤ src.length) :
    ∃ later, matchingBrace src opening closing pos len depth inString = .ok later := by
  induction pos, depth, inString using matchingBrace.induct opening closing len with
  | case1 pos depth inString inside ih =>
      have read := List.getElem?_eq_getElem (Nat.lt_of_lt_of_le inside.1 fits)
      obtain ⟨toggled, turned⟩ := toggles_total src inString pos src[pos]
        (Nat.lt_of_lt_of_le inside.1 fits)
      rw [matching_brace_step src opening closing pos len depth inString toggled _ inside.1
        inside.2 read turned]
      split
      · exact ih _ toggled
      · exact ⟨pos, rfl⟩
  | case2 pos depth inString done =>
      exact ⟨pos, by rw [matchingBrace, if_neg done]; rfl⟩

end Brackets

section Numbers

theorem scan_fraction_returned (pos len later : Nat)
    (returned : scanFraction src pos len = .ok later) :
    pos ≤ later ∧ (pos ≤ len → later ≤ len) := by
  obtain ⟨answer, looked, rest⟩ := bind_returned _ _ _ returned
  cases answer with
  | false =>
      cases rest
      exact ⟨Nat.le_refl _, id⟩
  | true =>
      have dot := looks_at_returned src _ pos len looked
      have digits := skip_while_returned src _ (pos + 1) len later rest
      exact ⟨Nat.le_of_succ_le digits.1, fun _ => digits.2.1 dot.1⟩

theorem scan_fraction_total (pos len : Nat) (fits : len ≤ src.length) :
    ∃ later, scanFraction src pos len = .ok later := by
  obtain ⟨answer, looked⟩ := looks_at_total src (· == point) pos len fits
  rw [scanFraction, looked]
  cases answer with
  | false => exact ⟨pos, rfl⟩
  | true => exact skip_while_total src isDigit (pos + 1) len fits

theorem scan_exponent_returned (pos len later : Nat)
    (returned : scanExponent src pos len = .ok later) :
    pos ≤ later ∧ (pos ≤ len → later ≤ len) := by
  obtain ⟨answer, looked, rest⟩ := bind_returned _ _ _ returned
  cases answer with
  | false =>
      cases rest
      exact ⟨Nat.le_refl _, id⟩
  | true =>
      have mark := looks_at_returned src _ pos len looked
      obtain ⟨signed, turned, rest⟩ := bind_returned _ _ _ rest
      have sign := skip_one_returned src _ (pos + 1) len signed turned
      have digits := skip_while_returned src _ signed len later rest
      omega

theorem scan_exponent_total (pos len : Nat) (fits : len ≤ src.length) :
    ∃ later, scanExponent src pos len = .ok later := by
  obtain ⟨answer, looked⟩ := looks_at_total src (fun c => c == 101 || c == 69) pos len fits
  rw [scanExponent, looked]
  cases answer with
  | false => exact ⟨pos, rfl⟩
  | true =>
      obtain ⟨signed, turned⟩ :=
        skip_one_total src (fun c => c == plus || c == minus) (pos + 1) len fits
      obtain ⟨later, digits⟩ := skip_while_total src isDigit signed len fits
      refine ⟨later, ?_⟩
      change (skipOne src _ (pos + 1) len >>= _) = _
      rw [turned]
      exact digits

/-- A number ends within its limit, and takes at least the char it starts with. -/
theorem scan_number_returned (pos len later : Nat) (c : UInt8) (inside : pos < len)
    (here : src[pos]? = some c) (starts : (c == minus || isDigit c) = true)
    (returned : scanNumber src pos len = .ok later) : pos < later ∧ later ≤ len := by
  obtain ⟨signed, first, rest⟩ := bind_returned _ _ _ returned
  have sign := skip_one_returned src _ pos len signed first
  obtain ⟨whole, second, rest⟩ := bind_returned _ _ _ rest
  have digits := skip_while_returned src _ signed len whole second
  obtain ⟨part, third, rest⟩ := bind_returned _ _ _ rest
  have fraction := scan_fraction_returned src whole len part third
  have exponent := scan_exponent_returned src part len later rest
  have moved : pos < whole := by
    by_cases dash : c == minus
    · rw [skipOne, looks_at_here src _ pos len c inside here] at first
      simp only [dash] at first
      cases first
      omega
    · -- Without a sign the digit itself is skipped.
      have number : isDigit c = true := by simpa [dash] using starts
      rcases sign with still | ⟨moved, -⟩
      · rw [still, skip_while_step src isDigit pos len c inside here, if_pos number] at second
        have onward := (skip_while_returned src _ (pos + 1) len whole second).1
        omega
      · omega
  omega

theorem scan_number_total (pos len : Nat) (fits : len ≤ src.length) :
    ∃ later, scanNumber src pos len = .ok later := by
  obtain ⟨signed, first⟩ := skip_one_total src (· == minus) pos len fits
  obtain ⟨whole, second⟩ := skip_while_total src isDigit signed len fits
  obtain ⟨part, third⟩ := scan_fraction_total src whole len fits
  obtain ⟨later, fourth⟩ := scan_exponent_total src part len fits
  refine ⟨later, ?_⟩
  rw [scanNumber, first]
  change (skipWhile src isDigit signed len >>= _) = _
  rw [second]
  change (scanFraction src whole len >>= _) = _
  rw [third]
  exact fourth

theorem matches_returned (word : Text) (pos : Nat) (answer : Bool)
    (returned : matchesAt src pos word = .ok answer) : answer = true ↔ Here src pos word := by
  induction word generalizing pos with
  | nil =>
      cases returned
      simp [here_nil]
  | cons letter rest ih =>
      obtain ⟨c, read, later⟩ := bind_returned _ _ _ returned
      rw [here_cons, (char_here src pos c).mp read]
      by_cases same : c = letter
      · rw [if_pos same] at later
        rw [ih (pos + 1) later, same]
        simp
      · rw [if_neg same] at later
        cases later
        simp [same]

def WordAt (word : Text) (pos len : Nat) : Prop :=
  Here src pos word ∧ pos + word.length ≤ len

instance (word : Text) (pos len : Nat) : Decidable (WordAt src word pos len) :=
  inferInstanceAs (Decidable (_ ∧ _))

theorem literal_at_returned (c : UInt8) (word : Text) (pos len : Nat) (answer : Bool)
    (here : src[pos]? = some c) (some : word ≠ [])
    (returned : literalAt src c word pos len = .ok answer) :
    answer = true ↔ WordAt src word pos len := by
  have long := List.length_pos_of_ne_nil some
  unfold literalAt at returned
  split at returned
  next fits =>
    rw [matches_returned src word pos answer returned, WordAt]
    exact ⟨fun found => ⟨found, by omega⟩, fun found => found.1⟩
  next other =>
    cases returned
    cases word with
    | nil => exact absurd rfl some
    | cons letter rest =>
        constructor
        · exact fun never => absurd never Bool.false_ne_true
        · rintro ⟨found, within⟩
          rw [here_cons, here] at found
          rw [List.length_cons] at within
          refine absurd ⟨?_, ?_⟩ other
          · exact found.1.symm
          · rw [List.length_cons]
            omega

theorem literal_at_total (c : UInt8) (word : Text) (pos len : Nat) (fits : len ≤ src.length)
    (some : word ≠ []) : ∃ answer, literalAt src c word pos len = .ok answer := by
  have long := List.length_pos_of_ne_nil some
  unfold literalAt
  split
  next inside => exact matches_total src word pos (by omega)
  next => exact ⟨false, rfl⟩

end Numbers

end SolanaSdk.JsonScanners
