import SolanaSdk.JsonAccess

/-!
Termination of the three container scans. Where nothing starts at an element,
`parseValue` leaves the position where it was, and `arraySize` stays there
unless a comma moves it on. Member access needs a quote in every turn and
element access counts its turns, so both always end.
-/

namespace SolanaSdk.JsonTermination

open ByteData JsonText JsonScanners JsonTokens JsonAccess Loops

variable (src : Cells)

/-- The next char before the limit is neither blank nor a comma, and no value starts there. -/
def Stuck (limit : Nat) (state : Nat × Nat) : Prop :=
  ∃ first c, skipWhitespace src state.1 limit = .ok first ∧ first < limit ∧
    src[first]? = some c ∧ c ≠ comma ∧ StartsNothing src c first limit

theorem nothing_token (c : UInt8) (pos len : Nat) (value : JsonValue)
    (unknown : StartsNothing src c pos len) (token : Token src c pos len value) :
    value._end = pos := by
  rw [token_nothing src pos len value c unknown token]

/-- The count of a stuck scan goes up and nothing else changes. -/
theorem stuck_trap (limit : Nat) (fits : limit ≤ src.length) :
    Trap (sizeTurn src limit) (Stuck src limit) := by
  rintro ⟨pos, count⟩ ⟨first, c, skipped, inside, here, noComma, unknown⟩
  -- After the spaces before it, every scan of the turn stays at `first`.
  have stays := skip_while_again src isBlank pos limit first skipped
  obtain ⟨value, parsed⟩ := parse_token_total src c first limit fits
  have same := nothing_token src c first limit value unknown
    (parse_token_returned src c first limit value here parsed)
  have read := (char_here src first c).mpr here
  have value : parseValue src first limit = .ok (value, first) := by
    rw [parseValue, skipWhitespace, stays]
    change (if limit ≤ first then _ else charAt src first >>= _) = _
    rw [if_neg (by omega), read]
    change (parseToken src c first limit >>= _) = _
    rw [parsed, ← same]
    rfl
  have past : pastComma src first limit = .ok first := by
    rw [pastComma, skipWhitespace, stays]
    change skipOne src (· == comma) first limit = _
    rw [skipOne, looks_at_here src _ first limit c inside here, beq_false_of_ne noComma]
    rfl
  have turn := size_passes src limit pos count first first first _ skipped inside value past
  exact ⟨(first, count + 1), turn, first, c, stays, inside, here, noComma, unknown⟩

/-- Outside the trap an element or its comma moves the position on. -/
theorem size_turn_moves (limit : Nat) (state later : Nat × Nat)
    (free : ¬ Stuck src limit state) (turn : Turn (sizeTurn src limit) state later) :
    limit - later.1 < limit - state.1 := by
  obtain ⟨pos, count⟩ := state
  have returned := (attempt_next _ _ _).mp turn
  rcases size_read src limit pos count _ returned with stops | read
  · cases stops
  obtain ⟨first, value, past, next, skipped, inside, parsed, skippedComma, same⟩ := read
  cases same
  have onward := (skip_while_returned src isBlank pos limit first skipped).1
  have least := past_comma_returned src past limit next skippedComma
  have stays := skip_while_again src isBlank pos limit first skipped
  obtain ⟨start, again, found⟩ := parse_value_returned src first limit past value parsed
  rw [skipWhitespace, stays] at again
  cases again
  dsimp only
  -- Either the value takes a char, or nothing starts here and a comma does it.
  rcases found with ⟨beyond, -, -⟩ | ⟨-, rfl, c, here, token⟩
  · omega
  · rcases token_moves src c first limit value inside here token with moved | ⟨unknown, same⟩
    · omega
    · -- Nothing starts here, so the turn was not stuck because of a comma.
      have mark : c = comma := by
        by_contra other
        exact free ⟨first, c, skipped, inside, here, other, unknown⟩
      rw [same, pastComma, skipWhitespace, stays] at skippedComma
      change skipOne src (· == comma) first limit = .ok next at skippedComma
      rw [skipOne, looks_at_here src _ first limit c inside here, mark] at skippedComma
      cases skippedComma
      omega

theorem size_terminates_iff (limit : Nat) (fits : limit ≤ src.length) (state : Nat × Nat) :
    Terminates (sizeTurn src limit) state ↔
      ∀ later, Reaches (sizeTurn src limit) state later → ¬ Stuck src limit later :=
  terminates_iff (sizeTurn src limit) (limit - ·.1) (Stuck src limit) (stuck_trap src limit fits)
    (size_turn_moves src limit) state

theorem member_terminates (key : Text) (limit pos : Nat) :
    Terminates (memberTurn src key limit) pos := by
  obtain ⟨result, ran⟩ := member_ends src key limit pos
  exact ⟨result, _, ran⟩

theorem element_terminates (index limit pos : Nat) :
    Terminates (elementTurn src index limit) (pos, 0) := by
  obtain ⟨result, ran⟩ := element_ends src index limit pos
  exact ⟨result, _, ran⟩

/-- The three scans of a value end, for every key and every index. -/
structure Terminating (value : JsonValue) : Prop where
  member : ∀ key : CString,
    Terminates (memberTurn src key.chars (value._end - 1)) (value._start + 1)
  element : ∀ index, Terminates (elementTurn src index (value._end - 1)) (value._start + 1, 0)
  arraySize : ∃ fuel result, arraySize src value fuel = some result

/-- No element scan of the value gets stuck. -/
def Advances (value : JsonValue) : Prop :=
  value._type = .array → ∀ later,
    Reaches (sizeTurn src (value._end - 1)) (value._start + 1, 0) later →
      ¬ Stuck src (value._end - 1) later

theorem array_size_terminates (value : JsonValue) (fits : value._end - 1 ≤ src.length)
    (set : value._type = .array → value._src = true) :
    (∃ fuel result, arraySize src value fuel = some result) ↔ Advances src value := by
  unfold Advances
  by_cases kind : value._type = .array
  · have loop : ∀ fuel, arraySize src value fuel =
        run (sizeTurn src (value._end - 1)) fuel (value._start + 1, 0) := by
      intro fuel
      rw [arraySize, if_neg (by simp [kind, set kind])]
    simp only [loop, kind, forall_const]
    rw [← size_terminates_iff src _ fits]
    exact exists_comm
  · constructor
    · intro _ same
      exact absurd same kind
    · intro _
      exact ⟨0, .ok 0, by rw [arraySize, if_pos (.inl kind)]; rfl⟩

/-- Every access to the values of a text ends exactly when no element scan gets stuck. -/
theorem access_terminates (text : Text) :
    (∀ limit value, Reachable text limit value → Terminating (cStr text) value) ↔
      ∀ limit value, Reachable text limit value → Advances (cStr text) value := by
  have size : ∀ limit value, Reachable text limit value →
      ((∃ fuel result, arraySize (cStr text) value fuel = some result) ↔
        Advances (cStr text) value) := by
    intro limit value reached
    have short := reachable_limit text limit value reached
    have long := c_str_fits text
    rcases reachable_placed text limit value reached with rfl | ⟨inside, c, here, token⟩
    · exact array_size_terminates _ _ (Nat.zero_le _) (by rintro ⟨⟩)
    · have ranged := token_ranged _ c _ limit value inside here token
      exact array_size_terminates _ value (by omega) (fun _ => ranged.1)
  constructor
  · intro ends limit value reached
    exact (size limit value reached).mp (ends limit value reached).arraySize
  · intro free limit value reached
    exact ⟨fun key => member_terminates _ key.chars _ _,
      fun index => element_terminates _ index _ _,
      (size limit value reached).mpr (free limit value reached)⟩

/-- In `[x]` nothing starts at the one element. -/
theorem unknown_element_hangs :
    ∃ value, Reachable (ofLiteral "[x]") 3 value ∧
      ¬ ∃ fuel result, arraySize (cStr (ofLiteral "[x]")) value fuel = some result := by
  refine ⟨⟨.array, true, 0, 3, false⟩, .root _ (by decide +kernel), ?_⟩
  rw [array_size_terminates _ _ (by decide) (fun _ => rfl)]
  intro free
  apply free rfl (1, 0) .refl
  refine ⟨1, 120, by decide +kernel, by decide, by decide, by decide, by decide, by decide,
    by decide, by decide, ?_⟩
  decide

end SolanaSdk.JsonTermination
