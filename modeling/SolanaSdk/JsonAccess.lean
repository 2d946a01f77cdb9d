import SolanaSdk.JsonTokens
import SolanaSdk.Loops

/-!
Member and element access and the element count, each one a scan from the
bracket that opens the container. The first two are total functions here: a
member scan moves on in every turn, an element scan counts up to its index. The
count has no such bound.
-/

namespace SolanaSdk.JsonAccess

open ByteData JsonText JsonScanners JsonTokens Loops

variable (src : Cells)

def pastComma (pos limit : Nat) : Except Fault Nat := do
  let pos ← skipWhitespace src pos limit
  skipOne src (· == comma) pos limit

/-- The raw text of the key is compared, escapes included. -/
def keyMatches (key : Text) (keyStart pos : Nat) : Except Fault Bool :=
  if pos - keyStart = key.length then matchesAt src keyStart key else return false

/-- One turn of `operator[](const char *key)`. -/
def memberBody (key : Text) (limit pos : Nat) : Except Fault (Step Nat JsonValue) := do
  if limit ≤ pos then return .stop .absent
  else
    let pos ← skipWhitespace src pos limit
    -- Without a key the scan is over, whatever stands here.
    if ← looksAt src (· == quote) pos limit then
      let keyStart := pos + 1
      let pos ← scanString src keyStart limit
      let matched ← keyMatches src key keyStart pos
      let pos := if pos < limit then pos + 1 else pos
      -- A colon is skipped but not asked for, and so are the commas below.
      let pos ← skipWhitespace src pos limit
      let pos ← skipOne src (· == colon) pos limit
      let (val, pos) ← parseValue src pos limit
      if matched then return .stop val
      else
        let pos ← pastComma src pos limit
        return .next pos
    else return .stop .absent

/-- One turn of `operator[](size_t index)`; the state is `pos` and `i`. -/
def elementBody (index limit : Nat) (state : Nat × Nat) :
    Except Fault (Step (Nat × Nat) JsonValue) := do
  let (pos, i) := state
  if limit ≤ pos then return .stop .absent
  else
    let pos ← skipWhitespace src pos limit
    if limit ≤ pos then return .stop .absent
    else
      let (val, pos) ← parseValue src pos limit
      -- The index is compared after the value has been parsed.
      if i = index then return .stop val
      else
        let pos ← pastComma src pos limit
        return .next (pos, i + 1)

/-- One turn of `arraySize`; the state is `pos` and `count`. -/
def sizeBody (limit : Nat) (state : Nat × Nat) : Except Fault (Step (Nat × Nat) Nat) := do
  let (pos, count) := state
  if limit ≤ pos then return .stop count
  else
    let pos ← skipWhitespace src pos limit
    if limit ≤ pos then return .stop count
    else
      let (_, pos) ← parseValue src pos limit
      let pos ← pastComma src pos limit
      return .next (pos, count + 1)

section Turns

theorem past_comma_returned (pos limit later : Nat)
    (returned : pastComma src pos limit = .ok later) : pos ≤ later := by
  obtain ⟨first, skipped, rest⟩ := bind_returned _ _ _ returned
  have onward := skip_while_returned src isBlank pos limit first skipped
  have one := skip_one_returned src _ first limit later rest
  omega

theorem past_comma_total (pos limit : Nat) (fits : limit ≤ src.length) :
    ∃ later, pastComma src pos limit = .ok later := by
  obtain ⟨first, skipped⟩ := skip_while_total src isBlank pos limit fits
  obtain ⟨later, one⟩ := skip_one_total src (· == comma) first limit fits
  exact ⟨later, by rw [pastComma, skipWhitespace, skipped]; exact one⟩

/-- A turn ends the scan, or it has read a value behind the key that it started at. -/
theorem member_read (key : Text) (limit pos : Nat) (turn : Step Nat JsonValue)
    (returned : memberBody src key limit pos = .ok turn) :
    turn = .stop .absent ∨ ∃ valueStart val later,
      pos < limit ∧ pos < valueStart ∧ parseValue src valueStart limit = .ok (val, later) ∧
        (turn = .stop val ∨
          ∃ next, pastComma src later limit = .ok next ∧ turn = .next next) := by
  unfold memberBody at returned
  split at returned
  next =>
    cases returned
    exact .inl rfl
  next inside =>
  obtain ⟨first, skipped, rest⟩ := bind_returned _ _ _ returned
  have moved := skip_while_returned src isBlank pos limit first skipped
  obtain ⟨answer, looked, rest⟩ := bind_returned _ _ _ rest
  cases answer with
  | false =>
      cases rest
      exact .inl rfl
  | true =>
  right
  dsimp only at rest
  obtain ⟨keyEnd, scanned, rest⟩ := bind_returned _ _ _ rest
  have read := scan_string_returned src (first + 1) limit keyEnd scanned
  obtain ⟨found, matched, rest⟩ := bind_returned _ _ _ rest
  obtain ⟨second, skippedAgain, rest⟩ := bind_returned _ _ _ rest
  have again := (skip_while_returned src isBlank _ limit second skippedAgain).1
  obtain ⟨third, one, rest⟩ := bind_returned _ _ _ rest
  have mark := skip_one_returned src _ second limit third one
  obtain ⟨⟨val, later⟩, parsed, rest⟩ := bind_returned _ _ _ rest
  refine ⟨third, val, later, by omega, ?_, parsed, ?_⟩
  · -- The key alone, from its quote on, moves the scan.
    split at again <;> omega
  · cases found with
    | true =>
        cases rest
        exact .inl rfl
    | false =>
        obtain ⟨next, past, rest⟩ := bind_returned _ _ _ rest
        cases rest
        exact .inr ⟨next, past, rfl⟩

theorem element_read (index limit pos i : Nat) (turn : Step (Nat × Nat) JsonValue)
    (returned : elementBody src index limit (pos, i) = .ok turn) :
    turn = .stop .absent ∨ ∃ first val later,
      first < limit ∧ parseValue src first limit = .ok (val, later) ∧
        (i = index ∧ turn = .stop val ∨
          i ≠ index ∧ ∃ next, pastComma src later limit = .ok next ∧
            turn = .next (next, i + 1)) := by
  unfold elementBody at returned
  dsimp only at returned
  split at returned
  next =>
    cases returned
    exact .inl rfl
  next =>
  obtain ⟨first, skipped, rest⟩ := bind_returned _ _ _ returned
  split at rest
  next =>
    cases rest
    exact .inl rfl
  next inside =>
  obtain ⟨⟨val, later⟩, parsed, rest⟩ := bind_returned _ _ _ rest
  refine .inr ⟨first, val, later, Nat.lt_of_not_le inside, parsed, ?_⟩
  dsimp only at rest
  split at rest
  next same =>
    cases rest
    exact .inl ⟨same, rfl⟩
  next other =>
    obtain ⟨next, past, rest⟩ := bind_returned _ _ _ rest
    cases rest
    exact .inr ⟨other, next, past, rfl⟩

theorem size_read (limit pos count : Nat) (turn : Step (Nat × Nat) Nat)
    (returned : sizeBody src limit (pos, count) = .ok turn) :
    turn = .stop count ∨ ∃ first val later next,
      skipWhitespace src pos limit = .ok first ∧ first < limit ∧
        parseValue src first limit = .ok (val, later) ∧
        pastComma src later limit = .ok next ∧ turn = .next (next, count + 1) := by
  unfold sizeBody at returned
  dsimp only at returned
  split at returned
  next =>
    cases returned
    exact .inl rfl
  next =>
  obtain ⟨first, skipped, rest⟩ := bind_returned _ _ _ returned
  split at rest
  next =>
    cases rest
    exact .inl rfl
  next inside =>
  obtain ⟨⟨val, later⟩, parsed, rest⟩ := bind_returned _ _ _ rest
  obtain ⟨next, past, rest⟩ := bind_returned _ _ _ rest
  cases rest
  exact .inr ⟨first, val, later, next, skipped, Nat.lt_of_not_le inside, parsed, past, rfl⟩

end Turns

section Loops

def memberTurn (key : Text) (limit : Nat) : Nat → Step Nat (Except Fault JsonValue) :=
  attempt (memberBody src key limit)

def elementTurn (index limit : Nat) :
    Nat × Nat → Step (Nat × Nat) (Except Fault JsonValue) :=
  attempt (elementBody src index limit)

def sizeTurn (limit : Nat) : Nat × Nat → Step (Nat × Nat) (Except Fault Nat) :=
  attempt (sizeBody src limit)

theorem size_passes (limit pos count first later next : Nat) (val : JsonValue)
    (skipped : skipWhitespace src pos limit = .ok first) (inside : first < limit)
    (parsed : parseValue src first limit = .ok (val, later))
    (comma : pastComma src later limit = .ok next) :
    Turn (sizeTurn src limit) (pos, count) (next, count + 1) := by
  have start : pos ≤ first := (skip_while_returned src isBlank pos limit first skipped).1
  apply (attempt_next _ _ _).mpr
  dsimp only [sizeBody]
  rw [if_neg (by omega), skipped]
  change (if limit ≤ first then _ else parseValue src first limit >>= _) = _
  rw [if_neg (by omega), parsed]
  change (pastComma src later limit >>= _) = _
  rw [comma]
  rfl

theorem member_turn_moves (key : Text) (limit pos later : Nat)
    (turn : Turn (memberTurn src key limit) pos later) : pos < limit ∧ pos < later := by
  have returned := (attempt_next _ _ _).mp turn
  rcases member_read src key limit pos _ returned with stops | read
  · cases stops
  · obtain ⟨valueStart, val, past, inside, onward, parsed, stops | ⟨next, skipped, same⟩⟩ := read
    · cases stops
    · cases same
      have least := parse_value_onward src valueStart limit past val parsed
      have last := past_comma_returned src past limit later skipped
      omega

theorem member_ends (key : Text) (limit pos : Nat) :
    ∃ result, run (memberTurn src key limit) (limit + 1) pos = some result :=
  run_measure (memberTurn src key limit) (limit - ·) (fun _ => True) (fun _ _ _ _ => trivial)
    (fun here later _ turn => by
      have moved := member_turn_moves src key limit here later turn
      omega)
    pos trivial (limit + 1) (by omega)

theorem element_turn_counts (index limit : Nat) (state later : Nat × Nat)
    (turn : Turn (elementTurn src index limit) state later) :
    state.2 ≠ index ∧ later.2 = state.2 + 1 := by
  obtain ⟨pos, i⟩ := state
  have returned := (attempt_next _ _ _).mp turn
  rcases element_read src index limit pos i _ returned with stops | read
  · cases stops
  · obtain ⟨first, val, past, inside, parsed, ⟨same, stops⟩ | ⟨other, next, skipped, same⟩⟩ := read
    · cases stops
    · cases same
      exact ⟨other, rfl⟩

theorem element_ends (index limit pos : Nat) :
    ∃ result, run (elementTurn src index limit) (index + 2) (pos, 0) = some result :=
  run_measure (elementTurn src index limit) (index + 1 - ·.2) (fun state => state.2 ≤ index)
    (fun here later within turn => by
      have counted := element_turn_counts src index limit here later turn
      omega)
    (fun here later within turn => by
      have counted := element_turn_counts src index limit here later turn
      omega)
    (pos, 0) (Nat.zero_le index) (index + 2) (by omega)

end Loops

/-- `operator[](const char *key)`. -/
def member (value : JsonValue) (key : CString) : Except Fault JsonValue :=
  if value._type ≠ .object ∨ value._src = false then return .absent
  else outcome _ _ _ (member_ends src key.chars (value._end - 1) (value._start + 1))

def hasKey (value : JsonValue) (key : CString) : Except Fault Bool := do
  let val ← member src value key
  return !val.isNull || val._src

/-- `operator[](size_t index)`. -/
def element (value : JsonValue) (index : Nat) : Except Fault JsonValue :=
  if value._type ≠ .array ∨ value._src = false then return .absent
  else outcome _ _ _ (element_ends src index (value._end - 1) (value._start + 1))

/-- `arraySize` within a number of turns. -/
def arraySize (value : JsonValue) (fuel : Nat) : Option (Except Fault Nat) :=
  if value._type ≠ .array ∨ value._src = false then some (return 0)
  else run (sizeTurn src (value._end - 1)) fuel (value._start + 1, 0)

inductive Access where
  | key (key : CString)
  | index (index : Nat)

def access (value : JsonValue) : Access → Except Fault JsonValue
  | .key key => member src value key
  | .index index => element src value index

def walk (value : JsonValue) (path : List Access) : Except Fault JsonValue :=
  path.foldlM (access src) value

/-- The values that a text leads to, each with the limit that it was parsed under. -/
inductive Reachable (text : Text) : Nat → JsonValue → Prop where
  | root (value : JsonValue) (parsed : parse (cStr text) text.length = .ok value) :
      Reachable text text.length value
  | step (limit : Nat) (value found : JsonValue) (move : Access)
      (before : Reachable text limit value) (accessed : access (cStr text) value move = .ok found) :
      Reachable text (value._end - 1) found

section Found

/-- A value that `parseValue` has made under `limit`. -/
def Placed (limit : Nat) (value : JsonValue) : Prop :=
  value._start < limit ∧
    ∃ c, src[value._start]? = some c ∧ Token src c value._start limit value

theorem parsed_placed (pos limit later : Nat) (value : JsonValue)
    (parsed : parseValue src pos limit = .ok (value, later)) :
    value = .absent ∨ Placed src limit value := by
  obtain ⟨first, -, found⟩ := parse_value_returned src pos limit later value parsed
  rcases found with ⟨-, same, -⟩ | ⟨inside, -, c, here, token⟩
  · exact .inl same
  · have start := (token_ranged src c first limit value inside here token).2.1
    subst start
    exact .inr ⟨inside, c, here, token⟩

theorem parse_placed (len : Nat) (value : JsonValue) (parsed : parse src len = .ok value) :
    value = .absent ∨ Placed src len value := by
  obtain ⟨⟨found, later⟩, returned, rest⟩ := bind_returned _ _ _ parsed
  cases rest
  exact parsed_placed src 0 len later value returned

/-- What an access finds has been parsed under the position of the closing bracket. -/
theorem access_placed (value found : JsonValue) (move : Access)
    (accessed : access src value move = .ok found) :
    found = .absent ∨ Placed src (value._end - 1) found := by
  cases move with
  | key key =>
      change member src value key = .ok found at accessed
      unfold member at accessed
      split at accessed
      · cases accessed
        exact .inl rfl
      · -- What the scan returns is the stop of its last turn.
        have returns := outcome_returns _ _ _
          (member_ends src key.chars (value._end - 1) (value._start + 1))
        rw [accessed] at returns
        obtain ⟨last, -, stops⟩ := returns_reached _ _ _ returns
        have body := (attempt_stop _ _ _).mp stops
        rcases member_read src key.chars _ last _ body with same | read
        · cases same
          exact .inl rfl
        · obtain ⟨valueStart, val, later, -, -, parsed, same | ⟨next, -, same⟩⟩ := read
          · cases same
            exact parsed_placed src valueStart _ later found parsed
          · cases same
  | index index =>
      change element src value index = .ok found at accessed
      unfold element at accessed
      split at accessed
      · cases accessed
        exact .inl rfl
      · have returns := outcome_returns _ _ _
          (element_ends src index (value._end - 1) (value._start + 1))
        rw [accessed] at returns
        obtain ⟨⟨pos, i⟩, -, stops⟩ := returns_reached _ _ _ returns
        have body := (attempt_stop _ _ _).mp stops
        rcases element_read src index _ pos i _ body with same | read
        · cases same
          exact .inl rfl
        · obtain ⟨first, val, later, -, parsed, ⟨-, same⟩ | ⟨-, next, -, same⟩⟩ := read
          · cases same
            exact parsed_placed src first _ later found parsed
          · cases same

theorem key_matches_total (key : Text) (keyStart pos : Nat) (onward : keyStart ≤ pos)
    (fits : pos ≤ src.length) : ∃ answer, keyMatches src key keyStart pos = .ok answer := by
  unfold keyMatches
  split
  · exact matches_total src key keyStart (by omega)
  · exact ⟨false, rfl⟩

/-- A key cut in an escape ends one past the limit, and its text is compared as a whole. -/
theorem member_body_total (key : Text) (limit pos : Nat) (fits : limit + 1 ≤ src.length) :
    ∃ turn, memberBody src key limit pos = .ok turn := by
  have room : limit ≤ src.length := by omega
  obtain ⟨first, skipped⟩ := skip_while_total src isBlank pos limit room
  obtain ⟨answer, looked⟩ := looks_at_total src (· == quote) first limit room
  unfold memberBody
  split
  · exact ⟨_, rfl⟩
  · rw [skipWhitespace, skipped]
    change ∃ turn, (looksAt src (· == quote) first limit >>= _) = .ok turn
    rw [looked]
    cases answer with
    | false => exact ⟨_, rfl⟩
    | true =>
        have here := looks_at_returned src _ first limit looked
        obtain ⟨keyEnd, scanned⟩ := scan_string_total src (first + 1) limit room
        have read := scan_string_returned src (first + 1) limit keyEnd scanned
        -- The comparison is the one read that may touch the char at the limit.
        obtain ⟨found, matched⟩ := key_matches_total src key (first + 1) keyEnd read.1
          (by omega)
        obtain ⟨second, again⟩ := skip_while_total src isBlank
          (if keyEnd < limit then keyEnd + 1 else keyEnd) limit room
        obtain ⟨third, one⟩ := skip_one_total src (· == colon) second limit room
        obtain ⟨val, later, parsed⟩ := parse_value_total src third limit room
        obtain ⟨next, past⟩ := past_comma_total src later limit room
        simp only [skipWhitespace, scanned, matched, again, one, parsed, past, bind, Except.bind,
          pure, Except.pure, ↓reduceIte]
        cases found <;> exact ⟨_, rfl⟩

theorem element_body_total (index limit : Nat) (state : Nat × Nat) (fits : limit ≤ src.length) :
    ∃ turn, elementBody src index limit state = .ok turn := by
  obtain ⟨pos, i⟩ := state
  obtain ⟨first, skipped⟩ := skip_while_total src isBlank pos limit fits
  obtain ⟨val, later, parsed⟩ := parse_value_total src first limit fits
  obtain ⟨next, past⟩ := past_comma_total src later limit fits
  simp only [elementBody, skipWhitespace, skipped, parsed, past, bind, Except.bind, pure,
    Except.pure]
  split_ifs <;> exact ⟨_, rfl⟩

theorem size_body_total (limit : Nat) (state : Nat × Nat) (fits : limit ≤ src.length) :
    ∃ turn, sizeBody src limit state = .ok turn := by
  obtain ⟨pos, count⟩ := state
  obtain ⟨first, skipped⟩ := skip_while_total src isBlank pos limit fits
  obtain ⟨val, later, parsed⟩ := parse_value_total src first limit fits
  obtain ⟨next, past⟩ := past_comma_total src later limit fits
  simp only [sizeBody, skipWhitespace, skipped, parsed, past, bind, Except.bind, pure,
    Except.pure]
  split_ifs <;> exact ⟨_, rfl⟩

theorem member_total (value : JsonValue) (key : CString) (fits : value._end - 1 + 1 ≤ src.length) :
    ∃ found, member src value key = .ok found := by
  unfold member
  split
  · exact ⟨.absent, rfl⟩
  · have returns := outcome_returns _ _ _
      (member_ends src key.chars (value._end - 1) (value._start + 1))
    exact attempt_returned _ (fun state => member_body_total src key.chars _ state fits) _ _ returns

theorem element_total (value : JsonValue) (index : Nat) (fits : value._end - 1 ≤ src.length) :
    ∃ found, element src value index = .ok found := by
  unfold element
  split
  · exact ⟨.absent, rfl⟩
  · have returns := outcome_returns _ _ _
      (element_ends src index (value._end - 1) (value._start + 1))
    exact attempt_returned _ (fun state => element_body_total src index _ state fits) _ _ returns

theorem reachable_placed (text : Text) (limit : Nat) (value : JsonValue)
    (reached : Reachable text limit value) :
    value = .absent ∨ Placed (cStr text) limit value := by
  cases reached with
  | root _ parsed => exact parse_placed (cStr text) _ value parsed
  | step _ before _ move _ accessed => exact access_placed (cStr text) before value move accessed

theorem c_str_fits (text : Text) : text.length ≤ (cStr text).length := by
  rw [cStr, List.length_append]
  omega

/-- Limits do not grow on the way down. -/
theorem reachable_limit (text : Text) (limit : Nat) (value : JsonValue)
    (reached : Reachable text limit value) : limit ≤ text.length := by
  induction reached with
  | root value parsed => exact Nat.le_refl _
  | step limit value found move before accessed ih =>
      rcases reachable_placed text limit value before with rfl | ⟨inside, c, here, token⟩
      · exact Nat.zero_le _
      · have ranged := token_ranged _ c _ limit value inside here token
        omega

end Found

end SolanaSdk.JsonAccess
