import SolanaSdk.JsonContainers

/-!
Navigation from the root. From the place of a node each access finds the place
of the child that the tree has under the same key or index, and so does a path
of them; what can be seen of a place is what the node is.
-/

namespace SolanaSdk.JsonNavigation

open ByteData JsonText JsonScanners JsonTokens JsonAccess JsonGrammar JsonScanning JsonPlaces
open JsonBrackets JsonContainers Segments Loops

section Paths
variable {words : Lexicon} (src : Cells)

theorem member_outcome (value : JsonValue) (key : CString) (found : JsonValue)
    (kind : value._type = .object) (set : value._src = true)
    (returns : Returns (memberTurn src key.chars (value._end - 1)) (value._start + 1)
      (.ok found)) : member src value key = .ok found := by
  rw [member, if_neg (by simp [kind, set])]
  exact outcome_unique _ _ _ _ _ returns

theorem element_outcome (value : JsonValue) (index : Nat) (found : JsonValue)
    (kind : value._type = .array) (set : value._src = true)
    (returns : Returns (elementTurn src index (value._end - 1)) (value._start + 1, 0)
      (.ok found)) : element src value index = .ok found := by
  rw [element, if_neg (by simp [kind, set])]
  exact outcome_unique _ _ _ _ _ returns

theorem key_other (value : JsonValue) (key : CString) (noObject : value._type ≠ .object) :
    access src value (.key key) = .ok .absent := if_pos (.inl noObject)

theorem index_other (value : JsonValue) (index : Nat) (noArray : value._type ≠ .array) :
    access src value (.index index) = .ok .absent := if_pos (.inl noArray)

/-- The text between the brackets of a container, and the closing bracket as its limit. -/
theorem enclosed_here (opening closing : UInt8) (inner : Text) (pos : Nat)
    (here : Here src pos (enclosed opening closing inner)) :
    Here src (pos + 1) inner ∧ src[pos + 1 + inner.length]? = some closing ∧
      pos + (enclosed opening closing inner).length - 1 = pos + 1 + inner.length ∧
      pos + 1 + inner.length ≤ src.length := by
  obtain ⟨-, rest⟩ := (here_cons src pos opening _).mp here
  obtain ⟨innerHere, last⟩ := (here_append src _ inner _).mp rest
  have last := ((here_cons src _ closing _).mp last).1
  have inside := (List.getElem?_eq_some_iff.mp last).1
  refine ⟨innerHere, last, ?_, Nat.le_of_lt inside⟩
  rw [enclosed_length]
  omega

theorem access_finds (scanned : Scanned words) (doc : Doc words) (pos : Nat)
    (located : Located src pos doc) (move : Access)
    (matched : ∀ node ∈ parsedBy doc move, Matched node) :
    ∃ found, access src (doc.valueAt pos) move = .ok found ∧ Finds src found (doc.child move) := by
  -- The kinds without children: neither access starts a scan.
  have other : (doc.valueAt pos)._type ≠ .object → (doc.valueAt pos)._type ≠ .array →
      doc.child move = none →
      ∃ found, access src (doc.valueAt pos) move = .ok found ∧
        Finds src found (doc.child move) := by
    intro noObject noArray none
    rw [none]
    cases move with
    | key key => exact ⟨.absent, key_other src _ key noObject, rfl⟩
    | index index => exact ⟨.absent, index_other src _ index noArray, rfl⟩
  obtain ⟨here, -⟩ := located
  cases doc with
  | null => exact other (by rintro ⟨⟩) (by rintro ⟨⟩) (by cases move <;> rfl)
  | bool flag => exact other (by rintro ⟨⟩) (by rintro ⟨⟩) (by cases move <;> rfl)
  | number token => exact other (by rintro ⟨⟩) (by rintro ⟨⟩) (by cases move <;> rfl)
  | string content => exact other (by rintro ⟨⟩) (by rintro ⟨⟩) (by cases move <;> rfl)
  | emptyArray space =>
      cases move with
      | key key => exact ⟨.absent, key_other src _ key (by rintro ⟨⟩), rfl⟩
      | index index =>
          obtain ⟨spaceHere, -, limit, -⟩ := enclosed_here src _ _ _ pos here
          refine ⟨.absent, element_outcome src _ index _ rfl rfl ?_, rfl⟩
          dsimp only [Doc.valueAt]
          rw [Doc.text, limit]
          exact element_empty src index space (pos + 1) 0 spaceHere
  | array items =>
      cases move with
      | key key => exact ⟨.absent, key_other src _ key (by rintro ⟨⟩), rfl⟩
      | index index =>
          obtain ⟨itemsHere, closing, limit, inside⟩ := enclosed_here src _ _ _ pos here
          obtain ⟨found, returns, finds⟩ := element_items src scanned index _ inside
            ⟨_, closing, .inr (.inr (.inl rfl))⟩ items (pos + 1) 0 (Nat.zero_le index) matched
            itemsHere rfl
          -- The limit of the scan is the closing bracket behind the items.
          refine ⟨found, element_outcome src _ index _ rfl rfl ?_, finds⟩
          dsimp only [Doc.valueAt]
          rw [Doc.text, limit]
          exact returns
  | emptyObject space =>
      cases move with
      | index index => exact ⟨.absent, index_other src _ index (by rintro ⟨⟩), rfl⟩
      | key key =>
          obtain ⟨spaceHere, -, limit, -⟩ := enclosed_here src _ _ _ pos here
          refine ⟨.absent, member_outcome src _ key _ rfl rfl ?_, rfl⟩
          dsimp only [Doc.valueAt]
          rw [Doc.text, limit]
          exact member_empty src key.chars space (pos + 1) spaceHere
  | object members =>
      cases move with
      | index index => exact ⟨.absent, index_other src _ index (by rintro ⟨⟩), rfl⟩
      | key key =>
          obtain ⟨membersHere, closing, limit, inside⟩ := enclosed_here src _ _ _ pos here
          obtain ⟨found, returns, finds⟩ := member_entries src scanned key.chars _ inside
            ⟨_, closing, .inr (.inr (.inr (.inl rfl)))⟩ members matched (pos + 1) membersHere rfl
          refine ⟨found, member_outcome src _ key _ rfl rfl ?_, finds⟩
          dsimp only [Doc.valueAt]
          rw [Doc.text, limit]
          exact returns

/-- A child that the tree has is found at its place. -/
theorem access_reaches (scanned : Scanned words) (doc : Doc words) (pos : Nat)
    (located : Located src pos doc) (move : Access)
    (matched : ∀ node ∈ parsedBy doc move, Matched node) (node : Doc words)
    (child : doc.child move = some node) :
    ∃ place, Located src place node ∧ access src (doc.valueAt pos) move = .ok (node.valueAt place) := by
  obtain ⟨found, accessed, finds⟩ := access_finds src scanned doc pos located move matched
  rw [child] at finds
  obtain ⟨place, rfl, there⟩ := finds
  exact ⟨place, there, accessed⟩

theorem absent_access (move : Access) : access src .absent move = .ok .absent := by
  cases move with
  | key key => exact key_other src .absent key (by rintro ⟨⟩)
  | index index => exact index_other src .absent index (by rintro ⟨⟩)

theorem absent_walk (path : List Access) : walk src .absent path = .ok .absent := by
  induction path with
  | nil => rfl
  | cons move rest ih =>
      rw [walk, List.foldlM_cons, absent_access]
      exact ih

/-- The nodes that a walk parses below the one where it starts. -/
def parsedOn (doc : Doc words) : List Access → List (Doc words)
  | [] => []
  | move :: rest =>
      parsedBy doc move ++
        match doc.child move with
        | some node => parsedOn node rest
        | none => []

/-- A walk from the place of a node finds the place of the node at the same path
of the tree, if the brackets of all nodes on its way are found. -/
theorem walk_finds (scanned : Scanned words) (path : List Access) (doc : Doc words) (pos : Nat)
    (located : Located src pos doc) (matched : ∀ node ∈ parsedOn doc path, Matched node) :
    ∃ found, walk src (doc.valueAt pos) path = .ok found ∧ Finds src found (doc.follow path) := by
  induction path generalizing doc pos with
  | nil => exact ⟨_, rfl, pos, rfl, located⟩
  | cons move rest ih =>
      rw [parsedOn, List.forall_mem_append] at matched
      obtain ⟨next, accessed, finds⟩ := access_finds src scanned doc pos located move matched.1
      rw [walk, List.foldlM_cons, accessed, Doc.follow, List.foldlM_cons]
      change ∃ found, walk src next rest = .ok found ∧ _
      cases child : doc.child move with
      | none =>
          -- From a missing node on, the walk and the path both stay with nothing.
          rw [child] at finds
          cases finds
          exact ⟨.absent, absent_walk src rest, rfl⟩
      | some node =>
          rw [child] at finds
          obtain ⟨place, rfl, there⟩ := finds
          rw [child] at matched
          exact ih node place there matched.2

theorem walk_reaches (scanned : Scanned words) (path : List Access) (doc : Doc words) (pos : Nat)
    (located : Located src pos doc) (matched : ∀ node ∈ parsedOn doc path, Matched node)
    (node : Doc words) (answered : doc.follow path = some node) :
    ∃ place, Located src place node ∧ walk src (doc.valueAt pos) path = .ok (node.valueAt place) := by
  obtain ⟨found, walked, finds⟩ := walk_finds src scanned path doc pos located matched
  rw [answered] at finds
  obtain ⟨place, rfl, there⟩ := finds
  exact ⟨place, there, walked⟩

end Paths

section Whole
variable {words : Lexicon}

/-- No string in the node ends in a backslash. -/
def AllClosed (doc : Doc words) : Prop := ∀ piece ∈ docPieces doc, piece.unclosed = false

instance (doc : Doc words) : Decidable (AllClosed doc) :=
  inferInstanceAs (Decidable (∀ piece ∈ docPieces doc, piece.unclosed = false))

theorem item_closed (items : Items words)
    (closed : ∀ piece ∈ itemsPieces items, piece.unclosed = false) :
    ∀ node ∈ items.values, AllClosed node := by
  induction items using Items.along with
  | last before value after =>
      intro node member
      rw [List.mem_singleton.mp member]
      exact fun piece inside =>
        closed piece (List.mem_append_right _ (List.mem_append_left _ inside))
  | more before value after rest ih =>
      simp only [itemsPieces, List.forall_mem_append, List.forall_mem_cons] at closed
      exact List.forall_mem_cons.mpr ⟨closed.2.1, ih closed.2.2.2.2⟩

theorem member_closed (members : Members words)
    (closed : ∀ piece ∈ membersPieces members, piece.unclosed = false) :
    ∀ entry ∈ members.entries, AllClosed entry.2 := by
  induction members using Members.along with
  | last name value after =>
      intro entry member
      rw [List.mem_singleton.mp member]
      exact fun piece inside =>
        closed piece (List.mem_append_right _ (List.mem_append_left _ inside))
  | more name value after rest ih =>
      simp only [membersPieces, List.forall_mem_append, List.forall_mem_cons] at closed
      exact List.forall_mem_cons.mpr ⟨closed.2.1, ih closed.2.2.2.2⟩

theorem name_closed (name : Name words) (key : (words.keyText name.key).getLast? ≠ some backslash) :
    ∀ piece ∈ namePieces name, piece.unclosed = false := by
  simp only [namePieces, List.forall_mem_append, List.forall_mem_cons]
  exact ⟨outsides_closed _, beq_false_of_ne key, outsides_closed _, rfl, outsides_closed _⟩

theorem last_closed (name : Name words) (value : Doc words) (after : Space)
    (key : (words.keyText name.key).getLast? ≠ some backslash) (closed : AllClosed value) :
    ∀ piece ∈ membersPieces (.last name value after), piece.unclosed = false := by
  simp only [membersPieces, List.forall_mem_append]
  exact ⟨name_closed name key, closed, outsides_closed _⟩

theorem more_closed (name : Name words) (value : Doc words) (after : Space) (rest : Members words)
    (key : (words.keyText name.key).getLast? ≠ some backslash) (closed : AllClosed value)
    (later : ∀ piece ∈ membersPieces rest, piece.unclosed = false) :
    ∀ piece ∈ membersPieces (.more name value after rest), piece.unclosed = false := by
  simp only [membersPieces, List.forall_mem_append, List.forall_mem_cons]
  exact ⟨name_closed name key, closed, outsides_closed _, rfl, later⟩

theorem object_closed (members : Members words)
    (closed : ∀ piece ∈ membersPieces members, piece.unclosed = false) :
    AllClosed (.object members) := by
  simp only [AllClosed, docPieces, wrapped, List.forall_mem_append, List.forall_mem_cons]
  exact ⟨rfl, closed, rfl, List.forall_mem_nil _⟩

theorem wrapped_inner (first last : UInt8) (inner : List Piece)
    (closed : ∀ piece ∈ wrapped first last inner, piece.unclosed = false) :
    ∀ piece ∈ inner, piece.unclosed = false :=
  fun piece member => closed piece (List.mem_cons_of_mem _ (List.mem_append_left _ member))

theorem values_closed (doc : Doc words) (closed : AllClosed doc) :
    ∀ node ∈ doc.values, AllClosed node := by
  cases doc with
  | array items => exact item_closed items (wrapped_inner _ _ _ closed)
  | _ => exact List.forall_mem_nil _

theorem entries_closed (doc : Doc words) (closed : AllClosed doc) :
    ∀ entry ∈ doc.entries, AllClosed entry.2 := by
  cases doc with
  | object members => exact member_closed members (wrapped_inner _ _ _ closed)
  | _ => exact List.forall_mem_nil _

theorem read_up_to_entry (key : Text) (entries : List (Text × Doc words)) :
    ∀ node ∈ readUpTo key entries, ∃ entry ∈ entries, entry.2 = node := by
  induction entries with
  | nil => exact List.forall_mem_nil _
  | cons entry rest ih =>
      refine List.forall_mem_cons.mpr ⟨⟨entry, List.mem_cons_self, rfl⟩, fun node member => ?_⟩
      split at member
      · cases member
      · obtain ⟨later, listed, same⟩ := ih node member
        exact ⟨later, List.mem_cons_of_mem _ listed, same⟩

theorem parsed_by_closed (doc : Doc words) (closed : AllClosed doc) (move : Access) :
    ∀ node ∈ parsedBy doc move, AllClosed node := by
  intro node member
  cases move with
  | key key =>
      obtain ⟨entry, listed, rfl⟩ := read_up_to_entry key.chars doc.entries node member
      exact entries_closed doc closed entry listed
  | index index => exact values_closed doc closed node (List.mem_of_mem_take member)

theorem child_closed (doc : Doc words) (closed : AllClosed doc) (move : Access) (node : Doc words)
    (child : doc.child move = some node) : AllClosed node := by
  cases move with
  | key key =>
      obtain ⟨entry, found, rfl⟩ := Option.map_eq_some_iff.mp child
      exact entries_closed doc closed entry (List.mem_of_find?_eq_some found)
  | index index => exact values_closed doc closed node (List.mem_of_getElem? child)

theorem parsed_on_closed (path : List Access) (doc : Doc words) (closed : AllClosed doc) :
    ∀ node ∈ parsedOn doc path, AllClosed node := by
  induction path generalizing doc with
  | nil => exact List.forall_mem_nil _
  | cons move rest ih =>
      rw [parsedOn, List.forall_mem_append]
      refine ⟨parsed_by_closed doc closed move, ?_⟩
      cases child : doc.child move with
      | none => exact List.forall_mem_nil _
      | some node => exact ih node (child_closed doc closed move node child)

theorem follow_closed (path : List Access) (doc : Doc words) (closed : AllClosed doc)
    (node : Doc words) (followed : doc.follow path = some node) : AllClosed node := by
  induction path generalizing doc with
  | nil =>
      cases followed
      exact closed
  | cons move rest ih =>
      rw [Doc.follow, List.foldlM_cons] at followed
      obtain ⟨next, child, later⟩ := Option.bind_eq_some_iff.mp followed
      exact ih next (child_closed doc closed move next child) later

end Whole

section Documents
variable {words : Lexicon}

/-- A whole text: one node with spaces around it. -/
structure Document (words : Lexicon) where
  before : Space
  root : Doc words
  after : Space

def Document.text (document : Document words) : Text :=
  document.before.chars ++ (document.root.text ++ document.after.chars)

theorem document_here (document : Document words) :
    Here (cStr document.text) 0 document.before.chars ∧
      Located (cStr document.text) document.before.chars.length document.root := by
  have whole : Here (cStr document.text) 0
      (document.before.chars ++ (document.root.text ++ (document.after.chars ++ [0]))) := by
    have same : cStr document.text =
        document.before.chars ++ (document.root.text ++ (document.after.chars ++ [0])) := by
      simp [cStr, Document.text]
    rw [same]
    exact List.prefix_rfl
  simp only [here_append, here_cons, Nat.zero_add] at whole
  -- Spaces or the terminator follow the root.
  obtain ⟨before, root, after, terminator, -⟩ := whole
  have ended : Followed (cStr document.text)
      (document.before.chars.length + document.root.text.length + document.after.chars.length) :=
    ⟨0, terminator, .inr (.inr (.inr (.inr rfl)))⟩
  exact ⟨before, root, followed_space _ _ document.after after ended⟩

theorem document_parsed (scanned : Scanned words) (document : Document words)
    (matched : Matched document.root) :
    parse (cStr document.text) document.text.length =
      .ok (document.root.valueAt document.before.chars.length) := by
  obtain ⟨before, located⟩ := document_here document
  have parsed := doc_parsed (cStr document.text) scanned document.before document.root matched 0
    document.text.length before (by rwa [Nat.zero_add])
    (by simp [Document.text]) (c_str_fits document.text)
  rw [parse, parsed, Nat.zero_add]
  rfl

end Documents

section Observations
variable {words : Lexicon} (src : Cells)

/-- The accessors of a kind read the place of a node of that kind. -/
theorem place_read (doc : Doc words) (pos : Nat) (kind : Kind) (same : doc.kind = kind) :
    ¬ ((doc.valueAt pos)._type ≠ kind ∨ (doc.valueAt pos)._src = false) := by
  rintro (other | never)
  · exact other same
  · cases never

theorem read_here (text : Text) (pos : Nat) (here : Here src pos text) :
    readRange src pos (pos + text.length) = .ok text := by
  rw [readRange, Nat.add_sub_cancel_left]
  induction text generalizing pos with
  | nil => rfl
  | cons c rest ih =>
      obtain ⟨head, tail⟩ := (here_cons src pos c rest).mp here
      rw [List.length_cons, List.range'_succ, List.mapM_cons, (char_here src pos c).mpr head]
      change (List.mapM (charAt src) (List.range' (pos + 1) rest.length) >>= _) = _
      rw [ih (pos + 1) tail]
      rfl

theorem doc_long (scanned : Scanned words) (doc : Doc words) : 0 < doc.text.length := by
  obtain ⟨c, rest, spelled, -⟩ := doc_head scanned doc
  rw [spelled]
  exact Nat.succ_pos _

theorem raw_here (scanned : Scanned words) (doc : Doc words) (pos : Nat)
    (located : Located src pos doc) : (doc.valueAt pos).raw src = .ok doc.text := by
  have long := doc_long scanned doc
  have some : ¬ ((doc.valueAt pos)._src = false ∨
      (doc.valueAt pos)._end ≤ (doc.valueAt pos)._start) := by
    rintro (never | short)
    · cases never
    · dsimp only [Doc.valueAt] at short
      omega
  rw [JsonValue.raw, if_neg some]
  exact read_here src doc.text pos located.here

theorem array_size_here (scanned : Scanned words) (doc : Doc words) (pos : Nat)
    (located : Located src pos doc) (matched : ∀ node ∈ doc.values, Matched node) :
    ∃ fuel, arraySize src (doc.valueAt pos) fuel = some (.ok doc.values.length) := by
  obtain ⟨here, -⟩ := located
  have loop : doc.kind = .array → ∀ fuel, arraySize src (doc.valueAt pos) fuel =
      run (sizeTurn src (pos + doc.text.length - 1)) fuel (pos + 1, 0) := by
    intro kind fuel
    exact if_neg (place_read doc pos .array kind)
  have other : doc.kind ≠ .array → doc.values = [] →
      ∃ fuel, arraySize src (doc.valueAt pos) fuel = some (.ok doc.values.length) := by
    intro noArray none
    rw [none]
    exact ⟨0, if_pos (.inl noArray)⟩
  cases doc with
  | null => exact other (by rintro ⟨⟩) rfl
  | bool flag => exact other (by rintro ⟨⟩) rfl
  | number token => exact other (by rintro ⟨⟩) rfl
  | string content => exact other (by rintro ⟨⟩) rfl
  | emptyObject space => exact other (by rintro ⟨⟩) rfl
  | object members => exact other (by rintro ⟨⟩) rfl
  | emptyArray space =>
      obtain ⟨spaceHere, -, limit, -⟩ := enclosed_here src _ _ _ pos here
      obtain ⟨fuel, ran⟩ := size_empty src space (pos + 1) 0 spaceHere
      refine ⟨fuel, ?_⟩
      rw [loop rfl, Doc.text, limit, ran]
      rfl
  | array items =>
      obtain ⟨itemsHere, closing, limit, inside⟩ := enclosed_here src _ _ _ pos here
      obtain ⟨fuel, ran⟩ := size_items src scanned _ inside
        ⟨_, closing, .inr (.inr (.inl rfl))⟩ items matched (pos + 1) 0 itemsHere rfl
      refine ⟨fuel, ?_⟩
      rw [loop rfl, Doc.text, limit, ran, Nat.zero_add]
      rfl

theorem has_key_here (scanned : Scanned words) (doc : Doc words) (pos : Nat)
    (located : Located src pos doc) (key : CString)
    (matched : ∀ node ∈ parsedBy doc (.key key), Matched node) :
    hasKey src (doc.valueAt pos) key = .ok (doc.child (.key key)).isSome := by
  obtain ⟨found, accessed, finds⟩ := access_finds src scanned doc pos located (.key key) matched
  change member src (doc.valueAt pos) key = .ok found at accessed
  rw [hasKey, accessed]
  cases child : doc.child (.key key) with
  | none =>
      rw [child] at finds
      cases finds
      rfl
  | some node =>
      rw [child] at finds
      obtain ⟨place, rfl, -⟩ := finds
      exact congrArg Except.ok (Bool.or_true _)

end Observations

end SolanaSdk.JsonNavigation
