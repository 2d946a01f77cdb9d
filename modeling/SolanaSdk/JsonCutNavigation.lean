import SolanaSdk.JsonCutContainers

/-!
Navigation in cut texts. An open container is scanned up to the cut, and a path
of accesses finds the place that the tree has at its end, as far as that place is
in front of the cut.
-/

namespace SolanaSdk.JsonCutNavigation

open ByteData JsonText JsonScanners JsonTokens JsonAccess JsonGrammar JsonScanning JsonPlaces
open JsonContainers JsonNavigation JsonCuts JsonCutContainers Segments

section Paths
variable {words : Lexicon} {whole src : Cells} {limit : Nat}

theorem item_places_located (items : Items words) (pos : Nat) (here : Here whole pos items.text)
    (followed : Followed whole (pos + items.text.length)) :
    ∀ place ∈ itemPlaces pos items, Located whole place.start place.doc ∧
      place.finish ≤ pos + items.text.length := by
  induction items using Items.along generalizing pos with
  | last before value after =>
      simp only [Items.text, here_append] at here
      obtain ⟨-, valueHere, afterHere⟩ := here
      simp only [Items.text, List.length_append, ← Nat.add_assoc] at followed ⊢
      exact List.forall_mem_singleton.mpr
        ⟨⟨valueHere, followed_space whole _ after afterHere followed⟩, Nat.le_add_right _ _⟩
  | more before value after rest ih =>
      obtain ⟨-, valueHere, afterHere, mark, restHere⟩ :=
        items_text_more whole before value after rest pos here
      simp only [Items.text, List.length_append, List.length_cons, ← Nat.add_assoc] at followed ⊢
      refine List.forall_mem_cons.mpr ⟨⟨⟨valueHere, followed_space whole _ after afterHere
        ⟨comma, mark, .inr (.inl rfl)⟩⟩, ?_⟩, fun place member => ?_⟩
      · dsimp only [Place.finish]
        omega
      · obtain ⟨located, within⟩ :=
          ih _ restHere (by rwa [Nat.add_right_comm] at followed) place member
        exact ⟨located, by omega⟩

theorem member_places_located (members : Members words) (pos : Nat)
    (here : Here whole pos members.text) (followed : Followed whole (pos + members.text.length)) :
    ∀ entry ∈ memberPlaces pos members, Located whole entry.2.start entry.2.doc ∧
      entry.2.finish ≤ pos + members.text.length := by
  induction members using Members.along generalizing pos with
  | last name value after =>
      simp only [Members.text, here_append] at here
      obtain ⟨-, valueHere, afterHere⟩ := here
      simp only [Members.text, List.length_append, ← Nat.add_assoc] at followed ⊢
      exact List.forall_mem_singleton.mpr
        ⟨⟨valueHere, followed_space whole _ after afterHere followed⟩, Nat.le_add_right _ _⟩
  | more name value after rest ih =>
      obtain ⟨-, valueHere, afterHere, mark, restHere⟩ :=
        members_text_more whole name value after rest pos here
      simp only [Members.text, List.length_append, List.length_cons, ← Nat.add_assoc] at followed ⊢
      refine List.forall_mem_cons.mpr ⟨⟨⟨valueHere, followed_space whole _ after afterHere
        ⟨comma, mark, .inr (.inl rfl)⟩⟩, ?_⟩, fun place member => ?_⟩
      · dsimp only [Place.finish]
        omega
      · obtain ⟨located, within⟩ :=
          ih _ restHere (by rwa [Nat.add_right_comm] at followed) place member
        exact ⟨located, by omega⟩

variable (bare : Bare words) (cut : Cut whole src limit)

theorem under_kind (limit : Nat) (place : Place words) :
    (place.under limit)._type = place.doc.kind ∨ (place.under limit)._type = .null := by
  unfold Place.under
  split
  · exact .inl rfl
  · cases place.doc.kind with
    | null => exact .inl rfl
    | bool => exact .inr rfl
    | _ => exact .inl rfl

theorem no_flag (doc : Doc words) (other : doc.kind ≠ .bool) : doc.flag = false := by
  cases doc with
  | bool flag => exact absurd rfl other
  | _ => rfl

/-- A container whose first char is in front of the limit is scanned up to its closing
bracket or up to the limit. -/
theorem container_cut (cut : Cut whole src limit) (place : Place words) (opening closing : UInt8)
    (inner : Text) (kind : place.doc.kind = .array ∨ place.doc.kind = .object)
    (text : place.doc.text = enclosed opening closing inner) (ends : Delimiter closing)
    (here : Here whole place.start place.doc.text) (inside : place.start < limit) :
    place.under limit = ⟨place.doc.kind, true, place.start,
        min (place.start + 1 + inner.length) limit + 1, false⟩ ∧
      Cut whole src (min (place.start + 1 + inner.length) limit) ∧
      Here whole (place.start + 1) inner ∧ Followed whole (place.start + 1 + inner.length) ∧
      place.start + 1 ≤ min (place.start + 1 + inner.length) limit := by
  have finish : place.finish = place.start + inner.length + 2 := by
    rw [Place.finish, text, enclosed_length, Nat.add_assoc]
  obtain ⟨innerHere, last, -, -⟩ :=
    enclosed_here whole opening closing inner place.start (text ▸ here)
  refine ⟨?_, ⟨?_, ?_⟩, innerHere, ⟨closing, last, ends⟩, by omega⟩
  · have flag : place.doc.flag = false := by
      apply no_flag
      rcases kind with same | same <;> rw [same] <;> decide
    rw [Place.under]
    split
    next complete =>
      rw [Nat.min_eq_left (by omega), Doc.valueAt, flag]
      congr 1
      change place.finish = _
      omega
    next through =>
      rw [Nat.min_eq_right (by omega)]
      rcases kind with same | same <;> rw [same]
  · exact fun pos before => cut.same pos (by omega)
  · rcases Nat.lt_or_ge (place.start + 1 + inner.length) limit with complete | through
    · rw [Nat.min_eq_left (Nat.le_of_lt complete)]
      exact ⟨closing, (cut.same _ complete).trans last, ends⟩
    · rw [Nat.min_eq_right through]
      exact cut.ended

/-- A place in front of a nearer limit is parsed in the same way. -/
theorem sees_wider (found : JsonValue) (near last : Nat) (place : Option (Place words))
    (nearer : near = min last limit)
    (within : ∀ here ∈ place, here.start < last ∧ here.finish ≤ last)
    (sees : Sees near found place) : Sees limit found place := by
  rcases Nat.lt_or_ge last limit with complete | through
  · rw [Nat.min_eq_left (Nat.le_of_lt complete)] at nearer
    subst nearer
    cases place with
    | none => exact sees
    | some here =>
        obtain ⟨start, finish⟩ := within here rfl
        rw [Sees, if_pos start, Place.under, if_pos finish] at sees
        rw [Sees, if_pos (by omega), Place.under, if_pos (by omega)]
        exact sees
  · rw [Nat.min_eq_right through] at nearer
    exact nearer ▸ sees

include bare cut

theorem index_cut (place : Place words) (located : Located whole place.start place.doc)
    (inside : place.start < limit) (index : Nat) :
    ∃ found, access src (place.under limit) (.index index) = .ok found ∧
      Sees limit found (place.child (.index index)) := by
  have other (noArray : place.doc.kind ≠ .array) (none : place.child (.index index) = none) :
      ∃ found, access src (place.under limit) (.index index) = .ok found ∧
        Sees limit found (place.child (.index index)) := by
    refine ⟨.absent, index_other src _ index ?_, none ▸ rfl⟩
    rcases under_kind limit place with same | same <;> rw [same]
    · exact noArray
    · decide
  obtain ⟨start, doc⟩ := place
  cases doc with
  | array items =>
      obtain ⟨under, nearer, itemsHere, followed, room⟩ :=
        container_cut cut ⟨start, .array items⟩ openBracket closeBracket items.text (.inl rfl) rfl
          (.inr (.inr (.inl rfl))) located.here inside
      obtain ⟨found, returns, sees⟩ := element_cut bare nearer index items (start + 1) 0
        (Nat.zero_le index) itemsHere followed room (Nat.min_le_left _ _)
      rw [under]
      refine ⟨found, element_outcome src _ index found rfl rfl returns,
        sees_wider found _ _ _ rfl ?_ sees⟩
      intro place member
      have listed := item_places_located items (start + 1) itemsHere followed place
        (List.mem_of_getElem? member)
      have long := doc_long bare.toScanned place.doc
      exact ⟨Nat.lt_of_lt_of_le (Nat.lt_add_of_pos_right long) listed.2, listed.2⟩
  | emptyArray space =>
      obtain ⟨under, nearer, spaceHere, -, room⟩ :=
        container_cut cut ⟨start, .emptyArray space⟩ openBracket closeBracket space.chars (.inl rfl)
          rfl (.inr (.inr (.inl rfl))) located.here inside
      have skipped := (skip_while_follows nearer (Nat.min_le_left _ _) isBlank (start + 1) _
        (skip_space whole space (start + 1) _ spaceHere (Nat.le_refl _) (.inl (Nat.le_refl _)))).2
      rw [Nat.min_eq_left room, Nat.min_eq_right (Nat.min_le_left _ _)] at skipped
      rw [under]
      exact ⟨.absent, element_outcome src _ index .absent rfl rfl
        (element_blank src index _ _ 0 _ skipped (Nat.le_refl _)), rfl⟩
  | null => exact other (by rintro ⟨⟩) rfl
  | bool flag => exact other (by rintro ⟨⟩) rfl
  | number token => exact other (by rintro ⟨⟩) rfl
  | string content => exact other (by rintro ⟨⟩) rfl
  | emptyObject space => exact other (by rintro ⟨⟩) rfl
  | object members => exact other (by rintro ⟨⟩) rfl

theorem key_cut (place : Place words) (located : Located whole place.start place.doc)
    (inside : place.start < limit) (key : CString) :
    ∃ found, access src (place.under limit) (.key key) = .ok found ∧
      Sees limit found (place.child (.key key)) := by
  have other (noObject : place.doc.kind ≠ .object) (none : place.child (.key key) = none) :
      ∃ found, access src (place.under limit) (.key key) = .ok found ∧
        Sees limit found (place.child (.key key)) := by
    refine ⟨.absent, key_other src _ key ?_, none ▸ rfl⟩
    rcases under_kind limit place with same | same <;> rw [same]
    · exact noObject
    · decide
  obtain ⟨start, doc⟩ := place
  cases doc with
  | object members =>
      obtain ⟨under, nearer, membersHere, followed, room⟩ :=
        container_cut cut ⟨start, .object members⟩ openBrace closeBrace members.text (.inr rfl) rfl
          (.inr (.inr (.inr (.inl rfl)))) located.here inside
      obtain ⟨found, returns, sees⟩ := member_cut bare nearer key.chars members (start + 1)
        membersHere followed room (Nat.min_le_left _ _)
      rw [under]
      refine ⟨found, member_outcome src _ key found rfl rfl returns,
        sees_wider found _ _ _ rfl ?_ sees⟩
      intro place member
      obtain ⟨entry, chosen, rfl⟩ := Option.map_eq_some_iff.mp member
      have listed := member_places_located members (start + 1) membersHere followed entry
        (List.mem_of_find?_eq_some chosen)
      have long := doc_long bare.toScanned entry.2.doc
      exact ⟨Nat.lt_of_lt_of_le (Nat.lt_add_of_pos_right long) listed.2, listed.2⟩
  | emptyObject space =>
      obtain ⟨under, nearer, spaceHere, -, room⟩ := container_cut cut ⟨start, .emptyObject space⟩
        openBrace closeBrace space.chars (.inr rfl) rfl (.inr (.inr (.inr (.inl rfl)))) located.here
        inside
      have skipped := (skip_while_follows nearer (Nat.min_le_left _ _) isBlank (start + 1) _
        (skip_space whole space (start + 1) _ spaceHere (Nat.le_refl _) (.inl (Nat.le_refl _)))).2
      rw [Nat.min_eq_left room, Nat.min_eq_right (Nat.min_le_left _ _)] at skipped
      rw [under]
      exact ⟨.absent, member_outcome src _ key .absent rfl rfl
        (member_blank src key.chars _ _ _ skipped (Nat.le_refl _)), rfl⟩
  | null => exact other (by rintro ⟨⟩) rfl
  | bool flag => exact other (by rintro ⟨⟩) rfl
  | number token => exact other (by rintro ⟨⟩) rfl
  | string content => exact other (by rintro ⟨⟩) rfl
  | emptyArray space => exact other (by rintro ⟨⟩) rfl
  | array items => exact other (by rintro ⟨⟩) rfl

omit bare cut in
/-- A child is in its container, and so it is where the text says. -/
theorem child_located (place : Place words) (located : Located whole place.start place.doc)
    (move : Access) : ∀ child ∈ place.child move,
      Located whole child.start child.doc ∧ place.start ≤ child.start := by
  obtain ⟨start, doc⟩ := place
  intro child member
  cases move with
  | key key =>
      cases doc with
      | object members =>
          obtain ⟨entry, chosen, rfl⟩ := Option.map_eq_some_iff.mp member
          obtain ⟨membersHere, last, -, -⟩ := enclosed_here whole _ _ _ start located.here
          have listed := List.mem_of_find?_eq_some chosen
          have from' := member_places_from members (start + 1) entry listed
          exact ⟨(member_places_located members (start + 1) membersHere
            ⟨_, last, .inr (.inr (.inr (.inl rfl)))⟩ entry listed).1, Nat.le_of_succ_le from'⟩
      | _ => cases member
  | index index =>
      cases doc with
      | array items =>
          obtain ⟨itemsHere, last, -, -⟩ := enclosed_here whole _ _ _ start located.here
          have listed := List.mem_of_getElem? member
          have from' := item_places_from items (start + 1) child listed
          exact ⟨(item_places_located items (start + 1) itemsHere
            ⟨_, last, .inr (.inr (.inl rfl))⟩ child listed).1, Nat.le_of_succ_le from'⟩
      | _ => cases member

omit bare cut in
theorem follow_located (path : List Access) (place : Place words)
    (located : Located whole place.start place.doc) : ∀ node ∈ place.follow path,
      Located whole node.start node.doc ∧ place.start ≤ node.start := by
  induction path generalizing place with
  | nil =>
      rintro node ⟨rfl⟩
      exact ⟨located, Nat.le_refl _⟩
  | cons move rest ih =>
      intro node member
      rw [Place.follow, List.foldlM_cons] at member
      obtain ⟨child, moved, later⟩ := Option.bind_eq_some_iff.mp member
      obtain ⟨there, from'⟩ := child_located place located move child moved
      obtain ⟨found, onward⟩ := ih child there node later
      exact ⟨found, Nat.le_trans from' onward⟩

omit bare cut in
theorem item_places_values (items : Items words) (pos : Nat) :
    (itemPlaces pos items).map Place.doc = items.values := by
  induction items using Items.along generalizing pos with
  | last before value after => rfl
  | more before value after rest ih => exact congrArg (value :: ·) (ih _)

omit bare cut in
theorem member_places_entries (members : Members words) (pos : Nat) :
    (memberPlaces pos members).map (fun entry => (entry.1, entry.2.doc)) = members.entries := by
  induction members using Members.along generalizing pos with
  | last name value after => rfl
  | more name value after rest ih => exact congrArg ((words.keyText name.key, value) :: ·) (ih _)

omit bare cut in
theorem child_doc (place : Place words) (move : Access) :
    (place.child move).map Place.doc = place.doc.child move := by
  obtain ⟨start, doc⟩ := place
  cases move with
  | key key =>
      cases doc with
      | object members =>
          change _ = ((members.entries).find? (·.1 == key.chars)).map (·.2)
          rw [← member_places_entries members (start + 1), List.find?_map, Option.map_map]
          exact Option.map_map _ _ _
      | _ => rfl
  | index index =>
      cases doc with
      | array items =>
          change _ = items.values[index]?
          rw [← item_places_values items (start + 1), List.getElem?_map]
          rfl
      | _ => rfl

omit bare cut in
/-- The place at a path is that of the node that the tree has there. -/
theorem follow_doc (path : List Access) (place : Place words) :
    (place.follow path).map Place.doc = place.doc.follow path := by
  induction path generalizing place with
  | nil => rfl
  | cons move rest ih =>
      rw [Place.follow, Doc.follow, List.foldlM_cons, List.foldlM_cons, ← child_doc]
      cases place.child move with
      | none => rfl
      | some child => exact ih child

omit bare cut in
theorem null_walk (value : JsonValue) (null : value._type = .null) (path : List Access) :
    ∃ found, walk src value path = .ok found ∧ found._type = .null := by
  cases path with
  | nil => exact ⟨value, rfl, null⟩
  | cons move rest =>
      refine ⟨.absent, ?_, rfl⟩
      have none : access src value move = .ok .absent := by
        cases move with
        | key key => exact key_other src value key (by rw [null]; decide)
        | index index => exact index_other src value index (by rw [null]; decide)
      rw [walk, List.foldlM_cons, none]
      exact absent_walk src rest

/-- A path in the cut text finds the place that the tree has there. -/
theorem walk_cut (path : List Access) (found : JsonValue) (place : Place words)
    (located : Located whole place.start place.doc) (sees : Sees limit found (some place)) :
    ∃ last, walk src found path = .ok last ∧ Sees limit last (place.follow path) := by
  have lost (value : JsonValue) (null : value._type = .null) (path : List Access)
      (answer : Option (Place words)) (behind : ∀ node ∈ answer, limit ≤ node.start) :
      ∃ last, walk src value path = .ok last ∧ Sees limit last answer := by
    obtain ⟨last, walked, none⟩ := null_walk value null path
    exact ⟨last, walked, sees_behind last none answer behind⟩
  induction path generalizing found place with
  | nil => exact ⟨found, rfl, sees⟩
  | cons move rest ih =>
      by_cases inside : place.start < limit
      · rw [Sees, if_pos inside] at sees
        subst sees
        obtain ⟨next, accessed, sees⟩ : ∃ next, access src (place.under limit) move = .ok next ∧
            Sees limit next (place.child move) := by
          cases move with
          | key key => exact key_cut bare cut place located inside key
          | index index => exact index_cut bare cut place located inside index
        rw [walk, List.foldlM_cons, accessed, Place.follow, List.foldlM_cons]
        change ∃ last, walk src next rest = .ok last ∧ _
        cases moved : place.child move with
        | none =>
            rw [moved] at sees
            exact lost next sees rest none fun node never => by cases never
        | some child =>
            rw [moved] at sees
            exact ih next child (child_located place located move child moved).1 sees
      · rw [Sees, if_neg inside] at sees
        refine lost found sees (move :: rest) _ fun node member => ?_
        have onward := (follow_located (move :: rest) place located node member).2
        omega

end Paths

section Documents
variable {words : Lexicon} (bare : Bare words) (document : Document words)

/-- The text that is left of one cut at `kept`. -/
theorem cut_text (text : Text) (kept : Nat) (inside : kept ≤ text.length) :
    Cut (cStr text) (cStr (text.take kept)) kept where
  same pos before := by
    rw [cStr, cStr, List.getElem?_append_left (by rw [List.length_take]; omega),
      List.getElem?_append_left (by omega), List.getElem?_take_of_lt before]
  ended := by
    refine ⟨0, ?_, .inr (.inr (.inr (.inr rfl)))⟩
    have long : (text.take kept).length = kept := by
      rw [List.length_take]
      omega
    rw [cStr, List.getElem?_append_right (by omega), long, Nat.sub_self]
    rfl

def rootPlace (document : Document words) : Place words :=
  ⟨document.before.chars.length, document.root⟩

include bare

/-- Parsing what is left of a document and following a path in it. -/
theorem document_cut (path : List Access) (kept : Nat) (inside : kept ≤ document.text.length) :
    ∃ root found,
      parse (cStr (document.text.take kept)) (document.text.take kept).length = .ok root ∧
      walk (cStr (document.text.take kept)) root path = .ok found ∧
      Sees kept found ((rootPlace document).follow path) := by
  have cut := cut_text document.text kept inside
  obtain ⟨before, located⟩ := document_here document
  have long : (document.text.take kept).length = kept := by
    rw [List.length_take]
    omega
  have ink := first_ink bare.toScanned document.root _ located
  have skipped := space_cut cut document.before 0 before (Nat.zero_le kept)
    (by rw [Nat.zero_add]; exact ink)
  rw [Nat.zero_add] at skipped
  obtain ⟨root, parsed, sees⟩ : ∃ root,
      parse (cStr (document.text.take kept)) (document.text.take kept).length = .ok root ∧
        Sees kept root (some (rootPlace document)) := by
    rw [long]
    rcases Nat.lt_or_ge document.before.chars.length kept with front | behind
    · rw [Nat.min_eq_left (Nat.le_of_lt front)] at skipped
      have parsed := (place_parsed bare cut (rootPlace document) located front).2
      change parseValue _ document.before.chars.length kept = _ at parsed
      refine ⟨(rootPlace document).under kept, ?_, if_pos front |>.mpr rfl⟩
      rw [parse, parse_skipped 0 _ skipped, parsed]
      rfl
    · rw [Nat.min_eq_right behind] at skipped
      refine ⟨.absent, ?_,
        sees_behind .absent rfl _ fun here same => Option.some.inj same ▸ behind⟩
      rw [parse, parse_skipped 0 _ skipped, parse_beyond kept (Nat.le_refl _)]
      rfl
  obtain ⟨found, walked, finds⟩ := walk_cut bare cut path root (rootPlace document) located sees
  exact ⟨root, found, parsed, walked, finds⟩

omit bare in
/-- Every path of the tree leads to a place in the text. -/
theorem follow_inside (path : List Access) :
    ∀ place ∈ (rootPlace document).follow path,
      Located (cStr document.text) place.start place.doc ∧ place.finish ≤ document.text.length := by
  intro place member
  have located :=
    (follow_located path (rootPlace document) (document_here document).2 place member).1
  obtain ⟨next, behind, -⟩ := located.followed
  have inside := (List.getElem?_eq_some_iff.mp behind).1
  rw [cStr, List.length_append, List.length_singleton] at inside
  exact ⟨located, Nat.le_of_lt_succ inside⟩

end Documents

end SolanaSdk.JsonCutNavigation
