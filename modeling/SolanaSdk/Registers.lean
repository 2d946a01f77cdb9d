import Mathlib.Data.List.Induction
import Mathlib.Data.List.Nodup

/-!
A find-or-insert register: a list of keyed entries in which a use of a stored
key merges its mark into the entry and a use of a new key goes to the end.
The merge is a parameter: a join collects demands, and a merge that keeps the
old mark records the first use. Key order never depends on the merge.
-/

namespace SolanaSdk.Registers

universe u v
variable {Key : Type u} {Mark : Type v} [DecidableEq Key]

def register (merge : Mark → Mark → Mark) (key : Key) (mark : Mark) :
    List (Key × Mark) → List (Key × Mark)
  | [] => [(key, mark)]
  | entry :: rest =>
      if entry.1 = key then (entry.1, merge entry.2 mark) :: rest
      else entry :: register merge key mark rest

def registerAll (merge : Mark → Mark → Mark) (uses : List (Key × Mark))
    (table : List (Key × Mark)) : List (Key × Mark) :=
  uses.foldl (fun stored use => register merge use.1 use.2 stored) table

def keepOld (old _new : Mark) : Mark := old

/-- The first use of every key, in the order in which the keys appear. -/
def firstUses (uses : List (Key × Mark)) : List (Key × Mark) :=
  registerAll keepOld uses []

def keys (table : List (Key × Mark)) : List Key := table.map Prod.fst

omit [DecidableEq Key] in
@[simp] theorem keys_nil : keys ([] : List (Key × Mark)) = [] := rfl

omit [DecidableEq Key] in
@[simp] theorem keys_cons (entry : Key × Mark) (rest : List (Key × Mark)) :
    keys (entry :: rest) = entry.1 :: keys rest := rfl

omit [DecidableEq Key] in
@[simp] theorem keys_append (left right : List (Key × Mark)) :
    keys (left ++ right) = keys left ++ keys right := List.map_append

theorem register_keys (merge : Mark → Mark → Mark) (key : Key) (mark : Mark)
    (table : List (Key × Mark)) :
    keys (register merge key mark table) =
      if key ∈ keys table then keys table else keys table ++ [key] := by
  induction table with
  | nil => simp [register]
  | cons entry rest ih =>
      by_cases hit : entry.1 = key
      · simp [register, hit]
      · have other : key ≠ entry.1 := fun same => hit same.symm
        by_cases stored : key ∈ keys rest <;>
          simp [register, hit, ih, other, stored]

theorem erase_dups_snoc (seen : List Key) (key : Key) :
    (seen ++ [key]).eraseDups =
      if key ∈ seen.eraseDups then seen.eraseDups else seen.eraseDups ++ [key] := by
  rw [List.eraseDups_append]
  by_cases stored : key ∈ seen <;>
    simp [stored, List.removeAll, List.eraseDups_cons, List.mem_eraseDups]

theorem register_fresh (merge : Mark → Mark → Mark) (key : Key) (mark : Mark)
    (table : List (Key × Mark)) (fresh : key ∉ keys table) :
    register merge key mark table = table ++ [(key, mark)] := by
  induction table with
  | nil => rfl
  | cons entry rest ih =>
      simp only [keys_cons, List.mem_cons, not_or] at fresh
      have other : entry.1 ≠ key := fun same => fresh.1 same.symm
      simp [register, other, ih fresh.2]

theorem register_all_append (merge : Mark → Mark → Mark) (left right table : List (Key × Mark)) :
    registerAll merge (left ++ right) table =
      registerAll merge right (registerAll merge left table) := List.foldl_append

theorem register_all_snoc (merge : Mark → Mark → Mark) (uses : List (Key × Mark))
    (use : Key × Mark) (table : List (Key × Mark)) :
    registerAll merge (uses ++ [use]) table =
      register merge use.1 use.2 (registerAll merge uses table) := by
  simp [registerAll]

/-- Whatever the merge does, the stored keys are the used keys in the order of
their first use. -/
theorem register_all_keys (merge : Mark → Mark → Mark) (uses : List (Key × Mark)) :
    keys (registerAll merge uses []) = (keys uses).eraseDups := by
  induction uses using List.reverseRecOn with
  | nil => rfl
  | append_singleton uses use ih =>
      rw [register_all_snoc, register_keys, ih, keys_append]
      exact (erase_dups_snoc (keys uses) use.1).symm

theorem erase_dups_nodup (seen : List Key) : seen.eraseDups.Nodup := by
  induction seen using List.reverseRecOn with
  | nil => simp
  | append_singleton seen key ih =>
      rw [erase_dups_snoc]
      split
      · exact ih
      · next fresh =>
          exact List.nodup_append.mpr ⟨ih, List.nodup_singleton key, fun a member b last same =>
            fresh (List.mem_singleton.mp last ▸ same ▸ member)⟩

theorem register_all_nodup (merge : Mark → Mark → Mark) (uses : List (Key × Mark)) :
    (keys (registerAll merge uses [])).Nodup := by
  rw [register_all_keys]
  exact erase_dups_nodup _

theorem mem_register_all_keys (merge : Mark → Mark → Mark) (uses : List (Key × Mark))
    (key : Key) : key ∈ keys (registerAll merge uses []) ↔ key ∈ keys uses := by
  rw [register_all_keys, List.mem_eraseDups]

omit [DecidableEq Key] in
theorem mem_keys (table : List (Key × Mark)) (key : Key) :
    key ∈ keys table ↔ ∃ mark, (key, mark) ∈ table := by
  simp [keys]

/-- What one use does to an entry: it is untouched, merged, or new. -/
theorem mem_register (merge : Mark → Mark → Mark) (key : Key) (mark : Mark)
    (table : List (Key × Mark)) (unique : (keys table).Nodup) (entry : Key × Mark) :
    entry ∈ register merge key mark table ↔
      (entry ∈ table ∧ entry.1 ≠ key) ∨
      (∃ old, (key, old) ∈ table ∧ entry = (key, merge old mark)) ∨
      (key ∉ keys table ∧ entry = (key, mark)) := by
  induction table with
  | nil => simp [register]
  | cons first rest ih =>
      obtain ⟨stored, old⟩ := first
      simp only [keys_cons, List.nodup_cons] at unique
      have tail := ih unique.2
      by_cases hit : stored = key
      · -- The keys are distinct, so the head is the only entry of its key.
        subst hit
        have absent : ∀ mark, (stored, mark) ∉ rest := fun mark member =>
          unique.1 ((mem_keys rest stored).mpr ⟨mark, member⟩)
        have different : ∀ other ∈ rest, other.1 ≠ stored := by
          rintro ⟨_, mark⟩ member rfl
          exact absent mark member
        simp only [register, if_true, List.mem_cons, keys_cons]
        constructor
        · rintro (merged | kept)
          · exact Or.inr (Or.inl ⟨old, Or.inl rfl, merged⟩)
          · exact Or.inl ⟨Or.inr kept, different entry kept⟩
        · rintro (⟨rfl | kept, other⟩ | ⟨before, head | later, merged⟩ | ⟨fresh, _⟩)
          · exact absurd rfl other
          · exact Or.inr kept
          · cases head
            exact Or.inl merged
          · exact absurd later (absent before)
          · exact absurd (Or.inl trivial) fresh
      · have other : key ≠ stored := fun same => hit same.symm
        simp only [register, hit, if_false, List.mem_cons, keys_cons, tail, Prod.mk.injEq, other,
          false_and, false_or]
        constructor
        · rintro (rfl | ⟨kept, apart⟩ | merged | new)
          · exact Or.inl ⟨Or.inl rfl, hit⟩
          · exact Or.inl ⟨Or.inr kept, apart⟩
          · exact Or.inr (Or.inl merged)
          · exact Or.inr (Or.inr new)
        · rintro (⟨rfl | kept, apart⟩ | merged | new)
          · exact Or.inl rfl
          · exact Or.inr (Or.inl ⟨kept, apart⟩)
          · exact Or.inr (Or.inr (Or.inl merged))
          · exact Or.inr (Or.inr (Or.inr new))

/-- A property that a merge has exactly when one of its sides has it holds of
an entry exactly when some use of the entry's key has it. -/
theorem register_all_mark (merge : Mark → Mark → Mark) (has : Mark → Prop)
    (split : ∀ left right, has (merge left right) ↔ has left ∨ has right)
    (uses : List (Key × Mark)) (entry : Key × Mark)
    (member : entry ∈ registerAll merge uses []) :
    has entry.2 ↔ ∃ use ∈ uses, use.1 = entry.1 ∧ has use.2 := by
  induction uses using List.reverseRecOn generalizing entry with
  | nil => simp [registerAll] at member
  | append_singleton uses use ih =>
      rw [register_all_snoc, mem_register _ _ _ _ (register_all_nodup merge uses)] at member
      simp only [List.mem_append, List.mem_singleton, or_and_right, exists_or, exists_eq_left]
      rcases member with ⟨kept, apart⟩ | ⟨old, stored, rfl⟩ | ⟨fresh, rfl⟩
      · simp [ih entry kept, apart.symm]
      · simp [split, ih _ stored]
      · have unused : ∀ before ∈ uses, before.1 ≠ use.1 := fun before found same =>
          fresh ((mem_register_all_keys merge uses use.1).mpr
            (List.mem_map.mpr ⟨before, found, same⟩))
        constructor
        · intro marked
          exact Or.inr ⟨rfl, marked⟩
        · rintro (⟨before, found, same, _⟩ | ⟨_, marked⟩)
          · exact absurd same (unused before found)
          · exact marked

theorem register_keep_old (key : Key) (mark : Mark) (table : List (Key × Mark))
    (stored : key ∈ keys table) : register keepOld key mark table = table := by
  induction table with
  | nil => simp at stored
  | cons entry rest ih =>
      by_cases hit : entry.1 = key
      · subst hit
        simp [register, keepOld]
      · have other : key ≠ entry.1 := fun same => hit same.symm
        simp [register, hit, ih (by simpa [other] using stored)]

theorem first_uses_snoc (uses : List (Key × Mark)) (use : Key × Mark) :
    firstUses (uses ++ [use]) =
      if use.1 ∈ keys (firstUses uses) then firstUses uses else firstUses uses ++ [use] := by
  unfold firstUses
  rw [register_all_snoc]
  split
  · next stored => exact register_keep_old use.1 use.2 _ stored
  · next fresh => exact register_fresh keepOld use.1 use.2 _ fresh

/-- What else a use carries has no part in which uses are first. -/
theorem first_uses_map {Other : Type v} (view : Mark → Other) (uses : List (Key × Mark)) :
    firstUses (uses.map fun use => (use.1, view use.2)) =
      (firstUses uses).map fun entry => (entry.1, view entry.2) := by
  induction uses using List.reverseRecOn with
  | nil => rfl
  | append_singleton uses use ih =>
      have same : keys ((firstUses uses).map fun entry => (entry.1, view entry.2)) =
          keys (firstUses uses) := by
        rw [keys, keys, List.map_map]
        rfl
      rw [List.map_append, List.map_singleton, first_uses_snoc, first_uses_snoc, ih, same]
      split
      · rfl
      · rw [List.map_append, List.map_singleton]

/-- New names for the keys, distinct ones for distinct keys, leave the first uses first. -/
theorem first_uses_rename {Name : Type u} [DecidableEq Name] (rename : Key → Name)
    (distinct : Function.Injective rename) (uses : List (Key × Mark)) :
    firstUses (uses.map fun use => (rename use.1, use.2)) =
      (firstUses uses).map fun entry => (rename entry.1, entry.2) := by
  induction uses using List.reverseRecOn with
  | nil => rfl
  | append_singleton uses use ih =>
      have stored :
          rename use.1 ∈ keys ((firstUses uses).map fun entry => (rename entry.1, entry.2)) ↔
            use.1 ∈ keys (firstUses uses) := by
        rw [keys, List.map_map, keys, ← List.mem_map_of_injective distinct, List.map_map]
        rfl
      rw [List.map_append, List.map_singleton, first_uses_snoc, first_uses_snoc, ih]
      simp only [stored]
      split
      · rfl
      · rw [List.map_append, List.map_singleton]

/-- The recorded first use is the one a left-to-right search finds. -/
theorem mem_first_uses (uses : List (Key × Mark)) (entry : Key × Mark) :
    entry ∈ firstUses uses ↔ uses.find? (fun use => use.1 = entry.1) = some entry := by
  induction uses using List.reverseRecOn generalizing entry with
  | nil => simp [firstUses, registerAll]
  | append_singleton uses use ih =>
      unfold firstUses at ih ⊢
      rw [register_all_snoc, mem_register _ _ _ _ (register_all_nodup keepOld uses),
        List.find?_append, ih]
      cases found : uses.find? (fun use => use.1 = entry.1) with
      | some before =>
          have same : before.1 = entry.1 := by simpa using List.find?_some found
          have used : entry.1 ∈ keys uses :=
            List.mem_map.mpr ⟨before, List.mem_of_find?_eq_some found, same⟩
          simp only [Option.some_or, Option.some.injEq, ih, keepOld]
          constructor
          · rintro (⟨equal, _⟩ | ⟨old, stored, rfl⟩ | ⟨fresh, rfl⟩)
            · exact equal
            · simpa [found] using stored
            · exact absurd ((mem_register_all_keys _ _ _).mpr used) fresh
          · rintro rfl
            by_cases hit : before.1 = use.1
            · exact Or.inr (Or.inl ⟨before.2, by rw [← hit]; simpa using found, by rw [← hit]⟩)
            · exact Or.inl ⟨rfl, hit⟩
      | none =>
          have unused : ∀ before ∈ uses, before.1 ≠ entry.1 := by simpa using found
          simp only [reduceCtorEq, false_and, false_or, Option.none_or, ih]
          constructor
          · rintro (⟨old, stored, rfl⟩ | ⟨_, rfl⟩)
            · simp [found] at stored
            · simp
          · intro last
            have equal : use = entry := by
              by_cases hit : use.1 = entry.1
              · simpa [hit] using last
              · simp [hit] at last
            subst equal
            refine Or.inr ⟨fun stored => ?_, rfl⟩
            obtain ⟨before, member, same⟩ :=
              List.mem_map.mp ((mem_register_all_keys _ _ _).mp stored)
            exact unused before member same

omit [DecidableEq Key] in
/-- Distinct keys in the same order leave no room for other marks. -/
theorem entries_same (left right : List (Key × Mark)) (same : keys left = keys right)
    (unique : (keys right).Nodup) (listed : ∀ entry ∈ left, entry ∈ right) : left = right := by
  induction left generalizing right with
  | nil => exact (List.map_eq_nil_iff.mp same.symm).symm
  | cons entry rest ih =>
      cases right with
      | nil => cases same
      | cons first others =>
          obtain ⟨key, later⟩ := List.cons.inj same
          obtain ⟨fresh, tail⟩ := List.nodup_cons.mp unique
          -- Whatever stands behind the head has another key.
          have behind : ∀ use ∈ entry :: rest, use.1 ∈ keys others → use ∈ others := by
            intro use member known
            rcases List.mem_cons.mp (listed use member) with rfl | inside
            · exact absurd known fresh
            · exact inside
          have head : entry = first := by
            rcases List.mem_cons.mp (listed entry List.mem_cons_self) with here | inside
            · exact here
            · exact absurd (key ▸ List.mem_map_of_mem inside) fresh
          have others' : ∀ use ∈ rest, use ∈ others := by
            intro use member
            refine behind use (List.mem_cons_of_mem entry member) ?_
            change use.1 ∈ others.map Prod.fst
            rw [← later]
            exact List.mem_map_of_mem member
          rw [head, ih others later tail others']

/-- Uses of the same keys that all carry the mark of a first use have the same
first uses. -/
theorem first_uses_same (uses others : List (Key × Mark)) (same : keys others = keys uses)
    (first : ∀ use ∈ others, use ∈ firstUses uses) : firstUses others = firstUses uses := by
  apply entries_same
  · rw [firstUses, firstUses, register_all_keys, register_all_keys, same]
  · exact register_all_nodup keepOld uses
  · intro entry member
    exact first entry (List.mem_of_find?_eq_some ((mem_first_uses others entry).mp member))

end SolanaSdk.Registers
