import Mathlib.Data.List.Basic

/-!
Segments of a list by position. A scanner that works with positions is related
here to the text it walks over: what stands at a position splits as the text does.
-/

namespace SolanaSdk.Segments

universe u

variable {Symbol : Type u}

def Here (src : List Symbol) (pos : Nat) (segment : List Symbol) : Prop :=
  segment <+: src.drop pos

instance [DecidableEq Symbol] (src segment : List Symbol) (pos : Nat) :
    Decidable (Here src pos segment) :=
  inferInstanceAs (Decidable (segment <+: src.drop pos))

theorem here_nil (src : List Symbol) (pos : Nat) : Here src pos [] := List.nil_prefix

theorem drop_here (src : List Symbol) (pos : Nat) (symbol : Symbol)
    (here : src[pos]? = some symbol) : src.drop pos = symbol :: src.drop (pos + 1) := by
  obtain ⟨inside, same⟩ := List.getElem?_eq_some_iff.mp here
  rw [List.drop_eq_getElem_cons inside, same]

@[simp] theorem here_cons (src : List Symbol) (pos : Nat) (symbol : Symbol)
    (rest : List Symbol) :
    Here src pos (symbol :: rest) ↔ src[pos]? = some symbol ∧ Here src (pos + 1) rest := by
  unfold Here
  cases here : src[pos]? with
  | none =>
      rw [List.drop_eq_nil_iff.mpr (List.getElem?_eq_none_iff.mp here)]
      simp
  | some first =>
      rw [drop_here src pos first here, List.cons_prefix_cons]
      simp [eq_comm]

theorem here_append (src : List Symbol) (pos : Nat) (first second : List Symbol) :
    Here src pos (first ++ second) ↔ Here src pos first ∧ Here src (pos + first.length) second := by
  induction first generalizing pos with
  | nil => simp [here_nil]
  | cons symbol rest ih =>
      rw [List.cons_append, here_cons, here_cons, ih, List.length_cons, and_assoc,
        Nat.add_assoc, Nat.add_comm 1]

/-- A segment and the symbol behind it start what is left of the list. -/
theorem here_before (src segment : List Symbol) (pos : Nat) (next : Symbol)
    (here : Here src pos segment) (there : src[pos + segment.length]? = some next) :
    ∃ rest, src.drop pos = segment ++ next :: rest := by
  have both : Here src pos (segment ++ [next]) := by
    rw [here_append, here_cons]
    exact ⟨here, there, here_nil src _⟩
  obtain ⟨rest, same⟩ := both
  exact ⟨rest, by rw [← same, List.append_assoc, List.singleton_append]⟩

end SolanaSdk.Segments
