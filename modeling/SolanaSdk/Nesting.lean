import Mathlib.Data.List.Infix

/-!
The depth along a text with one kind of brackets. A count that stops at depth
zero gets through a text and back to its level exactly when no front of the text
has more closing than opening brackets and the text has as many of both.
-/

namespace SolanaSdk.Nesting

universe u

variable {Symbol : Type u} [DecidableEq Symbol] (opening closing : Symbol)

def levelAfter (symbol : Symbol) (depth : Nat) : Nat :=
  if symbol = opening then depth + 1
  else if symbol = closing then depth - 1
  else depth

/-- The depth after a text that is entered at the given one; none once it is zero. -/
def levels : Nat → List Symbol → Option Nat
  | depth, [] => some depth
  | depth, symbol :: rest =>
      if levelAfter opening closing symbol depth = 0 then none
      else levels (levelAfter opening closing symbol depth) rest

/-- As many opening as closing brackets, and never more closing ones on the way. -/
structure Levelled (text : List Symbol) : Prop where
  total : text.count opening = text.count closing
  never : ∀ front, front <+: text → front.count closing ≤ front.count opening

theorem levels_append (first second : List Symbol) (depth : Nat) :
    levels opening closing depth (first ++ second) =
      (levels opening closing depth first).bind fun level =>
        levels opening closing level second := by
  induction first generalizing depth with
  | nil => rfl
  | cons symbol rest ih =>
      rw [List.cons_append, levels, levels]
      split
      · rfl
      · exact ih _

omit [DecidableEq Symbol] in
theorem prefixes_cons (symbol : Symbol) (rest : List Symbol) (holds : List Symbol → Prop) :
    (∀ front, front <+: symbol :: rest → holds front) ↔
      holds [] ∧ ∀ front, front <+: rest → holds (symbol :: front) := by
  constructor
  · intro all
    exact ⟨all [] List.nil_prefix, fun front before =>
      all (symbol :: front) (List.prefix_cons_inj symbol |>.mpr before)⟩
  · rintro ⟨empty, longer⟩ front before
    rcases List.prefix_cons_iff.mp before with rfl | ⟨later, rfl, behind⟩
    · exact empty
    · exact longer later behind

/-- Counting through the text is counting the brackets of each front. -/
theorem levels_counts (apart : opening ≠ closing) (text : List Symbol) (depth level : Nat) :
    levels opening closing (depth + 1) text = some (level + 1) ↔
      depth + text.count opening = level + text.count closing ∧
        ∀ front, front <+: text → front.count closing ≤ depth + front.count opening := by
  induction text generalizing depth with
  | nil => simp [levels]
  | cons symbol rest ih =>
      rw [levels, prefixes_cons]
      by_cases opens : symbol = opening
      · subst opens
        rw [levelAfter, if_pos rfl, if_neg (by omega), ih]
        simp only [List.count_cons_self, List.count_cons_of_ne apart, List.count_nil, Nat.zero_le,
          true_and]
        exact and_congr (by omega) (forall₂_congr fun front before => by omega)
      by_cases closes : symbol = closing
      · subst closes
        rw [levelAfter, if_neg opens, if_pos rfl]
        simp only [List.count_cons_self, List.count_cons_of_ne (Ne.symm apart), List.count_nil,
          Nat.zero_le, true_and]
        cases depth with
        | zero =>
            -- The first char closes the level that the text was entered at.
            rw [if_pos rfl]
            constructor
            · rintro ⟨⟩
            · rintro ⟨-, never⟩
              exact absurd (never [] List.nil_prefix) (by simp)
        | succ depth =>
            rw [if_neg (by omega), Nat.add_sub_cancel, ih]
            exact and_congr (by omega) (forall₂_congr fun front before => by omega)
      · rw [levelAfter, if_neg opens, if_neg closes, if_neg (by omega), ih]
        simp only [List.count_cons_of_ne opens, List.count_cons_of_ne closes, List.count_nil,
          Nat.zero_le, true_and]

theorem levels_levelled (apart : opening ≠ closing) (text : List Symbol) :
    levels opening closing 1 text = some 1 ↔ Levelled opening closing text := by
  rw [levels_counts opening closing apart text 0 0]
  simp only [Nat.zero_add]
  exact ⟨fun both => ⟨both.1, both.2⟩, fun levelled => ⟨levelled.total, levelled.never⟩⟩

section Neutral

/-- Left at the depth that it is entered at, whatever that is. -/
def Neutral (text : List Symbol) : Prop :=
  ∀ depth, 0 < depth → levels opening closing depth text = some depth

theorem neutral_nil : Neutral opening closing [] := fun _ _ => rfl

theorem neutral_append (first second : List Symbol) (one : Neutral opening closing first)
    (two : Neutral opening closing second) : Neutral opening closing (first ++ second) := by
  intro depth deep
  rw [levels_append, one depth deep, Option.bind_some]
  exact two depth deep

theorem neutral_plain (symbol : Symbol) (noOpening : symbol ≠ opening)
    (noClosing : symbol ≠ closing) : Neutral opening closing [symbol] := by
  intro depth deep
  rw [levels, levelAfter, if_neg noOpening, if_neg noClosing, if_neg (by omega)]
  rfl

theorem neutral_all (text : List Symbol)
    (plain : ∀ symbol ∈ text, symbol ≠ opening ∧ symbol ≠ closing) :
    Neutral opening closing text := by
  induction text with
  | nil => exact neutral_nil opening closing
  | cons symbol rest ih =>
      obtain ⟨noOpening, noClosing⟩ := plain symbol List.mem_cons_self
      exact neutral_append opening closing [symbol] rest
        (neutral_plain opening closing symbol noOpening noClosing)
        (ih fun later member => plain later (List.mem_cons_of_mem _ member))

theorem neutral_nested (apart : opening ≠ closing) (inner : List Symbol)
    (within : Neutral opening closing inner) :
    Neutral opening closing (opening :: (inner ++ [closing])) := by
  intro depth deep
  -- One level deeper inside, and back at this one behind the closing bracket.
  rw [levels, levelAfter, if_pos rfl, if_neg (by omega), levels_append,
    within (depth + 1) (by omega), Option.bind_some, levels, levelAfter, if_neg (Ne.symm apart),
    if_pos rfl, Nat.add_sub_cancel, if_neg (by omega)]
  rfl

end Neutral

end SolanaSdk.Nesting
