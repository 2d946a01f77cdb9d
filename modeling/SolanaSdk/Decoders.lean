import Mathlib.Data.List.Basic

/-!
Decoders that take symbols off the front of their input. A decoder recovers a
value from a written form when it reads that form in front of every suffix and
leaves the suffix untouched. Decoders compose, and so do the forms they
recover from; a form that recovers two values recovers one.
-/

namespace SolanaSdk.Decoders

universe u
variable {Symbol : Type u} {Value Other : Type u}

abbrev Decoder (Symbol Value : Type u) := StateT (List Symbol) Option Value

def Recovers (decoder : Decoder Symbol Value) (value : Value) (written : List Symbol) : Prop :=
  ∀ rest, decoder.run (written ++ rest) = some (value, rest)

/-- The next `count` symbols, all of them or none. -/
def exactly (count : Nat) : Decoder Symbol { taken : List Symbol // taken.length = count } :=
  fun input =>
    if enough : count ≤ input.length then
      some (⟨input.take count, List.length_take_of_le enough⟩, input.drop count)
    else none

def symbol : Decoder Symbol Symbol
  | [] => none
  | first :: rest => some (first, rest)

def repeated (item : Decoder Symbol Value) : Nat → Decoder Symbol (List Value)
  | 0 => pure []
  | count + 1 => do
      let first ← item
      let rest ← repeated item count
      pure (first :: rest)

/-- Decoding of a complete input, of which nothing may be left. -/
def whole (decoder : Decoder Symbol Value) (input : List Symbol) : Option Value :=
  match decoder.run input with
  | some (value, []) => some value
  | _ => none

/-- A decoder whose value says how many symbols it has taken. -/
def Takes (decoder : Decoder Symbol Value) (count : Value → Nat) : Prop :=
  ∀ input value rest, decoder.run input = some (value, rest) →
    input.length = count value + rest.length

/-- Two fields in a row. -/
def both (first : Decoder Symbol Value) (second : Decoder Symbol Other) :
    Decoder Symbol (Value × Other) := do
  let value ← first
  let other ← second
  pure (value, other)

theorem recovers_pure (value : Value) : Recovers (pure value : Decoder Symbol Value) value [] :=
  fun _ => rfl

theorem recovers_bind (first : Decoder Symbol Value) (next : Value → Decoder Symbol Other)
    (value : Value) (result : Other) (front back : List Symbol) (head : Recovers first value front)
    (tail : Recovers (next value) result back) :
    Recovers (first >>= next) result (front ++ back) := by
  intro rest
  rw [StateT.run_bind, List.append_assoc, head]
  exact tail rest

/-- A last step that only packs what has been read. -/
theorem recovers_map (first : Decoder Symbol Value) (pack : Value → Other) (value : Value)
    (front : List Symbol) (head : Recovers first value front) :
    Recovers (first >>= fun read => pure (pack read)) (pack value) front := by
  intro rest
  rw [StateT.run_bind, head]
  rfl

theorem recovers_exactly (count : Nat) (taken : { taken : List Symbol // taken.length = count }) :
    Recovers (exactly count) taken taken.val := by
  obtain ⟨written, rfl⟩ := taken
  intro rest
  have enough : written.length ≤ (written ++ rest).length := by simp
  change (if _ : _ then _ else _) = _
  rw [dif_pos enough]
  simp

theorem recovers_symbol (first : Symbol) : Recovers symbol first [first] := fun _ => rfl

theorem recovers_repeated (item : Decoder Symbol Value) (write : Value → List Symbol)
    (values : List Value) (each : ∀ value ∈ values, Recovers item value (write value)) :
    Recovers (repeated item values.length) values (values.flatMap write) := by
  induction values with
  | nil => exact recovers_pure []
  | cons value rest ih =>
      rw [List.flatMap_cons]
      refine recovers_bind _ _ value _ _ _ (each value List.mem_cons_self) ?_
      exact recovers_map _ _ rest _ (ih fun later member =>
        each later (List.mem_cons_of_mem value member))

theorem recovers_both (first : Decoder Symbol Value) (second : Decoder Symbol Other)
    (value : Value) (other : Other) (front back : List Symbol) (head : Recovers first value front)
    (tail : Recovers second other back) :
    Recovers (both first second) (value, other) (front ++ back) :=
  recovers_bind _ _ value _ _ _ head (recovers_map _ _ other _ tail)

/-- A form is the form of at most one value. -/
theorem recovers_unique (decoder : Decoder Symbol Value) (left right : Value)
    (written : List Symbol) (first : Recovers decoder left written)
    (second : Recovers decoder right written) : left = right := by
  have same := (first []).symm.trans (second [])
  exact congrArg Prod.fst (Option.some.inj same)

theorem recovers_whole (decoder : Decoder Symbol Value) (value : Value) (written : List Symbol)
    (recovers : Recovers decoder value written) : whole decoder written = some value := by
  have read := recovers []
  rw [List.append_nil] at read
  rw [whole, read]

section Lengths

theorem takes_exactly (count : Nat) :
    Takes (exactly count : Decoder Symbol { taken : List Symbol // taken.length = count })
      fun _ => count := by
  intro input taken rest read
  change (if _ : _ then _ else _) = _ at read
  split at read
  · rename_i enough
    cases read
    rw [List.length_drop, Nat.add_sub_cancel' enough]
  · cases read

/-- A decoder that has run through two steps has run through both. -/
theorem run_bind_some (first : Decoder Symbol Value) (next : Value → Decoder Symbol Other)
    (input rest : List Symbol) (result : Other)
    (read : (first >>= next).run input = some (result, rest)) :
    ∃ value middle, first.run input = some (value, middle) ∧
      (next value).run middle = some (result, rest) := by
  rw [StateT.run_bind] at read
  cases begun : first.run input with
  | none =>
      rw [begun] at read
      cases read
  | some pair =>
      rw [begun] at read
      exact ⟨pair.1, pair.2, rfl, read⟩

theorem takes_map (first : Decoder Symbol Value) (pack : Value → Other) (front : Value → Nat)
    (count : Other → Nat) (head : Takes first front)
    (same : ∀ value, count (pack value) = front value) :
    Takes (first >>= fun read => pure (pack read)) count := by
  intro input result rest read
  obtain ⟨value, middle, begun, packed⟩ := run_bind_some _ _ _ _ _ read
  cases packed
  rw [same]
  exact head input value rest begun

theorem takes_both (first : Decoder Symbol Value) (second : Decoder Symbol Other)
    (front : Value → Nat) (back : Other → Nat) (head : Takes first front)
    (tail : Takes second back) :
    Takes (both first second) fun read => front read.1 + back read.2 := by
  intro input result rest read
  obtain ⟨value, middle, begun, read⟩ := run_bind_some _ _ _ _ _ read
  obtain ⟨other, last, ended, packed⟩ := run_bind_some _ _ _ _ _ read
  cases packed
  rw [head input value middle begun, tail middle other rest ended, Nat.add_assoc]

theorem takes_whole (decoder : Decoder Symbol Value) (count : Value → Nat)
    (takes : Takes decoder count) (input : List Symbol) (value : Value)
    (read : whole decoder input = some value) : input.length = count value := by
  rw [whole] at read
  split at read
  · rename_i taken ran
    cases read
    exact takes input value [] ran
  · cases read

end Lengths

section Extensions

/-- A decoder that has read a value from the front of its input reads the same
value whatever follows. -/
def Extends (decoder : Decoder Symbol Value) : Prop :=
  ∀ input value rest more, decoder.run input = some (value, rest) →
    decoder.run (input ++ more) = some (value, rest ++ more)

/-- A step that looks at no symbol and may refuse. -/
def judge (verdict : Option Value) : Decoder Symbol Value :=
  fun input => verdict.map fun value => (value, input)

theorem recovers_judge (value : Value) :
    Recovers (judge (some value) : Decoder Symbol Value) value [] := fun _ => rfl

theorem extends_judge (verdict : Option Value) :
    Extends (judge verdict : Decoder Symbol Value) := by
  intro input value rest more read
  cases verdict with
  | none => cases read
  | some judged =>
      cases read
      rfl

theorem extends_exactly (count : Nat) :
    Extends (exactly count : Decoder Symbol { taken : List Symbol // taken.length = count }) := by
  intro input taken rest more read
  change (if _ : _ then _ else _) = _ at read
  split at read
  · rename_i enough
    cases read
    have longer : count ≤ (input ++ more).length := by
      rw [List.length_append]
      exact Nat.le_add_right_of_le enough
    change (if _ : _ then _ else _) = _
    rw [dif_pos longer, List.drop_append_of_le_length enough]
    simp only [List.take_append_of_le_length enough]
  · cases read

theorem extends_bind (first : Decoder Symbol Value) (next : Value → Decoder Symbol Other)
    (head : Extends first) (tail : ∀ value, Extends (next value)) : Extends (first >>= next) := by
  intro input result rest more read
  obtain ⟨value, middle, begun, ended⟩ := run_bind_some first next input rest result read
  rw [StateT.run_bind, head input value middle more begun]
  exact tail value middle result rest more ended

theorem extends_pure (value : Value) : Extends (pure value : Decoder Symbol Value) := by
  intro input result rest more read
  cases read
  rfl

/-- From a proper part of a written form nothing is read at all. -/
theorem part_refused (decoder : Decoder Symbol Value) (extension : Extends decoder) (value : Value)
    (written front back : List Symbol) (recovers : Recovers decoder value written)
    (split : front ++ back = written) (some : back ≠ []) : decoder.run front = none := by
  cases early : decoder.run front with
  | none => rfl
  | some read =>
      have whole := extension front read.1 read.2 back early
      have complete := recovers []
      rw [List.append_nil, ← split, whole] at complete
      have none : read.2 ++ back = [] := congrArg Prod.snd (Option.some.inj complete)
      exact absurd (List.append_eq_nil_iff.mp none).2 some

end Extensions
end SolanaSdk.Decoders
