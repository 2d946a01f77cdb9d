import Mathlib.Data.List.Basic

/-!
Byte strings, fixed-size byte arrays and the exceptions that the modelled code
throws. A `std::string` is a byte string here: the code reads single chars.
-/

namespace SolanaSdk.ByteData

abbrev Bytes := List UInt8
abbrev Text := List UInt8

/-- The bytes of a string literal of the source, all of which are ASCII. -/
def ofLiteral (literal : String) : Text := literal.toList.map fun c => UInt8.ofNat c.toNat

/-- A check of the bytes in the string, not of all 256. -/
theorem every_byte {holds : UInt8 → Prop} [DecidablePred holds] (bytes : Bytes)
    (checked : (bytes.all fun byte => decide (holds byte)) = true) : ∀ byte ∈ bytes, holds byte :=
  fun byte member => of_decide_eq_true (List.all_eq_true.mp checked byte member)

/-- `std::array<uint8_t, n>`. -/
structure FixedBytes (n : Nat) where
  bytes : Bytes
  size : bytes.length = n
  deriving DecidableEq

namespace FixedBytes

def fill (n : Nat) (byte : UInt8) : FixedBytes n := ⟨List.replicate n byte, List.length_replicate⟩

theorem same_bytes {n : Nat} (left right : FixedBytes n) (same : left.bytes = right.bytes) :
    left = right := by
  cases left
  cases right
  cases same
  rfl

end FixedBytes

/-- The two exception classes of the modelled code; `findProgramAddressSync`
catches only the first. -/
inductive Failure where
  | runtimeError (what : String)
  | invalidArgument (what : String)
  deriving DecidableEq

/-- The steps of a fallible computation that returned have returned too. -/
theorem bind_returned {Problem First Result : Type} (first : Except Problem First)
    (next : First → Except Problem Result) (result : Result)
    (returned : first >>= next = .ok result) :
    ∃ middle, first = .ok middle ∧ next middle = .ok result := by
  cases first with
  | error problem => cases returned
  | ok middle => exact ⟨middle, rfl, returned⟩

/-- A fallible loop whose steps all succeed is a map. -/
theorem map_m_total {m : Type → Type} [Monad m] [LawfulMonad m] {Row Out : Type}
    (step : Row → m Out) (out : Row → Out) (rows : List Row)
    (total : ∀ row ∈ rows, step row = pure (out row)) : rows.mapM step = pure (rows.map out) := by
  induction rows with
  | nil => rfl
  | cons row rest ih =>
      have head := total row List.mem_cons_self
      have tail := ih fun later member => total later (List.mem_cons_of_mem row member)
      simp [List.mapM_cons, head, tail]

/-- A loop over the positions of a list goes through the list. -/
theorem range_map_get {Row : Type} (rows : List Row) (default : Row) :
    (List.range rows.length).map (rows.getD · default) = rows := by
  apply List.ext_getElem
  · rw [List.length_map, List.length_range]
  · intro i left inside
    rw [List.getElem_map, List.getElem_range, List.getD_eq_getElem?_getD,
      List.getElem?_eq_getElem inside, Option.getD_some]

/-- A fallible loop that returns has returned what its steps return. -/
theorem map_m_returned {Problem Row Out : Type} (step : Row → Except Problem Out)
    (out : Row → Out) (rows : List Row) (results : List Out)
    (each : ∀ row ∈ rows, ∀ result, step row = .ok result → result = out row)
    (returned : rows.mapM step = .ok results) : results = rows.map out := by
  induction rows generalizing results with
  | nil =>
      cases returned
      rfl
  | cons row rest ih =>
      rw [List.mapM_cons] at returned
      obtain ⟨result, head, returned⟩ := bind_returned _ _ _ returned
      obtain ⟨later, tail, returned⟩ := bind_returned _ _ _ returned
      cases returned
      rw [each row List.mem_cons_self result head,
        ih later (fun row member => each row (List.mem_cons_of_mem _ member)) tail]
      rfl

/-- No step of a fallible loop that returns has failed. -/
theorem map_m_each {Problem Row Out : Type} (step : Row → Except Problem Out) (rows : List Row)
    (results : List Out) (returned : rows.mapM step = .ok results) (row : Row)
    (member : row ∈ rows) : ∃ result, step row = .ok result := by
  induction rows generalizing results with
  | nil => cases member
  | cons first rest ih =>
      rw [List.mapM_cons] at returned
      obtain ⟨result, head, returned⟩ := bind_returned _ _ _ returned
      obtain ⟨later, tail, -⟩ := bind_returned _ _ _ returned
      rcases List.mem_cons.mp member with rfl | behind
      · exact ⟨result, head⟩
      · exact ih later tail behind

end SolanaSdk.ByteData
