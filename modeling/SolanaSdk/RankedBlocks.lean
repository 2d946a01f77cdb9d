import Mathlib.Data.List.Perm.Basic
import Mathlib.Data.List.Range
import Mathlib.Data.List.Count
import Mathlib.Data.List.Basic

/-!
Lists laid out in blocks of rising rank. In such a list the counts of the lower
ranks are exactly the block boundaries, so a rank can be read off a position.
A stable partition into blocks is ranked and loses no occurrence.
-/

namespace SolanaSdk.RankedBlocks

universe u v
variable {Row : Type u}

def Ranked (rank : Row → Nat) (rows : List Row) : Prop :=
  rows.Pairwise (fun before after => rank before ≤ rank after)

def below (rank : Row → Nat) (bound : Nat) (rows : List Row) : Nat :=
  rows.countP (fun row => rank row < bound)

/-- In a ranked list a position lies under the count of the lower ranks
exactly when its row has a lower rank. -/
theorem ranked_boundary (rank : Row → Nat) (bound : Nat) (rows : List Row)
    (ranked : Ranked rank rows) (index : Nat) (inside : index < rows.length) :
    index < below rank bound rows ↔ rank rows[index] < bound := by
  induction rows generalizing index with
  | nil => simp at inside
  | cons row rest ih =>
      obtain ⟨first, tail⟩ := List.pairwise_cons.mp ranked
      unfold below at ih ⊢
      by_cases low : rank row < bound
      · rw [List.countP_cons_of_pos (by simpa using low)]
        cases index with
        | zero => simpa using low
        | succ index => simpa using ih tail index (by simpa using inside)
      · have high : ∀ later ∈ rest, ¬ rank later < bound := fun later member small =>
          low (Nat.lt_of_le_of_lt (first later member) small)
        have none : (row :: rest).countP (fun row => rank row < bound) = 0 := by
          rw [List.countP_eq_zero]
          intro later member
          rcases List.mem_cons.mp member with rfl | member
          · simpa using low
          · simpa using high later member
        rw [none]
        cases index with
        | zero => simpa using low
        | succ index => simpa using high _ (List.getElem_mem (by simpa using inside))

/-- The rows that pass a test come first exactly when counting them off the
front meets no row that fails it. -/
theorem leading_iff (test : Row → Prop) [DecidablePred test] (rows : List Row) :
    (∀ index (inside : index < rows.length),
      index < rows.countP (fun row => test row) → test rows[index]) ↔
      rows.Pairwise fun before after => test after → test before := by
  induction rows with
  | nil => simp
  | cons row rest ih =>
      rw [List.pairwise_cons, ← ih]
      by_cases passes : test row
      · rw [List.countP_cons_of_pos (by simpa using passes)]
        constructor
        · intro leading
          refine ⟨fun _ _ _ => passes, fun index inside counted => ?_⟩
          exact leading (index + 1) (Nat.succ_lt_succ inside) (Nat.succ_lt_succ counted)
        · rintro ⟨_, leading⟩ index inside counted
          cases index with
          | zero => exact passes
          | succ index =>
              exact leading index (Nat.lt_of_succ_lt_succ inside) (Nat.lt_of_succ_lt_succ counted)
      · rw [List.countP_cons_of_neg (by simpa using passes)]
        -- The head fails, so either side says that no later row passes.
        constructor
        · intro leading
          have nothing : rest.countP (fun row => test row) = 0 := by
            by_contra some_row
            exact passes (leading 0 (Nat.zero_lt_succ _) (Nat.pos_of_ne_zero some_row))
          refine ⟨fun later member passed => ?_, fun index _ counted => ?_⟩
          · exact absurd passed (by simpa using List.countP_eq_zero.mp nothing later member)
          · exact absurd counted (by omega)
        · rintro ⟨alone, _⟩ index _ counted
          have nothing : rest.countP (fun row => test row) = 0 :=
            List.countP_eq_zero.mpr fun later member passed =>
              passes (alone later member (by simpa using passed))
          exact absurd counted (by omega)

def blocks (rank : Row → Nat) (count : Nat) (rows : List Row) : List Row :=
  (List.range count).flatMap fun block => rows.filter fun row => rank row = block

theorem blocks_succ (rank : Row → Nat) (count : Nat) (rows : List Row) :
    blocks rank (count + 1) rows =
      blocks rank count rows ++ rows.filter fun row => rank row = count := by
  simp [blocks, List.range_succ]

theorem mem_blocks (rank : Row → Nat) (count : Nat) (rows : List Row) (row : Row) :
    row ∈ blocks rank count rows ↔ row ∈ rows ∧ rank row < count := by
  simp only [blocks, List.mem_flatMap, List.mem_range, List.mem_filter, decide_eq_true_eq]
  constructor
  · rintro ⟨block, small, member, rfl⟩
    exact ⟨member, small⟩
  · rintro ⟨member, small⟩
    exact ⟨rank row, small, member, rfl⟩

theorem blocks_ranked (rank : Row → Nat) (count : Nat) (rows : List Row) :
    Ranked rank (blocks rank count rows) := by
  induction count with
  | zero => exact List.Pairwise.nil
  | succ count ih =>
      rw [blocks_succ]
      refine List.pairwise_append.mpr ⟨ih, ?_, ?_⟩
      · apply List.pairwise_of_forall_mem_list
        intro before left after right
        have low := (List.mem_filter.mp left).2
        have high := (List.mem_filter.mp right).2
        simp only [decide_eq_true_eq] at low high
        omega
      · intro before left after right
        have low := ((mem_blocks rank count rows before).mp left).2
        have high := (List.mem_filter.mp right).2
        simp only [decide_eq_true_eq] at high
        omega

theorem blocks_perm (rank : Row → Nat) (count : Nat) (rows : List Row) :
    (blocks rank count rows).Perm (rows.filter fun row => rank row < count) := by
  induction count with
  | zero => simp [blocks]
  | succ count ih =>
      have split := List.filter_append_perm (fun row => decide (rank row < count))
        (rows.filter fun row => rank row < count + 1)
      have low : (rows.filter fun row => rank row < count + 1).filter
          (fun row => decide (rank row < count)) = rows.filter fun row => rank row < count := by
        rw [List.filter_filter]
        apply List.filter_congr
        intro row _
        by_cases small : rank row < count
        · simp [small, Nat.lt_succ_of_lt small]
        · simp [small]
      have last : (rows.filter fun row => rank row < count + 1).filter
          (fun row => !decide (rank row < count)) = rows.filter fun row => rank row = count := by
        rw [List.filter_filter]
        apply List.filter_congr
        intro row _
        rw [Bool.eq_iff_iff]
        simp only [Bool.and_eq_true, Bool.not_eq_true', decide_eq_false_iff_not, decide_eq_true_eq]
        omega
      rw [low, last] at split
      rw [blocks_succ]
      exact (ih.append_right _).trans split

/-- A partition into all the ranks that occur keeps every occurrence. -/
theorem blocks_perm_self (rank : Row → Nat) (count : Nat) (rows : List Row)
    (bounded : ∀ row ∈ rows, rank row < count) : (blocks rank count rows).Perm rows := by
  have all : rows.filter (fun row => decide (rank row < count)) = rows :=
    List.filter_eq_self.mpr (by simpa using bounded)
  simpa [all] using blocks_perm rank count rows

/-- If one test implies another, equal counts make them agree on every row. -/
theorem count_same (narrow wide : Row → Bool) (rows : List Row)
    (implied : ∀ row ∈ rows, narrow row = true → wide row = true)
    (same : rows.countP narrow = rows.countP wide) :
    ∀ row ∈ rows, wide row = true → narrow row = true := by
  induction rows with
  | nil => exact List.forall_mem_nil _
  | cons row rest ih =>
      obtain ⟨here, later⟩ := List.forall_mem_cons.mp implied
      have fewer := List.countP_mono_left later
      rw [List.countP_cons, List.countP_cons] at same
      cases first : narrow row with
      | true =>
          rw [first, here first] at same
          exact List.forall_mem_cons.mpr ⟨fun _ => first, ih later (Nat.add_right_cancel same)⟩
      | false =>
          cases second : wide row with
          | true =>
              rw [first, second] at same
              simp only [Bool.false_eq_true, if_false, if_true] at same
              omega
          | false =>
              rw [first, second] at same
              refine List.forall_mem_cons.mpr ⟨fun wider => ?_, ih later (Nat.add_right_cancel same)⟩
              rw [second] at wider
              cases wider

/-- A counting loop over a byte-wide counter: `if (test(row)) ++count`. -/
def byteCount (test : Row → Bool) (rows : List Row) : UInt8 :=
  rows.foldl (fun count row => if test row then count + 1 else count) 0

theorem byte_count_map {Other : Type v} (test : Row → Bool) (view : Other → Row)
    (rows : List Other) : byteCount test (rows.map view) = byteCount (test ∘ view) rows := by
  simp [byteCount, List.foldl_map]

theorem byte_count_from (test : Row → Bool) (rows : List Row) (start : UInt8) :
    rows.foldl (fun count row => if test row then count + 1 else count) start =
      start + UInt8.ofNat (rows.countP test) := by
  induction rows generalizing start with
  | nil => simp
  | cons row rest ih =>
      rw [List.foldl_cons, ih]
      by_cases hit : test row
      · simp only [hit, if_true, List.countP_cons_of_pos, UInt8.ofNat_add]
        rw [UInt8.add_assoc, UInt8.add_comm 1]
        rfl
      · simp [hit]

theorem byte_count_mod (test : Row → Bool) (rows : List Row) :
    (byteCount test rows).toNat = rows.countP test % 256 := by
  rw [byteCount, byte_count_from, UInt8.zero_add, UInt8.toNat_ofNat']

theorem byte_count_exact (test : Row → Bool) (rows : List Row)
    (small : rows.countP test ≤ 255) : (byteCount test rows).toNat = rows.countP test := by
  rw [byte_count_mod, Nat.mod_eq_of_lt (by omega)]

/-- The counter does not see the order of the rows. -/
theorem byte_count_perm (test : Row → Bool) (rows reordered : List Row)
    (same : rows.Perm reordered) : byteCount test rows = byteCount test reordered := by
  rw [byteCount, byteCount, byte_count_from, byte_count_from, same.countP_eq]

end SolanaSdk.RankedBlocks
