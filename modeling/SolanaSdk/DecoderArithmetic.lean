import Mathlib.Algebra.Order.Ring.Int
import SolanaSdk.Base64

/-!
The accumulator of the RPC base64 decoder in unbounded integers. The loop never
clears it, so it holds the number that all letters read so far spell, and
outgrows the signed 32 bits of the source's `int` with the sixth or seventh
significant letter. The shift by which it is read never leaves the word.
-/

namespace SolanaSdk.DecoderArithmetic

open ByteData Base64

/-- A turn of the decoding loop that has read a letter: the accumulator it
computes and, when it pushes a byte, the amount it shifts the accumulator by. -/
structure Turn where
  val : Int
  shift : Option Int
  deriving DecidableEq

def sextetOf (c : UInt8) : Int := decodeTable.getD c.toNat (-1)

/-- `decodeLoop` with its `int` replaced by an integer. -/
def decodeTurns (val valb : Int) : Text → List Turn
  | [] => []
  | c :: rest =>
      if sextetOf c = -1 then [] else
        let val := val * 64 + sextetOf c
        let valb := valb + 6
        if 0 ≤ valb then ⟨val, some valb⟩ :: decodeTurns val (valb - 8) rest
        else ⟨val, none⟩ :: decodeTurns val valb rest

/-- The accumulator is the value of a signed 32-bit word, and no shift of it
is by its width or more. -/
def Turn.Defined (turn : Turn) : Prop :=
  -2 ^ 31 ≤ turn.val ∧ turn.val < 2 ^ 31 ∧ ∀ shift ∈ turn.shift, 0 ≤ shift ∧ shift ≤ 31

instance (turn : Turn) : Decidable turn.Defined :=
  match turn with
  | ⟨val, some shift⟩ =>
      decidable_of_iff (-2 ^ 31 ≤ val ∧ val < 2 ^ 31 ∧ 0 ≤ shift ∧ shift ≤ 31)
        (by simp [Turn.Defined])
  | ⟨val, none⟩ => decidable_of_iff (-2 ^ 31 ≤ val ∧ val < 2 ^ 31) (by simp [Turn.Defined])

/-- The letters before the loop stops, at a pad or at another foreign char. -/
def letters (input : Text) : Text := input.takeWhile fun c => sextetOf c ≠ -1

/-- The letters behind the leading 'A's, which have no value. -/
def significant (input : Text) : Text := (letters input).dropWhile (· = 65)

/-- At most five significant letters, or six of which the first is 'B'. -/
def Narrow (input : Text) : Prop :=
  (significant input).length ≤ 5 ∨
    (significant input).length = 6 ∧ (significant input).head? = some 66

theorem sextet_range (c : UInt8) (inside : sextetOf c ≠ -1) :
    0 ≤ sextetOf c ∧ sextetOf c < 64 ∧ (sextetOf c = 0 ↔ c = 65) ∧ (sextetOf c = 1 ↔ c = 66) := by
  have every : ∀ code : Fin 256, sextetOf (UInt8.ofNat code) ≠ -1 →
      0 ≤ sextetOf (UInt8.ofNat code) ∧ sextetOf (UInt8.ofNat code) < 64 ∧
        (sextetOf (UInt8.ofNat code) = 0 ↔ UInt8.ofNat code = 65) ∧
        (sextetOf (UInt8.ofNat code) = 1 ↔ UInt8.ofNat code = 66) := by decide +kernel
  have here := every ⟨c.toNat, c.toNat_lt⟩
  rw [UInt8.ofNat_toNat] at here
  exact here inside

section Steps

/-- The pending bits before a letter: a multiple of two from eight missing to two missing. -/
def InStep (valb : Int) : Prop := valb = -8 ∨ valb = -6 ∨ valb = -4 ∨ valb = -2

theorem turns_stop (val valb : Int) (c : UInt8) (rest : Text) (foreign : sextetOf c = -1) :
    decodeTurns val valb (c :: rest) = [] := by
  rw [decodeTurns, if_pos foreign]

/-- Everything that one turn does. -/
theorem turns_step (val valb : Int) (c : UInt8) (rest : Text) (inside : sextetOf c ≠ -1) :
    ∃ shift next, decodeTurns val valb (c :: rest) =
        ⟨val * 64 + sextetOf c, shift⟩ :: decodeTurns (val * 64 + sextetOf c) next rest ∧
      (InStep valb → InStep next ∧ ∀ amount ∈ shift, 0 ≤ amount ∧ amount ≤ 31) := by
  rw [decodeTurns, if_neg inside]
  by_cases full : 0 ≤ valb + 6
  · simp only [if_pos full]
    refine ⟨some (valb + 6), valb + 6 - 8, rfl, fun step => ⟨?_, ?_⟩⟩
    · unfold InStep at step ⊢
      omega
    · rintro amount ⟨⟩
      unfold InStep at step
      omega
  · simp only [if_neg full]
    refine ⟨none, valb + 6, rfl, fun step => ⟨?_, by simp⟩⟩
    unfold InStep at step ⊢
    omega

theorem letters_stop (c : UInt8) (rest : Text) (foreign : sextetOf c = -1) :
    letters (c :: rest) = [] := by
  simp [letters, foreign]

theorem letters_step (c : UInt8) (rest : Text) (inside : sextetOf c ≠ -1) :
    letters (c :: rest) = c :: letters rest := by
  simp [letters, inside]

end Steps

/-- No input makes the loop shift by a negative amount or by the width of the word. -/
theorem shifts_inside (input : Text) (val valb : Int) (step : InStep valb) :
    ∀ turn ∈ decodeTurns val valb input, ∀ shift ∈ turn.shift, 0 ≤ shift ∧ shift ≤ 31 := by
  induction input generalizing val valb with
  | nil => simp [decodeTurns]
  | cons c rest ih =>
      by_cases inside : sextetOf c = -1
      · simp [turns_stop val valb c rest inside]
      · obtain ⟨shift, next, turns, kept⟩ := turns_step val valb c rest inside
        obtain ⟨later, small⟩ := kept step
        rw [turns]
        intro turn member
        rcases List.mem_cons.mp member with rfl | behind
        · exact small
        · exact ih _ next later turn behind

/-- The accumulator stays below the next number with as many more sextets. -/
theorem turns_below (input : Text) (val valb : Int) (positive : 0 ≤ val) :
    ∀ turn ∈ decodeTurns val valb input,
      0 ≤ turn.val ∧ turn.val < (val + 1) * 64 ^ (letters input).length := by
  induction input generalizing val valb with
  | nil => simp [decodeTurns]
  | cons c rest ih =>
      by_cases inside : sextetOf c = -1
      · simp [turns_stop val valb c rest inside]
      · obtain ⟨shift, next, turns, -⟩ := turns_step val valb c rest inside
        obtain ⟨low, high, -⟩ := sextet_range c inside
        have grown : 0 ≤ val * 64 + sextetOf c := by omega
        have power : (0 : Int) < 64 ^ (letters rest).length := Int.pow_pos (by decide)
        have bound : (val * 64 + sextetOf c + 1) * 64 ^ (letters rest).length ≤
            (val + 1) * 64 ^ (letters (c :: rest)).length := by
          calc (val * 64 + sextetOf c + 1) * 64 ^ (letters rest).length
              ≤ ((val + 1) * 64) * 64 ^ (letters rest).length :=
                Int.mul_le_mul_of_nonneg_right (by omega) (Int.le_of_lt power)
            _ = (val + 1) * 64 ^ (letters (c :: rest)).length := by
                rw [letters_step c rest inside, List.length_cons, pow_succ', mul_assoc]
        rw [turns]
        intro turn member
        rcases List.mem_cons.mp member with rfl | behind
        · refine ⟨grown, Int.lt_of_lt_of_le ?_ bound⟩
          calc val * 64 + sextetOf c < (val * 64 + sextetOf c + 1) * 1 := by omega
            _ ≤ (val * 64 + sextetOf c + 1) * 64 ^ (letters rest).length :=
                Int.mul_le_mul_of_nonneg_left power (by omega)
        · obtain ⟨still, below⟩ := ih _ next grown turn behind
          exact ⟨still, Int.lt_of_lt_of_le below bound⟩

/-- The last turn has moved the accumulator up by one sextet for each letter. -/
theorem turns_reach (input : Text) (val valb : Int) (more : letters input ≠ []) :
    ∃ turn ∈ decodeTurns val valb input, val * 64 ^ (letters input).length ≤ turn.val := by
  induction input generalizing val valb with
  | nil => exact absurd rfl more
  | cons c rest ih =>
      by_cases inside : sextetOf c = -1
      · exact absurd (letters_stop c rest inside) more
      · obtain ⟨shift, next, turns, -⟩ := turns_step val valb c rest inside
        have low := (sextet_range c inside).1
        rw [turns, letters_step c rest inside]
        by_cases last : letters rest = []
        · refine ⟨_, List.mem_cons_self, ?_⟩
          rw [last, List.length_singleton, pow_one]
          exact Int.le_add_of_nonneg_right low
        · obtain ⟨turn, member, reached⟩ := ih (val * 64 + sextetOf c) next last
          refine ⟨turn, List.mem_cons_of_mem _ member, Int.le_trans ?_ reached⟩
          rw [List.length_cons, pow_succ', ← mul_assoc]
          exact Int.mul_le_mul_of_nonneg_right (Int.le_add_of_nonneg_right low)
            (Int.le_of_lt (Int.pow_pos (by decide)))

section Widths

theorem narrow_stop (c : UInt8) (rest : Text) (foreign : sextetOf c = -1) :
    Narrow (c :: rest) := by
  simp [Narrow, significant, letters_stop c rest foreign]

theorem narrow_skip (rest : Text) : Narrow (65 :: rest) ↔ Narrow rest := by
  have same : significant (65 :: rest) = significant rest := by
    rw [significant, letters_step 65 rest (by decide)]
    exact List.dropWhile_cons_of_pos (by decide)
  rw [Narrow, Narrow, same]

theorem narrow_first (c : UInt8) (rest : Text) (inside : sextetOf c ≠ -1) (valued : c ≠ 65) :
    Narrow (c :: rest) ↔
      (letters rest).length ≤ 4 ∨ (letters rest).length = 5 ∧ c = 66 := by
  have same : significant (c :: rest) = c :: letters rest := by
    rw [significant, letters_step c rest inside]
    exact List.dropWhile_cons_of_neg (by simpa using valued)
  have few : (letters rest).length + 1 ≤ 5 ↔ (letters rest).length ≤ 4 := by omega
  have six : (letters rest).length + 1 = 6 ↔ (letters rest).length = 5 := by omega
  rw [Narrow, same, List.length_cons, List.head?_cons, Option.some.injEq, few, six]

/-- Behind a first significant letter the accumulator fits iff few letters follow. -/
theorem fits_behind (rest : Text) (first valb : Int) (positive : 0 < first) (small : first < 64) :
    (∀ turn ∈ decodeTurns first valb rest, turn.val < 2 ^ 31) ↔
      (letters rest).length ≤ 4 ∨ (letters rest).length = 5 ∧ first = 1 := by
  constructor
  · intro fits
    by_contra long
    have more : letters rest ≠ [] := by
      intro none
      simp [none] at long
    obtain ⟨turn, member, reached⟩ := turns_reach rest first valb more
    have below := fits turn member
    by_cases five : (letters rest).length = 5
    · rw [five] at reached long
      simp only [true_and, not_or] at long
      omega
    · obtain ⟨excess, split⟩ := Nat.exists_eq_add_of_le (show 6 ≤ (letters rest).length by omega)
      have power : (64 : Int) ^ 6 ≤ 64 ^ (letters rest).length := by
        rw [split, pow_add]
        exact le_mul_of_one_le_right (by decide) (Int.pow_pos (by decide))
      have scaled : (64 : Int) ^ (letters rest).length ≤ first * 64 ^ (letters rest).length :=
        le_mul_of_one_le_left (Int.le_of_lt (Int.pow_pos (by decide))) positive
      have wide : (2 : Int) ^ 31 < 64 ^ 6 := by decide
      omega
  · intro short turn member
    have below := (turns_below rest first valb (Int.le_of_lt positive) turn member).2
    rcases short with few | ⟨five, one⟩
    · have power : (64 : Int) ^ (letters rest).length ≤ 64 ^ 4 :=
        pow_le_pow_right₀ (by decide) few
      have scaled : (first + 1) * 64 ^ (letters rest).length ≤ 64 * 64 ^ 4 :=
        Int.mul_le_mul (by omega) power (Int.le_of_lt (Int.pow_pos (by decide))) (by decide)
      have narrow : (64 : Int) * 64 ^ 4 < 2 ^ 31 := by decide
      omega
    · rw [five, one] at below
      exact below

theorem fits_narrow (input : Text) (valb : Int) :
    (∀ turn ∈ decodeTurns 0 valb input, turn.val < 2 ^ 31) ↔ Narrow input := by
  induction input generalizing valb with
  | nil => simp [decodeTurns, Narrow, significant, letters]
  | cons c rest ih =>
      by_cases inside : sextetOf c = -1
      · simp [turns_stop 0 valb c rest inside, narrow_stop c rest inside]
      · obtain ⟨shift, next, turns, -⟩ := turns_step 0 valb c rest inside
        obtain ⟨low, high, zero, one⟩ := sextet_range c inside
        rw [turns, List.forall_mem_cons]
        simp only [zero_mul, zero_add]
        by_cases leading : c = 65
        · -- A leading 'A' leaves the accumulator at zero.
          rw [zero.mpr leading, leading, narrow_skip, ← ih next]
          exact and_iff_right (by decide)
        · have positive : 0 < sextetOf c := by
            have different := mt zero.mp leading
            omega
          rw [narrow_first c rest inside leading, fits_behind rest _ next positive high, one]
          exact and_iff_right (Int.lt_trans high (by decide))

end Widths

/-- The word that the loop computes in is the accumulator modulo 2^32: what it
pushes is read off the turns. -/
theorem loop_of_turns (input : Text) (val valb : Int) :
    decodeLoop (BitVec.ofInt 32 val) valb input =
      (decodeTurns val valb input).filterMap fun turn =>
        turn.shift.map fun shift => shiftedByte (BitVec.ofInt 32 turn.val) shift.toNat := by
  induction input generalizing val valb with
  | nil => rfl
  | cons c rest ih =>
      have word : BitVec.ofInt 32 val <<< 6 + BitVec.ofInt 32 (sextetOf c) =
          BitVec.ofInt 32 (val * 64 + sextetOf c) := by
        rw [BitVec.ofInt_add, BitVec.ofInt_mul]
        congr 1
        apply BitVec.eq_of_toNat_eq
        rw [BitVec.toNat_shiftLeft, BitVec.toNat_mul, Nat.shiftLeft_eq]
        rfl
      rw [decodeLoop, decodeTurns]
      change (if sextetOf c = -1 then [] else _) = _
      by_cases inside : sextetOf c = -1
      · rw [if_pos inside, if_pos inside]
        rfl
      · simp only [if_neg inside]
        by_cases full : 0 ≤ valb + 6
        · simp only [if_pos full, List.filterMap_cons, Option.map_some, ← ih, ← word]
          rfl
        · simp only [if_neg full, List.filterMap_cons, Option.map_none, ← ih, ← word]
          rfl

/-- The arithmetic of the decoder is defined exactly on the inputs whose letters
spell a number of at most 31 bits. -/
theorem decode_arithmetic_defined (input : Text) :
    (∀ turn ∈ decodeTurns 0 (-8) input, turn.Defined) ↔ Narrow input := by
  rw [← fits_narrow input (-8)]
  constructor
  · exact fun defined turn member => (defined turn member).2.1
  · intro fits turn member
    have positive := (turns_below input 0 (-8) (Int.le_refl 0) turn member).1
    refine ⟨Int.le_trans (by decide) positive, fits turn member, ?_⟩
    exact shifts_inside input 0 (-8) (Or.inl rfl) turn member

theorem decode_arithmetic_overflows :
    ¬ ∀ input, ∀ turn ∈ decodeTurns 0 (-8) input, turn.Defined := by
  intro every
  have defined := every (ofLiteral "CAAAAA") ⟨2 ^ 31, some 4⟩ (by decide)
  exact absurd defined (by decide)

end SolanaSdk.DecoderArithmetic
