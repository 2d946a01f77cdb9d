import Mathlib.Algebra.Order.Ring.Nat
import Mathlib.Tactic.Ring.RingNF

/-!
Digits of one width in bits repacked into digits of a wider one, most significant
first. The packer holds all bits that it has read and writes a digit as soon as it
has enough of them. What it has written is the number it has read, less the bits
that do not fill a digit.
-/

namespace SolanaSdk.Repacking

/-- The number that digits of `width` bits spell. -/
def number (width : Nat) : List Nat → Nat
  | [] => 0
  | digit :: rest => digit * 2 ^ (width * rest.length) + number width rest

def repack (width out : Nat) (held pending : Nat) : List Nat → List Nat
  | [] => []
  | digit :: rest =>
      let held := held * 2 ^ width + digit
      if out ≤ pending + width then
        held / 2 ^ (pending + width - out) % 2 ^ out ::
          repack width out held (pending + width - out) rest
      else repack width out held (pending + width) rest

section Numbers
variable (width : Nat)

theorem number_lt (digits : List Nat) (small : ∀ digit ∈ digits, digit < 2 ^ width) :
    number width digits < 2 ^ (width * digits.length) := by
  induction digits with
  | nil => exact Nat.one_pos
  | cons digit rest ih =>
      have below := ih fun later member => small later (List.mem_cons_of_mem _ member)
      have first : digit + 1 ≤ 2 ^ width := small digit List.mem_cons_self
      rw [number, List.length_cons, Nat.mul_succ, Nat.add_comm _ width, Nat.pow_add]
      calc digit * 2 ^ (width * rest.length) + number width rest
          < (digit + 1) * 2 ^ (width * rest.length) := by
            rw [Nat.succ_mul]
            exact Nat.add_lt_add_left below _
        _ ≤ 2 ^ width * 2 ^ (width * rest.length) := Nat.mul_le_mul_right _ first

theorem number_injective (left right : List Nat) (small : ∀ digit ∈ left, digit < 2 ^ width)
    (small' : ∀ digit ∈ right, digit < 2 ^ width) (long : left.length = right.length)
    (same : number width left = number width right) : left = right := by
  induction left generalizing right with
  | nil => exact (List.length_eq_zero_iff.mp long.symm).symm
  | cons digit rest ih =>
      cases right with
      | nil => cases long
      | cons digit' rest' =>
          have length : rest.length = rest'.length := Nat.succ.inj long
          have later : ∀ digit ∈ rest, digit < 2 ^ width := fun later member =>
            small later (List.mem_cons_of_mem _ member)
          have later' : ∀ digit ∈ rest', digit < 2 ^ width := fun later member =>
            small' later (List.mem_cons_of_mem _ member)
          have below := number_lt width rest later
          have below' := number_lt width rest' later'
          rw [length] at below
          rw [number, number, length] at same
          have tails := congrArg (· % 2 ^ (width * rest'.length)) same
          simp only [Nat.mul_add_mod_of_lt below, Nat.mul_add_mod_of_lt below'] at tails
          rw [tails] at same
          have heads := Nat.eq_of_mul_eq_mul_right (Nat.two_pow_pos _) (Nat.add_right_cancel same)
          rw [heads, ih rest' later later' length tails]

end Numbers

section Packing
variable (width out : Nat)

/-- The bits of the pending ones and one more digit. -/
theorem held_bits (held pending digit : Nat) (small : digit < 2 ^ width) :
    (held * 2 ^ width + digit) % 2 ^ (pending + width) = held % 2 ^ pending * 2 ^ width + digit := by
  rw [Nat.add_comm pending, Nat.pow_add, Nat.mod_mul, Nat.mul_add_mod_of_lt small, Nat.mul_comm held,
    Nat.mul_add_div (Nat.two_pow_pos width), Nat.div_eq_of_lt small, Nat.add_zero, Nat.add_comm,
    Nat.mul_comm]

/-- A digit is read behind the pending bits. -/
theorem digit_read (held pending digit places tail : Nat) (small : digit < 2 ^ width) :
    held % 2 ^ pending * 2 ^ (width * (places + 1)) + (digit * 2 ^ (width * places) + tail) =
      (held * 2 ^ width + digit) % 2 ^ (pending + width) * 2 ^ (width * places) + tail := by
  rw [held_bits width held pending digit small, Nat.mul_succ, Nat.add_comm _ width, Nat.pow_add,
    ← Nat.mul_assoc, Nat.add_mul, Nat.add_assoc]

/-- A digit is written in front of those that come later. -/
theorem digit_written (spare places rest written tail later left : Nat)
    (kept : rest * 2 ^ places + tail = later * 2 ^ ((spare + places) % out) + left) :
    (rest + 2 ^ spare * written) * 2 ^ places + tail =
      (written * 2 ^ (out * ((spare + places) / out)) + later) *
        2 ^ ((spare + places) % out) + left := by
  have power : 2 ^ spare * 2 ^ places =
      2 ^ (out * ((spare + places) / out)) * 2 ^ ((spare + places) % out) := by
    rw [← Nat.pow_add, ← Nat.pow_add, Nat.div_add_mod]
  calc (rest + 2 ^ spare * written) * 2 ^ places + tail
      = written * (2 ^ spare * 2 ^ places) + (rest * 2 ^ places + tail) := by ring
    _ = _ := by
        rw [power, kept]
        ring

/-- The number read so far is the one written and the bits that are left. -/
theorem repack_number (narrow : width ≤ out) (digits : List Nat)
    (small : ∀ digit ∈ digits, digit < 2 ^ width) (held pending : Nat) (few : pending < out) :
    (repack width out held pending digits).length = (pending + width * digits.length) / out ∧
      ∃ left < 2 ^ ((pending + width * digits.length) % out),
        held % 2 ^ pending * 2 ^ (width * digits.length) + number width digits =
          number out (repack width out held pending digits) *
            2 ^ ((pending + width * digits.length) % out) + left := by
  induction digits generalizing held pending with
  | nil =>
      refine ⟨?_, held % 2 ^ pending, ?_, ?_⟩
      · exact (Nat.div_eq_of_lt few).symm
      · change _ < 2 ^ (pending % out)
        rw [Nat.mod_eq_of_lt few]
        exact Nat.mod_lt _ (Nat.two_pow_pos pending)
      · change _ * 2 ^ 0 + 0 = 0 * _ + _
        omega
  | cons digit rest ih =>
      have later : ∀ digit ∈ rest, digit < 2 ^ width := fun later member =>
        small later (List.mem_cons_of_mem _ member)
      rw [repack, List.length_cons, number,
        digit_read width held pending digit _ _ (small digit List.mem_cons_self)]
      by_cases full : out ≤ pending + width
      · obtain ⟨length, left, bound, kept⟩ := ih later (held * 2 ^ width + digit)
          (pending + width - out) (by omega)
        have more : pending + width * (rest.length + 1) =
            pending + width - out + width * rest.length + out := by
          rw [Nat.mul_succ]
          omega
        have parts : (held * 2 ^ width + digit) % 2 ^ (pending + width) =
            (held * 2 ^ width + digit) % 2 ^ (pending + width - out) +
              2 ^ (pending + width - out) *
                ((held * 2 ^ width + digit) / 2 ^ (pending + width - out) % 2 ^ out) := by
          rw [← Nat.mod_mul, ← Nat.pow_add, Nat.sub_add_cancel full]
        rw [if_pos full, more, Nat.add_mod_right, Nat.add_div_right _ (by omega), List.length_cons,
          parts, number, length]
        exact ⟨rfl, left, bound, digit_written out _ _ _ _ _ _ _ kept⟩
      · obtain ⟨length, left, bound, kept⟩ := ih later (held * 2 ^ width + digit)
          (pending + width) (by omega)
        have more : pending + width * (rest.length + 1) =
            pending + width + width * rest.length := by
          rw [Nat.mul_succ]
          omega
        rw [if_neg full, more]
        exact ⟨length, left, bound, kept⟩

/-- What is written from the start: as many digits as there are bits for, and the
number read without the bits behind them. -/
theorem repacked (narrow : width ≤ out) (positive : 0 < out) (digits : List Nat)
    (small : ∀ digit ∈ digits, digit < 2 ^ width) :
    (repack width out 0 0 digits).length = width * digits.length / out ∧
      number out (repack width out 0 0 digits) =
        number width digits / 2 ^ (width * digits.length % out) := by
  obtain ⟨length, left, bound, kept⟩ := repack_number width out narrow digits small 0 0 positive
  rw [Nat.zero_add] at length bound kept
  rw [Nat.zero_mod, Nat.zero_mul, Nat.zero_add] at kept
  refine ⟨length, ?_⟩
  rw [kept, Nat.mul_comm, Nat.mul_add_div (Nat.two_pow_pos _), Nat.div_eq_of_lt bound, Nat.add_zero]

end Packing

end SolanaSdk.Repacking
