import Mathlib.Data.List.Prime
import Mathlib.NumberTheory.LucasPrimality

/-!
Primality from a Lucas witness. Powers are reduced at every squaring, so the
kernel evaluates a test of a few hundred bits in one `decide`.
-/

namespace SolanaSdk.LucasPrimes

/-- `base ^ exponent % modulus` by repeated squaring. -/
def powMod (modulus base exponent : Nat) : Nat :=
  if exponent = 0 then 1 % modulus
  else
    let half := powMod modulus base (exponent / 2)
    let square := half * half % modulus
    if exponent % 2 = 1 then square * base % modulus else square
termination_by exponent
decreasing_by omega

theorem square_pow_mod (modulus base exponent : Nat) :
    base ^ exponent % modulus * (base ^ exponent % modulus) % modulus =
      base ^ (2 * exponent) % modulus := by
  rw [← Nat.mul_mod, ← Nat.pow_add, Nat.two_mul]

theorem pow_mod_exact (modulus base exponent : Nat) :
    powMod modulus base exponent = base ^ exponent % modulus := by
  induction exponent using Nat.strong_induction_on with
  | h exponent ih =>
      by_cases zero : exponent = 0
      · rw [powMod, if_pos zero, zero, Nat.pow_zero]
      · have parts := Nat.div_add_mod exponent 2
        rw [powMod, if_neg zero, ih (exponent / 2) (by omega)]
        dsimp only
        rw [square_pow_mod]
        by_cases odd : exponent % 2 = 1
        · rw [odd] at parts
          rw [if_pos odd, Nat.mod_mul_mod, ← Nat.pow_add_one, parts]
        · have even : 2 * (exponent / 2) = exponent := by omega
          rw [if_neg odd, even]

theorem pow_cast_eq_one (modulus base exponent : Nat) (large : 1 < modulus) :
    (base : ZMod modulus) ^ exponent = 1 ↔ powMod modulus base exponent = 1 := by
  rw [pow_mod_exact, ← Nat.cast_pow, ← Nat.cast_one, ZMod.natCast_eq_natCast_iff',
    Nat.mod_eq_of_lt large]

/-- A number is prime when some base has the full order modulo it; only the
prime factors of `modulus - 1` need be tested. -/
theorem prime_of_witness (modulus base : Nat) (factors : List Nat) (large : 1 < modulus)
    (primes : ∀ factor ∈ factors, factor.Prime) (product : factors.prod = modulus - 1)
    (full : powMod modulus base (modulus - 1) = 1)
    (proper : ∀ factor ∈ factors, powMod modulus base ((modulus - 1) / factor) ≠ 1) :
    modulus.Prime := by
  apply lucas_primality modulus (base : ZMod modulus)
  · exact (pow_cast_eq_one modulus base _ large).mpr full
  · intro divisor prime divides one
    rw [← product] at divides
    obtain ⟨factor, member, dividesFactor⟩ := (Prime.dvd_prod_iff prime.prime).mp divides
    have same : divisor = factor :=
      (Nat.prime_dvd_prime_iff_eq prime (primes factor member)).mp dividesFactor
    subst same
    exact proper divisor member ((pow_cast_eq_one modulus base _ large).mp one)

end SolanaSdk.LucasPrimes
