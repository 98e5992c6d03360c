import Mathlib.Algebra.BigOperators.Associated
import Mathlib.NumberTheory.LucasPrimality

/-!
Primality of a number given a primitive root and the prime factors of the number below it.

The powers are computed by squaring, so that they can be evaluated for large numbers.
-/

namespace Utxopia.Primality

/-- `a ^ n % p` for a number `n` of at most `k` bits. -/
def powMod (p a : ℕ) : ℕ → ℕ → ℕ
  | 0, _ => 1 % p
  | k + 1, n =>
    let half := powMod p a k (n / 2)
    if n % 2 = 1 then half * half % p * a % p else half * half % p

lemma powMod_eq (p a : ℕ) {k n : ℕ} (h : n < 2 ^ k) : powMod p a k n = a ^ n % p := by
  induction k generalizing n with
  | zero =>
    obtain rfl : n = 0 := by simpa using h
    rfl
  | succ k ih =>
    have hhalf : powMod p a k (n / 2) = a ^ (n / 2) % p := ih (by rw [pow_succ] at h; omega)
    have hsquare : a ^ (n / 2) % p * (a ^ (n / 2) % p) % p = a ^ (2 * (n / 2)) % p := by
      rw [← Nat.mul_mod, two_mul, pow_add]
    rw [powMod, hhalf, hsquare]
    split_ifs with hodd
    · rw [Nat.mod_mul_mod, ← pow_succ, show 2 * (n / 2) + 1 = n by omega]
    · rw [show 2 * (n / 2) = n by omega]

/-- What makes a number a primitive root modulo `p`, for the prime factors of `p - 1`. -/
def RootMod (p a k : ℕ) (factors : List ℕ) : Prop :=
  p - 1 < 2 ^ k ∧ powMod p a k (p - 1) = 1 ∧ ∀ q ∈ factors, powMod p a k ((p - 1) / q) ≠ 1

instance (p a k : ℕ) (factors : List ℕ) : Decidable (RootMod p a k factors) :=
  inferInstanceAs (Decidable (_ ∧ _ ∧ _))

/-- **A number with a primitive root is prime.** -/
theorem prime_of_root {p a k : ℕ} (factors : List ℕ) (hprime : ∀ q ∈ factors, q.Prime)
    (hprod : factors.prod + 1 = p) (hp : 1 < p) (h : RootMod p a k factors) : p.Prime := by
  obtain ⟨hlt, hone, hne⟩ := h
  have hpow : ∀ n ≤ p - 1, (a : ZMod p) ^ n = 1 ↔ powMod p a k n = 1 := fun n hn => by
    rw [powMod_eq p a (by omega), ← Nat.cast_pow, ← Nat.cast_one, ZMod.natCast_eq_natCast_iff',
      Nat.mod_eq_of_lt hp]
  refine lucas_primality p a ((hpow _ le_rfl).mpr hone) fun q hq hdvd => ?_
  have hmem : q ∈ factors := by
    rw [← hprod, Nat.add_sub_cancel] at hdvd
    exact mem_list_primes_of_dvd_prod hq.prime (fun r hr => (hprime r hr).prime) hdvd
  exact fun h => hne q hmem ((hpow _ (Nat.div_le_self ..)).mp h)

end Utxopia.Primality
