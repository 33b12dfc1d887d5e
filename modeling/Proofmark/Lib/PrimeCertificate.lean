/-
  Certificates of primality after Lucas.

  `p` is prime when some number has order `p - 1` modulo `p`.  The order is checked at the prime
  factors of `p - 1`, whose own primality may be certified in the same way.
-/
import Mathlib.NumberTheory.LucasPrimality

namespace PrimeCertificate

/-- `a ^ n % m` by squaring, for `n < 2 ^ k`. -/
def powMod (m : ℕ) : ℕ → ℕ → ℕ → ℕ
  | 0, _, _ => 1 % m
  | k + 1, a, n =>
    let b := powMod m k (a * a % m) (n / 2)
    if n % 2 = 0 then b else a * b % m

/-- `a` has order `p - 1` modulo `p`, where `qs` lists the prime factors of `p - 1`. -/
def check (p k a : ℕ) (qs : List ℕ) : Bool :=
  decide (1 < p) && decide (p - 1 < 2 ^ k) && qs.prod == p - 1 && powMod p k a (p - 1) == 1 &&
    qs.all fun q => powMod p k a ((p - 1) / q) != 1

/-- Each listed number has a certificate over known primes and numbers that come after it. -/
def checkAll (known : List ℕ) : List (ℕ × ℕ × ℕ × List ℕ) → Bool
  | [] => true
  | (p, k, a, qs) :: cs =>
    check p k a qs && qs.all (fun q => known.contains q || cs.any (·.1 == q)) && checkAll known cs

variable {m k a n p : ℕ}

theorem powMod_eq (h : n < 2 ^ k) : powMod m k a n = a ^ n % m := by
  induction k generalizing a n with
  | zero =>
    obtain rfl : n = 0 := by omega
    rfl
  | succ k ih =>
    have hhalf : powMod m k (a * a % m) (n / 2) = a ^ (2 * (n / 2)) % m := by
      rw [ih (by omega), ← Nat.pow_mod, ← Nat.pow_two, ← Nat.pow_mul]
    rw [powMod, hhalf]
    split_ifs with h2
    · have hn : 2 * (n / 2) = n := by omega
      rw [hn]
    · have hn : 2 * (n / 2) + 1 = n := by omega
      rw [Nat.mul_mod_mod, ← Nat.pow_succ']
      show a ^ (2 * (n / 2) + 1) % m = a ^ n % m
      rw [hn]

theorem prime_of_check (k a : ℕ) (qs : List ℕ) (hq : ∀ q ∈ qs, q.Prime) (h : check p k a qs = true) :
    p.Prime := by
  simp only [check, Bool.and_eq_true, decide_eq_true_eq, beq_iff_eq, List.all_eq_true,
    bne_iff_ne] at h
  obtain ⟨⟨⟨⟨hp, hk⟩, hprod⟩, hone⟩, hne⟩ := h
  have hcast : ∀ n, n ≤ p - 1 → ((a : ZMod p) ^ n = 1 ↔ powMod p k a n = 1) := by
    intro n hn
    have hmod := ZMod.natCast_eq_natCast_iff' (a ^ n) 1 p
    rw [Nat.cast_pow, Nat.cast_one, Nat.mod_eq_of_lt hp] at hmod
    rw [powMod_eq (by omega), hmod]
  refine lucas_primality p a ((hcast _ le_rfl).2 hone) fun q hqp hdvd => ?_
  rw [← hprod, hqp.prime.dvd_prod_iff] at hdvd
  obtain ⟨b, hb, hqb⟩ := hdvd
  obtain rfl := (Nat.prime_dvd_prime_iff_eq hqp (hq b hb)).1 hqb
  rw [Ne, hcast _ (Nat.div_le_self _ _)]
  exact hne q hb

theorem prime_of_checkAll {known : List ℕ} {cs : List (ℕ × ℕ × ℕ × List ℕ)}
    (hknown : ∀ q ∈ known, q.Prime) (h : checkAll known cs = true) : ∀ c ∈ cs, c.1.Prime := by
  induction cs with
  | nil =>
    intro c hc
    cases hc
  | cons c cs ih =>
    obtain ⟨p, k, a, qs⟩ := c
    simp only [checkAll, Bool.and_eq_true, List.all_eq_true, Bool.or_eq_true, List.contains_iff_mem,
      List.any_eq_true, beq_iff_eq] at h
    obtain ⟨⟨hcheck, hqs⟩, hrest⟩ := h
    refine List.forall_mem_cons.2 ⟨prime_of_check k a qs (fun q hq => ?_) hcheck, ih hrest⟩
    rcases hqs q hq with hq | ⟨c, hc, rfl⟩
    · exact hknown q hq
    · exact ih hrest c hc

end PrimeCertificate
