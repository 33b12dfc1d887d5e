/-
  Numbers in hexadecimal, as strings of code units.

  `value?` reads digits in either letter case, `digits` writes lower case ones.  Two texts of
  one length have one value iff they differ in letter case only (`value?_eq_iff`).
-/
import Mathlib.Tactic.Ring
import Proofmark.Lib.JsValue

namespace HexText

def lowerUnit (u : BitVec 16) : BitVec 16 :=
  if 0x41 ≤ u.toNat ∧ u.toNat ≤ 0x5a then BitVec.ofNat 16 (u.toNat + 0x20) else u

/-- `toLowerCase` on ASCII. -/
def lower (s : JsString) : JsString := s.map lowerUnit

/-- The value of a digit. -/
def digit? (u : BitVec 16) : Option ℕ :=
  if 0x30 ≤ u.toNat ∧ u.toNat ≤ 0x39 then some (u.toNat - 0x30)
  else if 0x61 ≤ u.toNat ∧ u.toNat ≤ 0x66 then some (u.toNat - 0x57)
  else if 0x41 ≤ u.toNat ∧ u.toNat ≤ 0x46 then some (u.toNat - 0x37)
  else none

def digit (n : ℕ) : BitVec 16 := BitVec.ofNat 16 (if n < 10 then 0x30 + n else 0x57 + n)

/-- The number that digits write, most significant first. -/
def value? : JsString → Option ℕ
  | [] => some 0
  | u :: s => do
    let d ← digit? u
    let n ← value? s
    pure (d * 16 ^ s.length + n)

/-- The `k` low-order digits of `n`, most significant first. -/
def digits : ℕ → ℕ → JsString
  | 0, _ => []
  | k + 1, n => digit (n / 16 ^ k % 16) :: digits k n

@[simp] theorem length_lower (s : JsString) : (lower s).length = s.length := by simp [lower]

@[simp] theorem length_digits (k n : ℕ) : (digits k n).length = k := by
  induction k with
  | zero => rfl
  | succ k ih => simp [digits, ih]

theorem lower_append (s t : JsString) : lower (s ++ t) = lower s ++ lower t := by simp [lower]

theorem lowerUnit_lowerUnit (u : BitVec 16) : lowerUnit (lowerUnit u) = lowerUnit u := by
  have hu := u.isLt
  by_cases h : 0x41 ≤ u.toNat ∧ u.toNat ≤ 0x5a
  · have hl : lowerUnit u = BitVec.ofNat 16 (u.toNat + 0x20) := if_pos h
    rw [hl, lowerUnit, if_neg]
    simp only [BitVec.toNat_ofNat]
    omega
  · simp [lowerUnit, h]

@[simp] theorem lower_lower (s : JsString) : lower (lower s) = lower s := by
  simp [lower, lowerUnit_lowerUnit]

@[simp] theorem digit?_lowerUnit (u : BitVec 16) : digit? (lowerUnit u) = digit? u := by
  have hu := u.isLt
  by_cases h : 0x41 ≤ u.toNat ∧ u.toNat ≤ 0x5a
  · have hl : (lowerUnit u).toNat = u.toNat + 0x20 := by
      simp only [lowerUnit, if_pos h, BitVec.toNat_ofNat]
      omega
    unfold digit?
    rw [hl]
    split_ifs <;> first | omega | rfl
  · simp [lowerUnit, h]

@[simp] theorem value?_lower (s : JsString) : value? (lower s) = value? s := by
  induction s with
  | nil => rfl
  | cons u s ih =>
    have hcons : lower (u :: s) = lowerUnit u :: lower s := rfl
    simp [hcons, value?, ih]

/-- A digit is, up to letter case, the one that is written for its value. -/
theorem lowerUnit_of_digit? {u : BitVec 16} {d : ℕ} (h : digit? u = some d) :
    d < 16 ∧ lowerUnit u = digit d := by
  have hu := u.isLt
  unfold digit? at h
  unfold lowerUnit digit
  split_ifs at h with h1 h2 h3
  · obtain rfl := Option.some.inj h
    refine ⟨by omega, ?_⟩
    rw [if_neg (by omega), if_pos (by omega)]
    apply BitVec.eq_of_toNat_eq
    simp only [BitVec.toNat_ofNat]
    omega
  · obtain rfl := Option.some.inj h
    refine ⟨by omega, ?_⟩
    rw [if_neg (by omega), if_neg (by omega)]
    apply BitVec.eq_of_toNat_eq
    simp only [BitVec.toNat_ofNat]
    omega
  · obtain rfl := Option.some.inj h
    refine ⟨by omega, ?_⟩
    rw [if_pos (by omega), if_neg (by omega)]
    congr 1
    omega

theorem toNat_of_digit? {u : BitVec 16} {d : ℕ} (h : digit? u = some d) : u.toNat < 0x80 := by
  unfold digit? at h
  split_ifs at h <;> omega

/-- The digits of a value are ASCII. -/
theorem toNat_of_value? {s : JsString} {n : ℕ} (h : value? s = some n) : ∀ u ∈ s, u.toNat < 0x80 := by
  induction s generalizing n with
  | nil => simp
  | cons u s ih =>
    obtain ⟨d, hd, m, hm, -⟩ : ∃ d, digit? u = some d ∧ ∃ m, value? s = some m ∧
        d * 16 ^ s.length + m = n := by
      simpa [value?, Option.bind_eq_some_iff] using h
    exact List.forall_mem_cons.2 ⟨toNat_of_digit? hd, ih hm⟩

@[simp] theorem digit?_digit {d : ℕ} (h : d < 16) : digit? (digit d) = some d := by
  have hall : ∀ d < 16, digit? (digit d) = some d := by decide
  exact hall d h

/-- **The value of the digits.** -/
theorem value?_digits (k n : ℕ) : value? (digits k n) = some (n % 16 ^ k) := by
  induction k with
  | zero => simp [digits, value?, Nat.mod_one]
  | succ k ih =>
    have hm : n % (16 ^ k * 16) = n % 16 ^ k + 16 ^ k * (n / 16 ^ k % 16) := Nat.mod_mul
    rw [digits, value?, digit?_digit (Nat.mod_lt _ (by decide)), ih]
    simp only [length_digits, Option.bind_eq_bind, Option.bind_some, Option.pure_def,
      Option.some.injEq]
    rw [Nat.pow_succ, hm]
    ring

/-- A text with a value is, up to letter case, the digits of that value. -/
theorem lower_of_value? {s : JsString} {n : ℕ} (h : value? s = some n) :
    n < 16 ^ s.length ∧ lower s = digits s.length n := by
  have hdigits : ∀ k m a, digits k (m * 16 ^ k + a) = digits k a := by
    intro k m a
    induction k generalizing m with
    | zero => rfl
    | succ k ih =>
      have hsplit : m * 16 ^ (k + 1) + a = m * 16 * 16 ^ k + a := by ring
      have hdiv : (m * 16 * 16 ^ k + a) / 16 ^ k % 16 = a / 16 ^ k % 16 := by
        rw [Nat.add_comm, Nat.add_mul_div_right _ _ (Nat.pow_pos (by decide)), Nat.add_mul_mod_self_right]
      rw [digits, digits, hsplit, ih, hdiv]
  induction s generalizing n with
  | nil => simpa [value?, lower, digits] using h.symm
  | cons u s ih =>
    obtain ⟨d, hd, m, hm, rfl⟩ : ∃ d, digit? u = some d ∧ ∃ m, value? s = some m ∧
        d * 16 ^ s.length + m = n := by
      simpa [value?, Option.bind_eq_some_iff] using h
    obtain ⟨hlt, hlower⟩ := ih hm
    obtain ⟨hd16, hunit⟩ := lowerUnit_of_digit? hd
    have hpos : 0 < 16 ^ s.length := Nat.pow_pos (by decide)
    constructor
    · have hle : (d + 1) * 16 ^ s.length ≤ 16 * 16 ^ s.length := Nat.mul_le_mul_right _ hd16
      rw [Nat.succ_mul] at hle
      rw [List.length_cons, Nat.pow_succ]
      omega
    · have hdiv : (d * 16 ^ s.length + m) / 16 ^ s.length % 16 = d := by
        rw [Nat.add_comm, Nat.add_mul_div_right _ _ hpos, Nat.div_eq_of_lt hlt, Nat.zero_add,
          Nat.mod_eq_of_lt hd16]
      rw [List.length_cons, digits, hdiv, hdigits, ← hlower, ← hunit]
      rfl

theorem lower_digits (k n : ℕ) : lower (digits k n) = digits k n := by
  have hall : ∀ d < 16, lowerUnit (digit d) = digit d := by decide
  induction k with
  | zero => rfl
  | succ k ih =>
    have hcons : lower (digits (k + 1) n) = lowerUnit (digit (n / 16 ^ k % 16)) :: lower (digits k n) := rfl
    rw [hcons, ih, hall _ (Nat.mod_lt _ (by decide)), digits]

/-- **Letter case is all that two texts of one value differ in.** -/
theorem value?_eq_iff {s t : JsString} {n : ℕ} (hs : value? s = some n) (hl : s.length = t.length) :
    value? t = some n ↔ lower s = lower t := by
  constructor
  · intro ht
    rw [(lower_of_value? hs).2, (lower_of_value? ht).2, hl]
  · intro h
    rw [← value?_lower, ← h, value?_lower, hs]

end HexText
