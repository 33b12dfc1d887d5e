/-
  Edit scripts of disjoint edits and the optimal-string-alignment recursion.

  A script walks over two lists at once, keeping an element of both or applying one edit,
  so no piece is edited twice.  `osa` is the recursion over prefixes by which the distance
  is usually tabulated.

  `script_osa`: the recursion counts the edits of a script.
  `osa_le`, `isLeast_osa`: no script has fewer.
  `osa_symm`: it is symmetric.
  `Script.one`, `Script.two`: where one or two edits leave the lists equal.
-/
import Mathlib.Algebra.Group.Nat.Defs
import Mathlib.Data.List.Basic
import Mathlib.Order.Bounds.Basic

namespace EditScript

variable {α : Type}

/-- An insertion, a deletion, a substitution or the exchange of two neighbours. -/
inductive Edit : List α → List α → Prop
  | insertion (c : α) : Edit [] [c]
  | deletion (c : α) : Edit [c] []
  | substitution (c d : α) : Edit [c] [d]
  | transposition (c d : α) : Edit [c, d] [d, c]

/-- `n` disjoint edits turn one list into the other. -/
inductive Script : ℕ → List α → List α → Prop
  | nil : Script 0 [] []
  | keep {n a b} (c : α) : Script n a b → Script n (a ++ [c]) (b ++ [c])
  | edit {n a b u v} : Script n a b → Edit u v → Script (n + 1) (a ++ u) (b ++ v)

theorem Edit.length_left {u v : List α} (h : Edit u v) : u.length ≤ 2 := by
  cases h <;> simp

/-- Of two scripts, the shorter one. -/
theorem Script.min {m n : ℕ} {a b : List α} (h : Script m a b) (h' : Script n a b) :
    Script (min m n) a b := by
  rcases Nat.le_total m n with hle | hle
  · rwa [Nat.min_eq_left hle]
  · rwa [Nat.min_eq_right hle]

/-- Each edit changes the length by at most one. -/
theorem Script.length_le {n : ℕ} {a b : List α} (h : Script n a b) :
    a.length ≤ b.length + n ∧ b.length ≤ a.length + n := by
  induction h with
  | nil => simp
  | keep c _ ih =>
    simp only [List.length_append]
    omega
  | edit _ he ih =>
    simp only [List.length_append]
    cases he <;> simp only [List.length_cons, List.length_nil] <;> omega

/-- Without edits nothing changes. -/
theorem Script.eq {n : ℕ} {a b : List α} (h : Script n a b) (hn : n = 0) : a = b := by
  induction h with
  | nil => rfl
  | keep c _ ih => rw [ih hn]
  | edit _ _ _ => omega

/-- One edit leaves the lists equal before and after it. -/
theorem Script.one {n : ℕ} {a b : List α} (h : Script n a b) (hn : n = 1) :
    ∃ x u v z, Edit u v ∧ a = x ++ u ++ z ∧ b = x ++ v ++ z := by
  induction h with
  | nil => omega
  | keep c _ ih =>
    obtain ⟨x, u, v, z, he, rfl, rfl⟩ := ih hn
    exact ⟨x, u, v, z ++ [c], he, by simp, by simp⟩
  | @edit n a b u v hs he _ =>
    have hab := hs.eq (by omega)
    exact ⟨a, u, v, [], he, by simp, by simp [hab]⟩

/-- Two edits leave the lists equal before, between and after them. -/
theorem Script.two {n : ℕ} {a b : List α} (h : Script n a b) (hn : n = 2) :
    ∃ x u v y u' v' z, Edit u v ∧ Edit u' v' ∧ a = x ++ u ++ y ++ u' ++ z ∧
      b = x ++ v ++ y ++ v' ++ z := by
  induction h with
  | nil => omega
  | keep c _ ih =>
    obtain ⟨x, u, v, y, u', v', z, he, he', rfl, rfl⟩ := ih hn
    exact ⟨x, u, v, y, u', v', z ++ [c], he, he', by simp, by simp⟩
  | edit hs he _ =>
    obtain ⟨x, u, v, y, hu, rfl, rfl⟩ := hs.one (by omega)
    exact ⟨x, u, v, y, _, _, [], hu, he, by simp, by simp⟩

/-! ## The recursion -/

theorem take_succ_of_lt {a : List α} {i : ℕ} (h : i < a.length) :
    a.take (i + 1) = a.take i ++ [a[i]] := List.take_succ_eq_append_getElem h

/-- The recursion ends without one of the lists. -/
theorem script_take_right (b : List α) {j : ℕ} (hj : j ≤ b.length) : Script j [] (b.take j) := by
  induction j with
  | zero => exact .nil
  | succ j ih =>
    have hlt : j < b.length := by omega
    rw [take_succ_of_lt hlt]
    exact (ih (by omega)).edit (.insertion b[j])

theorem script_take_left (a : List α) {i : ℕ} (hi : i ≤ a.length) : Script i (a.take i) [] := by
  induction i with
  | zero => exact .nil
  | succ i ih =>
    have hlt : i < a.length := by omega
    rw [take_succ_of_lt hlt]
    exact (ih (by omega)).edit (.deletion a[i])

variable [DecidableEq α]

/-- The distance of the prefixes of lengths `i` and `j`. -/
def osa (a b : List α) : ℕ → ℕ → ℕ
  | 0, j => j
  | i + 1, 0 => i + 1
  | i + 1, j + 1 =>
    let d := min (min (osa a b i (j + 1) + 1) (osa a b (i + 1) j + 1))
      (osa a b i j + if a[i]? = b[j]? then 0 else 1)
    if 0 < i ∧ 0 < j ∧ a[i]? = b[j - 1]? ∧ a[i - 1]? = b[j]? then
      min d (osa a b (i - 1) (j - 1) + 1)
    else d
termination_by i j => i + j

/-- **The recursion counts the edits of a script.** -/
theorem script_osa {a b : List α} {i j : ℕ} (hi : i ≤ a.length) (hj : j ≤ b.length) :
    Script (osa a b i j) (a.take i) (b.take j) := by
  induction hn : i + j using Nat.strongRecOn generalizing i j with
  | _ n ih =>
    rcases i with _ | i
    · rw [osa]
      exact script_take_right b hj
    rcases j with _ | j
    · rw [osa]
      exact script_take_left a hi
    have hup := ih (i + (j + 1)) (by omega) (by omega) hj rfl
    have hleft := ih (i + 1 + j) (by omega) hi (by omega) rfl
    have hdiag := ih (i + j) (by omega) (show i ≤ a.length by omega) (show j ≤ b.length by omega) rfl
    have hlast : Script (osa a b i j + if a[i]? = b[j]? then 0 else 1) (a.take (i + 1))
        (b.take (j + 1)) := by
      rw [take_succ_of_lt (show i < a.length by omega), take_succ_of_lt (show j < b.length by omega)]
      split_ifs with heq
      · rw [List.getElem?_eq_getElem (by omega), List.getElem?_eq_getElem (by omega)] at heq
        rw [← Option.some.inj heq]
        exact hdiag.keep _
      · exact hdiag.edit (.substitution _ _)
    have hdel : Script (osa a b i (j + 1) + 1) (a.take (i + 1)) (b.take (j + 1)) := by
      rw [take_succ_of_lt (show i < a.length by omega)]
      have hs := hup.edit (.deletion a[i])
      rwa [List.append_nil] at hs
    have hins : Script (osa a b (i + 1) j + 1) (a.take (i + 1)) (b.take (j + 1)) := by
      rw [take_succ_of_lt (show j < b.length by omega)]
      have hs := hleft.edit (.insertion b[j])
      rwa [List.append_nil] at hs
    have hd := (hdel.min hins).min hlast
    rw [osa]
    by_cases hswap : 0 < i ∧ 0 < j ∧ a[i]? = b[j - 1]? ∧ a[i - 1]? = b[j]?
    · -- the last two elements are exchanged
      rw [if_pos hswap]
      obtain ⟨hi0, hj0, h1, h2⟩ := hswap
      obtain ⟨i, rfl⟩ : ∃ i', i = i' + 1 := ⟨i - 1, by omega⟩
      obtain ⟨j, rfl⟩ : ∃ j', j = j' + 1 := ⟨j - 1, by omega⟩
      have hback := ih (i + j) (by omega) (show i ≤ a.length by omega) (show j ≤ b.length by omega) rfl
      rw [Nat.add_sub_cancel, List.getElem?_eq_getElem (by omega),
        List.getElem?_eq_getElem (by omega)] at h1 h2
      have hex : Script (osa a b i j + 1) (a.take (i + 1 + 1)) (b.take (j + 1 + 1)) := by
        rw [take_succ_of_lt (show i + 1 < a.length by omega),
          take_succ_of_lt (show j + 1 < b.length by omega),
          take_succ_of_lt (show i < a.length by omega), take_succ_of_lt (show j < b.length by omega),
          List.append_assoc, List.append_assoc, Option.some.inj h1, Option.some.inj h2]
        exact hback.edit (.transposition _ _)
      exact hd.min hex
    · rw [if_neg hswap]
      exact hd

/-- **The recursion is symmetric.** -/
theorem osa_symm (a b : List α) (i j : ℕ) : osa a b i j = osa b a j i := by
  induction hn : i + j using Nat.strongRecOn generalizing i j with
  | _ n ih =>
    rcases i with _ | i
    · rcases j with _ | j <;> rw [osa, osa]
    rcases j with _ | j
    · rw [osa, osa]
    have hup := ih (i + (j + 1)) (by omega) i (j + 1) rfl
    have hleft := ih (i + 1 + j) (by omega) (i + 1) j rfl
    have hdiag := ih (i + j) (by omega) i j rfl
    have hback := ih (i - 1 + (j - 1)) (by omega) (i - 1) (j - 1) rfl
    have hlast : (if a[i]? = b[j]? then 0 else 1) = if b[j]? = a[i]? then 0 else 1 :=
      if_congr eq_comm rfl rfl
    have hswap : (0 < i ∧ 0 < j ∧ a[i]? = b[j - 1]? ∧ a[i - 1]? = b[j]?) ↔
        (0 < j ∧ 0 < i ∧ b[j]? = a[i - 1]? ∧ b[j - 1]? = a[i]?) := by
      constructor <;> exact fun h => ⟨h.2.1, h.1, h.2.2.2.symm, h.2.2.1.symm⟩
    rw [osa, osa, hup, hleft, hdiag, hback, hlast]
    refine if_congr hswap ?_ ?_
    · rw [Nat.min_comm (osa b a (j + 1) i + 1)]
    · rw [Nat.min_comm (osa b a (j + 1) i + 1)]

/-! ## No script is shorter -/

section
variable {a b : List α} {i j : ℕ}

omit [DecidableEq α] in
/-- A prefix that ends in `c`. -/
theorem take_eq_concat {x : List α} {c : α} (hi : i ≤ a.length) (h : a.take i = x ++ [c]) :
    ∃ k, i = k + 1 ∧ a.take k = x ∧ a[k]? = some c := by
  cases i with
  | zero =>
    rw [List.take_zero] at h
    exact absurd h.symm (by simp)
  | succ k =>
    rw [take_succ_of_lt (show k < a.length by omega)] at h
    obtain ⟨hx, hc⟩ := List.append_inj' h rfl
    refine ⟨k, rfl, hx, ?_⟩
    rw [List.getElem?_eq_getElem (show k < a.length by omega), List.head_eq_of_cons_eq hc]

theorem osa_succ_left_le : osa a b (i + 1) j ≤ osa a b i j + 1 := by
  cases j with
  | zero =>
    rw [osa]
    cases i <;> simp [osa]
  | succ j =>
    rw [osa]
    split_ifs <;> omega

theorem osa_succ_right_le : osa a b i (j + 1) ≤ osa a b i j + 1 := by
  rw [osa_symm a b i (j + 1), osa_symm a b i j]
  exact osa_succ_left_le

theorem osa_succ_le : osa a b (i + 1) (j + 1) ≤ osa a b i j + if a[i]? = b[j]? then 0 else 1 := by
  rw [osa]
  split_ifs <;> omega

theorem osa_exchange_le (h : a[i + 1]? = b[j]?) (h' : a[i]? = b[j + 1]?) :
    osa a b (i + 1 + 1) (j + 1 + 1) ≤ osa a b i j + 1 := by
  rw [osa, if_pos ⟨Nat.succ_pos i, Nat.succ_pos j, h, h'⟩]
  exact Nat.min_le_right _ _

/-- **No script between two prefixes has fewer edits** than the recursion counts. -/
theorem osa_le {n : ℕ} {x y : List α} (h : Script n x y) (hi : i ≤ a.length) (hj : j ≤ b.length)
    (hx : a.take i = x) (hy : b.take j = y) : osa a b i j ≤ n := by
  induction h generalizing i j with
  | nil =>
    have hi0 : i = 0 := by simpa [Nat.min_eq_left hi] using congrArg List.length hx
    have hj0 : j = 0 := by simpa [Nat.min_eq_left hj] using congrArg List.length hy
    rw [hi0, hj0, osa]
  | @keep n x y c _ ih =>
    obtain ⟨k, rfl, hx, hc⟩ := take_eq_concat hi hx
    obtain ⟨l, rfl, hy, hd⟩ := take_eq_concat hj hy
    have hstep := @osa_succ_le α _ a b k l
    rw [if_pos (hc.trans hd.symm)] at hstep
    exact Nat.le_trans hstep (ih (by omega) (by omega) hx hy)
  | @edit n x y v w _ he ih =>
    cases he with
    | insertion c =>
      rw [List.append_nil] at hx
      obtain ⟨l, rfl, hy, -⟩ := take_eq_concat hj hy
      exact Nat.le_trans osa_succ_right_le (Nat.succ_le_succ (ih hi (by omega) hx hy))
    | deletion c =>
      rw [List.append_nil] at hy
      obtain ⟨k, rfl, hx, -⟩ := take_eq_concat hi hx
      exact Nat.le_trans osa_succ_left_le (Nat.succ_le_succ (ih (by omega) hj hx hy))
    | substitution c d =>
      obtain ⟨k, rfl, hx, -⟩ := take_eq_concat hi hx
      obtain ⟨l, rfl, hy, -⟩ := take_eq_concat hj hy
      have hstep := @osa_succ_le α _ a b k l
      have hrest := ih (by omega) (by omega) hx hy
      split_ifs at hstep <;> omega
    | transposition c d =>
      have hx' : a.take i = (x ++ [c]) ++ [d] := by simpa using hx
      have hy' : b.take j = (y ++ [d]) ++ [c] := by simpa using hy
      obtain ⟨k, rfl, hx, had⟩ := take_eq_concat hi hx'
      obtain ⟨l, rfl, hy, hbc⟩ := take_eq_concat hj hy'
      obtain ⟨k, rfl, hx, hac⟩ := take_eq_concat (by omega) hx
      obtain ⟨l, rfl, hy, hbd⟩ := take_eq_concat (by omega) hy
      exact Nat.le_trans (osa_exchange_le (had.trans hbd.symm) (hac.trans hbc.symm))
        (Nat.succ_le_succ (ih (by omega) (by omega) hx hy))

/-- **The recursion is the least number of edits.** -/
theorem isLeast_osa (a b : List α) :
    IsLeast {n | Script n a b} (osa a b a.length b.length) := by
  constructor
  · have hs := script_osa (le_refl a.length) (le_refl b.length)
    rwa [List.take_length, List.take_length] at hs
  · intro n hn
    exact osa_le hn (le_refl _) (le_refl _) a.take_length b.take_length

end

end EditScript
