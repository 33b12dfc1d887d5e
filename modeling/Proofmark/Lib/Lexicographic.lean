/-
  The lexicographic order of lists whose elements are compared by number.
-/
import Mathlib.Order.Basic

variable {α : Type}

/-- The lexicographic order by `val`. -/
def lexLE (val : α → ℕ) : List α → List α → Bool
  | [], _ => true
  | _ :: _, [] => false
  | a :: l, b :: l' => decide (val a < val b) || (val a == val b && lexLE val l l')

variable {val : α → ℕ}

theorem lexLE_total (l l' : List α) : lexLE val l l' = true ∨ lexLE val l' l = true := by
  induction l generalizing l' with
  | nil => exact .inl rfl
  | cons a l ih =>
    cases l' with
    | nil => exact .inr rfl
    | cons b l' =>
      simp only [lexLE, Bool.or_eq_true, Bool.and_eq_true, decide_eq_true_eq, beq_iff_eq]
      rcases Nat.lt_trichotomy (val a) (val b) with h | h | h
      · exact .inl (.inl h)
      · exact (ih l').imp (fun hl => .inr ⟨h, hl⟩) fun hl => .inr ⟨h.symm, hl⟩
      · exact .inr (.inl h)

theorem lexLE_trans {l l' l'' : List α} (h : lexLE val l l' = true)
    (h' : lexLE val l' l'' = true) : lexLE val l l'' = true := by
  induction l generalizing l' l'' with
  | nil => rfl
  | cons a l ih =>
    cases l' with
    | nil => cases h
    | cons b l' =>
      cases l'' with
      | nil => cases h'
      | cons c l'' =>
        simp only [lexLE, Bool.or_eq_true, Bool.and_eq_true, decide_eq_true_eq, beq_iff_eq]
          at h h' ⊢
        rcases h with h | ⟨h, hl⟩
        · rcases h' with h' | ⟨h', -⟩
          · exact .inl (Nat.lt_trans h h')
          · exact .inl (h' ▸ h)
        · rcases h' with h' | ⟨h', hl'⟩
          · exact .inl (h ▸ h')
          · exact .inr ⟨h.trans h', ih hl hl'⟩

theorem lexLE_antisymm (hval : ∀ a b, val a = val b → a = b) {l l' : List α}
    (h : lexLE val l l' = true) (h' : lexLE val l' l = true) : l = l' := by
  induction l generalizing l' with
  | nil =>
    cases l' with
    | nil => rfl
    | cons b l' => cases h'
  | cons a l ih =>
    cases l' with
    | nil => cases h
    | cons b l' =>
      simp only [lexLE, Bool.or_eq_true, Bool.and_eq_true, decide_eq_true_eq, beq_iff_eq] at h h'
      rcases h with h | ⟨h, hl⟩
      · rcases h' with h' | ⟨h', -⟩
        · exact absurd h (Nat.lt_asymm h')
        · exact absurd h (h' ▸ Nat.lt_irrefl _)
      · rcases h' with h' | ⟨-, hl'⟩
        · exact absurd h' (h ▸ Nat.lt_irrefl _)
        · rw [hval a b h, ih hl hl']
