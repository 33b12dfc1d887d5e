/-
  Trees of blocks and their branches.

  A block commits to its parent, and so to all its ancestors.  A branch is named by its tip:
  `block tip n` is the block of the branch at the height `n`.  Two branches that share a block
  share everything below it.
-/
import Mathlib.Logic.Function.Iterate
import Mathlib.Data.List.Sublists

structure BlockTree (β : Type) where
  parent : β → β
  height : β → ℕ
  height_parent : ∀ b, height (parent b) = height b - 1

namespace BlockTree

variable {β : Type} {T : BlockTree β} {b c tip tip' : β} {m n : ℕ}

/-- The block of the branch of `tip` at a height. -/
def block (T : BlockTree β) (tip : β) (n : ℕ) : Option β :=
  if n ≤ T.height tip then some (T.parent^[T.height tip - n] tip) else none

theorem height_iterate : T.height (T.parent^[n] b) = T.height b - n := by
  induction n with
  | zero => rfl
  | succ n ih =>
    rw [Function.iterate_succ_apply', T.height_parent, ih]
    omega

theorem block_self : T.block tip (T.height tip) = some tip := by
  simp [block]

theorem block_eq_some : T.block tip n = some b ↔ n ≤ T.height tip ∧ T.parent^[T.height tip - n] tip = b := by
  rw [block]
  split <;> simp_all

theorem height_of_block (h : T.block tip n = some b) : T.height b = n := by
  obtain ⟨hn, rfl⟩ := block_eq_some.1 h
  rw [height_iterate]
  omega

/-- Below one of its blocks, a branch is the branch of that block. -/
theorem block_of_block (h : T.block tip m = some b) (hn : n ≤ m) : T.block tip n = T.block b n := by
  have hb := height_of_block h
  obtain ⟨hm, hiter⟩ := block_eq_some.1 h
  have hsub : T.height tip - n = (m - n) + (T.height tip - m) := by omega
  rw [block, block, hb, if_pos (hn.trans hm), if_pos hn, hsub, Function.iterate_add_apply, hiter]

theorem block_trans (h : T.block tip m = some b) (hc : T.block b n = some c) :
    T.block tip n = some c := by
  have hn : n ≤ m := by
    have := (block_eq_some.1 hc).1
    rwa [height_of_block h] at this
  rw [block_of_block h hn, hc]

/-! ## Observed branches -/

/-- Along a sequence of observed branches, no block leaves and comes back. -/
def NoReturn (T : BlockTree β) (tips : List β) : Prop :=
  ∀ a b c, [a, b, c].Sublist tips → ∀ n x, T.block a n = some x → T.block c n = some x →
    T.block b n = some x

/-- While a single branch is observed, nothing returns. -/
theorem noReturn_of_all {tips : List β} (h : ∀ b ∈ tips, b = tip) : T.NoReturn tips := by
  intro a b c hsub n x ha _
  have hb := h b (hsub.mem (by simp))
  have ha' := h a (hsub.mem (by simp))
  rw [hb, ← ha', ha]

end BlockTree
