/-
  Pairs of computations that succeed together, with related results.
-/
import Proofmark.Lib.Revert

namespace Revert

variable {ε α β γ δ : Type}

/-- Both succeed with related results, or both revert. -/
inductive Related (R : α → β → Prop) : Except ε α → Except ε β → Prop
  | ok {a : α} {b : β} (h : R a b) : Related R (.ok a) (.ok b)
  | error (e e' : ε) : Related R (.error e) (.error e')

variable {R : α → β → Prop} {S : γ → δ → Prop} {x : Except ε α} {y : Except ε β}

theorem Related.pure {a : α} {b : β} (h : R a b) :
    Related R (Pure.pure a : Except ε α) (Pure.pure b) := .ok h

theorem Related.bind {f : α → Except ε γ} {g : β → Except ε δ} (h : Related R x y)
    (hf : ∀ a b, R a b → Related S (f a) (g b)) : Related S (x >>= f) (y >>= g) := by
  cases h with
  | ok h => exact hf _ _ h
  | error e e' => exact .error e e'

/-- The same guard on both sides. -/
theorem Related.guard {c : Prop} [Decidable c] {e : ε} {f : Unit → Except ε γ}
    {g : Unit → Except ε δ} (h : Related S (f ()) (g ())) :
    Related S (revertIf c e >>= f) (revertIf c e >>= g) := by
  by_cases hc : c
  · rw [revertIf, if_pos hc]
    exact .error e e
  · rw [revertIf_of_not hc]
    exact h

theorem Related.foldlM {ι : Type} {f : α → ι → Except ε α} {g : β → ι → Except ε β} {l : List ι}
    (hf : ∀ a b, ∀ i ∈ l, R a b → Related R (f a i) (g b i)) {a : α} {b : β} (h : R a b) :
    Related R (l.foldlM f a) (l.foldlM g b) := by
  induction l generalizing a b with
  | nil => exact .ok h
  | cons i l ih =>
    rw [List.foldlM_cons, List.foldlM_cons]
    refine (hf a b i List.mem_cons_self h).bind fun a' b' h' => ?_
    exact ih (fun a b j hj => hf a b j (List.mem_cons_of_mem i hj)) h'

theorem Related.refl (x : Except ε α) : Related Eq x x := by
  cases x with
  | ok a => exact .ok rfl
  | error e => exact .error e e

theorem Related.of_ne_ok (hx : ∀ a, x ≠ .ok a) (hy : ∀ b, y ≠ .ok b) : Related R x y := by
  cases x with
  | ok a => exact absurd rfl (hx a)
  | error e =>
    cases y with
    | ok b => exact absurd rfl (hy b)
    | error e' => exact .error e e'

theorem Related.value? {y : Except ε α} (h : Related Eq x y) :
    Revert.value? x = Revert.value? y := by
  cases h with
  | ok h => rw [h]
  | error => rfl

end Revert
