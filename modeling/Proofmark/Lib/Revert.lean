/-
  Computations that may revert.

  `Except ε` is read as the outcome of a call: `.ok` with the new state, or a
  revert with its error.  `revertIf` is the guard `if (c) revert e;`, and the
  inversion lemmas below turn "the call succeeded" into the conjunction of the
  guards it passed.
-/
import Mathlib.Logic.Basic
import Mathlib.Tactic.Common

namespace Revert

variable {ε α β : Type}

/-- The guard `if (c) revert e;`. -/
def revertIf (c : Prop) [Decidable c] (e : ε) : Except ε Unit :=
  if c then .error e else .ok ()

/-- A partial result whose absence reverts with `e`. -/
def orRevert (o : Option α) (e : ε) : Except ε α :=
  match o with
  | some a => .ok a
  | none => .error e

@[simp] theorem revertIf_ok {c : Prop} [Decidable c] {e : ε} {u : Unit} :
    revertIf c e = .ok u ↔ ¬ c := by
  by_cases h : c <;> simp [revertIf, h]

@[simp] theorem orRevert_ok {o : Option α} {e : ε} {a : α} :
    orRevert o e = .ok a ↔ o = some a := by
  cases o <;> simp [orRevert]

/-- A sequence succeeds iff its first part does and the rest does after it. -/
@[simp] theorem bind_ok {x : Except ε α} {f : α → Except ε β} {b : β} :
    (x >>= f) = .ok b ↔ ∃ a, x = .ok a ∧ f a = .ok b := by
  cases x <;> simp [bind, Except.bind]

@[simp] theorem pure_ok {a b : α} : (pure a : Except ε α) = .ok b ↔ a = b := by
  simp [pure, Except.pure]

@[simp] theorem mapError_ok {δ : Type} {x : Except ε α} {f : ε → δ} {a : α} :
    x.mapError f = .ok a ↔ x = .ok a := by
  cases x <;> simp [Except.mapError]

@[simp] theorem map_ok {x : Except ε α} {f : α → β} {b : β} :
    x.map f = .ok b ↔ ∃ a, x = .ok a ∧ f a = b := by
  cases x <;> simp [Except.map]

@[simp] theorem error_bind (e : ε) (f : α → Except ε β) :
    ((.error e : Except ε α) >>= f) = .error e := rfl

@[simp] theorem ok_bind (a : α) (f : α → Except ε β) : ((.ok a : Except ε α) >>= f) = f a := rfl

theorem revertIf_of_not {c : Prop} [Decidable c] {e : ε} (h : ¬ c) : revertIf c e = .ok () := by
  simp [revertIf, h]

/-- The value of a call, when it did not revert. -/
def value? : Except ε α → Option α
  | .ok a => some a
  | .error _ => none

@[simp] theorem value?_eq_some {x : Except ε α} {a : α} : value? x = some a ↔ x = .ok a := by
  cases x <;> simp [value?]

end Revert
