/-
  Machines with reverting steps, their runs and their invariants.

  A step either succeeds, with a new state and an output, or reverts and leaves
  the state as it was.  A run records its successful steps in order; a reverted
  step is not part of it, since nothing of it remains.
-/
import Proofmark.Lib.Revert

/-- A machine: states `σ`, actions `α`, outputs `ω`, errors `ε`. -/
structure Machine (σ α ω ε : Type) where
  step : σ → α → Except ε (σ × ω)

namespace Machine

/-- One successful step of a run. -/
structure Entry (σ α ω : Type) where
  pre : σ
  act : α
  out : ω
  post : σ

variable {σ α ω ε σ' α' ω' ε' : Type}

/-- `M.Run s₀ es s`: the successful steps `es` lead from `s₀` to `s`. -/
inductive Run (M : Machine σ α ω ε) (s₀ : σ) : List (Entry σ α ω) → σ → Prop
  | nil : Run M s₀ [] s₀
  | snoc {es : List (Entry σ α ω)} {s : σ} {a : α} {s' : σ} {w : ω} :
      Run M s₀ es s → M.step s a = .ok (s', w) → Run M s₀ (es ++ [⟨s, a, w, s'⟩]) s'

variable {M : Machine σ α ω ε} {s₀ s s' : σ} {es es' : List (Entry σ α ω)}

/-- An entry that is a step of the machine. -/
def IsStep (M : Machine σ α ω ε) (e : Entry σ α ω) : Prop := M.step e.pre e.act = .ok (e.post, e.out)

namespace Run

theorem append (h : M.Run s₀ es s) (h' : M.Run s es' s') : M.Run s₀ (es ++ es') s' := by
  induction h' with
  | nil => simpa using h
  | snoc _ hs ih => rw [← List.append_assoc]; exact ih.snoc hs

theorem cons {e : Entry σ α ω} (he : M.IsStep e) (h : M.Run e.post es s) :
    M.Run e.pre (e :: es) s := by
  have h0 : M.Run e.pre [] e.pre := .nil
  have h1 : M.Run e.pre [e] e.post := by simpa using h0.snoc he
  simpa using h1.append h

/-- A run splits at each of its entries. -/
theorem split {e : Entry σ α ω} (h : M.Run s₀ (es ++ e :: es') s) :
    M.Run s₀ es e.pre ∧ M.IsStep e ∧ M.Run e.post es' s := by
  generalize hl : es ++ e :: es' = l at h
  induction h generalizing es' with
  | nil => simp at hl
  | @snoc es₁ s₁ a s₂ w h₁ hs ih =>
    rcases List.eq_nil_or_concat es' with rfl | ⟨es'', e', rfl⟩
    · obtain ⟨rfl, he⟩ := List.append_inj' hl rfl
      cases he
      exact ⟨h₁, hs, Run.nil⟩
    · rw [List.concat_eq_append, ← List.cons_append, ← List.append_assoc] at hl
      obtain ⟨rfl, he⟩ := List.append_inj' hl rfl
      cases he
      obtain ⟨i1, i2, i3⟩ := ih rfl
      refine ⟨i1, i2, ?_⟩
      rw [List.concat_eq_append]
      exact i3.snoc hs

theorem append_inv (h : M.Run s₀ (es ++ es') s) : ∃ s₁, M.Run s₀ es s₁ ∧ M.Run s₁ es' s := by
  cases es' with
  | nil => exact ⟨s, by simpa using h, Run.nil⟩
  | cons e es' =>
    obtain ⟨h1, h2, h3⟩ := h.split
    exact ⟨_, h1, h3.cons h2⟩

/-- Every entry of a run is a step from a reached state. -/
theorem of_mem (h : M.Run s₀ es s) {e : Entry σ α ω} (he : e ∈ es) :
    ∃ es₁ es₂, es = es₁ ++ e :: es₂ ∧ M.Run s₀ es₁ e.pre ∧ M.IsStep e ∧ M.Run e.post es₂ s := by
  obtain ⟨es₁, es₂, rfl⟩ := List.append_of_mem he
  exact ⟨es₁, es₂, rfl, h.split⟩

/-- **Invariants of runs**: what holds initially and is kept by every step whose
    entry satisfies `P` holds after a run whose entries all satisfy `P`. -/
theorem invariant_where {I : σ → Prop} {P : Entry σ α ω → Prop} (h₀ : I s₀)
    (hs : ∀ e : Entry σ α ω, P e → I e.pre → M.IsStep e → I e.post) (h : M.Run s₀ es s)
    (hP : ∀ e ∈ es, P e) : I s := by
  induction h with
  | nil => exact h₀
  | @snoc es s a s' w _ hstep ih =>
    exact hs ⟨s, a, w, s'⟩ (hP _ (by simp)) (ih fun e he => hP e (by simp [he])) hstep

theorem invariant {I : σ → Prop} (h₀ : I s₀)
    (hs : ∀ e : Entry σ α ω, I e.pre → M.IsStep e → I e.post) (h : M.Run s₀ es s) : I s :=
  h.invariant_where (P := fun _ => True) h₀ (fun e _ => hs e) fun _ _ => trivial

/-- **Histories of runs**: as `invariant`, for a property of the whole history. -/
theorem history {H : List (Entry σ α ω) → σ → Prop} (h₀ : H [] s₀)
    (hs : ∀ (es : List (Entry σ α ω)) (e : Entry σ α ω), M.Run s₀ es e.pre → H es e.pre →
      M.IsStep e → H (es ++ [e]) e.post) (h : M.Run s₀ es s) : H es s := by
  induction h with
  | nil => exact h₀
  | @snoc es s a s' w hr hstep ih => exact hs es ⟨s, a, w, s'⟩ hr ih hstep

/-- **Monotony of runs**: a preorder that every step respects relates the ends of a run. -/
theorem relation {R : σ → σ → Prop} (hrefl : ∀ s, R s s)
    (htrans : ∀ s₁ s₂ s₃, R s₁ s₂ → R s₂ s₃ → R s₁ s₃) (hs : ∀ e : Entry σ α ω, M.IsStep e → R e.pre e.post)
    (h : M.Run s₀ es s) : R s₀ s := by
  induction h with
  | nil => exact hrefl s₀
  | @snoc es s a s' w _ hstep ih => exact htrans _ _ _ ih (hs ⟨s, a, w, s'⟩ hstep)

/-- **Projection**: a run of `M` seen through `f` is a run of `M'`, when every step
    of `M` is a step of `M'` or leaves the projected state as it was. -/
theorem project {M' : Machine σ' α' ω' ε'} {f : σ → σ'}
    {g : Entry σ α ω → Option (Entry σ' α' ω')}
    (hs : ∀ e, M.IsStep e → (g e = none ∧ f e.post = f e.pre) ∨
      ∃ e', g e = some e' ∧ M'.IsStep e' ∧ e'.pre = f e.pre ∧ e'.post = f e.post)
    (h : M.Run s₀ es s) : M'.Run (f s₀) (es.filterMap g) (f s) := by
  induction h with
  | nil => exact .nil
  | @snoc es s a s' w _ hstep ih =>
    rw [List.filterMap_append]
    rcases hs ⟨s, a, w, s'⟩ hstep with ⟨h1, h2⟩ | ⟨⟨p, a', w', q⟩, h1, h2, h3, h4⟩
    · have h2' : f s' = f s := h2
      simpa [h1, h2'] using ih
    · have h3' : p = f s := h3
      have h4' : q = f s' := h4
      subst h3' h4'
      simpa [h1] using ih.snoc h2

end Run

/-- A state reached by some run. -/
def Reachable (M : Machine σ α ω ε) (s₀ s : σ) : Prop := ∃ es, M.Run s₀ es s

/-! ## Runs of attempted actions -/

/-- The successful steps of a list of attempted actions. -/
def trace (M : Machine σ α ω ε) : σ → List α → List (Entry σ α ω)
  | _, [] => []
  | s, a :: as =>
    match M.step s a with
    | .ok (s', w) => ⟨s, a, w, s'⟩ :: M.trace s' as
    | .error _ => M.trace s as

/-- The state after a list of attempted actions. -/
def final (M : Machine σ α ω ε) : σ → List α → σ
  | s, [] => s
  | s, a :: as =>
    match M.step s a with
    | .ok (s', _) => M.final s' as
    | .error _ => M.final s as

theorem run_trace (M : Machine σ α ω ε) (s : σ) (as : List α) :
    M.Run s (M.trace s as) (M.final s as) := by
  induction as generalizing s with
  | nil => exact .nil
  | cons a as ih =>
    rw [trace, final]
    cases h : M.step s a with
    | ok r => exact (ih r.1).cons (e := ⟨s, a, r.2, r.1⟩) h
    | error e => exact ih s

theorem act_mem_of_trace {acts : List α} {e : Entry σ α ω} (h : e ∈ M.trace s acts) :
    e.act ∈ acts := by
  induction acts generalizing s with
  | nil => cases h
  | cons a acts ih =>
    rw [trace] at h
    split at h
    · rcases List.mem_cons.1 h with rfl | h
      · exact List.mem_cons_self
      · exact List.mem_cons_of_mem _ (ih h)
    · exact List.mem_cons_of_mem _ (ih h)

theorem length_trace_le (M : Machine σ α ω ε) (acts : List α) (s : σ) : (M.trace s acts).length ≤ acts.length := by
  induction acts generalizing s with
  | nil => exact Nat.le_refl _
  | cons a acts ih =>
    rw [trace]
    split
    · exact Nat.succ_le_succ (ih _)
    · exact Nat.le_trans (ih _) (Nat.le_succ _)

/-- When no action reverts, the trace has them all. -/
theorem map_act_trace {acts : List α} (h : (M.trace s acts).length = acts.length) :
    (M.trace s acts).map Entry.act = acts := by
  induction acts generalizing s with
  | nil => rfl
  | cons a acts ih =>
    rw [trace] at h ⊢
    split at h
    · rw [List.map_cons, ih (Nat.succ.inj h)]
    · have hle := M.length_trace_le acts s
      rw [List.length_cons] at h
      omega

end Machine
