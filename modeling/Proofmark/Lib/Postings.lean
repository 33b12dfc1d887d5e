/-
  Posting lists.

  A map from keys to lists, in the order in which the keys came; `post` appends a value to
  the list of a key.
-/
import Mathlib.Data.List.Basic

namespace Postings

variable {κ ν : Type} [DecidableEq κ]

/-- The list posted under a key. -/
def get (k : κ) (m : List (κ × List ν)) : List ν := (m.lookup k).getD []

def post (k : κ) (v : ν) : List (κ × List ν) → List (κ × List ν)
  | [] => [(k, [v])]
  | (k', l) :: m => if k' = k then (k', l ++ [v]) :: m else (k', l) :: post k v m

variable {k k' : κ} {v w : ν} {m : List (κ × List ν)}

theorem get_singleton {l : List ν} : get k' [(k, l)] = if k' = k then l else [] := by
  by_cases h : k' = k
  · simp [get, h]
  · have hb : (k' == k) = false := by simpa using h
    simp [get, h, List.lookup_cons, hb]

theorem mem_get_post : w ∈ get k' (post k v m) ↔ w ∈ get k' m ∨ k' = k ∧ w = v := by
  induction m with
  | nil =>
    by_cases h : k' = k
    · simp [get, post, h]
    · have hb : (k' == k) = false := by simpa using h
      simp [get, post, h, List.lookup_cons, hb]
  | cons p m ih =>
    obtain ⟨k₀, l⟩ := p
    rw [post]
    by_cases h₀ : k₀ = k
    · subst h₀
      by_cases h : k' = k₀
      · simp [get, h]
      · have hb : (k' == k₀) = false := by simpa using h
        simp [get, List.lookup_cons, hb, h]
    · rw [if_neg h₀]
      by_cases h : k' = k₀
      · subst h
        simp [get, h₀]
      · have hb : (k' == k₀) = false := by simpa using h
        simpa [get, List.lookup_cons, hb] using ih

/-- What a fold posts. -/
theorem mem_get_foldl {l : List (κ × ν)} :
    w ∈ get k' (l.foldl (fun m p => post p.1 p.2 m) m) ↔ w ∈ get k' m ∨ (k', w) ∈ l := by
  induction l generalizing m with
  | nil => simp
  | cons p l ih =>
    obtain ⟨k, v⟩ := p
    rw [List.foldl_cons, ih, mem_get_post, List.mem_cons, Prod.mk.injEq, or_assoc]

theorem mem_keys_of_mem_get (h : w ∈ get k' m) : k' ∈ m.map Prod.fst := by
  rw [get] at h
  cases hl : m.lookup k' with
  | none =>
    rw [hl] at h
    cases h
  | some l =>
    obtain ⟨l₁, l₂, rfl, -⟩ := List.lookup_eq_some_iff.1 hl
    simp

/-- The keys are those posted under. -/
theorem mem_keys_post : k' ∈ (post k v m).map Prod.fst ↔ k' ∈ m.map Prod.fst ∨ k' = k := by
  induction m with
  | nil => simp [post]
  | cons p m ih =>
    obtain ⟨k₀, l⟩ := p
    rw [post]
    split_ifs with h
    · subst h
      simp
      tauto
    · rw [List.map_cons, List.mem_cons, ih, List.map_cons, List.mem_cons]
      tauto

end Postings
