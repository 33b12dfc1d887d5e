/-
  Lists keyed by one of their fields.

  An object of the source that is read and written by key, and whose values are listed in
  insertion order, is a list: `find` reads the value at a key, `change` replaces it where
  it stands.
-/
import Mathlib.Data.List.Nodup

namespace Keyed

variable {κ α : Type} [DecidableEq κ] (key : α → κ)

/-- The value at a key. -/
def find (k : κ) (l : List α) : Option α := l.find? fun a => key a = k

/-- The list with the value at a key changed. -/
def change (k : κ) (f : α → α) : List α → List α
  | [] => []
  | a :: l => if key a = k then f a :: l else a :: change k f l

variable {key} {k k' : κ} {a b : α} {l : List α} {f : α → α}

theorem mem_of_find (h : find key k l = some a) : a ∈ l ∧ key a = k :=
  ⟨List.mem_of_find?_eq_some h, by simpa [find] using List.find?_some h⟩

theorem find_eq_none : find key k l = none ↔ ∀ a ∈ l, key a ≠ k := by
  simp [find]

theorem find_of_mem (hn : (l.map key).Nodup) (ha : a ∈ l) : find key (key a) l = some a := by
  cases h : find key (key a) l with
  | none => exact absurd rfl (find_eq_none.1 h a ha)
  | some b =>
    obtain ⟨hb, hk⟩ := mem_of_find h
    rw [List.inj_on_of_nodup_map hn hb ha hk]

theorem find_iff (hn : (l.map key).Nodup) : find key k l = some a ↔ a ∈ l ∧ key a = k := by
  refine ⟨mem_of_find, ?_⟩
  rintro ⟨ha, rfl⟩
  exact find_of_mem hn ha

/-- A change splits the list at the value that is found. -/
theorem change_eq (h : find key k l = some a) :
    ∃ l₁ l₂, l = l₁ ++ a :: l₂ ∧ key a = k ∧ ∀ f, change key k f l = l₁ ++ f a :: l₂ := by
  induction l with
  | nil => cases h
  | cons b l ih =>
    rw [find, List.find?_cons] at h
    by_cases hb : key b = k
    · simp only [hb, decide_true, Option.some.injEq] at h
      subst h
      exact ⟨[], l, rfl, hb, fun f => by rw [change, if_pos hb]; rfl⟩
    · simp only [hb, decide_false] at h
      obtain ⟨l₁, l₂, rfl, ha, hf⟩ := ih h
      exact ⟨b :: l₁, l₂, rfl, ha, fun f => by rw [change, if_neg hb, hf]; rfl⟩

theorem keys_change (hf : ∀ a, key a = k → key (f a) = k) :
    (change key k f l).map key = l.map key := by
  induction l with
  | nil => rfl
  | cons b l ih =>
    by_cases hb : key b = k
    · simp [change, hb, hf b hb]
    · simp [change, hb, ih]

theorem find_change_self (hf : ∀ a, key a = k → key (f a) = k) :
    find key k (change key k f l) = (find key k l).map f := by
  induction l with
  | nil => rfl
  | cons b l ih =>
    by_cases hb : key b = k
    · simp [find, change, hb, hf b hb]
    · simpa [find, change, hb] using ih

theorem find_change_of_ne (hf : ∀ a, key a = k → key (f a) = k) (hk : k' ≠ k) :
    find key k' (change key k f l) = find key k' l := by
  induction l with
  | nil => rfl
  | cons b l ih =>
    by_cases hb : key b = k
    · simp [find, change, hb, hf b hb, hk.symm]
    · by_cases hb' : key b = k'
      · simp [find, change, hb', hk]
      · simpa [find, change, hb, hb'] using ih

/-- A changed value comes from one at its key. -/
theorem mem_change (h : b ∈ change key k f l) : b ∈ l ∨ ∃ a ∈ l, key a = k ∧ b = f a := by
  induction l with
  | nil => cases h
  | cons c l ih =>
    rw [change] at h
    by_cases hc : key c = k
    · rw [if_pos hc] at h
      rcases List.mem_cons.1 h with rfl | h
      · exact .inr ⟨c, List.mem_cons_self, hc, rfl⟩
      · exact .inl (List.mem_cons_of_mem _ h)
    · rw [if_neg hc] at h
      rcases List.mem_cons.1 h with rfl | h
      · exact .inl List.mem_cons_self
      · rcases ih h with h | ⟨a, ha, hk, rfl⟩
        · exact .inl (List.mem_cons_of_mem _ h)
        · exact .inr ⟨a, List.mem_cons_of_mem _ ha, hk, rfl⟩

theorem find_concat (h : find key (key a) l = none) :
    find key k (l ++ [a]) = if k = key a then some a else find key k l := by
  rw [find, List.find?_append]
  by_cases hk : k = key a
  · subst hk
    rw [find] at h
    simp [h]
  · have hk' : ¬ key a = k := fun he => hk he.symm
    simp [find, hk, hk']

theorem nodup_concat (hn : (l.map key).Nodup) (h : find key (key a) l = none) :
    ((l ++ [a]).map key).Nodup := by
  rw [List.map_append, List.map_singleton, List.nodup_append]
  refine ⟨hn, List.nodup_singleton _, fun k hk k' hk' heq => ?_⟩
  obtain ⟨b, hb, rfl⟩ := List.mem_map.1 hk
  exact find_eq_none.1 h b hb (heq.trans (List.mem_singleton.1 hk'))

theorem find_filter {p : κ → Bool} :
    find key k (l.filter fun a => p (key a)) = if p k then find key k l else none := by
  induction l with
  | nil => simp [find]
  | cons b l ih =>
    by_cases hb : key b = k
    · by_cases hp : p k
      · simp [find, hb, hp]
      · simpa [find, hb, hp] using ih
    · by_cases hp : p (key b)
      · simpa [find, hb, hp] using ih
      · simpa [find, hb, hp] using ih

/-- A found value that passes a filter is found after it. -/
theorem find_filter_of {q : α → Bool} (h : find key k l = some a) (hq : q a = true) :
    find key k (l.filter q) = some a := by
  induction l with
  | nil => cases h
  | cons b l ih =>
    rw [find, List.find?_cons] at h
    by_cases hb : key b = k
    · simp only [hb, decide_true, Option.some.injEq] at h
      subst h
      simp [find, hq, hb]
    · simp only [hb, decide_false] at h
      have hl := ih h
      by_cases hqb : q b = true
      · simpa [find, hqb, hb] using hl
      · simpa [find, hqb] using hl

/-- A change leaves what it does not touch of each value. -/
theorem flatMap_change {β : Type} {g : α → List β} (hg : ∀ a, key a = k → g (f a) = g a) :
    (change key k f l).flatMap g = l.flatMap g := by
  induction l with
  | nil => rfl
  | cons b l ih =>
    by_cases hb : key b = k
    · simp [change, hb, hg b hb]
    · simp [change, hb, ih]

end Keyed
