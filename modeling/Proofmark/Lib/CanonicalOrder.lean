/-
  The canonical ordering of combining marks.

  Every element has a class; elements of class zero are starters.  `canonicalOrder` sorts
  each run of other elements by their classes and keeps equal classes in order.

  `canonicalOrder_of_ordered`: an ordered list is left as it is.
  `filter_canonicalOrder`: elements with a class may be taken out before or after.
  `canonicalOrder_filter`: a list may be ordered before anything is taken out.
-/
import Mathlib.Data.List.Basic

namespace Combining

variable {α : Type} (cls : α → ℕ)

/-- Puts an element before the first one that it must not pass. -/
def insertMark (c : α) : List α → List α
  | [] => [c]
  | d :: s => if 0 < cls d ∧ cls d < cls c then d :: insertMark c s else c :: d :: s

def canonicalOrder (s : List α) : List α := s.foldr (insertMark cls) []

/-- No two neighbours are out of order. -/
def Ordered : List α → Prop
  | [] => True
  | [_] => True
  | c :: d :: s => ¬ (0 < cls d ∧ cls d < cls c) ∧ Ordered (d :: s)

variable {cls} {c d : α} {s t : List α}

theorem Ordered.tail (h : Ordered cls (c :: s)) : Ordered cls s := by
  cases s with
  | nil => trivial
  | cons d s => exact h.2

theorem ordered_cons (h : Ordered cls s) (hc : ∀ d ∈ s.head?, ¬ (0 < cls d ∧ cls d < cls c)) :
    Ordered cls (c :: s) := by
  cases s with
  | nil => trivial
  | cons d s => exact ⟨hc d rfl, h⟩

theorem mem_insertMark : d ∈ insertMark cls c s ↔ d = c ∨ d ∈ s := by
  induction s with
  | nil => simp [insertMark]
  | cons e s ih =>
    rw [insertMark]
    split_ifs
    · rw [List.mem_cons, ih, List.mem_cons]
      tauto
    · rw [List.mem_cons]

theorem mem_canonicalOrder : d ∈ canonicalOrder cls s ↔ d ∈ s := by
  induction s with
  | nil => rfl
  | cons c s ih =>
    rw [canonicalOrder, List.foldr_cons, ← canonicalOrder, mem_insertMark, ih, List.mem_cons]

theorem ordered_insertMark (h : Ordered cls s) : Ordered cls (insertMark cls c s) := by
  induction s with
  | nil => trivial
  | cons d s ih =>
    rw [insertMark]
    split_ifs with hlt
    · refine ordered_cons (ih h.tail) ?_
      cases s with
      | nil =>
        rintro _ ⟨⟩
        omega
      | cons e s =>
        rw [insertMark]
        split_ifs
        · rintro _ ⟨⟩
          exact h.1
        · rintro _ ⟨⟩
          omega
    · exact ordered_cons h (by rintro _ ⟨⟩; exact hlt)

theorem ordered_canonicalOrder (s : List α) : Ordered cls (canonicalOrder cls s) := by
  induction s with
  | nil => trivial
  | cons c s ih => exact ordered_insertMark ih

/-- **An ordered list is left as it is.** -/
theorem canonicalOrder_of_ordered (h : Ordered cls s) : canonicalOrder cls s = s := by
  induction s with
  | nil => rfl
  | cons c s ih =>
    rw [canonicalOrder, List.foldr_cons, ← canonicalOrder, ih h.tail]
    cases s with
    | nil => rfl
    | cons d s => rw [insertMark, if_neg h.1]

/-- An element is in order with what follows it once elements with a class are taken out. -/
theorem Ordered.head_filter {p : α → Bool} (h : Ordered cls (c :: s))
    (hp : ∀ d ∈ s, p d = false → 0 < cls d) :
    ∀ d ∈ (s.filter p).head?, ¬ (0 < cls d ∧ cls d < cls c) := by
  induction s generalizing c with
  | nil => rintro _ ⟨⟩
  | cons e s ih =>
    have hce := h.1
    cases he : p e with
    | true =>
      rw [List.filter_cons_of_pos he]
      rintro _ ⟨⟩
      exact hce
    | false =>
      rw [List.filter_cons_of_neg (ne_true_of_eq_false he)]
      intro d hd
      have hpos := hp e List.mem_cons_self he
      have hed := ih h.tail (fun d hd => hp d (List.mem_cons_of_mem _ hd)) d hd
      omega

/-- Taking out elements with a class keeps the order. -/
theorem Ordered.filter {p : α → Bool} (h : Ordered cls s) (hp : ∀ c ∈ s, p c = false → 0 < cls c) :
    Ordered cls (s.filter p) := by
  induction s with
  | nil => trivial
  | cons c s ih =>
    have hs := fun d hd => hp d (List.mem_cons_of_mem c hd)
    rw [List.filter_cons]
    split_ifs
    · exact ordered_cons (ih h.tail hs) (h.head_filter hs)
    · exact ih h.tail hs

/-- Replacing elements by starters keeps the order. -/
theorem Ordered.map {f : α → α} (h : Ordered cls s) (hf : ∀ c ∈ s, f c = c ∨ cls (f c) = 0) :
    Ordered cls (s.map f) := by
  induction s with
  | nil => trivial
  | cons c s ih =>
    rw [List.map_cons]
    refine ordered_cons (ih h.tail fun d hd => hf d (List.mem_cons_of_mem _ hd)) ?_
    cases s with
    | nil => rintro _ ⟨⟩
    | cons d s =>
      rintro _ ⟨⟩
      have hc := hf c List.mem_cons_self
      have hd := hf d (List.mem_cons_of_mem _ List.mem_cons_self)
      have hcd := h.1
      rcases hc with hc | hc <;> rcases hd with hd | hd <;> rw [hc, hd] <;> omega

theorem perm_insertMark : (insertMark cls c s).Perm (c :: s) := by
  induction s with
  | nil => exact .refl _
  | cons d s ih =>
    rw [insertMark]
    split_ifs
    · exact (ih.cons d).trans (.swap c d s)
    · exact .refl _

theorem perm_canonicalOrder (s : List α) : (canonicalOrder cls s).Perm s := by
  induction s with
  | nil => exact .refl _
  | cons c s ih => exact perm_insertMark.trans (ih.cons c)

theorem filter_insertMark_neg {p : α → Bool} (hc : p c = false) :
    (insertMark cls c s).filter p = s.filter p := by
  induction s with
  | nil => simp [insertMark, hc]
  | cons d s ih =>
    rw [insertMark]
    split_ifs
    · rw [List.filter_cons, List.filter_cons, ih]
    · rw [List.filter_cons, hc]
      rfl

theorem insertMark_of_head (h : ∀ d ∈ s.head?, ¬ (0 < cls d ∧ cls d < cls c)) :
    insertMark cls c s = c :: s := by
  cases s with
  | nil => rfl
  | cons d s => rw [insertMark, if_neg (h d rfl)]

theorem filter_insertMark {p : α → Bool} (h : Ordered cls s)
    (hp : ∀ d ∈ s, p d = false → 0 < cls d) (hc : p c = true) :
    (insertMark cls c s).filter p = insertMark cls c (s.filter p) := by
  induction s with
  | nil => simp [insertMark, hc]
  | cons d s ih =>
    have hs := fun e he => hp e (List.mem_cons_of_mem d he)
    rw [insertMark]
    split_ifs with hlt
    · cases hd : p d with
      | true => rw [List.filter_cons_of_pos hd, List.filter_cons_of_pos hd, insertMark, if_pos hlt,
          ih h.tail hs]
      | false => rw [List.filter_cons_of_neg (ne_true_of_eq_false hd),
          List.filter_cons_of_neg (ne_true_of_eq_false hd), ih h.tail hs]
    · rw [List.filter_cons_of_pos hc, insertMark_of_head]
      intro e he
      cases hd : p d with
      | true =>
        rw [List.filter_cons_of_pos hd] at he
        cases he
        exact hlt
      | false =>
        -- what stops the mark behind a removed one stops it there too
        rw [List.filter_cons_of_neg (ne_true_of_eq_false hd)] at he
        have hpos := hp d List.mem_cons_self hd
        have hde := h.head_filter hs e he
        omega

/-- **Elements with a class may be taken out before the ordering.** -/
theorem filter_canonicalOrder {p : α → Bool} (hp : ∀ c ∈ s, p c = false → 0 < cls c) :
    (canonicalOrder cls s).filter p = canonicalOrder cls (s.filter p) := by
  induction s with
  | nil => rfl
  | cons c s ih =>
    have hs := fun d hd => hp d (List.mem_cons_of_mem c hd)
    rw [canonicalOrder, List.foldr_cons, ← canonicalOrder]
    cases hc : p c with
    | true =>
      rw [filter_insertMark (ordered_canonicalOrder s)
        (fun d hd => hs d (mem_canonicalOrder.1 hd)) hc, ih hs, List.filter_cons_of_pos hc]
      rfl
    | false =>
      rw [filter_insertMark_neg hc, ih hs, List.filter_cons_of_neg (ne_true_of_eq_false hc)]

/-- Two elements of different classes are put in one order. -/
theorem insertMark_comm (hd : 0 < cls d) (hlt : cls d < cls c) (s : List α) :
    insertMark cls c (insertMark cls d s) = insertMark cls d (insertMark cls c s) := by
  have hback : ¬ (0 < cls c ∧ cls c < cls d) := by omega
  induction s with
  | nil => simp only [insertMark, if_pos (show 0 < cls d ∧ cls d < cls c from ⟨hd, hlt⟩),
      if_neg hback]
  | cons e s ih =>
    by_cases he : 0 < cls e ∧ cls e < cls d
    · -- both pass `e`
      have hec : 0 < cls e ∧ cls e < cls c := ⟨he.1, by omega⟩
      simp only [insertMark, if_pos he, if_pos hec, ih]
    · -- `d` stops in front of `e`, and of whatever `c` puts there
      have hhead : ∀ x ∈ (insertMark cls c (e :: s)).head?, ¬ (0 < cls x ∧ cls x < cls d) := by
        rw [insertMark]
        split_ifs
        · rintro _ ⟨⟩
          exact he
        · rintro _ ⟨⟩
          exact hback
      have hstop : insertMark cls d (e :: s) = d :: e :: s := if_neg he
      have hpass : insertMark cls c (d :: e :: s) = d :: insertMark cls c (e :: s) :=
        if_pos ⟨hd, hlt⟩
      rw [hstop, hpass, insertMark_of_head hhead]

theorem canonicalOrder_filter_cons (p : α → Bool) (c : α) (s : List α) :
    canonicalOrder cls ((c :: s).filter p) =
      if p c = true then insertMark cls c (canonicalOrder cls (s.filter p))
      else canonicalOrder cls (s.filter p) := by
  split_ifs with hc
  · rw [List.filter_cons_of_pos hc]
    rfl
  · rw [List.filter_cons_of_neg hc]

theorem canonicalOrder_filter_insertMark (p : α → Bool) (c : α) (s : List α) :
    canonicalOrder cls ((insertMark cls c s).filter p) =
      canonicalOrder cls ((c :: s).filter p) := by
  induction s with
  | nil => rfl
  | cons d s ih =>
    rw [insertMark]
    split_ifs with hlt
    · simp only [canonicalOrder_filter_cons, ih]
      split_ifs
      exacts [(insertMark_comm hlt.1 hlt.2 _).symm, rfl, rfl, rfl]
    · rfl

/-- **A list may be ordered before anything is taken out of it.** -/
theorem canonicalOrder_filter (p : α → Bool) (s : List α) :
    canonicalOrder cls ((canonicalOrder cls s).filter p) = canonicalOrder cls (s.filter p) := by
  induction s with
  | nil => rfl
  | cons c s ih =>
    refine (canonicalOrder_filter_insertMark p c (canonicalOrder cls s)).trans ?_
    rw [canonicalOrder_filter_cons, canonicalOrder_filter_cons, ih]

theorem map_insertMark {f : α → α} (hc : cls (f c) = cls c) (hs : ∀ d ∈ s, cls (f d) = cls d) :
    insertMark cls (f c) (s.map f) = (insertMark cls c s).map f := by
  induction s with
  | nil => rfl
  | cons d s ih =>
    have hd := hs d List.mem_cons_self
    rw [List.map_cons, insertMark, insertMark, hc, hd]
    split_ifs
    · rw [List.map_cons, ih fun e he => hs e (List.mem_cons_of_mem d he)]
    · rfl

/-- Elements may be replaced by others of their classes. -/
theorem canonicalOrder_map {f : α → α} (hs : ∀ c ∈ s, cls (f c) = cls c) :
    canonicalOrder cls (s.map f) = (canonicalOrder cls s).map f := by
  induction s with
  | nil => rfl
  | cons c s ih =>
    have htail := fun d hd => hs d (List.mem_cons_of_mem c hd)
    rw [List.map_cons, canonicalOrder, List.foldr_cons, ← canonicalOrder, ih htail,
      map_insertMark (hs c List.mem_cons_self) fun d hd => htail d (mem_canonicalOrder.1 hd)]
    rfl

theorem Ordered.append_left (h : Ordered cls (s ++ t)) : Ordered cls s := by
  induction s with
  | nil => trivial
  | cons c s ih =>
    refine ordered_cons (ih h.tail) ?_
    cases s with
    | nil => rintro _ ⟨⟩
    | cons d s =>
      rintro _ ⟨⟩
      exact h.1

theorem Ordered.append_right (h : Ordered cls (s ++ t)) : Ordered cls t := by
  induction s with
  | nil => exact h
  | cons c s ih => exact ih h.tail

/-- A piece of an ordered list is ordered. -/
theorem Ordered.segment (h : Ordered cls t) (hi : s <:+: t) : Ordered cls s := by
  obtain ⟨a, b, rfl⟩ := hi
  exact h.append_left.append_right

end Combining
