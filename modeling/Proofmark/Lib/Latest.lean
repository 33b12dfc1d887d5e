/-
  The latest of a list of positioned events.

  Events `(k, a)` carry their position `k` in a linear order.  When positions are
  pairwise distinct, the latest event does not depend on the order in which the
  list presents the events (`latest_perm`), and appending an event changes it only
  if the new event comes later (`latest_concat_of_lt`, `latest_concat_of_not_lt`).
-/
import Mathlib.Data.List.MinMax
import Mathlib.Data.List.Nodup
import Mathlib.Order.BoundedOrder.Basic

namespace Latest

variable {κ α : Type} [LinearOrder κ]

/-- The event with the greatest position. -/
def latest (l : List (κ × α)) : Option (κ × α) := l.argmax Prod.fst

@[simp] theorem latest_nil : latest ([] : List (κ × α)) = none := rfl

@[simp] theorem latest_singleton (x : κ × α) : latest [x] = some x := rfl

theorem latest_concat (l : List (κ × α)) (x : κ × α) :
    latest (l ++ [x]) = (latest l).elim (some x) fun y => if y.1 < x.1 then some x else some y := by
  rw [latest, List.argmax_concat, latest]
  cases List.argmax Prod.fst l <;> rfl

theorem latest_mem {l : List (κ × α)} {m : κ × α} (h : latest l = some m) : m ∈ l :=
  List.argmax_mem h

theorem le_latest {l : List (κ × α)} {m a : κ × α} (h : latest l = some m) (ha : a ∈ l) :
    a.1 ≤ m.1 := List.le_of_mem_argmax ha h

@[simp] theorem latest_eq_none {l : List (κ × α)} : latest l = none ↔ l = [] := List.argmax_eq_none

omit [LinearOrder κ] in
theorem eq_of_key_eq {l : List (κ × α)} (hk : (l.map Prod.fst).Nodup) {a b : κ × α} (ha : a ∈ l)
    (hb : b ∈ l) (h : a.1 = b.1) : a = b :=
  List.inj_on_of_nodup_map hk ha hb h

/-- With distinct positions, the latest event is the one no event is after. -/
theorem latest_eq_some_iff {l : List (κ × α)} (hk : (l.map Prod.fst).Nodup) {m : κ × α} :
    latest l = some m ↔ m ∈ l ∧ ∀ a ∈ l, a.1 ≤ m.1 := by
  constructor
  · exact fun h => ⟨latest_mem h, fun a ha => le_latest h ha⟩
  · rintro ⟨hm, hle⟩
    rcases hl : latest l with _ | m'
    · rw [latest_eq_none] at hl; simp [hl] at hm
    · have h1 := hle m' (latest_mem hl)
      have h2 := le_latest hl hm
      rw [eq_of_key_eq hk (latest_mem hl) hm (le_antisymm h1 h2)]

/-- **The latest event does not depend on the order of presentation.** -/
theorem latest_perm {l l' : List (κ × α)} (hk : (l.map Prod.fst).Nodup) (h : l.Perm l') :
    latest l = latest l' := by
  have hk' : (l'.map Prod.fst).Nodup := (h.map Prod.fst).nodup_iff.1 hk
  refine Option.ext fun m => ?_
  rw [latest_eq_some_iff hk, latest_eq_some_iff hk', h.mem_iff]
  refine and_congr_right fun _ => ?_
  simp only [h.mem_iff]

/-- In a list sorted by position, the latest event is the last one. -/
theorem latest_of_sorted {l : List (κ × α)} (h : l.Pairwise fun a b => a.1 < b.1) :
    latest l = l.getLast? := by
  rcases List.eq_nil_or_concat l with rfl | ⟨l', x, rfl⟩
  · rfl
  · rw [List.concat_eq_append] at h ⊢
    rw [latest_concat, List.getLast?_concat]
    rcases hl : latest l' with _ | y
    · rfl
    · have hy : y.1 < x.1 := (List.pairwise_append.1 h).2.2 y (latest_mem hl) x (by simp)
      simp [hy]

theorem latest_filter_of_latest {l : List (κ × α)} {p : κ × α → Bool} {m : κ × α}
    (hk : (l.map Prod.fst).Nodup) (h : latest l = some m) (hp : p m) :
    latest (l.filter p) = some m := by
  have hk' : ((l.filter p).map Prod.fst).Nodup := hk.sublist (List.filter_sublist.map _)
  rw [latest_eq_some_iff hk']
  exact ⟨List.mem_filter.2 ⟨latest_mem h, hp⟩, fun a ha => le_latest h (List.mem_filter.1 ha).1⟩

section Position
variable [OrderBot κ]

/-- The position of the latest event; `⊥` when there is none. -/
def position (l : List (κ × α)) : κ := (latest l).elim ⊥ Prod.fst

@[simp] theorem position_nil : position ([] : List (κ × α)) = ⊥ := rfl

theorem position_of_latest {l : List (κ × α)} {m : κ × α} (h : latest l = some m) :
    position l = m.1 := by simp [position, h]

theorem le_position {l : List (κ × α)} {a : κ × α} (h : a ∈ l) : a.1 ≤ position l := by
  rcases hl : latest l with _ | m
  · rw [latest_eq_none] at hl; simp [hl] at h
  · rw [position_of_latest hl]; exact le_latest hl h

theorem position_mono {l l' : List (κ × α)} (h : l ⊆ l') : position l ≤ position l' := by
  rcases hl : latest l with _ | m
  · simp [position, hl]
  · rw [position_of_latest hl]; exact le_position (h (latest_mem hl))

theorem position_perm {l l' : List (κ × α)} (hk : (l.map Prod.fst).Nodup) (h : l.Perm l') :
    position l = position l' := by rw [position, latest_perm hk h, position]

/-- An event after all others becomes the latest. -/
theorem latest_concat_of_lt {l : List (κ × α)} {x : κ × α} (h : position l < x.1) :
    latest (l ++ [x]) = some x := by
  rw [latest_concat]
  rcases hl : latest l with _ | y
  · rfl
  · rw [position_of_latest hl] at h; simp [h]

/-- An event that is not after all others leaves the latest as it was. -/
theorem latest_concat_of_not_lt {l : List (κ × α)} {x : κ × α} (hx : ⊥ < x.1)
    (h : ¬ position l < x.1) : latest (l ++ [x]) = latest l := by
  rw [latest_concat]
  rcases hl : latest l with _ | y
  · simp [position, hl, hx] at h
  · rw [position_of_latest hl] at h; simp [h]

theorem position_concat_of_lt {l : List (κ × α)} {x : κ × α} (h : position l < x.1) :
    position (l ++ [x]) = x.1 := position_of_latest (latest_concat_of_lt h)

theorem position_concat_of_not_lt {l : List (κ × α)} {x : κ × α} (hx : ⊥ < x.1)
    (h : ¬ position l < x.1) : position (l ++ [x]) = position l := by
  rw [position, latest_concat_of_not_lt hx h, position]

/-- When some event is positioned at or after every selected one, the position of all
    events is that of an event that is not selected, or of the latest selected one. -/
theorem latest_not_selected {l : List (κ × α)} {p : κ × α → Bool} {k : κ}
    (hk : position (l.filter p) < k) (hl : ¬ position l < k) (hb : ⊥ < k) :
    ∃ m, latest l = some m ∧ p m = false := by
  rcases hm : latest l with _ | m
  · simp [position, hm, hb] at hl
  · refine ⟨m, rfl, Bool.eq_false_iff.2 fun hp => hl ?_⟩
    rw [position_of_latest hm]
    exact (le_position (List.mem_filter.2 ⟨latest_mem hm, hp⟩)).trans_lt hk

end Position

end Latest
