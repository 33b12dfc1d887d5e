/-
  Maps that list their entries in order of insertion.

  Setting a key that is there keeps its place.  `Same m m'`: the same entries, in whatever
  order; what is read, what is set and the entries sorted by key then agree.
-/
import Mathlib.Data.List.Nodup
import Mathlib.Data.List.Sort

namespace InsertionMap

variable {κ ν : Type}

/-- Two maps with the same entries. -/
structure Same (m m' : List (κ × ν)) : Prop where
  perm : m.Perm m'
  nodup : (m.map Prod.fst).Nodup

variable {m m' : List (κ × ν)}

theorem Same.refl (hn : (m.map Prod.fst).Nodup) : Same m m := ⟨.refl _, hn⟩

theorem Same.nodup' (h : Same m m') : (m'.map Prod.fst).Nodup :=
  (h.perm.map Prod.fst).nodup_iff.1 h.nodup

/-! ## Entries sorted by key -/

section
variable (le : κ → κ → Prop) [DecidableRel le]

/-- `[...m.entries()].sort(([a], [b]) => compare(a, b))` -/
def sorted (m : List (κ × ν)) : List (κ × ν) := m.insertionSort fun a b => le a.1 b.1

variable {le}

theorem Same.sorted (hn : (m.map Prod.fst).Nodup) : Same m (InsertionMap.sorted le m) :=
  ⟨(List.perm_insertionSort _ m).symm, hn⟩

theorem Same.sorted_eq (htotal : ∀ a b, le a b ∨ le b a)
    (htrans : ∀ a b c, le a b → le b c → le a c) (hanti : ∀ a b, le a b → le b a → a = b)
    (h : Same m m') : InsertionMap.sorted le m = InsertionMap.sorted le m' := by
  let r : κ × ν → κ × ν → Prop := fun a b => le a.1 b.1
  have : Std.Total r := ⟨fun a b => htotal a.1 b.1⟩
  have : IsTrans (κ × ν) r := ⟨fun a b c => htrans a.1 b.1 c.1⟩
  have hp : (InsertionMap.sorted le m).Perm (InsertionMap.sorted le m') :=
    ((List.perm_insertionSort r m).trans h.perm).trans (List.perm_insertionSort r m').symm
  refine hp.eq_of_pairwise (fun a b ha hb hab hba => ?_) (List.pairwise_insertionSort r m)
    (List.pairwise_insertionSort r m')
  have ha : a ∈ m := (List.perm_insertionSort r m).mem_iff.1 ha
  have hb : b ∈ m := h.perm.mem_iff.2 ((List.perm_insertionSort r m').mem_iff.1 hb)
  exact List.inj_on_of_nodup_map h.nodup ha hb (hanti a.1 b.1 hab hba)

end

/-! ## Reading and setting -/

variable [DecidableEq κ]

def get (k : κ) (m : List (κ × ν)) : Option ν := (m.find? fun p => p.1 = k).map Prod.snd

def set (k : κ) (v : ν) (m : List (κ × ν)) : List (κ × ν) :=
  if k ∈ m.map Prod.fst then m.map fun p => if p.1 = k then (k, v) else p else m ++ [(k, v)]

variable {k k' : κ} {v : ν}

theorem get_eq_some (hn : (m.map Prod.fst).Nodup) : get k m = some v ↔ (k, v) ∈ m := by
  induction m with
  | nil => simp [get]
  | cons p m ih =>
    obtain ⟨k₁, v₁⟩ := p
    obtain ⟨hk, hn⟩ := List.nodup_cons.1 hn
    have hmem : ∀ x, (k₁, x) ∉ m := fun x hx => hk (List.mem_map.2 ⟨_, hx, rfl⟩)
    by_cases h : k₁ = k
    · subst h
      have hget : get k₁ ((k₁, v₁) :: m) = some v₁ := by simp [get]
      rw [hget, List.mem_cons, Prod.mk.injEq, Option.some.injEq]
      constructor
      · rintro rfl
        exact .inl ⟨rfl, rfl⟩
      · rintro (⟨-, rfl⟩ | hx)
        · rfl
        · exact absurd hx (hmem v)
    · have hget : get k ((k₁, v₁) :: m) = get k m := by simp [get, h]
      rw [hget, ih hn, List.mem_cons, Prod.mk.injEq]
      constructor
      · exact .inr
      · rintro (⟨hk', -⟩ | hx)
        · exact absurd hk'.symm h
        · exact hx

theorem get_eq_none : get k m = none ↔ k ∉ m.map Prod.fst := by
  rw [get, Option.map_eq_none_iff, List.find?_eq_none, List.mem_map]
  constructor
  · rintro h ⟨p, hp, rfl⟩
    exact absurd (decide_eq_true rfl) (h p hp)
  · intro h p hp hk
    exact h ⟨p, hp, of_decide_eq_true hk⟩

@[simp] theorem keys_set : (set k v m).map Prod.fst =
    if k ∈ m.map Prod.fst then m.map Prod.fst else m.map Prod.fst ++ [k] := by
  rw [set]
  split_ifs with h
  · rw [List.map_map]
    refine List.map_congr_left fun p _ => ?_
    simp only [Function.comp_apply]
    split_ifs with hp
    · exact hp.symm
    · rfl
  · rw [List.map_append]
    rfl

theorem nodup_set (hn : (m.map Prod.fst).Nodup) : ((set k v m).map Prod.fst).Nodup := by
  rw [keys_set]
  split_ifs with h
  · exact hn
  · refine List.nodup_append.2 ⟨hn, List.nodup_singleton k, fun a ha b hb => ?_⟩
    rw [List.mem_singleton.1 hb]
    exact fun he => h (he ▸ ha)

theorem mem_set {p : κ × ν} (h : p ∈ set k v m) : p = (k, v) ∨ p ∈ m ∧ p.1 ≠ k := by
  rw [set] at h
  split_ifs at h with hk
  · obtain ⟨q, hq, rfl⟩ := List.mem_map.1 h
    split_ifs with hqk
    · exact .inl rfl
    · exact .inr ⟨hq, hqk⟩
  · rcases List.mem_append.1 h with h | h
    · exact .inr ⟨h, fun he => hk (he ▸ List.mem_map_of_mem h)⟩
    · exact .inl (List.mem_singleton.1 h)

theorem get_set_self : get k (set k v m) = some v := by
  rw [get, set]
  split_ifs with h
  · induction m with
    | nil => cases h
    | cons p m ih =>
      rw [List.map_cons, List.find?_cons]
      by_cases hp : p.1 = k
      · simp [hp]
      · rw [List.map_cons, List.mem_cons] at h
        simpa [hp] using ih (h.resolve_left fun he => hp he.symm)
  · have hnone : m.find? (fun p => p.1 = k) = none := by
      simpa [get] using get_eq_none.2 h
    simp [List.find?_append, hnone]

theorem get_set_of_ne (h : k' ≠ k) : get k' (set k v m) = get k' m := by
  rw [get, set]
  split_ifs with hk
  · induction m with
    | nil => rfl
    | cons p m ih =>
      by_cases hmem : k ∈ m.map Prod.fst
      · by_cases hp : p.1 = k
        · simpa [get, hp, h.symm] using ih hmem
        · by_cases hp' : p.1 = k'
          · simp [get, hp', h]
          · simpa [get, hp, hp'] using ih hmem
      · have hrest : m.map (fun p => if p.1 = k then (k, v) else p) = m := by
          refine (List.map_congr_left fun q hq => ?_).trans (List.map_id m)
          exact if_neg fun he : q.1 = k => hmem (he ▸ List.mem_map_of_mem hq)
        by_cases hp : p.1 = k
        · simp [get, hrest, hp, h.symm]
        · simp [get, hrest, hp]
  · rw [List.find?_append, get]
    cases m.find? (fun p => p.1 = k') <;> simp [h.symm]

theorem Same.get (h : Same m m') (k : κ) : InsertionMap.get k m = InsertionMap.get k m' := by
  ext v
  rw [get_eq_some h.nodup, get_eq_some h.nodup', h.perm.mem_iff]

theorem Same.set (h : Same m m') (k : κ) (v : ν) :
    Same (InsertionMap.set k v m) (InsertionMap.set k v m') := by
  refine ⟨?_, nodup_set h.nodup⟩
  have hk := (h.perm.map Prod.fst).mem_iff (a := k)
  rw [InsertionMap.set, InsertionMap.set]
  by_cases hm : k ∈ m.map Prod.fst
  · rw [if_pos hm, if_pos (hk.1 hm)]
    exact h.perm.map _
  · rw [if_neg hm, if_neg fun hm' => hm (hk.2 hm')]
    exact h.perm.append_right _

end InsertionMap
