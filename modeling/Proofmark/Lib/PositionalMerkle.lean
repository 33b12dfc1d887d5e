/-
  Positional Merkle trees.

  A layer pairs its entries in order, an odd last entry with itself; `layers` repeats this
  until one entry is left.  `climb?` folds a list of siblings from a position upwards and
  derives the shape of the tree from the width of the lowest layer alone.

  `climb?_siblings`: the siblings read off the layers climb to the top.
  `eq_of_climb?`: only they do, unless two of the pairs that were hashed collide.
-/
import Mathlib.Algebra.Group.Nat.Defs
import Mathlib.Data.List.Basic
import Mathlib.Tactic.Common

namespace Merkle

variable {H : Type}

/-- The position that `idx` is hashed with. -/
def pair (idx : ℕ) : ℕ := if idx % 2 = 0 then idx + 1 else idx - 1

/-- An entry and its sibling, left one first. -/
def turn (idx : ℕ) (acc s : H) : H × H := if idx % 2 = 0 then (acc, s) else (s, acc)

/-- The pairs of a layer. -/
def layerPairs : List H → List (H × H)
  | [] => []
  | [a] => [(a, a)]
  | a :: b :: l => (a, b) :: layerPairs l

variable (node : H → H → H)

def hash (p : H × H) : H := node p.1 p.2

def nextLayer (l : List H) : List H := (layerPairs l).map (hash node)

def layersFrom : ℕ → List H → List (List H)
  | 0, l => [l]
  | n + 1, l => if l.length ≤ 1 then [l] else l :: layersFrom n (nextLayer node l)

/-- A layer and all the layers above it. -/
def layers (l : List H) : List (List H) := layersFrom node l.length l

/-- The entry of the last layer. -/
def top? (l : List H) : Option H := (layers node l).getLast?.bind List.head?

/-- The siblings on the way up from `idx`. -/
def siblings : List (List H) → ℕ → List H
  | [], _ => []
  | [_], _ => []
  | l :: l' :: ls, idx => (l[pair idx]?.or l[idx]?).toList ++ siblings (l' :: ls) (idx / 2)

def climb? [DecidableEq H] : H → ℕ → ℕ → List H → Option H
  | acc, idx, width, [] => if width = 1 ∧ idx = 0 then some acc else none
  | acc, idx, width, s :: ss =>
    if width ≤ 1 then none
    else if width ≤ pair idx ∧ s ≠ acc then none
    else climb? (hash node (turn idx acc s)) (idx / 2) ((width + 1) / 2) ss

/-- The pairs hashed by the tree over `l`. -/
def treePairs (l : List H) : List (H × H) := (layers node l).dropLast.flatMap layerPairs

/-- The pairs hashed on the way up. -/
def climbPairs : H → ℕ → List H → List (H × H)
  | _, _, [] => []
  | acc, idx, s :: ss => turn idx acc s :: climbPairs (hash node (turn idx acc s)) (idx / 2) ss

/-! ## Layers -/

theorem length_layerPairs (l : List H) : (layerPairs l).length = (l.length + 1) / 2 := by
  induction l using layerPairs.induct with
  | case1 => simp [layerPairs]
  | case2 a => simp [layerPairs]
  | case3 a b l ih =>
    simp only [layerPairs, List.length_cons, ih]
    omega

theorem getElem?_layerPairs (l : List H) (i : ℕ) :
    (layerPairs l)[i]? = l[2 * i]?.map fun a => (a, l[2 * i + 1]?.getD a) := by
  induction l using layerPairs.induct generalizing i with
  | case1 => simp [layerPairs]
  | case2 a => cases i with
    | zero => simp [layerPairs]
    | succ i => simp [layerPairs]
  | case3 a b l ih => cases i with
    | zero => simp [layerPairs]
    | succ i =>
      have h1 : 2 * (i + 1) = 2 * i + 1 + 1 := by omega
      simp only [layerPairs, List.getElem?_cons_succ, h1, ih]

@[simp] theorem length_nextLayer (l : List H) : (nextLayer node l).length = (l.length + 1) / 2 := by
  rw [nextLayer, List.length_map, length_layerPairs]

/-- The pair above the position `idx`. -/
theorem getElem?_pair {l : List H} {idx : ℕ} {a s : H} (ha : l[idx]? = some a)
    (hs : l[pair idx]?.or l[idx]? = some s) : (layerPairs l)[idx / 2]? = some (turn idx a s) := by
  rw [getElem?_layerPairs, turn]
  rcases Nat.mod_two_eq_zero_or_one idx with h | h
  · have h1 : 2 * (idx / 2) = idx := by omega
    rw [pair, if_pos h] at hs
    rw [h1, ha, if_pos h]
    cases hp : l[idx + 1]? with
    | none => simp_all
    | some b => simp_all
  · have h1 : 2 * (idx / 2) = idx - 1 := by omega
    have h2 : idx - 1 + 1 = idx := by omega
    have hlt : idx < l.length := (List.getElem?_eq_some_iff.1 ha).1
    have hp : l[idx - 1]? = some l[idx - 1] := List.getElem?_eq_getElem (by omega)
    rw [pair, if_neg (by omega), hp, Option.some_or, Option.some.injEq] at hs
    rw [h1, h2, hp, ha, if_neg (by omega), ← hs]
    rfl

theorem getElem?_nextLayer {l : List H} {idx : ℕ} {a s : H} (ha : l[idx]? = some a)
    (hs : l[pair idx]?.or l[idx]? = some s) :
    (nextLayer node l)[idx / 2]? = some (hash node (turn idx a s)) := by
  rw [nextLayer, List.getElem?_map, getElem?_pair ha hs]
  rfl

theorem layersFrom_eq {n m : ℕ} {l : List H} (hn : l.length ≤ n + 1) (hm : l.length ≤ m + 1) :
    layersFrom node n l = layersFrom node m l := by
  induction n generalizing m l with
  | zero => cases m with
    | zero => rfl
    | succ m => rw [layersFrom, layersFrom, if_pos (by omega)]
  | succ n ih => cases m with
    | zero => rw [layersFrom, layersFrom, if_pos (by omega)]
    | succ m =>
      rw [layersFrom, layersFrom]
      split_ifs with h
      · rfl
      · rw [ih (m := m)] <;> rw [length_nextLayer] <;> omega

theorem layers_of_le {l : List H} (h : l.length ≤ 1) : layers node l = [l] := by
  rw [layers]
  cases hl : l.length with
  | zero => rfl
  | succ n => rw [layersFrom, if_pos h]

theorem layers_of_lt {l : List H} (h : 1 < l.length) :
    layers node l = l :: layers node (nextLayer node l) := by
  rw [layers, layers]
  cases hl : l.length with
  | zero => omega
  | succ n =>
    rw [layersFrom, if_neg (by omega)]
    congr 1
    apply layersFrom_eq <;> rw [length_nextLayer] <;> omega

/-- Induction over the layers. -/
theorem layers_induction {P : List H → Prop} (one : ∀ l, l.length ≤ 1 → P l)
    (more : ∀ l, 1 < l.length → P (nextLayer node l) → P l) (l : List H) : P l := by
  induction hn : l.length using Nat.strongRecOn generalizing l with
  | _ n ih =>
    rcases Nat.lt_or_ge 1 l.length with h | h
    · exact more l h (ih _ (by rw [length_nextLayer]; omega) _ rfl)
    · exact one l h

theorem layers_ne_nil (l : List H) : layers node l ≠ [] := by
  rcases Nat.lt_or_ge 1 l.length with h | h
  · simp [layers_of_lt node h]
  · simp [layers_of_le node h]

theorem top?_of_le {l : List H} (h : l.length ≤ 1) : top? node l = l.head? := by
  simp [top?, layers_of_le node h]

theorem top?_of_lt {l : List H} (h : 1 < l.length) : top? node l = top? node (nextLayer node l) := by
  rw [top?, top?, layers_of_lt node h, List.getLast?_cons_of_ne_nil (layers_ne_nil node _)]

theorem siblings_of_lt {l : List H} (h : 1 < l.length) (idx : ℕ) :
    siblings (layers node l) idx = (l[pair idx]?.or l[idx]?).toList ++
      siblings (layers node (nextLayer node l)) (idx / 2) := by
  rw [layers_of_lt node h]
  cases hl : layers node (nextLayer node l) with
  | nil => exact absurd hl (layers_ne_nil node _)
  | cons l' ls => rw [siblings]

theorem treePairs_of_lt {l : List H} (h : 1 < l.length) :
    treePairs node l = layerPairs l ++ treePairs node (nextLayer node l) := by
  rw [treePairs, treePairs, layers_of_lt node h, List.dropLast_cons_of_ne_nil (layers_ne_nil node _),
    List.flatMap_cons]

theorem sibling_isSome {l : List H} {idx : ℕ} (h : idx < l.length) :
    ∃ s, l[pair idx]?.or l[idx]? = some s := by
  rw [List.getElem?_eq_getElem h]
  cases l[pair idx]? with
  | none => exact ⟨_, rfl⟩
  | some s => exact ⟨s, rfl⟩

/-- A tree of at most `2 ^ k` entries has at most `k` levels. -/
theorem length_siblings_le (l : List H) {idx k : ℕ} (hidx : idx < l.length) (hk : l.length ≤ 2 ^ k) :
    (siblings (layers node l) idx).length ≤ k := by
  induction l using layers_induction node generalizing idx k with
  | one l h => simp [layers_of_le node h, siblings]
  | more l h ih =>
    cases k with
    | zero => omega
    | succ k =>
      obtain ⟨s, hs⟩ := sibling_isSome hidx
      have hup : (siblings (layers node (nextLayer node l)) (idx / 2)).length ≤ k := by
        apply ih <;> rw [length_nextLayer]
        · omega
        · rw [Nat.pow_succ] at hk
          omega
      rw [siblings_of_lt node h, hs, Option.toList_some, List.singleton_append, List.length_cons]
      omega

/-- All positions of a tree have as many siblings. -/
theorem length_siblings_eq (l : List H) {i j : ℕ} (hi : i < l.length) (hj : j < l.length) :
    (siblings (layers node l) i).length = (siblings (layers node l) j).length := by
  induction l using layers_induction node generalizing i j with
  | one l h => simp [layers_of_le node h, siblings]
  | more l h ih =>
    obtain ⟨s, hs⟩ := sibling_isSome hi
    obtain ⟨t, ht⟩ := sibling_isSome hj
    have hup : (siblings (layers node (nextLayer node l)) (i / 2)).length =
        (siblings (layers node (nextLayer node l)) (j / 2)).length := by
      apply ih <;> rw [length_nextLayer] <;> omega
    rw [siblings_of_lt node h, siblings_of_lt node h, hs, ht, List.length_append,
      List.length_append, hup]
    rfl

/-! ## Climbing -/

variable [DecidableEq H]

/-- **The siblings of a position climb to the top.** -/
theorem climb?_siblings (l : List H) {idx : ℕ} {a : H} (ha : l[idx]? = some a) :
    climb? node a idx l.length (siblings (layers node l) idx) = top? node l := by
  induction l using layers_induction node generalizing idx a with
  | one l h =>
    have hlt : idx < l.length := (List.getElem?_eq_some_iff.1 ha).1
    have hidx : idx = 0 := by omega
    subst hidx
    have hlen : l.length = 1 := by omega
    rw [layers_of_le node h, siblings, climb?, if_pos ⟨hlen, rfl⟩, top?_of_le node h, ← ha,
      List.head?_eq_getElem?]
  | more l h ih =>
    obtain ⟨s, hs⟩ := sibling_isSome (List.getElem?_eq_some_iff.1 ha).1
    have hshape : ¬ (l.length ≤ pair idx ∧ s ≠ a) := by
      rintro ⟨hle, hne⟩
      rw [List.getElem?_eq_none hle, Option.none_or, ha] at hs
      exact hne (Option.some.inj hs).symm
    have hup := ih (getElem?_nextLayer node ha hs)
    rw [length_nextLayer] at hup
    rw [siblings_of_lt node h, hs, Option.toList_some, List.singleton_append, climb?,
      if_neg (by omega), if_neg hshape, hup, top?_of_lt node h]

/-- **Only the siblings of a position climb to the top**, as long as no pair on the way up
    collides with a pair of the tree. -/
theorem eq_of_climb? (l : List H) {acc r : H} {idx : ℕ} {ss : List H} (hidx : idx < l.length)
    (hr : top? node l = some r) (h : climb? node acc idx l.length ss = some r)
    (hinj : ∀ p ∈ climbPairs node acc idx ss, ∀ q ∈ treePairs node l,
      hash node p = hash node q → p = q) :
    l[idx]? = some acc ∧ ss = siblings (layers node l) idx := by
  induction l using layers_induction node generalizing idx acc ss with
  | one l hl =>
    have hlen : l.length = 1 := by omega
    have h0 : idx = 0 := by omega
    subst h0
    cases ss with
    | nil =>
      rw [climb?, if_pos ⟨hlen, rfl⟩, ← hr, top?_of_le node hl, List.head?_eq_getElem?] at h
      exact ⟨h.symm, by rw [layers_of_le node hl, siblings]⟩
    | cons s ss =>
      rw [climb?, if_pos hl] at h
      cases h
  | more l hl ih =>
    cases ss with
    | nil =>
      rw [climb?, if_neg (by omega)] at h
      cases h
    | cons s ss =>
      rw [climb?, if_neg (by omega)] at h
      split_ifs at h with hshape
      rw [top?_of_lt node hl] at hr
      have hlt : idx / 2 < (nextLayer node l).length := by rw [length_nextLayer]; omega
      obtain ⟨hget, hrest⟩ := ih hlt hr (by rw [length_nextLayer]; exact h) fun p hp q hq =>
        hinj p (List.mem_cons_of_mem _ hp) q
          (by rw [treePairs_of_lt node hl]; exact List.mem_append_right _ hq)
      have ha : l[idx]? = some l[idx] := List.getElem?_eq_getElem hidx
      obtain ⟨b, hb⟩ := sibling_isSome hidx
      have hpair := getElem?_pair ha hb
      rw [getElem?_nextLayer node ha hb] at hget
      have heq : turn idx acc s = turn idx l[idx] b := by
        refine hinj _ (List.mem_cons_self) _ ?_ (Option.some.inj hget).symm
        rw [treePairs_of_lt node hl]
        exact List.mem_append_left _ (List.mem_of_getElem? hpair)
      have hacc : acc = l[idx] ∧ s = b := by
        rw [turn, turn] at heq
        split_ifs at heq with hev
        · exact Prod.mk.inj heq
        · exact (Prod.mk.inj heq).symm
      refine ⟨by rw [ha, hacc.1], ?_⟩
      rw [siblings_of_lt node hl, hb, Option.toList_some, List.singleton_append, hrest, hacc.2]

end Merkle
