/-
  Bounded edits of tokens (src/aml/edit-distance.ts).

  Distances and scores are taken over the code points of the composed tokens, and scores
  are rational numbers.

  `boundedEditDistance_eq`: the table holds the recursion `EditScript.osa`, and its early
  exit is never taken.  `deletionKeys_meet` and `editGrams_meet`: tokens within the
  supported edits share a retrieval key.
-/
import Mathlib
import Proofmark.Aml.Normalize
import Proofmark.Lib.EditScript

namespace Proofmark

namespace Aml

def MIN_EDIT_TOKEN : ℕ := 4
def MIN_TWO_EDIT_TOKEN : ℕ := 6
def MAX_EDIT_TOKEN : ℕ := 64

variable (u : Unicode)

def codePoints (token : Str) : Str := u.nfc token

def deletionKeys (token : Str) : List Str :=
  let chars := codePoints u token
  if chars.length < MIN_EDIT_TOKEN ∨ MAX_EDIT_TOKEN < chars.length then []
  else (chars :: (List.range chars.length).map fun i => chars.take i ++ chars.drop (i + 1)).eraseDups

def supportedEditLimit (token : Str) : ℕ :=
  let length := (codePoints u token).length
  if length < MIN_EDIT_TOKEN ∨ MAX_EDIT_TOKEN < length then 0
  else if length < MIN_TWO_EDIT_TOKEN then 1 else 2

section
variable (a b : Str) (maxDistance : ℕ)

/-- `rows[i][j]`, from the rows before it and the row up to it. -/
def editEntry (rows : List (List ℕ)) (row : List ℕ) (i j : ℕ) : ℕ :=
  let rowAt (r c : ℕ) := (rows.getD r []).getD c 0
  let substitution := rowAt (i - 1) (j - 1) + if a[i - 1]? = b[j - 1]? then 0 else 1
  let entry := min (min (rowAt (i - 1) j + 1) (row.getD (j - 1) 0 + 1)) substitution
  if 1 < i ∧ 1 < j ∧ a[i - 1]? = b[j - 2]? ∧ a[i - 2]? = b[j - 1]? then
    min entry (rowAt (i - 2) (j - 2) + 1)
  else entry

/-- The inner loop: row `i` up to column `j`, and `rowMin`. -/
def editRow (rows : List (List ℕ)) (i : ℕ) : ℕ → List ℕ × ℕ
  | 0 => ([i], maxDistance + 1)
  | j + 1 =>
    let (row, rowMin) := editRow rows i j
    let entry := editEntry a b rows row i (j + 1)
    (row ++ [entry], if (i : ℤ) - (j + 1 : ℕ) ≤ maxDistance ∧ (j + 1 : ℕ) - (i : ℤ) ≤ maxDistance then
      min rowMin entry else rowMin)

/-- The outer loop with `n` rows to go, from row `i`. -/
def editLoop : ℕ → ℕ → List (List ℕ) → ℕ
  | 0, _, rows => min ((rows.getD a.length []).getD b.length 0) (maxDistance + 1)
  | n + 1, i, rows =>
    let (row, rowMin) := editRow a b maxDistance rows i b.length
    if maxDistance < rowMin ∧ b.length + maxDistance < i then maxDistance + 1
    else editLoop n (i + 1) (rows ++ [row])

end

def boundedEditDistance (left right : Str) (maxDistance : ℕ) : ℕ :=
  let a := codePoints u left
  let b := codePoints u right
  if a.length > b.length + maxDistance ∨ b.length > a.length + maxDistance then maxDistance + 1
  else editLoop a b maxDistance a.length 1 [List.range (b.length + 1)]

/-- A character of a token between the two boundary marks. -/
def bounded (chars : Str) : Str := '^' :: chars ++ ['$']

def editGrams (token : Str) : List Str :=
  if supportedEditLimit u token < 2 then []
  else
    let chars := bounded (codePoints u token)
    ((chars.zip chars.tail).map fun p => [p.1, p.2]).eraseDups

def withinOneEdit (left right : Str) : Bool :=
  if u.nfc left = u.nfc right then true
  else decide (1 ≤ supportedEditLimit u left) && decide (1 ≤ supportedEditLimit u right) &&
    decide (boundedEditDistance u left right 1 ≤ 1)

def withinSupportedEdits (left right : Str) : Bool :=
  if u.nfc left = u.nfc right then true
  else
    let limit := min (supportedEditLimit u left) (supportedEditLimit u right)
    decide (0 < limit) && decide (boundedEditDistance u left right limit ≤ limit)

/-- `1 - distance / max(length)` of two tokens. -/
def editSimilarity (left right : Str) : ℚ :=
  1 - boundedEditDistance u left right 2 /
    max (codePoints u left).length (codePoints u right).length

/-- The UTF-16 code units of a string. -/
def utf16 (s : Str) : List ℕ :=
  s.flatMap fun c =>
    if c.toNat < 0x10000 then [c.toNat]
    else [0xd800 + (c.toNat - 0x10000) / 0x400, 0xdc00 + (c.toNat - 0x10000) % 0x400]

structure EditPair where
  i : ℕ
  j : ℕ
  score : ℚ
deriving DecidableEq

/-- The order in which `pairs` is sorted. -/
def EditPair.le (a b : List Str) (x y : EditPair) : Prop :=
  y.score < x.score ∨ y.score = x.score ∧
    (utf16 (a.getD x.i []) < utf16 (a.getD y.i []) ∨
      utf16 (a.getD x.i []) = utf16 (a.getD y.i []) ∧
        utf16 (b.getD x.j []) ≤ utf16 (b.getD y.j []))

instance (a b : List Str) : DecidableRel (EditPair.le a b) :=
  fun _ _ => instDecidableOr

/-- The pairs of equal tokens. -/
def exactPairs (a b : List Str) : List (ℕ × ℕ) :=
  a.zipIdx.filterMap fun p => if p.1 ∈ b then some (p.2, b.idxOf p.1) else none

/-- Takes a pair unless one of its tokens is used. -/
def takePair (used : List (ℕ × ℕ) × ℚ) (pair : EditPair) : List (ℕ × ℕ) × ℚ :=
  if pair.i ∈ used.1.map Prod.fst ∨ pair.j ∈ used.1.map Prod.snd then used
  else (used.1 ++ [(pair.i, pair.j)], used.2 + pair.score)

def editNameScore (left right : List Str) : ℚ :=
  let a := left.eraseDups
  let b := right.eraseDups
  if a.length = 0 ∨ b.length = 0 then 0
  else
    let used := exactPairs a b
    let pairs := a.zipIdx.flatMap fun p => b.zipIdx.filterMap fun q =>
      if p.2 ∈ used.map Prod.fst ∨ q.2 ∈ used.map Prod.snd then none
      else if withinSupportedEdits u p.1 q.1 then some ⟨p.2, q.2, editSimilarity u p.1 q.1⟩
      else none
    let (_, score) := (pairs.insertionSort (EditPair.le a b)).foldl takePair (used, (used.length : ℚ))
    score / max a.length b.length

/-- The unused token of `large` most similar to `token`, the first one of equals. -/
def bestToken (token : Str) (large : List Str) (used : List ℕ) : Option (ℕ × ℚ) :=
  large.zipIdx.foldl (fun best p =>
    if p.2 ∉ used ∧ withinSupportedEdits u token p.1 = true ∧
        best.all (fun q => decide (q.2 < editSimilarity u token p.1)) = true then
      some (p.2, editSimilarity u token p.1)
    else best) none

/-- The loop over `small`: the similarity, unless a token is matched by none. -/
def missingTokenLoop (large : List Str) : List Str → List ℕ → ℚ → Option ℚ
  | [], _, similarity => some similarity
  | token :: small, used, similarity =>
    match bestToken u token large used with
    | none => none
    | some (best, score) => missingTokenLoop large small (used ++ [best]) (similarity + score)

def missingTokenNameScore (left right : List Str) : ℚ :=
  let a := left.eraseDups
  let b := right.eraseDups
  if ¬ (a.length + 1 = b.length ∨ b.length + 1 = a.length) ∨ min a.length b.length < 2 then 0
  else
    let small := if a.length < b.length then a else b
    let large := if a.length < b.length then b else a
    match missingTokenLoop u large small [] 0 with
    | none => 0
    | some similarity => 82 / 100 * (similarity / small.length)


/-! ## The table -/

section
variable {a b : Str} {maxDistance : ℕ}

/-- Row `r` of the table. -/
def tableRow (a b : Str) (r : ℕ) : List ℕ := (List.range (b.length + 1)).map (EditScript.osa a b r)

theorem getD_map_range (f : ℕ → ℕ) {c n : ℕ} (h : c < n) : ((List.range n).map f).getD c 0 = f c := by
  simp [List.getD, h]

/-- The completed rows. -/
def table (a b : Str) (i : ℕ) : List (List ℕ) := (List.range i).map (tableRow a b)

theorem table_entry {i r c : ℕ} (hr : r < i) (hc : c ≤ b.length) :
    ((table a b i).getD r []).getD c 0 = EditScript.osa a b r c := by
  have hrow : (table a b i).getD r [] = tableRow a b r := by simp [List.getD, table, hr]
  rw [hrow, tableRow, getD_map_range _ (by omega)]

/-- **An entry of the table** is one step of the recursion. -/
theorem editEntry_eq {i j : ℕ} (hj : j < b.length) :
    editEntry a b (table a b (i + 1)) ((List.range (j + 1)).map (EditScript.osa a b (i + 1))) (i + 1)
      (j + 1) = EditScript.osa a b (i + 1) (j + 1) := by
  rw [editEntry, EditScript.osa]
  simp only [Nat.add_sub_cancel]
  rw [table_entry (by omega) (by omega), table_entry (by omega) (by omega),
    getD_map_range _ (by omega), table_entry (by omega) (by omega)]
  have h1 : (1 < i + 1) = (0 < i) := by rw [eq_iff_iff]; omega
  have h2 : (1 < j + 1) = (0 < j) := by rw [eq_iff_iff]; omega
  have h3 : i + 1 - 2 = i - 1 := by omega
  have h4 : j + 1 - 2 = j - 1 := by omega
  simp only [h1, h2, h3, h4]

theorem editRow_eq {i j : ℕ} (hj : j ≤ b.length) :
    (editRow a b maxDistance (table a b (i + 1)) (i + 1) j).1 =
      (List.range (j + 1)).map (EditScript.osa a b (i + 1)) := by
  induction j with
  | zero => simp [editRow, EditScript.osa]
  | succ j ih =>
    have hrow := ih (by omega)
    rw [List.range_succ, List.map_append, ← hrow, List.map_singleton, ← editEntry_eq (by omega), ← hrow]
    rfl

theorem editLoop_eq {n i : ℕ} (hn : n + i = a.length) (hlen : a.length ≤ b.length + maxDistance) :
    editLoop a b maxDistance n (i + 1) (table a b (i + 1)) =
      min (EditScript.osa a b a.length b.length) (maxDistance + 1) := by
  induction n generalizing i with
  | zero => rw [editLoop, table_entry (by omega) (by omega)]
  | succ n ih =>
    have hrow := @editRow_eq a b maxDistance i b.length (le_refl _)
    have htable : table a b (i + 1) ++ [(editRow a b maxDistance (table a b (i + 1)) (i + 1) b.length).1] =
        table a b (i + 1 + 1) := by
      rw [hrow, table, table, List.range_succ (n := i + 1), List.map_append]
      rfl
    rw [editLoop]
    generalize editRow a b maxDistance (table a b (i + 1)) (i + 1) b.length = p at htable ⊢
    obtain ⟨row, rowMin⟩ := p
    -- the early exit waits for a row past the last one
    have hexit : ¬ (maxDistance < rowMin ∧ b.length + maxDistance < i + 1) := by omega
    rw [← ih (show n + (i + 1) = a.length by omega), ← htable]
    exact if_neg hexit

/-- **The bounded distance is the capped recursion.** -/
theorem boundedEditDistance_eq (u : Unicode) (left right : Str) (maxDistance : ℕ) :
    boundedEditDistance u left right maxDistance =
      if (codePoints u left).length > (codePoints u right).length + maxDistance ∨
          (codePoints u right).length > (codePoints u left).length + maxDistance then maxDistance + 1
      else min (EditScript.osa (codePoints u left) (codePoints u right) (codePoints u left).length
        (codePoints u right).length) (maxDistance + 1) := by
  rw [boundedEditDistance]
  split_ifs with h
  · rfl
  · have hzero : [List.range ((codePoints u right).length + 1)] =
        table (codePoints u left) (codePoints u right) (0 + 1) := by
      have hrow : tableRow (codePoints u left) (codePoints u right) 0 =
          List.range ((codePoints u right).length + 1) := by
        rw [tableRow, List.map_congr_left (g := id) (fun j _ => by rw [EditScript.osa]; rfl), List.map_id]
      rw [table, List.range_one, List.map_singleton, hrow]
    rw [hzero]
    exact editLoop_eq (by omega) (by omega)

/-- Tokens within a bound are few edits apart. -/
theorem script_of_bounded {u : Unicode} {left right : Str} {maxDistance : ℕ}
    (h : boundedEditDistance u left right maxDistance ≤ maxDistance) :
    ∃ n ≤ maxDistance, EditScript.Script n (codePoints u left) (codePoints u right) := by
  rw [boundedEditDistance_eq] at h
  split_ifs at h
  · omega
  · have hs := EditScript.script_osa (a := codePoints u left) (b := codePoints u right) (le_refl _)
      (le_refl _)
    rw [List.take_length, List.take_length] at hs
    exact ⟨_, by omega, hs⟩

end

theorem boundedEditDistance_symm (u : Unicode) (left right : Str) (maxDistance : ℕ) :
    boundedEditDistance u left right maxDistance = boundedEditDistance u right left maxDistance := by
  rw [boundedEditDistance_eq, boundedEditDistance_eq, EditScript.osa_symm]
  exact if_congr or_comm rfl rfl

theorem withinSupportedEdits_symm (u : Unicode) (left right : Str) :
    withinSupportedEdits u left right = withinSupportedEdits u right left := by
  simp only [withinSupportedEdits, min_comm (supportedEditLimit u left),
    boundedEditDistance_symm u left]
  exact if_congr eq_comm rfl rfl

/-! ## The distance -/

/-- The least number of edits between the composed tokens. -/
def osaDistance (u : Unicode) (left right : Str) : ℕ :=
  EditScript.osa (codePoints u left) (codePoints u right) (codePoints u left).length
    (codePoints u right).length

section
variable (u : Unicode) (left right : Str) (maxDistance : ℕ)

/-- The length cut is never taken within the bound. -/
theorem boundedEditDistance_min : boundedEditDistance u left right maxDistance =
    min (osaDistance u left right) (maxDistance + 1) := by
  rw [boundedEditDistance_eq]
  split_ifs with h
  · obtain ⟨hleft, hright⟩ :=
      (EditScript.isLeast_osa (codePoints u left) (codePoints u right)).1.length_le
    refine (Nat.min_eq_right ?_).symm
    rw [osaDistance]
    omega
  · rfl

theorem boundedEditDistance_le_iff : boundedEditDistance u left right maxDistance ≤ maxDistance ↔
    osaDistance u left right ≤ maxDistance := by
  rw [boundedEditDistance_min]
  omega

theorem withinSupportedEdits_iff : withinSupportedEdits u left right = true ↔
    u.nfc left = u.nfc right ∨ 0 < supportedEditLimit u left ∧ 0 < supportedEditLimit u right ∧
      osaDistance u left right ≤ min (supportedEditLimit u left) (supportedEditLimit u right) := by
  rw [withinSupportedEdits]
  split_ifs with h
  · simp [h]
  · simp only [h, false_or, Bool.and_eq_true, decide_eq_true_eq, boundedEditDistance_le_iff,
      Nat.lt_min, and_assoc]

/-- **The bounded distance is the capped distance** of optimal string alignment, symmetric, and
decides the supported edits. -/
theorem edit_distance_correct :
    ∃ d, IsLeast {n | EditScript.Script n (codePoints u left) (codePoints u right)} d ∧
      (∀ maxDistance, boundedEditDistance u left right maxDistance = min d (maxDistance + 1) ∧
        boundedEditDistance u right left maxDistance = min d (maxDistance + 1)) ∧
      (withinSupportedEdits u left right = true ↔ u.nfc left = u.nfc right ∨
        0 < supportedEditLimit u left ∧ 0 < supportedEditLimit u right ∧
          d ≤ min (supportedEditLimit u left) (supportedEditLimit u right)) := by
  refine ⟨osaDistance u left right, EditScript.isLeast_osa _ _, fun maxDistance => ?_,
    withinSupportedEdits_iff u left right⟩
  constructor
  · exact boundedEditDistance_min u left right maxDistance
  · rw [boundedEditDistance_symm]
    exact boundedEditDistance_min u left right maxDistance

end

/-! ## Retrieval keys -/

section
variable {u : Unicode} {left right : Str}

theorem mem_deletionKeys_whole
    (h : 4 ≤ (codePoints u left).length ∧ (codePoints u left).length ≤ 64) :
    codePoints u left ∈ deletionKeys u left := by
  rw [deletionKeys, if_neg (by simp only [MIN_EDIT_TOKEN, MAX_EDIT_TOKEN]; omega)]
  simp

theorem mem_deletionKeys {x z : Str} {c : Char}
    (h : 4 ≤ (codePoints u left).length ∧ (codePoints u left).length ≤ 64)
    (heq : codePoints u left = x ++ [c] ++ z) : x ++ z ∈ deletionKeys u left := by
  rw [deletionKeys, if_neg (by simp only [MIN_EDIT_TOKEN, MAX_EDIT_TOKEN]; omega)]
  rw [List.mem_eraseDups, List.mem_cons]
  right
  refine List.mem_map.2 ⟨x.length, ?_, ?_⟩
  · rw [List.mem_range, heq]
    simp
  · rw [heq]
    simp

/-- **Tokens one edit apart share a deletion key.** -/
theorem deletionKeys_meet
    (hleft : 4 ≤ (codePoints u left).length ∧ (codePoints u left).length ≤ 64)
    (hright : 4 ≤ (codePoints u right).length ∧ (codePoints u right).length ≤ 64)
    (h : boundedEditDistance u left right 1 ≤ 1) :
    ∃ key, key ∈ deletionKeys u left ∧ key ∈ deletionKeys u right := by
  obtain ⟨n, hn, hs⟩ := script_of_bounded h
  rcases Nat.le_one_iff_eq_zero_or_eq_one.1 hn with rfl | rfl
  · have heq := hs.eq rfl
    exact ⟨_, mem_deletionKeys_whole hleft, heq ▸ mem_deletionKeys_whole hright⟩
  · obtain ⟨x, v, w, z, he, hl, hr⟩ := hs.one rfl
    cases he with
    | insertion c =>
      rw [List.append_nil] at hl
      exact ⟨x ++ z, hl ▸ mem_deletionKeys_whole hleft, mem_deletionKeys hright hr⟩
    | deletion c =>
      rw [List.append_nil] at hr
      exact ⟨x ++ z, mem_deletionKeys hleft hl, hr ▸ mem_deletionKeys_whole hright⟩
    | substitution c d => exact ⟨x ++ z, mem_deletionKeys hleft hl, mem_deletionKeys hright hr⟩
    | transposition c d =>
      -- both tokens without `c`
      have hl' : codePoints u left = x ++ [c] ++ ([d] ++ z) := by rw [hl]; simp
      have hr' : codePoints u right = (x ++ [d]) ++ [c] ++ z := by rw [hr]; simp
      refine ⟨x ++ ([d] ++ z), mem_deletionKeys hleft hl', ?_⟩
      have hkey := mem_deletionKeys hright hr'
      rwa [List.append_assoc] at hkey

/-- Two neighbours between the boundary marks are a gram. -/
theorem mem_editGrams {s t : Str} {c d : Char} (hlimit : supportedEditLimit u left = 2)
    (heq : bounded (codePoints u left) = s ++ [c, d] ++ t) : [c, d] ∈ editGrams u left := by
  rw [editGrams, if_neg (by omega), List.mem_eraseDups, heq]
  refine List.mem_map.2 ⟨(c, d), ?_, rfl⟩
  clear heq
  induction s with
  | nil => simp
  | cons e s ih =>
    cases s with
    | nil => simp
    | cons f s => exact List.mem_cons_of_mem _ ih

theorem length_of_limit (h : supportedEditLimit u left = 2) : 6 ≤ (codePoints u left).length := by
  rw [supportedEditLimit] at h
  by_contra hlt
  by_cases h1 : (codePoints u left).length < MIN_EDIT_TOKEN ∨
      MAX_EDIT_TOKEN < (codePoints u left).length
  · rw [if_pos h1] at h
    omega
  · rw [if_neg h1, if_pos (by rw [MIN_TWO_EDIT_TOKEN]; omega)] at h
    omega

/-- Tokens with a common first character, last character or pair of neighbours share a gram. -/
theorem editGrams_meet_of {x y z s t p q : Str} (hleft : supportedEditLimit u left = 2)
    (hright : supportedEditLimit u right = 2) (hl : codePoints u left = x ++ s ++ y ++ t ++ z)
    (hr : codePoints u right = x ++ p ++ y ++ q ++ z)
    (h : x ≠ [] ∨ z ≠ [] ∨ 2 ≤ y.length) :
    ∃ gram, gram ∈ editGrams u left ∧ gram ∈ editGrams u right := by
  rcases h with h | h | h
  · obtain ⟨c, x, rfl⟩ := List.exists_cons_of_ne_nil h
    refine ⟨['^', c], mem_editGrams (s := []) (t := x ++ s ++ y ++ t ++ z ++ ['$']) hleft ?_,
      mem_editGrams (s := []) (t := x ++ p ++ y ++ q ++ z ++ ['$']) hright ?_⟩
    · rw [bounded, hl]
      simp
    · rw [bounded, hr]
      simp
  · obtain ⟨z, c, rfl⟩ := (List.eq_nil_or_concat z).resolve_left h
    refine ⟨[c, '$'], mem_editGrams (s := '^' :: (x ++ s ++ y ++ t ++ z)) (t := []) hleft ?_,
      mem_editGrams (s := '^' :: (x ++ p ++ y ++ q ++ z)) (t := []) hright ?_⟩
    · rw [bounded, hl]
      simp
    · rw [bounded, hr]
      simp
  · rcases y with _ | ⟨c, _ | ⟨d, y⟩⟩
    · simp at h
    · simp at h
    refine ⟨[c, d], mem_editGrams (s := '^' :: (x ++ s)) (t := y ++ t ++ z ++ ['$']) hleft ?_,
      mem_editGrams (s := '^' :: (x ++ p)) (t := y ++ q ++ z ++ ['$']) hright ?_⟩
    · rw [bounded, hl]
      simp
    · rw [bounded, hr]
      simp

/-- **Tokens two edits apart share a boundary bigram.** -/
theorem editGrams_meet (hleft : supportedEditLimit u left = 2)
    (hright : supportedEditLimit u right = 2) (h : boundedEditDistance u left right 2 ≤ 2) :
    ∃ gram, gram ∈ editGrams u left ∧ gram ∈ editGrams u right := by
  have hlen := length_of_limit hleft
  obtain ⟨n, hn, hs⟩ := script_of_bounded h
  obtain rfl | rfl | rfl : n = 0 ∨ n = 1 ∨ n = 2 := by omega
  · have heq := hs.eq rfl
    refine editGrams_meet_of (x := codePoints u left) (y := []) (z := []) (s := []) (t := [])
      (p := []) (q := []) hleft hright (by simp) (by simp [heq]) (.inl fun h => ?_)
    rw [h] at hlen
    simp at hlen
  · obtain ⟨x, v, w, z, he, hl, hr⟩ := hs.one rfl
    have hv := he.length_left
    refine editGrams_meet_of (x := x) (s := v) (y := []) (t := []) (z := z) (p := w) (q := [])
      hleft hright (by simpa using hl) (by simpa using hr) ?_
    by_contra hno
    rw [not_or, not_or, not_not, not_not] at hno
    rw [hl, hno.1, hno.2.1] at hlen
    simp at hlen
    omega
  · obtain ⟨x, v, w, y, v', w', z, he, he', hl, hr⟩ := hs.two rfl
    have hv := he.length_left
    have hv' := he'.length_left
    refine editGrams_meet_of hleft hright hl hr ?_
    by_contra hno
    rw [not_or, not_or, not_not, not_not] at hno
    rw [hl, hno.1, hno.2.1] at hlen
    simp at hlen
    omega

end

end Aml

end Proofmark
