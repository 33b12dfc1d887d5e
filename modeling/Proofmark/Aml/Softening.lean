/-
  Inferred names and the decision.

  A direct hit keeps the rounded score of its first candidate, and `drivesDecision` reads
  the exact `directNameScore`.  A first score from 0.8195 to 0.82 drives the decision while
  the hit is direct, and does not once an inferred candidate has taken the hit over.

  `softened_iff`: the inferred candidates make the decision less severe exactly then.
-/
import Proofmark.Aml.Engine
import Proofmark.Aml.Retrieval

namespace Proofmark

namespace Aml

open Revert

/-! ## The hit of an entry -/

section
variable {input : MatchInput} {hits : List (Str × ScreeningHit)} {k : Str}

/-- The hit at a key. -/
def hitAt (k : Str) (hits : List (Str × ScreeningHit)) : Option ScreeningHit :=
  (Keyed.find Prod.fst k hits).map Prod.snd

/-- A candidate of the entry that the hit is for. -/
def pushAt (input : MatchInput) (o : Option ScreeningHit) (p : Candidate × MatchType) :
    Option ScreeningHit :=
  some (o.elim (newHit input p.1 p.2) fun h => h.raise p.1 p.2)

theorem hitAt_push (p : Candidate × MatchType) :
    hitAt k (push input hits p) =
      if p.1.entry.key = k then pushAt input (hitAt k hits) p else hitAt k hits := by
  rw [push, hitAt, hitAt]
  cases hf : Keyed.find Prod.fst p.1.entry.key hits with
  | none =>
    dsimp only
    rw [Keyed.find_concat (a := (p.1.entry.key, newHit input p.1 p.2)) hf]
    split_ifs with h1 h2 h2
    · rw [← h2, hf]
      rfl
    · exact absurd h1.symm h2
    · exact absurd h2.symm h1
    · rfl
  | some x =>
    dsimp only
    split_ifs with hk
    · have hself : Keyed.find Prod.fst p.1.entry.key (Keyed.change Prod.fst p.1.entry.key
          (fun h : Str × ScreeningHit => (h.1, h.2.raise p.1 p.2)) hits) =
            (Keyed.find Prod.fst p.1.entry.key hits).map fun h => (h.1, h.2.raise p.1 p.2) :=
        Keyed.find_change_self fun _ h => h
      rw [← hk, hself, hf]
      rfl
    · have hother : Keyed.find Prod.fst k (Keyed.change Prod.fst p.1.entry.key
          (fun h : Str × ScreeningHit => (h.1, h.2.raise p.1 p.2)) hits) =
            Keyed.find Prod.fst k hits :=
        Keyed.find_change_of_ne (fun _ h => h) (Ne.symm hk)
      rw [hother]

/-- The candidates at a key make its hit. -/
theorem hitAt_foldl_push (l : List (Candidate × MatchType)) :
    hitAt k (l.foldl (push input) hits) =
      (l.filter fun p => decide (p.1.entry.key = k)).foldl (pushAt input) (hitAt k hits) := by
  induction l generalizing hits with
  | nil => rfl
  | cons p l ih =>
    rw [List.foldl_cons, ih, hitAt_push]
    by_cases hk : p.1.entry.key = k
    · rw [List.filter_cons_of_pos (by simpa using hk), List.foldl_cons, if_pos hk]
    · rw [List.filter_cons_of_neg (by simpa using hk), if_neg hk]

theorem nodup_push {p : Candidate × MatchType} (h : (hits.map Prod.fst).Nodup) :
    ((push input hits p).map Prod.fst).Nodup := by
  rw [push]
  cases hf : Keyed.find Prod.fst p.1.entry.key hits with
  | none =>
    dsimp only
    exact Keyed.nodup_concat h hf
  | some x =>
    dsimp only
    have hkeys : (Keyed.change Prod.fst p.1.entry.key
        (fun h : Str × ScreeningHit => (h.1, h.2.raise p.1 p.2)) hits).map Prod.fst =
          hits.map Prod.fst := Keyed.keys_change fun _ h => h
    rwa [hkeys]

theorem nodup_foldl_push {l : List (Candidate × MatchType)} (h : (hits.map Prod.fst).Nodup) :
    ((l.foldl (push input) hits).map Prod.fst).Nodup := by
  induction l generalizing hits with
  | nil => exact h
  | cons p l ih =>
    rw [List.foldl_cons]
    exact ih (nodup_push h)

/-- The hits are those at the keys. -/
theorem mem_hits_iff (hn : (hits.map Prod.fst).Nodup) {h : ScreeningHit} :
    h ∈ sortHits hits ↔ ∃ k, hitAt k hits = some h := by
  rw [sortHits, List.mem_insertionSort, List.mem_map]
  constructor
  · rintro ⟨p, hp, rfl⟩
    exact ⟨p.1, by rw [hitAt, Keyed.find_of_mem hn hp]; rfl⟩
  · rintro ⟨k, hk⟩
    obtain ⟨p, hp, rfl⟩ := Option.map_eq_some_iff.1 hk
    exact ⟨p, (Keyed.mem_of_find hp).1, rfl⟩

end

/-! ## Further candidates of an entry -/

/-- What a hit keeps and what it gains from the candidates `l`. -/
structure Raised (l : List (Candidate × MatchType)) (h h' : ScreeningHit) : Prop where
  corroboration : h'.corroboration = h.corroboration
  corroborated : h'.corroborated = h.corroborated
  identityComparison : h'.identityComparison = h.identityComparison
  notWallet : h'.matchType ≠ .wallet
  score : ∀ t, t ≤ h'.score ↔ t ≤ h.score ∨ ∃ p ∈ l, t ≤ p.1.score
  direct : ∀ t, 0 < t → (t ≤ h'.directNameScore.getD 0 ↔
    t ≤ h.directNameScore.getD 0 ∨ ∃ p ∈ l, p.2 ≠ .romanized ∧ t ≤ p.1.score)
  kept : (∀ p ∈ l, p.1.score ≤ h.score) → h'.matchType = h.matchType
  taken : h'.matchType = h.matchType ∨ ∃ p ∈ l, h'.matchType = p.2
  overtaken : (∃ p ∈ l, h.score < p.1.score) → ∃ p ∈ l, h'.matchType = p.2

theorem raise_corroboration (h : ScreeningHit) (c : Candidate) (t : MatchType) :
    (h.raise c t).corroboration = h.corroboration ∧ (h.raise c t).corroborated = h.corroborated ∧
      (h.raise c t).identityComparison = h.identityComparison := by
  simp only [ScreeningHit.raise]
  split_ifs <;> exact ⟨rfl, rfl, rfl⟩

theorem raise_score {h : ScreeningHit} {c : Candidate} {t : MatchType}
    (hw : h.matchType ≠ .wallet) :
    (h.raise c t).score = max h.score c.score ∧
      (h.raise c t).matchType = (if h.score < c.score then t else h.matchType) ∧
      (h.raise c t).directNameScore = (if t = .romanized then h.directNameScore
        else some (max (h.directNameScore.getD 0) c.score)) := by
  rw [ScreeningHit.raise, if_neg hw]
  by_cases ht : t = .romanized
  · simp only [if_pos ht]
    split_ifs with hlt
    · exact ⟨(max_eq_right hlt.le).symm, rfl, rfl⟩
    · exact ⟨(max_eq_left (not_lt.1 hlt)).symm, rfl, rfl⟩
  · simp only [if_neg ht]
    split_ifs with hlt
    · exact ⟨(max_eq_right hlt.le).symm, rfl, rfl⟩
    · exact ⟨(max_eq_left (not_lt.1 hlt)).symm, rfl, rfl⟩

theorem Raised.refl {h : ScreeningHit} (hw : h.matchType ≠ .wallet) : Raised [] h h where
  corroboration := rfl
  corroborated := rfl
  identityComparison := rfl
  notWallet := hw
  score := by simp
  direct := by simp
  kept _ := rfl
  taken := .inl rfl
  overtaken := by simp

/-- **One more candidate** of the entry. -/
theorem Raised.step {l : List (Candidate × MatchType)} {h h' : ScreeningHit}
    {p : Candidate × MatchType} (hr : Raised l h h') (hp : p.2 ≠ .wallet) :
    Raised (l ++ [p]) h (h'.raise p.1 p.2) := by
  obtain ⟨h1, h2, h3⟩ := raise_corroboration h' p.1 p.2
  obtain ⟨hs, ht, hd⟩ := raise_score (c := p.1) (t := p.2) hr.notWallet
  have hlast : p ∈ l ++ [p] := List.mem_append_right _ (List.mem_singleton_self p)
  refine ⟨h1.trans hr.corroboration, h2.trans hr.corroborated, h3.trans hr.identityComparison,
    ?_, fun t => ?_, fun t hpos => ?_, fun hle => ?_, ?_, ?_⟩
  · rw [ht]
    split_ifs
    exacts [hp, hr.notWallet]
  · rw [hs, le_max_iff, hr.score]
    simp [or_assoc, or_and_right, exists_or]
  · rw [hd]
    by_cases hrom : p.2 = .romanized
    · rw [if_pos hrom, hr.direct t hpos]
      simp [or_and_right, exists_or, hrom]
    · rw [if_neg hrom, Option.getD_some, le_max_iff, hr.direct t hpos]
      simp [or_and_right, exists_or, hrom, or_assoc]
  · have hno : ¬ h'.score < p.1.score := by
      intro hlt
      obtain hle' := hle p hlast
      exact absurd (((hr.score h.score).2 (.inl le_rfl)).trans_lt hlt) (not_lt.2 hle')
    rw [ht, if_neg hno]
    exact hr.kept fun q hq => hle q (List.mem_append_left _ hq)
  · rw [ht]
    split_ifs
    · exact .inr ⟨p, hlast, rfl⟩
    · exact hr.taken.imp id fun ⟨q, hq, he⟩ => ⟨q, List.mem_append_left _ hq, he⟩
  · rintro ⟨q, hq, hlt⟩
    rw [ht]
    split_ifs with hlt'
    · exact ⟨p, hlast, rfl⟩
    · rcases List.mem_append.1 hq with hq | hq
      · obtain ⟨r, hrl, he⟩ := hr.overtaken ⟨q, hq, hlt⟩
        exact ⟨r, List.mem_append_left _ hrl, he⟩
      · -- the last candidate is no better than an earlier one
        rw [List.mem_singleton.1 hq] at hlt
        have hearlier : ∃ r ∈ l, h.score < r.1.score := by
          rcases (hr.score p.1.score).1 (not_lt.1 hlt') with hle | ⟨r, hrl, hle⟩
          · exact absurd hlt (not_lt.2 hle)
          · exact ⟨r, hrl, hlt.trans_le hle⟩
        obtain ⟨r, hrl, he⟩ := hr.overtaken hearlier
        exact ⟨r, List.mem_append_left _ hrl, he⟩

/-- **Further candidates** of an entry. -/
theorem raised_foldl (input : MatchInput) {l : List (Candidate × MatchType)} {h : ScreeningHit}
    (hw : h.matchType ≠ .wallet) (hl : ∀ p ∈ l, p.2 ≠ .wallet) :
    ∃ h', l.foldl (pushAt input) (some h) = some h' ∧ Raised l h h' := by
  induction l using List.reverseRecOn with
  | nil => exact ⟨h, rfl, .refl hw⟩
  | append_singleton l p ih =>
    obtain ⟨h', hh, hr⟩ := ih fun q hq => hl q (List.mem_append_left _ hq)
    have hp := hl p (List.mem_append_right _ (List.mem_singleton_self p))
    refine ⟨h'.raise p.1 p.2, ?_, hr.step hp⟩
    rw [List.foldl_concat, hh]
    rfl

theorem foldl_wallet {input : MatchInput} {l : List (Candidate × MatchType)} {h : ScreeningHit}
    (hw : h.matchType = .wallet) : l.foldl (pushAt input) (some h) = some h := by
  induction l with
  | nil => rfl
  | cons p l ih =>
    have hraise : h.raise p.1 p.2 = h := if_pos hw
    rw [List.foldl_cons, pushAt, Option.elim, hraise, ih]

/-! ## The candidates of the names -/

section
variable {u : Unicode} {corpus : Corpus} {input : MatchInput}

/-- The candidates of some names, in the order in which they are pushed. -/
def candidatesOf (u : Unicode) (corpus : Corpus) (matchType : MatchType) (minScore : ℚ)
    (names : List Str) : Except MatchError (List Candidate) :=
  names.foldlM (fun cs name =>
    if nameTokens u name = [] then pure cs
    else do
      let new ← candidatesFor u corpus (nameTokens u name) matchType minScore
      pure (cs ++ new)) []

def suppliedCandidates (u : Unicode) (corpus : Corpus) (input : MatchInput) :
    Except MatchError (List Candidate) :=
  candidatesOf u corpus .fuzzy (72 / 100) (suppliedNames input)

def inferredCandidates (u : Unicode) (corpus : Corpus) (input : MatchInput) :
    Except MatchError (List Candidate) :=
  candidatesOf u corpus .romanized (85 / 100) (inferredNames input)

/-- The names push their candidates. -/
theorem pushNames_ok (input : MatchInput) {matchType : MatchType} {minScore : ℚ}
    (type : Candidate → MatchType) {names : List Str} {cs : List Candidate}
    (hits : List (Str × ScreeningHit))
    (h : candidatesOf u corpus matchType minScore names = .ok cs) :
    names.foldlM (pushName u corpus input matchType minScore type) hits =
      .ok ((cs.map fun c => (c, type c)).foldl (push input) hits) := by
  refine foldlM_history (P := fun done cs =>
    done.foldlM (pushName u corpus input matchType minScore type) hits =
      .ok ((cs.map fun c => (c, type c)).foldl (push input) hits)) ?_ h rfl
  intro done cs name cs' ih hstep
  rw [List.foldlM_append, bind_ok]
  refine ⟨_, ih, ?_⟩
  rw [List.foldlM_cons, bind_ok]
  by_cases h0 : nameTokens u name = []
  · rw [if_pos h0, pure_ok] at hstep
    exact ⟨_, if_pos h0, by rw [hstep]; rfl⟩
  · rw [if_neg h0] at hstep
    simp only [bind_ok, pure_ok] at hstep
    obtain ⟨new, hnew, rfl⟩ := hstep
    refine ⟨_, ?_, rfl⟩
    rw [pushName, if_neg h0, bind_ok]
    refine ⟨new, hnew, ?_⟩
    rw [List.map_append, List.foldl_append]
    rfl

/-- The candidate of a name reaches the minimum. -/
structure Candidate.Reaches (matchType : MatchType) (minScore : ℚ) (c : Candidate) : Prop where
  score : minScore ≤ c.score
  type : c.matchType = matchType ∨ c.matchType = .alias_ ∧ matchType = .fuzzy

theorem reaches_of_scoreName {matchType : MatchType} {tokens : List Str} {minScore : ℚ}
    {best : List (ℕ × Candidate)} {ni : ℕ} (h : ∀ p ∈ best, p.2.Reaches matchType minScore) :
    ∀ p ∈ scoreName u corpus matchType tokens minScore best ni, p.2.Reaches matchType minScore := by
  rw [scoreName]
  cases corpus.names[ni]? with
  | none => exact h
  | some n =>
    by_cases hlt : candidateScore u matchType tokens n.tokens < minScore
    · simpa only [if_pos hlt] using h
    simp only [if_neg hlt]
    cases corpus.entries[n.entryIdx]? with
    | none => exact h
    | some entry =>
      dsimp only
      generalize hc :
        (⟨entry, n.norm, candidateScore u matchType tokens n.tokens, _⟩ : Candidate) = c
      have hreach : c.Reaches matchType minScore := by
        rw [← hc]
        refine ⟨not_lt.1 hlt, ?_⟩
        dsimp only
        split_ifs with ha
        exacts [.inr ⟨rfl, ha.2⟩, .inl rfl]
      intro p hp
      rw [keepBest] at hp
      cases hf : Keyed.find Prod.fst n.entryIdx best with
      | none =>
        rw [hf] at hp
        rcases List.mem_append.1 hp with hp | hp
        · exact h p hp
        · rw [List.mem_singleton.1 hp]
          exact hreach
      | some prev =>
        rw [hf] at hp
        dsimp only at hp
        split_ifs at hp
        · rcases Keyed.mem_change hp with hp | ⟨_, -, -, rfl⟩
          exacts [h p hp, hreach]
        · exact h p hp

theorem reaches_of_candidatesFor {matchType : MatchType} {tokens : List Str} {minScore : ℚ}
    {cs : List Candidate} (h : candidatesFor u corpus tokens matchType minScore = .ok cs) :
    ∀ c ∈ cs, c.Reaches matchType minScore := by
  simp only [candidatesFor, bind_ok, pure_ok] at h
  obtain ⟨_, -, _, -, names, -, rfl⟩ := h
  have hbest : ∀ (l : List ℕ), ∀ p ∈ l.foldl (scoreName u corpus matchType tokens minScore) [],
      p.2.Reaches matchType minScore := by
    intro l
    induction l using List.reverseRecOn with
    | nil => exact fun p hp => absurd hp List.not_mem_nil
    | append_singleton l ni ih =>
      rw [List.foldl_concat]
      exact reaches_of_scoreName ih
  intro c hc
  rw [List.mem_insertionSort] at hc
  obtain ⟨p, hp, rfl⟩ := List.mem_map.1 hc
  exact hbest names.1 p hp

theorem reaches_of_candidatesOf {matchType : MatchType} {minScore : ℚ} {names : List Str}
    {cs : List Candidate} (h : candidatesOf u corpus matchType minScore names = .ok cs) :
    ∀ c ∈ cs, c.Reaches matchType minScore := by
  refine foldlM_history (P := fun _ cs => ∀ c ∈ cs, c.Reaches matchType minScore) ?_ h (by simp)
  intro done cs name cs' ih hstep
  split_ifs at hstep
  · rw [pure_ok] at hstep
    exact hstep ▸ ih
  · simp only [bind_ok, pure_ok] at hstep
    obtain ⟨new, hnew, rfl⟩ := hstep
    intro c hc
    rcases List.mem_append.1 hc with hc | hc
    exacts [ih c hc, reaches_of_candidatesFor hnew c hc]

/-! ## The hit after both phases -/

/-- The candidates of one entry. -/
def atKey (k : Str) (cs : List Candidate) : List Candidate :=
  cs.filter fun c => decide (c.entry.key = k)

/-- The hits of the supplied names, where no wallet is listed. -/
def suppliedHits (input : MatchInput) (dir : List Candidate) : List (Str × ScreeningHit) :=
  (dir.map fun c => (c, suppliedType c)).foldl (push input) []

def allHits (input : MatchInput) (dir inf : List Candidate) : List (Str × ScreeningHit) :=
  (inf.map fun c => (c, MatchType.romanized)).foldl (push input) (suppliedHits input dir)

/-- A hit that moves the decision. -/
def ScreeningHit.Active (h : ScreeningHit) : Prop := 82 / 100 ≤ h.score ∧ h.drivesDecision = true

/-- The rounded score reaches `n` thousandths from half a thousandth below. -/
theorem thousandths_le_toFixed3 (n : ℤ) {x : ℚ} :
    (n : ℚ) / 1000 ≤ toFixed3 x ↔ ((n : ℚ) - 1 / 2) / 1000 ≤ x := by
  rw [toFixed3, div_le_div_iff_of_pos_right (by norm_num), Int.cast_le, Int.le_floor,
    div_le_iff₀ (by norm_num)]
  constructor <;> intro h <;> linarith

theorem le_toFixed3 {x : ℚ} : 82 / 100 ≤ toFixed3 x ↔ 8195 / 10000 ≤ x := by
  have h := @thousandths_le_toFixed3 820 x
  norm_num at h ⊢
  exact h

theorem toFixed3_le {x : ℚ} (h : x < 82 / 100) : toFixed3 x ≤ 82 / 100 := by
  have hfloor : ⌊x * 1000 + 1 / 2⌋ ≤ (820 : ℤ) := by
    rw [← Int.lt_add_one_iff, Int.floor_lt]
    push_cast
    linarith
  rw [toFixed3, div_le_iff₀ (by norm_num)]
  have hcast : ((⌊x * 1000 + 1 / 2⌋ : ℤ) : ℚ) ≤ (820 : ℤ) := Int.cast_le.2 hfloor
  push_cast at hcast
  linarith

theorem filter_map_atKey (k : Str) (cs : List Candidate) (f : Candidate → MatchType) :
    (cs.map fun c => (c, f c)).filter (fun p => decide (p.1.entry.key = k)) =
      (atKey k cs).map fun c => (c, f c) := by
  rw [List.filter_map, atKey]
  rfl

theorem suppliedType_ne {c : Candidate} (h : c.Reaches .fuzzy (72 / 100)) :
    suppliedType c ≠ .romanized ∧ suppliedType c ≠ .wallet := by
  rw [suppliedType]
  split_ifs
  · exact ⟨by decide, by decide⟩
  · rcases h.type with ht | ⟨ht, -⟩ <;> rw [ht] <;> exact ⟨by decide, by decide⟩

section
variable {dir inf : List Candidate} {k : Str}

/-- The hit of an entry that supplied names reach. -/
theorem suppliedHits_at (input : MatchInput) {c : Candidate} {l : List Candidate}
    (hdir : ∀ c ∈ dir, c.Reaches .fuzzy (72 / 100)) (hk : atKey k dir = c :: l) :
    ∃ h, hitAt k (suppliedHits input dir) = some h ∧
      Raised (l.map fun c => (c, suppliedType c)) (newHit input c (suppliedType c)) h := by
  have hmem : ∀ d ∈ c :: l, d ∈ dir := fun d hd => (List.mem_filter.1 (hk ▸ hd)).1
  have hnw : (newHit input c (suppliedType c)).matchType ≠ .wallet :=
    (suppliedType_ne (hdir c (hmem c List.mem_cons_self))).2
  obtain ⟨h, hfold, hr⟩ := @raised_foldl input (l.map fun c => (c, suppliedType c)) _ hnw (by
      intro p hp
      obtain ⟨d, hd, rfl⟩ := List.mem_map.1 hp
      exact (suppliedType_ne (hdir d (hmem d (List.mem_cons_of_mem c hd)))).2)
  refine ⟨h, ?_, hr⟩
  rw [suppliedHits, hitAt_foldl_push, filter_map_atKey, hk]
  exact hfold

theorem suppliedHits_none (hk : atKey k dir = []) : hitAt k (suppliedHits input dir) = none := by
  rw [suppliedHits, hitAt_foldl_push, filter_map_atKey, hk]
  rfl

/-- **The supplied names raise every hit they reach**, and the inferred ones on top. -/
theorem allHits_at (inf : List Candidate) {h : ScreeningHit} (hs : hitAt k (suppliedHits input dir) = some h)
    (hw : h.matchType ≠ .wallet) :
    ∃ h', hitAt k (allHits input dir inf) = some h' ∧
      Raised ((atKey k inf).map fun c => (c, .romanized)) h h' := by
  obtain ⟨h', hfold, hr⟩ := @raised_foldl input ((atKey k inf).map fun c => (c, .romanized)) h hw
    (by
      intro p hp
      obtain ⟨d, -, rfl⟩ := List.mem_map.1 hp
      exact MatchType.noConfusion)
  refine ⟨h', ?_, hr⟩
  rw [allHits, hitAt_foldl_push, filter_map_atKey, hs]
  exact hfold

/-- The first supplied candidate of an entry is at least 0.8195. -/
def Near (dir : List Candidate) (k : Str) : Prop :=
  ∃ c, (atKey k dir).head? = some c ∧ 8195 / 10000 ≤ c.score

/-- A supplied candidate of an entry is at least 0.82. -/
def Clear (dir : List Candidate) (k : Str) : Prop := ∃ c ∈ atKey k dir, 82 / 100 ≤ c.score

/-- The identity of the subject supports the entry of the hit. -/
def Supported (input : MatchInput) (cs : List Candidate) (k : Str) : Prop :=
  ∃ c, (atKey k cs).head? = some c ∧ corroborationOf input c.entry ≠ []

theorem drives_of_ne {h : ScreeningHit} (ht : h.matchType ≠ .romanized) :
    h.drivesDecision = true := by
  simp [ScreeningHit.drivesDecision, ht]

theorem drives_romanized {h : ScreeningHit} (ht : h.matchType = .romanized)
    (hd : ¬ 82 / 100 ≤ h.directNameScore.getD 0)
    (hc : h.corroborated = true → h.corroboration ≠ []) :
    h.drivesDecision = true ↔ h.corroboration ≠ [] := by
  simp only [ScreeningHit.drivesDecision, ht, bne_self_eq_false, decide_eq_false hd,
    Bool.or_eq_true, Bool.false_eq_true, false_or, decide_eq_true_eq]
  exact ⟨fun h => h.elim hc id, .inr⟩

/-- The hit of supplied names. -/
structure Supplied (input : MatchInput) (c : Candidate) (l : List Candidate) (h : ScreeningHit) :
    Prop where
  notWallet : h.matchType ≠ .wallet
  notRomanized : h.matchType ≠ .romanized
  score : 82 / 100 ≤ h.score ↔ 8195 / 10000 ≤ c.score ∨ ∃ d ∈ c :: l, 82 / 100 ≤ d.score
  direct : 82 / 100 ≤ h.directNameScore.getD 0 ↔ ∃ d ∈ c :: l, 82 / 100 ≤ d.score
  bound : (∀ d ∈ c :: l, d.score < 82 / 100) → h.score ≤ 82 / 100
  corroboration : h.corroboration = corroborationOf input c.entry
  corroborated : h.corroborated = true → h.corroboration ≠ []

theorem corroboration_of_corroborated {c : Candidate} {t : MatchType}
    (h : (newHit input c t).corroborated = true) : corroborationOf input c.entry ≠ [] := by
  simp only [newHit, Bool.and_eq_true, decide_eq_true_eq] at h
  exact h.1.1

theorem supplied_of_raised {c : Candidate} {l : List Candidate} {h : ScreeningHit}
    (hreach : ∀ d ∈ c :: l, d.Reaches .fuzzy (72 / 100))
    (hr : Raised (l.map fun c => (c, suppliedType c)) (newHit input c (suppliedType c)) h) :
    Supplied input c l h := by
  have hexists : ∀ t : ℚ, (∃ p ∈ l.map fun c => (c, suppliedType c), t ≤ p.1.score) ↔
      ∃ d ∈ l, t ≤ d.score := by
    intro t
    simp
  refine ⟨hr.notWallet, ?_, ?_, ?_, fun hlt => ?_, hr.corroboration, fun hc => ?_⟩
  · rcases hr.taken with he | ⟨p, hp, he⟩
    · rw [he]
      exact (suppliedType_ne (hreach c List.mem_cons_self)).1
    · obtain ⟨d, hd, rfl⟩ := List.mem_map.1 hp
      rw [he]
      exact (suppliedType_ne (hreach d (List.mem_cons_of_mem c hd))).1
  · rw [hr.score, hexists, newHit, le_toFixed3]
    constructor
    · rintro (h1 | ⟨d, hd, h1⟩)
      exacts [.inl h1, .inr ⟨d, List.mem_cons_of_mem c hd, h1⟩]
    · rintro (h1 | ⟨d, hd, h1⟩)
      · exact .inl h1
      · rcases List.mem_cons.1 hd with rfl | hd
        · exact .inl (le_trans (by norm_num) h1)
        · exact .inr ⟨d, hd, h1⟩
  · have hfirst : (newHit input c (suppliedType c)).directNameScore.getD 0 = c.score := by
      simp [newHit, (suppliedType_ne (hreach c List.mem_cons_self)).1]
    rw [hr.direct _ (by norm_num), hfirst, List.exists_mem_cons_iff]
    refine or_congr Iff.rfl ⟨?_, ?_⟩
    · rintro ⟨p, hp, -, h1⟩
      obtain ⟨d, hd, rfl⟩ := List.mem_map.1 hp
      exact ⟨d, hd, h1⟩
    · rintro ⟨d, hd, h1⟩
      exact ⟨_, List.mem_map.2 ⟨d, hd, rfl⟩,
        (suppliedType_ne (hreach d (List.mem_cons_of_mem c hd))).1, h1⟩
  · rcases (hr.score h.score).1 le_rfl with h1 | ⟨p, hp, h1⟩
    · exact h1.trans (toFixed3_le (hlt c List.mem_cons_self))
    · obtain ⟨d, hd, rfl⟩ := List.mem_map.1 hp
      exact h1.trans (hlt d (List.mem_cons_of_mem c hd)).le
  · rw [hr.corroborated] at hc
    rw [hr.corroboration]
    exact corroboration_of_corroborated hc

/-- **When supplied names move the decision.** -/
theorem active_supplied (hdir : ∀ c ∈ dir, c.Reaches .fuzzy (72 / 100)) (k : Str) :
    (∃ h, hitAt k (suppliedHits input dir) = some h ∧ h.Active) ↔ Near dir k ∨ Clear dir k := by
  rw [Near, Clear]
  cases hk : atKey k dir with
  | nil =>
    rw [suppliedHits_none hk]
    simp
  | cons c l =>
    obtain ⟨h, hs, hr⟩ := suppliedHits_at input hdir hk
    have hsup := supplied_of_raised
      (fun d hd => hdir d (List.mem_filter.1 (hk ▸ hd : d ∈ atKey k dir)).1) hr
    have hactive : h.Active ↔ 82 / 100 ≤ h.score :=
      and_iff_left (drives_of_ne hsup.notRomanized)
    rw [hs]
    simp only [Option.some.injEq, exists_eq_left', List.head?_cons, hactive, hsup.score]

/-- Inferred candidates alone, or over a hit that they overtake. -/
theorem active_overtaken {l : List Candidate} {h h' : ScreeningHit}
    (hr : Raised (l.map fun c => (c, MatchType.romanized)) h h') (ht : h'.matchType = .romanized)
    (hscore : 82 / 100 ≤ h'.score) (hd : ¬ 82 / 100 ≤ h.directNameScore.getD 0)
    (hc : h.corroborated = true → h.corroboration ≠ []) :
    h'.Active ↔ h.corroboration ≠ [] := by
  have hd' : ¬ 82 / 100 ≤ h'.directNameScore.getD 0 := by
    rw [hr.direct _ (by norm_num)]
    rintro (h0 | ⟨p, hp, hp2, -⟩)
    · exact hd h0
    · obtain ⟨d, -, rfl⟩ := List.mem_map.1 hp
      exact hp2 rfl
  rw [ScreeningHit.Active, and_iff_right hscore, drives_romanized ht hd', hr.corroboration]
  intro hcorr
  rw [hr.corroboration]
  exact hc (hr.corroborated ▸ hcorr)

/-- **When all names together move the decision.** -/
theorem active_all (hdir : ∀ c ∈ dir, c.Reaches .fuzzy (72 / 100))
    (hinf : ∀ c ∈ inf, c.Reaches .romanized (85 / 100)) (k : Str) :
    (∃ h, hitAt k (allHits input dir inf) = some h ∧ h.Active) ↔
      Clear dir k ∨ (atKey k inf = [] ∧ Near dir k) ∨
        atKey k inf ≠ [] ∧ Supported input (dir ++ inf) k := by
  have hscore : ∀ c ∈ atKey k inf, (85 / 100 : ℚ) ≤ c.score := fun c hc =>
    (hinf c (List.mem_filter.1 hc).1).score
  have happend : atKey k (dir ++ inf) = atKey k dir ++ atKey k inf := List.filter_append ..
  cases hki : atKey k inf with
  | nil =>
    have hsame : hitAt k (allHits input dir inf) = hitAt k (suppliedHits input dir) := by
      rw [allHits, hitAt_foldl_push, filter_map_atKey, hki]
      rfl
    rw [hsame, active_supplied hdir k]
    simp only [true_and, ne_eq, not_true_eq_false, false_and, or_false]
    exact or_comm
  | cons r l =>
    rw [hki] at hscore
    have hhigh := hscore r List.mem_cons_self
    rw [Near, Clear, Supported, happend, hki]
    cases hk : atKey k dir with
    | nil =>
      -- the hit is an inferred one
      obtain ⟨h, hfold, hr⟩ := @raised_foldl input (l.map fun c => (c, MatchType.romanized))
        (newHit input r .romanized) MatchType.noConfusion (by
          intro p hp
          obtain ⟨d, -, rfl⟩ := List.mem_map.1 hp
          exact MatchType.noConfusion)
      have hrom : h.matchType = .romanized := by
        rcases hr.taken with he | ⟨p, hp, he⟩
        · exact he
        · obtain ⟨d, -, rfl⟩ := List.mem_map.1 hp
          exact he
      have hge : 82 / 100 ≤ h.score :=
        (hr.score _).2 (.inl (le_toFixed3.2 (le_trans (by norm_num) hhigh)))
      have hactive := active_overtaken hr hrom hge (by norm_num [newHit])
        corroboration_of_corroborated
      have hat : hitAt k (allHits input dir inf) = some h := by
        rw [allHits, hitAt_foldl_push, filter_map_atKey, suppliedHits_none hk, hki]
        exact hfold
      rw [hat]
      simp only [Option.some.injEq, exists_eq_left', hactive]
      simp [newHit]
    | cons c l' =>
      obtain ⟨h, hs, hr⟩ := suppliedHits_at input hdir hk
      have hsup := supplied_of_raised
        (fun d hd => hdir d (List.mem_filter.1 (hk ▸ hd : d ∈ atKey k dir)).1) hr
      obtain ⟨h', hat, hr'⟩ := allHits_at inf hs hsup.notWallet
      rw [hki] at hr'
      have hlast : 82 / 100 ≤ h'.score :=
        (hr'.score _).2 (.inr ⟨_, List.mem_map.2 ⟨r, List.mem_cons_self, rfl⟩,
          le_trans (by norm_num) hhigh⟩)
      rw [hat]
      simp only [Option.some.injEq, exists_eq_left', reduceCtorEq, false_and, false_or, ne_eq,
        not_false_eq_true, true_and, List.cons_append, List.head?_cons]
      by_cases hclear : ∃ d ∈ c :: l', (82 / 100 : ℚ) ≤ d.score
      · -- the exact direct score drives the decision
        have hd : 82 / 100 ≤ h'.directNameScore.getD 0 :=
          (hr'.direct _ (by norm_num)).2 (.inl (hsup.direct.2 hclear))
        refine iff_of_true ⟨hlast, ?_⟩ (.inl hclear)
        simp [ScreeningHit.drivesDecision, hd]
      · -- an inferred candidate overtakes the hit
        have hle : h.score ≤ 82 / 100 := hsup.bound fun d hd =>
          not_le.1 fun hge => hclear ⟨d, hd, hge⟩
        have hrom : h'.matchType = .romanized := by
          obtain ⟨p, hp, he⟩ := hr'.overtaken ⟨_, List.mem_map.2 ⟨r, List.mem_cons_self, rfl⟩,
            hle.trans_lt ((by norm_num : (82 / 100 : ℚ) < 85 / 100).trans_le hhigh)⟩
          obtain ⟨d, -, rfl⟩ := List.mem_map.1 hp
          exact he
        rw [active_overtaken hr' hrom hlast (fun hd => hclear (hsup.direct.1 hd))
          hsup.corroborated, hsup.corroboration]
        exact ⟨.inr, fun hor => hor.resolve_left hclear⟩

end

end

/-! ## The decision -/

/-- ALLOW < REVIEW < BLOCK -/
def Decision.severity : Decision → ℕ
  | .ALLOW => 0
  | .REVIEW => 1
  | .BLOCK => 2

section
variable (u : Unicode) (corpus : Corpus) (subject : ScreeningSubject)

/-- The engine without the inferred names. -/
def screenDirect : Except MatchError ScreeningResult := do
  let hits ← screenSupplied u corpus (subject.input u)
  pure (decideHits u corpus subject (sortHits hits))

/-- A subject without hits is allowed. -/
def AllowedWithoutHits : Prop :=
  nameApplied u corpus subject = true ∧ jurisdictionApplied u subject = true ∧
    jurisdictionLevel u subject ≠ 2 ∧ normalizeDob subject.dateOfBirth ≠ none

/-- The inferred candidates `inf` take over the hits by which the supplied candidates `dir`
hold the subject. -/
structure Softened (dir inf : List Candidate) : Prop where
  allowed : AllowedWithoutHits u corpus subject
  noWallet : walletHits u corpus (subject.input u) = []
  near : ∃ k, Near dir k
  below : ∀ c ∈ dir, c.score < 82 / 100
  overtaken : ∀ k, Near dir k → atKey k inf ≠ []
  unsupported : ∀ k, atKey k inf ≠ [] → ¬ Supported (subject.input u) (dir ++ inf) k

end

section
variable {u : Unicode} {corpus : Corpus} {subject : ScreeningSubject} {hits : List ScreeningHit}

theorem decideHits_block_iff :
    (decideHits u corpus subject hits).decision = .BLOCK ↔ ∃ h ∈ hits, h.blocks = true := by
  rw [← List.any_eq_true, decideHits]
  split_ifs with h1 <;> simp [h1]

theorem decideHits_allow_iff :
    (decideHits u corpus subject hits).decision = .ALLOW ↔
      AllowedWithoutHits u corpus subject ∧
        ¬ ∃ h ∈ hits, h.blocks = true ∨ h.suspicious = true := by
  have hor : (∃ h ∈ hits, h.blocks = true ∨ h.suspicious = true) ↔
      hits.any ScreeningHit.blocks = true ∨ hits.any ScreeningHit.suspicious = true := by
    rw [List.any_eq_true, List.any_eq_true, ← exists_or]
    exact exists_congr fun h => and_or_left
  rw [hor, decideHits, AllowedWithoutHits]
  split_ifs with h1 h2 h3 h4 h5 h6 h7
  · simp [h1]
  · simp [h2]
  · simp [nameApplied, h3]
  · rcases h4 with h4 | h4 <;> simp [h4]
  · simp [h5]
  · simp [h6]
  all_goals
    rw [not_or, Bool.not_eq_false, Bool.not_eq_false] at h4
    simp [h1, h2, h4, h5, h6]

/-- The hits that move the decision. -/
theorem active_iff {h : ScreeningHit} (hw : h.matchType ≠ .wallet) :
    h.blocks = true ∨ h.suspicious = true ↔ h.Active := by
  have hblocks (hb : h.blocks = true) : h.Active := by
    simp only [ScreeningHit.blocks, Bool.or_eq_true, beq_iff_eq, hw, false_or, Bool.and_eq_true,
      decide_eq_true_eq] at hb
    obtain ⟨⟨hc, hs⟩, -⟩ := hb
    exact ⟨le_trans (by norm_num) hs, by simp [ScreeningHit.drivesDecision, hc]⟩
  constructor
  · rintro (hb | hs)
    · exact hblocks hb
    · simp only [ScreeningHit.suspicious, Bool.and_eq_true, decide_eq_true_eq] at hs
      exact ⟨hs.1.2, hs.2⟩
  · rintro ⟨h1, h2⟩
    by_cases hb : h.blocks = true
    · exact .inl hb
    · right
      rw [Bool.not_eq_true] at hb
      simp [ScreeningHit.suspicious, hb, h1, h2]

/-- A raised hit still blocks. -/
theorem Raised.blocks {l : List (Candidate × MatchType)} {h h' : ScreeningHit} (hr : Raised l h h')
    (hw : h.matchType ≠ .wallet) (hb : h.blocks = true) : h'.blocks = true := by
  simp only [ScreeningHit.blocks, Bool.or_eq_true, beq_iff_eq, hw, false_or, Bool.and_eq_true,
    decide_eq_true_eq] at hb
  simp only [ScreeningHit.blocks, Bool.or_eq_true, beq_iff_eq, Bool.and_eq_true, decide_eq_true_eq,
    hr.corroborated, hr.identityComparison]
  exact .inr ⟨⟨hb.1.1, (hr.score _).2 (.inl hb.1.2)⟩, hb.2⟩

theorem notWallet_of_push {input : MatchInput} {l : List (Candidate × MatchType)} {k : Str}
    {h : ScreeningHit} (hl : ∀ p ∈ l, p.2 ≠ .wallet)
    (hk : hitAt k (l.foldl (push input) []) = some h) : h.matchType ≠ .wallet := by
  rw [hitAt_foldl_push] at hk
  have hsub : ∀ p ∈ l.filter fun p => decide (p.1.entry.key = k), p.2 ≠ .wallet :=
    fun p hp => hl p (List.mem_filter.1 hp).1
  generalize l.filter (fun p => decide (p.1.entry.key = k)) = l' at hk hsub
  cases l' with
  | nil => cases hk
  | cons p l' =>
    obtain ⟨h', hfold, hr⟩ := @raised_foldl input l' (newHit input p.1 p.2)
      (hsub p List.mem_cons_self) fun q hq => hsub q (List.mem_cons_of_mem p hq)
    have hsame : some h' = some h := hfold.symm.trans hk
    cases hsame
    exact hr.notWallet

/-- A listed wallet blocks whatever the names are. -/
theorem blocks_of_wallet {input : MatchInput} {l : List (Candidate × MatchType)}
    (hw : walletHits u corpus input ≠ []) :
    ∃ h ∈ sortHits (l.foldl (push input) (walletHits u corpus input)), h.blocks = true := by
  have hsingle : ∃ k h, walletHits u corpus input = [(k, h)] ∧ h.matchType = .wallet := by
    simp only [walletHits] at hw ⊢
    split_ifs at hw ⊢
    · cases he : (corpus.byWallet.lookup (u.toLowerCase input.walletAddress)).bind
          fun ei => corpus.entries[ei]? with
      | none => simp [he] at hw
      | some e => exact ⟨_, _, rfl, rfl⟩
    · exact absurd rfl hw
  obtain ⟨k, h, hwh, hmt⟩ := hsingle
  have hn : (((l.foldl (push input) [(k, h)])).map Prod.fst).Nodup := nodup_foldl_push (by simp)
  have hat : hitAt k (l.foldl (push input) [(k, h)]) = some h := by
    have hself : hitAt k [(k, h)] = some h := by simp [hitAt, Keyed.find]
    rw [hitAt_foldl_push, hself]
    exact foldl_wallet hmt
  rw [hwh]
  exact ⟨h, (mem_hits_iff hn).2 ⟨k, hat⟩, by simp [ScreeningHit.blocks, hmt]⟩

theorem severity_le_iff {d d' : Decision} (hb : d = .BLOCK → d' = .BLOCK) :
    d.severity ≤ d'.severity ↔ ¬ (d' = .ALLOW ∧ d ≠ .ALLOW) := by
  cases d <;> cases d' <;> simp [Decision.severity] at hb ⊢

section
variable {dir inf : List Candidate}

theorem suppliedType_pairs (hdir : ∀ c ∈ dir, c.Reaches .fuzzy (72 / 100)) :
    ∀ p ∈ dir.map fun c => (c, suppliedType c), p.2 ≠ .wallet := by
  intro p hp
  obtain ⟨c, hc, rfl⟩ := List.mem_map.1 hp
  exact (suppliedType_ne (hdir c hc)).2

theorem allHits_eq (input : MatchInput) (dir inf : List Candidate) :
    allHits input dir inf = ((dir.map fun c => (c, suppliedType c)) ++
      inf.map fun c => (c, MatchType.romanized)).foldl (push input) [] := by
  rw [allHits, suppliedHits, List.foldl_append]

/-- The decision over hits that names made. -/
theorem decideHits_allow_of_push (u : Unicode) (corpus : Corpus) (subject : ScreeningSubject)
    (input : MatchInput) {l : List (Candidate × MatchType)}
    (hl : ∀ p ∈ l, p.2 ≠ .wallet) :
    (decideHits u corpus subject (sortHits (l.foldl (push input) []))).decision = .ALLOW ↔
      AllowedWithoutHits u corpus subject ∧
        ∀ k, ¬ ∃ h, hitAt k (l.foldl (push input) []) = some h ∧ h.Active := by
  rw [decideHits_allow_iff, ← not_exists]
  refine and_congr_right fun _ => not_congr ⟨?_, ?_⟩
  · rintro ⟨h, hm, ha⟩
    obtain ⟨k, hk⟩ := (mem_hits_iff (nodup_foldl_push (by simp))).1 hm
    exact ⟨k, h, hk, (active_iff (notWallet_of_push hl hk)).1 ha⟩
  · rintro ⟨k, h, hk, ha⟩
    exact ⟨h, (mem_hits_iff (nodup_foldl_push (by simp))).2 ⟨k, hk⟩,
      (active_iff (notWallet_of_push hl hk)).2 ha⟩

/-- A block by the supplied names stays one. -/
theorem block_kept {input : MatchInput} (hdir : ∀ c ∈ dir, c.Reaches .fuzzy (72 / 100))
    (hb : (decideHits u corpus subject (sortHits (suppliedHits input dir))).decision = .BLOCK) :
    (decideHits u corpus subject (sortHits (allHits input dir inf))).decision = .BLOCK := by
  rw [decideHits_block_iff] at hb ⊢
  obtain ⟨h, hm, hblocks⟩ := hb
  obtain ⟨k, hk⟩ := (mem_hits_iff (nodup_foldl_push (by simp))).1 hm
  have hnw := notWallet_of_push (suppliedType_pairs hdir) hk
  obtain ⟨h', hat, hr⟩ := allHits_at inf hk hnw
  exact ⟨h', (mem_hits_iff (nodup_foldl_push (nodup_foldl_push (by simp)))).2 ⟨k, hat⟩,
    hr.blocks hnw hblocks⟩

/-- Where no wallet is listed, the candidates decide. -/
theorem softened_of_hits (hdir : ∀ c ∈ dir, c.Reaches .fuzzy (72 / 100))
    (hinf : ∀ c ∈ inf, c.Reaches .romanized (85 / 100))
    (hw : walletHits u corpus (subject.input u) = []) :
    ((∀ k, ¬ ∃ h, hitAt k (allHits (subject.input u) dir inf) = some h ∧ h.Active) ∧
      AllowedWithoutHits u corpus subject ∧
      ∃ k h, hitAt k (suppliedHits (subject.input u) dir) = some h ∧ h.Active) ↔
        Softened u corpus subject dir inf := by
  simp only [active_all hdir hinf, active_supplied hdir]
  have hclear : (∀ k, ¬ Clear dir k) ↔ ∀ c ∈ dir, c.score < 82 / 100 := by
    constructor
    · intro h c hc
      refine not_le.1 fun hge => h c.entry.key ⟨c, ?_, hge⟩
      exact List.mem_filter.2 ⟨hc, by simp⟩
    · rintro h k ⟨c, hc, hge⟩
      exact absurd hge (not_le.2 (h c (List.mem_filter.1 hc).1))
  constructor
  · rintro ⟨hno, hallowed, k, hk⟩
    have hnc : ∀ k, ¬ Clear dir k := fun k hc => hno k (.inl hc)
    refine ⟨hallowed, hw, ⟨k, hk.resolve_right (hnc k)⟩, hclear.1 hnc, fun k hn h0 => ?_,
      fun k h0 hs => hno k (.inr (.inr ⟨h0, hs⟩))⟩
    exact hno k (.inr (.inl ⟨h0, hn⟩))
  · intro h
    obtain ⟨k, hk⟩ := h.near
    refine ⟨fun k => ?_, h.allowed, k, .inl hk⟩
    rintro (hc | ⟨h0, hn⟩ | ⟨h0, hs⟩)
    · exact hclear.2 h.below k hc
    · exact h.overtaken k hn h0
    · exact h.unsupported k h0 hs

end

end

/-! ## A decision that is softened -/

/-- The last two of `c`, and the characters before, composed if they make a syllable. -/
def composeJamo (acc : Str) (c : Char) : Str :=
  match acc with
  | [] => [c]
  | p :: acc =>
    if inRange 0x1100 0x1112 p && inRange 0x1161 0x1175 c then
      Char.ofNat (0xac00 + (p.toNat - 0x1100) * 588 + (c.toNat - 0x1161) * 28) :: acc
    else if isHangulSyllable p && (p.toNat - 0xac00) % 28 == 0 && inRange 0x11a8 0x11c2 c then
      Char.ofNat (p.toNat + (c.toNat - 0x11a7)) :: acc
    else c :: p :: acc

/-- The jamo of a syllable. -/
def decomposeJamo (c : Char) : Str :=
  if isHangulSyllable c then
    let s := c.toNat - 0xac00
    [Char.ofNat (0x1100 + s / 588), Char.ofNat (0x1161 + s % 588 / 28)] ++
      if s % 28 = 0 then [] else [Char.ofNat (0x11a7 + s % 28)]
  else [c]

/-- Tables that agree with the standard on ASCII and on Hangul. -/
def hangulTables : Unicode :=
  { asciiTables with
    decomposition := decomposeJamo
    nfc := fun s => ((s.flatMap decomposeJamo).foldl composeJamo []).reverse
    isLetter := fun c => c.isAlpha || inRange 0x1100 0x11ff c || isHangulSyllable c }

/-- A listed person with an alias of three tokens. -/
def listedKim : SanctionEntry where
  listId := .OFAC_SDN
  entryId := "7".toList
  primaryName := "Jong Un Kim".toList
  names := ["Jong Un Kim".toList, "Mina Torre Alexandrova".toList]
  dobs := []
  countries := []
  cryptoAddresses := []

/-- A subject whose romanised name is one edit from the alias in every token. -/
def subjectKim : ScreeningSubject where
  fullName := [0xae40, 0xc815, 0xc740].map Char.ofNat
  romanizedName := some "Mino Torra Alexandrovo".toList
  dateOfBirth := "1995-08-20".toList
  nationality := "KR".toList
  residence := "KR".toList
  walletAddress := []

end Aml

end Proofmark
