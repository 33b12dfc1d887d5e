/-
  Canonically equivalent names (src/aml/normalize.ts, `screenNames` of src/aml/match.ts).

  A name, its composition and its decomposition are one text.  `Unicode.Equivalence` says what
  the standard promises of the decomposition beside the other tables.

  * `normalizeName_nfd`: the normal form is that of the decomposed name, if no letter hides a
    lookalike under its marks;
  * `equivalent_iff`: every screening gives the same hits for the three forms exactly when,
    besides, neither the name nor its composition has a Hangul syllable.
-/
import Proofmark.Aml.Disguise
import Proofmark.Aml.Softening

namespace Proofmark

/-- A character that the normalisation takes out or narrows before it looks at the letters. -/
def Aml.isRewritten (c : Char) : Bool := Aml.isInvisible c || Aml.toHalfWidth c != c

/-- What the standard says of the decomposition and the other tables. -/
structure Unicode.Equivalence (u : Unicode) : Prop where
  /-- equivalent strings have equivalent small letters -/
  lower_nfd : ∀ s, u.nfd (u.toLowerCase (u.nfd s)) = u.nfd (u.toLowerCase s)
  lower_decomposed : ∀ s, (∀ c ∈ s, u.decomposition c = [c]) →
    ∀ c ∈ u.toLowerCase s, u.decomposition c = [c]
  /-- the invisible and the wide characters stand for themselves alone -/
  rewritten : ∀ c, Aml.isRewritten c = true → u.decomposition c = [c]
  rewritten_mem : ∀ c, ∀ d ∈ u.decomposition c, Aml.isRewritten d = true → c = d
  wide_class : ∀ c, Aml.toHalfWidth c ≠ c → u.combiningClass c = 0
  homoglyph : ∀ p ∈ Aml.HOMOGLYPH,
    u.decomposition (Char.ofNat p.1) = [Char.ofNat p.1] ∧ u.combiningClass (Char.ofNat p.1) = 0
  /-- the syllables are decomposed into jamo -/
  syllable : ∀ c, ∀ d ∈ u.decomposition c, Aml.isHangulSyllable d = false

namespace Aml

variable {u : Unicode} {s t : Str} {c : Char}

/-- The screening gives the same hits for a name, its composition and its decomposition. -/
def Equivalent (u : Unicode) (s : Str) : Prop :=
  ∀ t ∈ [u.nfc s, u.nfd s], ∀ (corpus : Corpus) (input : MatchInput),
    (∀ r ∈ input.romanizedName, r ∉ [s, u.nfc s, u.nfd s]) →
      screenNames u corpus { input with fullName := t } =
        screenNames u corpus { input with fullName := s }

/-! ## Decomposition and the other stages -/

theorem isRewritten_false (h : isRewritten c = false) :
    isInvisible c = false ∧ toHalfWidth c = c := by
  simpa [isRewritten] using h

theorem visible_append (s t : Str) : visible (s ++ t) = visible s ++ visible t := by
  simp [visible]

theorem visible_eq (h : ∀ c ∈ s, isRewritten c = false) : visible s = s := by
  have hkeep : (s.filter fun c => !isInvisible c) = s :=
    List.filter_eq_self.2 fun c hc => by rw [(isRewritten_false (h c hc)).1]; rfl
  rw [visible, hkeep, List.map_congr_left fun c hc => (isRewritten_false (h c hc)).2, List.map_id']

/-- **The visible characters may be decomposed before or after.** -/
theorem flatMap_visible (hu : u.Canonical) (he : u.Equivalence) (s : Str) :
    (visible s).flatMap u.decomposition = visible (s.flatMap u.decomposition) := by
  have hone : ∀ c, (visible [c]).flatMap u.decomposition = visible (u.decomposition c) := by
    intro c
    cases hc : isRewritten c with
    | false =>
      have hmem : ∀ d ∈ u.decomposition c, isRewritten d = false := fun d hd =>
        Bool.not_eq_true _ ▸ fun hr => absurd (he.rewritten_mem c d hd hr ▸ hr) (by simp [hc])
      rw [visible_eq hmem, visible_eq (by simpa using hc), List.flatMap_singleton]
    | true =>
      rw [he.rewritten c hc]
      cases hinv : isInvisible c with
      | true => rw [visible_cons_invisible hinv]; rfl
      | false =>
        rw [visible_cons hinv]
        have hne : toHalfWidth c ≠ c := by simpa [isRewritten, hinv] using hc
        have hascii := (hu.ascii _ ((toHalfWidth_cases c).resolve_left hne)).1
        exact (List.flatMap_singleton _ _).trans hascii
  induction s with
  | nil => rfl
  | cons c s ih =>
    rw [← List.singleton_append, visible_append, List.flatMap_append, List.flatMap_append,
      visible_append, ih, hone, List.flatMap_singleton]

theorem combiningClass_toHalfWidth (hu : u.Canonical) (he : u.Equivalence) (c : Char) :
    u.combiningClass (toHalfWidth c) = u.combiningClass c := by
  by_cases h : toHalfWidth c = c
  · rw [h]
  · rw [he.wide_class c h, (hu.ascii _ ((toHalfWidth_cases c).resolve_left h)).2]

/-- **The visible characters of equivalent names are equivalent.** -/
theorem nfd_visible_nfd (hu : u.Canonical) (he : u.Equivalence) (s : Str) :
    u.nfd (visible (u.nfd s)) = u.nfd (visible s) := by
  have hdec : (u.nfd s).flatMap u.decomposition = u.nfd s := by
    rw [List.flatMap_congr (isNfd_nfd hu s).decomposed]
    exact List.flatMap_singleton' _
  have hvisible : ∀ t, u.nfd (visible t) = (Combining.canonicalOrder u.combiningClass
      ((t.flatMap u.decomposition).filter fun c => !isInvisible c)).map toHalfWidth := by
    intro t
    rw [Unicode.nfd, flatMap_visible hu he, visible]
    exact Combining.canonicalOrder_map fun c _ => combiningClass_toHalfWidth hu he c
  rw [hvisible, hvisible, hdec, Unicode.nfd, Combining.canonicalOrder_filter]

theorem lookalike_homoglyph (he : u.Equivalence) (h : mapHomoglyph c ≠ c) :
    u.decomposition c = [c] ∧ u.combiningClass c = 0 := by
  have hkey := he.homoglyph _ (homoglyph_mem h)
  rwa [Char.ofNat_toNat] at hkey

theorem combiningClass_mapHomoglyph (hu : u.Canonical) (he : u.Equivalence) (c : Char) :
    u.combiningClass (mapHomoglyph c) = u.combiningClass c := by
  by_cases h : mapHomoglyph c = c
  · rw [h]
  · rw [(lookalike_homoglyph he h).2, (hu.ascii _ (homoglyph_spec h).2.2.2).2]

/-- **Where nothing is hidden** the lookalikes may be mapped after the decomposition. -/
theorem nfd_map_homoglyph (hu : u.Canonical) (he : u.Equivalence) (h : ∀ c ∈ s, ¬ Hides u c) :
    u.nfd (s.map mapHomoglyph) = (u.nfd s).map mapHomoglyph := by
  have hone : ∀ c ∈ s, u.decomposition (mapHomoglyph c) = (u.decomposition c).map mapHomoglyph := by
    intro c hc
    by_cases hne : mapHomoglyph c = c
    · have hplain : ∀ d ∈ u.decomposition c, mapHomoglyph d = d := fun d hd => by
        by_contra hd'
        exact h c hc ⟨hne, d, hd, hd'⟩
      rw [hne, List.map_congr_left hplain, List.map_id']
    · rw [(lookalike_homoglyph he hne).1, (hu.ascii _ (homoglyph_spec hne).2.2.2).1]
      rfl
  have hmap : (s.map mapHomoglyph).flatMap u.decomposition =
      (s.flatMap u.decomposition).map mapHomoglyph := by
    rw [List.flatMap_map, List.map_flatMap]
    exact List.flatMap_congr hone
  rw [Unicode.nfd, hmap,
    Combining.canonicalOrder_map fun c _ => combiningClass_mapHomoglyph hu he c]
  rfl

/-- The letters of the decomposed name hide nothing. -/
theorem not_hides_nfd (hu : u.Canonical) (he : u.Equivalence) (s : Str) :
    ∀ c ∈ u.toLowerCase (visible (u.nfd s)), ¬ Hides u c := by
  have hvisible : ∀ c ∈ visible (u.nfd s), u.decomposition c = [c] := by
    intro c hc
    obtain ⟨d, hd, rfl⟩ := List.mem_map.1 hc
    rcases toHalfWidth_cases d with heq | hascii
    · rw [heq]
      exact (isNfd_nfd hu s).decomposed d (List.mem_filter.1 hd).1
    · exact (hu.ascii _ hascii).1
  rintro c hc ⟨hmap, d, hd, hne⟩
  rw [he.lower_decomposed _ hvisible c hc, List.mem_singleton] at hd
  exact hne (hd ▸ hmap)

/-- **The normal form is that of the decomposed name**, where nothing is hidden. -/
theorem normalizeName_nfd (hu : u.Canonical) (he : u.Equivalence)
    (h : ∀ c ∈ u.toLowerCase (visible s), ¬ Hides u c) :
    normalizeName u (u.nfd s) = normalizeName u s := by
  have hlower : u.nfd (u.toLowerCase (visible (u.nfd s))) = u.nfd (u.toLowerCase (visible s)) := by
    rw [← he.lower_nfd (visible (u.nfd s)), nfd_visible_nfd hu he, he.lower_nfd]
  have hfold : u.nfd (foldName u (u.nfd s)) = u.nfd (foldName u s) := by
    have hl := nfd_map_homoglyph hu he (not_hides_nfd hu he s)
    have hr := nfd_map_homoglyph hu he h
    calc u.nfd (foldName u (u.nfd s))
        = (u.nfd (u.toLowerCase (visible (u.nfd s)))).map mapHomoglyph := hl
      _ = (u.nfd (u.toLowerCase (visible s))).map mapHomoglyph := by rw [hlower]
      _ = u.nfd (foldName u s) := hr.symm
  rw [normalizeName_eq, normalizeName_eq, unmarked, unmarked, hfold]

theorem hasHangul_nfd (he : u.Equivalence) (s : Str) : hasHangul (u.nfd s) = false := by
  rw [hasHangul, List.any_eq_false]
  intro c hc
  obtain ⟨d, -, hcd⟩ := mem_nfd.1 hc
  rw [he.syllable d c hcd]
  exact Bool.false_ne_true

theorem filter_hangul (h : hasHangul s = false) : s.filter isHangulSyllable = [] := by
  by_contra hne
  rw [hasHangul_iff.2 hne] at h
  cases h

/-! ## A corpus of one name -/

/-- A listed person of whom no more is known. -/
def unnamed : SanctionEntry := ⟨.OFAC_SDN, [], [], [], [], [], []⟩

/-- One name of the tokens `listed`, posted under `key`, and room for names of `n` tokens. -/
def oneName (listed : List Str) (key : Str) (n : ℕ) : Corpus where
  entries := [unnamed]
  names := [⟨0, [], listed, false⟩]
  byToken := [(key, [0])]
  byDeletion := []
  byGram := []
  limits := ⟨1, 1, 1, n, n + 1, n + 1, n + 1⟩
  byWallet := []

/-- What is found there. -/
def found (u : Unicode) (listed : List Str) (key : Str) (matchType : MatchType) (minScore : ℚ)
    (tokens : List Str) : List Candidate :=
  if key ∈ tokens ∧ minScore ≤ candidateScore u matchType tokens listed then
    [⟨unnamed, [], candidateScore u matchType tokens listed, matchType⟩]
  else []

section
variable {listed : List Str} {key : Str} {n : ℕ} {matchType : MatchType} {minScore : ℚ}
  {tokens : List Str}

theorem found_of_notMem (h : key ∉ tokens) : found u listed key matchType minScore tokens = [] := by
  rw [found, if_neg fun hk => h hk.1]

theorem capacity_of_le {count limit : ℕ} {boundary : String} (h : count ≤ limit) :
    capacity count limit boundary = .ok () :=
  Revert.revertIf_of_not h.not_gt

theorem searchToken_oneName (st : TokenSearch) (token : Str) :
    searchToken u (oneName listed key n) st token = .ok st := by
  have hnone : ∀ l : List Str, (l.flatMap fun k => Postings.get k ([] : List (Str × List Str))) =
      [] := fun l => List.flatMap_eq_nil_iff.2 fun _ _ => rfl
  have hdel : ((deletionKeys u token).flatMap fun k =>
      Postings.get k (oneName listed key n).byDeletion) = [] := hnone _
  have hgram : ((editGrams u token).flatMap fun k =>
      Postings.get k (oneName listed key n).byGram) = [] := hnone _
  rw [searchToken, hdel, hgram]
  rfl

theorem searchTokens_oneName :
    searchTokens u (oneName listed key n) matchType tokens = .ok ⟨tokens.eraseDups, 0⟩ := by
  have hfold : ∀ (l : List Str) (st : TokenSearch),
      l.foldlM (searchToken u (oneName listed key n)) st = .ok st := by
    intro l st
    induction l with
    | nil => rfl
    | cons t l ih => rw [List.foldlM_cons, searchToken_oneName, Revert.ok_bind, ih]
  rw [searchTokens]
  split_ifs
  · rfl
  · exact hfold _ _

/-- The one name is visited when the key is among the tokens. -/
theorem visitTokens_oneName {l : List Str} {names : List ℕ} {visits : ℕ}
    (hn : names = [] ∨ names = [0]) (hv : visits + l.length ≤ n + 1) :
    ∃ visits', l.foldlM (visitToken (oneName listed key n)) (names, visits) =
      .ok (if key ∈ l then [0] else names, visits') := by
  induction l generalizing names visits with
  | nil => exact ⟨visits, rfl⟩
  | cons t l ih =>
    rw [List.length_cons] at hv
    by_cases ht : t = key
    · subst ht
      have hget : Postings.get t (oneName listed t n).byToken = [0] := by
        rw [oneName, Postings.get_singleton, if_pos rfl]
      have hadd : addName (oneName listed t n) names 0 = .ok [0] := by
        have hcap : capacity 1 (oneName listed t n).limits.maxCandidateNames
            "query candidate names" = .ok () := capacity_of_le (by simp [oneName])
        rcases hn with rfl | rfl <;> simp [addName, hcap]
      have hstep : visitToken (oneName listed t n) (names, visits) t = .ok ([0], visits + 1) := by
        rw [visitToken, hget, List.foldlM_cons, hadd,
          capacity_of_le (by simp [oneName]; omega)]
        rfl
      obtain ⟨visits', h⟩ := @ih [0] (visits + 1) (.inr rfl) (by omega)
      refine ⟨visits', ?_⟩
      rw [List.foldlM_cons, hstep, Revert.ok_bind, h, if_pos List.mem_cons_self, ite_self]
    · have hget : Postings.get t (oneName listed key n).byToken = [] := by
        rw [oneName, Postings.get_singleton, if_neg ht]
      have hstep : visitToken (oneName listed key n) (names, visits) t = .ok (names, visits) := by
        rw [visitToken, hget, capacity_of_le (by simp [oneName]; omega)]
        rfl
      obtain ⟨visits', h⟩ := @ih names visits hn (by omega)
      refine ⟨visits', ?_⟩
      rw [List.foldlM_cons, hstep, Revert.ok_bind, h]
      have hmem : key ∈ t :: l ↔ key ∈ l := by
        rw [List.mem_cons, or_iff_right (Ne.symm ht)]
      simp only [hmem]

theorem length_eraseDups_le (l : List Str) : l.eraseDups.length ≤ l.length := by
  induction hn : l.length using Nat.strong_induction_on generalizing l with
  | h n ih =>
    cases l with
    | nil => exact Nat.zero_le n
    | cons a l =>
      have hle := List.length_filter_le (fun b => !b == a) l
      have hlt : (l.filter fun b => !b == a).length < n := by
        rw [← hn, List.length_cons]
        omega
      have hrest := ih _ hlt _ rfl
      rw [List.eraseDups_cons, List.length_cons]
      omega

/-- **What is found in the corpus of one name.** -/
theorem candidatesFor_oneName (h : tokens.length ≤ n) :
    candidatesFor u (oneName listed key n) tokens matchType minScore =
      .ok (found u listed key matchType minScore tokens) := by
  have hle := length_eraseDups_le tokens
  obtain ⟨visits, hvisit⟩ := @visitTokens_oneName listed key n tokens.eraseDups [] 0 (.inl rfl)
    (by omega)
  rw [candidatesFor, capacity_of_le (by exact h), Revert.ok_bind, searchTokens_oneName,
    Revert.ok_bind, hvisit, Revert.ok_bind, found]
  have hscore : [0].foldl (scoreName u (oneName listed key n) matchType tokens minScore) [] =
      if minScore ≤ candidateScore u matchType tokens listed then
        [(0, ⟨unnamed, [], candidateScore u matchType tokens listed, matchType⟩)] else [] := by
    have hone : (oneName listed key n).names[0]? = some ⟨0, [], listed, false⟩ := rfl
    rw [List.foldl_cons, List.foldl_nil, scoreName, hone]
    dsimp only
    by_cases hlt : candidateScore u matchType tokens listed < minScore
    · rw [if_pos hlt, if_neg (not_le.2 hlt)]
    · rw [if_neg hlt, if_pos (not_lt.1 hlt)]
      rfl
  by_cases hkey : key ∈ tokens
  · rw [if_pos (List.mem_eraseDups.2 hkey)]
    dsimp only
    rw [hscore]
    split_ifs with h1 h2 h2
    · rfl
    · exact absurd ⟨hkey, h1⟩ h2
    · exact absurd h2.2 h1
    · rfl
  · rw [if_neg fun h => hkey (List.mem_eraseDups.1 h), if_neg fun h => hkey h.1]
    rfl

theorem candidatesOf_oneName {names : List Str} (h : ∀ v ∈ names, (nameTokens u v).length ≤ n) :
    candidatesOf u (oneName listed key n) matchType minScore names =
      .ok (names.flatMap fun v => found u listed key matchType minScore (nameTokens u v)) := by
  have hfold : ∀ (l : List Str) (cs : List Candidate), (∀ v ∈ l, (nameTokens u v).length ≤ n) →
      l.foldlM (fun cs name =>
        if nameTokens u name = [] then pure cs
        else do
          let new ← candidatesFor u (oneName listed key n) (nameTokens u name) matchType minScore
          pure (cs ++ new)) cs =
        (.ok (cs ++ l.flatMap fun v => found u listed key matchType minScore (nameTokens u v)) :
          Except MatchError (List Candidate)) := by
    intro l
    induction l with
    | nil =>
      intro cs _
      rw [List.flatMap_nil, List.append_nil]
      rfl
    | cons v l ih =>
      intro cs hl
      have hrest := fun cs => ih cs fun w hw => hl w (List.mem_cons_of_mem v hw)
      rw [List.foldlM_cons, List.flatMap_cons, ← List.append_assoc]
      split_ifs with hv
      · have hnone : found u listed key matchType minScore (nameTokens u v) = [] := by
          rw [hv]
          exact found_of_notMem List.not_mem_nil
        rw [hnone, List.append_nil]
        exact hrest cs
      · rw [candidatesFor_oneName (hl v List.mem_cons_self)]
        exact hrest _
  exact hfold names [] h

/-- A subject of whom only the name is known. -/
def nameOnly (s : Str) : MatchInput := ⟨s, none, none, [], []⟩

/-- The candidates that the corpus of one name has for a subject. -/
def foundSupplied (u : Unicode) (listed : List Str) (key : Str) (s : Str) : List Candidate :=
  found u listed key .fuzzy (72 / 100) (nameTokens u s)

def foundInferred (u : Unicode) (listed : List Str) (key : Str) (s : Str) : List Candidate :=
  (inferredNames (nameOnly s)).flatMap fun v =>
    found u listed key .romanized (85 / 100) (nameTokens u v)

/-- The candidates of the subject, with their types. -/
def foundPairs (u : Unicode) (listed : List Str) (key : Str) (s : Str) :
    List (Candidate × MatchType) :=
  (foundSupplied u listed key s).map (fun c => (c, suppliedType c)) ++
    (foundInferred u listed key s).map fun c => (c, .romanized)

theorem screenNames_oneName (hf : u.CaseFolding)
    (h : ∀ v ∈ s :: inferredNames (nameOnly s), (nameTokens u v).length ≤ n) :
    screenNames u (oneName listed key n) (nameOnly s) =
      .ok (sortHits ((foundPairs u listed key s).foldl (push (nameOnly s)) [])) := by
  have hwallet : walletHits u (oneName listed key n) (nameOnly s) = [] := by
    rw [walletHits]
    split_ifs <;> rfl
  have hdir : candidatesOf u (oneName listed key n) .fuzzy (72 / 100) [s] =
      .ok (foundSupplied u listed key s) := by
    rw [candidatesOf_oneName fun v hv => h v (List.mem_singleton.1 hv ▸ List.mem_cons_self),
      List.flatMap_singleton]
    rfl
  have hinf : candidatesOf u (oneName listed key n) .romanized (85 / 100)
      (inferredNames (nameOnly s)) = .ok (foundInferred u listed key s) :=
    candidatesOf_oneName fun v hv => h v (List.mem_cons_of_mem s hv)
  have hsup : screenSupplied u (oneName listed key n) (nameOnly s) =
      .ok (((foundSupplied u listed key s).map fun c => (c, suppliedType c)).foldl
        (push (nameOnly s)) []) := by
    rw [screenSupplied_eq hf (by exact (Option.some_ne_none _).symm), hwallet]
    exact pushNames_ok (nameOnly s) suppliedType [] hdir
  have hall := fun hits => pushNames_ok (nameOnly s) (fun _ => .romanized) hits hinf
  rw [screenNames, hsup, Revert.ok_bind, screenInferred, hall, Revert.ok_bind, foundPairs,
    List.foldl_append]
  rfl

end

/-! ## What tells two names apart -/

section
variable {input : MatchInput} {l : List (Candidate × MatchType)}

theorem pushAt_inferred {o : Option ScreeningHit} {p : Candidate × MatchType}
    (ho : ∀ h ∈ o, h.matchType ≠ .wallet) (hp : p.2 ≠ .wallet) :
    ∃ h, pushAt input o p = some h ∧ h.matchType ≠ .wallet ∧
      (h.inferredNameScore ≠ none ↔
        (∃ h ∈ o, h.inferredNameScore ≠ none) ∨ p.2 = .romanized) := by
  refine ⟨_, rfl, ?_⟩
  cases o with
  | none =>
    refine ⟨hp, ?_⟩
    rw [Option.elim, newHit]
    by_cases hr : p.2 = .romanized <;> simp [hr]
  | some h =>
    have hw := ho h rfl
    refine ⟨?_, ?_⟩
    · rw [Option.elim, (raise_score hw).2.1]
      split_ifs
      exacts [hp, hw]
    · rw [Option.elim, ScreeningHit.raise, if_neg hw]
      by_cases hr : p.2 = .romanized
      · simp only [if_pos hr]
        split_ifs <;> simp [hr]
      · simp only [if_neg hr]
        split_ifs <;> simp [hr]

/-- **A hit has an inferred score exactly when a romanised candidate was pushed.** -/
theorem foldl_pushAt_inferred (hl : ∀ p ∈ l, p.2 ≠ .wallet) :
    (∃ h, l.foldl (pushAt input) none = some h ∧ h.inferredNameScore ≠ none) ↔
      ∃ p ∈ l, p.2 = .romanized := by
  have hgen : (∀ h ∈ l.foldl (pushAt input) none, h.matchType ≠ .wallet) ∧
      ((∃ h ∈ l.foldl (pushAt input) none, h.inferredNameScore ≠ none) ↔
        ∃ p ∈ l, p.2 = .romanized) := by
    induction l using List.reverseRecOn with
    | nil => simp
    | append_singleton l p ih =>
      obtain ⟨hw, hiff⟩ := ih fun q hq => hl q (List.mem_append_left _ hq)
      obtain ⟨h, heq, hw', hinf⟩ := @pushAt_inferred input _ p hw
        (hl p (List.mem_append_right _ (List.mem_singleton_self p)))
      rw [List.foldl_concat, heq]
      refine ⟨by rintro _ ⟨⟩; exact hw', ?_⟩
      simp only [Option.mem_some_iff, exists_eq_left', hinf, hiff, List.mem_append,
        List.mem_singleton, or_and_right, exists_or, exists_eq_left]
  exact hgen.2

theorem hitAt_unnamed (hl : ∀ p ∈ l, p.1.entry = unnamed) (k : Str) :
    hitAt k (l.foldl (push input) []) =
      if k = unnamed.key then l.foldl (pushAt input) none else none := by
  have hnil : hitAt k [] = none := rfl
  rw [hitAt_foldl_push, hnil]
  split_ifs with hk
  · rw [List.filter_eq_self.2 fun p hp => by rw [hl p hp]; exact decide_eq_true hk.symm]
  · have hnone : (l.filter fun p => decide (p.1.entry.key = k)) = [] := by
      refine List.filter_eq_nil_iff.2 fun p hp => ?_
      rw [hl p hp, decide_eq_true_eq]
      exact fun heq => hk heq.symm
    rw [hnone, List.foldl_nil]

end

section
variable {listed : List Str} {key : Str}

theorem mem_found {matchType : MatchType} {minScore : ℚ} {tokens : List Str} {d : Candidate}
    (h : d ∈ found u listed key matchType minScore tokens) :
    d.entry = unnamed ∧ d.matchType = matchType := by
  rw [found] at h
  split_ifs at h
  · rw [List.mem_singleton.1 h]
    exact ⟨rfl, rfl⟩
  · cases h

theorem foundPairs_spec {p : Candidate × MatchType} (h : p ∈ foundPairs u listed key s) :
    p.1.entry = unnamed ∧ p.2 ≠ .wallet := by
  rcases List.mem_append.1 h with h | h
  · obtain ⟨d, hd, rfl⟩ := List.mem_map.1 h
    obtain ⟨he, ht⟩ := mem_found hd
    refine ⟨he, ?_⟩
    rw [suppliedType, ht]
    split_ifs <;> exact MatchType.noConfusion
  · obtain ⟨d, hd, rfl⟩ := List.mem_map.1 h
    obtain ⟨v, -, hd⟩ := List.mem_flatMap.1 hd
    exact ⟨(mem_found hd).1, MatchType.noConfusion⟩

/-- The hits of the corpus of one name are that of its entry. -/
theorem mem_hits_unnamed {h : ScreeningHit} :
    h ∈ sortHits ((foundPairs u listed key s).foldl (push (nameOnly s)) []) ↔
      (foundPairs u listed key s).foldl (pushAt (nameOnly s)) none = some h := by
  have hnodup : (([] : List (Str × ScreeningHit)).map Prod.fst).Nodup := List.nodup_nil
  rw [mem_hits_iff (nodup_foldl_push hnodup)]
  simp only [hitAt_unnamed fun p hp => (foundPairs_spec hp).1]
  constructor
  · rintro ⟨k, hk⟩
    split_ifs at hk
    exact hk
  · exact fun hh => ⟨unnamed.key, by rw [if_pos rfl, hh]⟩

theorem one_le_nameScore {a : List Str} (ha : a ≠ []) : 1 ≤ nameScore a a := by
  have hall : ((a.eraseDups).filter fun t => a.eraseDups.contains t) = a.eraseDups :=
    List.filter_eq_self.2 fun t ht => by simpa using ht
  have hpos : a.eraseDups.length ≠ 0 := by
    obtain ⟨t, ht⟩ := List.exists_mem_of_ne_nil a ha
    exact (List.length_pos_of_mem (List.mem_eraseDups.2 ht)).ne'
  have hone : ((a.eraseDups.length : ℚ) /
      ((a.eraseDups.length + a.eraseDups.length - a.eraseDups.length : ℕ) : ℚ)) = 1 := by
    rw [Nat.add_sub_cancel]
    exact div_self (by exact_mod_cast hpos)
  rw [nameScore]
  simp only [hall, if_neg hpos, hone]
  split_ifs
  exacts [le_rfl, le_max_left _ _]

theorem one_le_candidateScore {matchType : MatchType} {a : List Str} (ha : a ≠ []) :
    1 ≤ candidateScore u matchType a a :=
  (one_le_nameScore ha).trans ((le_max_left _ _).trans (le_max_left _ _))

theorem exists_bound (f : Str → ℕ) (l : List Str) : ∃ n, ∀ v ∈ l, f v ≤ n := by
  induction l with
  | nil => exact ⟨0, by simp⟩
  | cons v l ih =>
    obtain ⟨n, hn⟩ := ih
    refine ⟨max (f v) n, fun w hw => ?_⟩
    rcases List.mem_cons.1 hw with rfl | hw
    · exact le_max_left _ _
    · exact (hn w hw).trans (le_max_right _ _)

/-- A screening of two names in the corpora of one name. -/
theorem foundPairs_hits (hf : u.CaseFolding) {s t : Str}
    (h : ∀ corpus, screenNames u corpus (nameOnly t) = screenNames u corpus (nameOnly s))
    (listed : List Str) (key : Str) :
    ∀ hit, (foundPairs u listed key t).foldl (pushAt (nameOnly t)) none = some hit ↔
      (foundPairs u listed key s).foldl (pushAt (nameOnly s)) none = some hit := by
  intro hit
  obtain ⟨n, hn⟩ := exists_bound (fun v => (nameTokens u v).length)
    ((s :: inferredNames (nameOnly s)) ++ (t :: inferredNames (nameOnly t)))
  have heq := h (oneName listed key n)
  rw [screenNames_oneName hf fun v hv => hn v (List.mem_append_left _ hv),
    screenNames_oneName hf fun v hv => hn v (List.mem_append_right _ hv), Except.ok.injEq] at heq
  rw [← mem_hits_unnamed, ← mem_hits_unnamed, heq]

theorem foundPairs_romanized (h : hasHangul s = false) :
    ∀ p ∈ foundPairs u listed key s, p.2 ≠ .romanized := by
  intro p hp
  rcases List.mem_append.1 hp with hp | hp
  · obtain ⟨d, hd, rfl⟩ := List.mem_map.1 hp
    rw [suppliedType, (mem_found hd).2]
    split_ifs <;> exact MatchType.noConfusion
  · have hnone : inferredNames (nameOnly s) = [] := by
      rw [inferredNames, nameOnly, h]
      rfl
    rw [foundInferred, hnone] at hp
    cases hp

/-- **A romanised spelling tells a name with syllables from one without.** -/
theorem hasHangul_of_same (hf : u.CaseFolding)
    (hspell : hasHangul s = true → ∃ v ∈ inferredNames (nameOnly s), nameTokens u v ≠ [])
    (ht : hasHangul t = false)
    (h : ∀ corpus, screenNames u corpus (nameOnly t) = screenNames u corpus (nameOnly s)) :
    hasHangul s = false := by
  refine Bool.not_eq_true _ ▸ fun hs => ?_
  obtain ⟨v, hv, htoks⟩ := hspell hs
  obtain ⟨key, hkey⟩ := List.exists_mem_of_ne_nil _ htoks
  have hwallet : ∀ x : Str, ∀ p ∈ foundPairs u (nameTokens u v) key x, p.2 ≠ .wallet :=
    fun x p hp => (foundPairs_spec hp).2
  -- the spelling itself is found for `s`
  have hscore : (85 / 100 : ℚ) ≤
      candidateScore u .romanized (nameTokens u v) (nameTokens u v) :=
    le_trans (by norm_num) (one_le_candidateScore htoks)
  have hfound : (⟨unnamed, [], candidateScore u .romanized (nameTokens u v) (nameTokens u v),
      .romanized⟩ : Candidate) ∈ foundInferred u (nameTokens u v) key s := by
    refine List.mem_flatMap.2 ⟨v, hv, ?_⟩
    rw [found, if_pos ⟨hkey, hscore⟩]
    exact List.mem_singleton_self _
  have hpair : ∃ p ∈ foundPairs u (nameTokens u v) key s, p.2 = .romanized :=
    ⟨_, List.mem_append_right _ (List.mem_map.2 ⟨_, hfound, rfl⟩), rfl⟩
  obtain ⟨hit, hhit, hinf⟩ := (foldl_pushAt_inferred (hwallet s)).2 hpair
  -- and none is found for `t`
  obtain ⟨p, hp, hrom⟩ := (foldl_pushAt_inferred (hwallet t)).1
    ⟨hit, (foundPairs_hits hf h _ _ hit).2 hhit, hinf⟩
  exact foundPairs_romanized ht p hp hrom

/-- **The tokens of the name tell two names apart.** -/
theorem mem_nameTokens_of_same (hf : u.CaseFolding) (ht : hasHangul t = false)
    (h : ∀ corpus, screenNames u corpus (nameOnly t) = screenNames u corpus (nameOnly s)) :
    ∀ key ∈ nameTokens u s, key ∈ nameTokens u t := by
  intro key hkey
  by_contra hno
  have hscore : (72 / 100 : ℚ) ≤ candidateScore u .fuzzy (nameTokens u s) (nameTokens u s) :=
    le_trans (by norm_num) (one_le_candidateScore (List.ne_nil_of_mem hkey))
  have hfound : foundSupplied u (nameTokens u s) key s ≠ [] := by
    rw [foundSupplied, found, if_pos ⟨hkey, hscore⟩]
    exact List.cons_ne_nil _ _
  have hsome : ∃ hit, (foundPairs u (nameTokens u s) key s).foldl (pushAt (nameOnly s)) none =
      some hit := by
    have hne : foundPairs u (nameTokens u s) key s ≠ [] := by
      rw [foundPairs, ne_eq, List.append_eq_nil_iff, List.map_eq_nil_iff]
      exact fun h => hfound h.1
    obtain ⟨l, p, hl⟩ := List.eq_nil_or_concat' _ |>.resolve_left hne
    rw [hl, List.foldl_concat]
    exact ⟨_, rfl⟩
  have hnone : foundPairs u (nameTokens u s) key t = [] := by
    have hsup : foundSupplied u (nameTokens u s) key t = [] := found_of_notMem hno
    have hinf : inferredNames (nameOnly t) = [] := by
      rw [inferredNames, nameOnly, ht]
      rfl
    rw [foundPairs, foundInferred, hsup, hinf]
    rfl
  obtain ⟨hit, hhit⟩ := hsome
  have hcontra := (foundPairs_hits hf h _ _ hit).2 hhit
  rw [hnone] at hcontra
  cases hcontra

end

/-! ## Letters in tokens -/

theorem mem_splitTokens (hs : isSeparator c = false) (h : c ∈ s) :
    c ∈ (splitTokens s).1 ∨ ∃ t ∈ (splitTokens s).2, c ∈ t := by
  induction s with
  | nil => cases h
  | cons d s ih =>
    rw [splitTokens]
    generalize splitTokens s = p at ih ⊢
    obtain ⟨run, tokens⟩ := p
    simp only at ih ⊢
    rcases List.mem_cons.1 h with rfl | h
    · rw [if_neg (ne_true_of_eq_false hs)]
      exact .inl List.mem_cons_self
    · have hrest := ih h
      split_ifs with hd hrun
      · rw [hrun] at hrest
        exact .inr (hrest.resolve_left List.not_mem_nil)
      · rcases hrest with hc | ⟨t, ht, hc⟩
        · exact .inr ⟨run, List.mem_cons_self, hc⟩
        · exact .inr ⟨t, List.mem_cons_of_mem _ ht, hc⟩
      · exact hrest.imp (List.mem_cons_of_mem d) id

/-- A letter of a normal form is in a token of it. -/
theorem exists_token (hs : isSeparator c = false) (h : c ∈ s) : ∃ t ∈ tokenize s, c ∈ t := by
  have hsplit := mem_splitTokens hs h
  rw [tokenize]
  generalize splitTokens s = p at hsplit ⊢
  obtain ⟨run, tokens⟩ := p
  simp only at hsplit ⊢
  split_ifs with hrun
  · rw [hrun] at hsplit
    exact hsplit.resolve_left List.not_mem_nil
  · rcases hsplit with hc | ⟨t, ht, hc⟩
    · exact ⟨run, List.mem_cons_self, hc⟩
    · exact ⟨t, List.mem_cons_of_mem _ ht, hc⟩

theorem mem_contentTokens_of {l : List Str} (h : t ∈ l) (ht : t ∉ TITLES) :
    t ∈ contentTokens l := by
  have hkept : t ∈ l.filter fun t => !TITLES.contains t := List.mem_filter.2 ⟨h, by simpa using ht⟩
  rw [contentTokens, if_neg (List.length_pos_of_mem hkept).ne']
  exact hkept

theorem contentTokens_ne_nil {l : List Str} (h : l ≠ []) : contentTokens l ≠ [] := by
  rw [contentTokens]
  split_ifs with hlen
  · exact h
  · exact fun hnil => hlen (by rw [hnil]; rfl)

theorem isSeparator_false (hp : isPlain c = true) (h1 : c ≠ '\'') (h2 : c ≠ '-') :
    isSeparator c = false := by
  simp only [isPlain, Bool.and_eq_true, Bool.not_eq_true'] at hp
  simp [isSeparator, hp.1.1, h1, h2]

/-- **Names with the same hits have the same lookalikes left.** -/
theorem lookalike_of_same (hf : u.CaseFolding) (ht : hasHangul t = false)
    (hplain : ∀ c ∈ normalizeName u t, mapHomoglyph c = c)
    (h : ∀ corpus, screenNames u corpus (nameOnly t) = screenNames u corpus (nameOnly s)) :
    ∀ c ∈ normalizeName u s, mapHomoglyph c = c := by
  intro c hc
  by_contra hne
  obtain ⟨hlo, -, -, -⟩ := homoglyph_spec hne
  have hsep : isSeparator c = false := by
    refine isSeparator_false (isPlain_lookalike hne) ?_ ?_ <;> rintro rfl <;>
      exact absurd hlo (by decide)
  obtain ⟨key, hkey, hck⟩ := exists_token hsep hc
  have htitle : key ∉ TITLES := by
    intro hmem
    have hall : TITLES.all (fun t => t.all fun c => decide (c.toNat < 128)) = true := by decide
    have hascii := of_decide_eq_true (List.all_eq_true.1 (List.all_eq_true.1 hall key hmem) c hck)
    omega
  have hin := mem_nameTokens_of_same hf ht h key (mem_contentTokens_of hkey htitle)
  exact hne (hplain c ((mem_tokenize (mem_contentTokens hin)).subset hck))

/-! ## Spellings -/

theorem syllableRR_lower {d : Char} (h : c ∈ syllableRR d) : c.isLower = true := by
  have hall : (CHO ++ JUNG ++ JONG).all (fun l => l.toList.all Char.isLower) = true := by decide
  have hpart : ∀ (l : List String) (i : ℕ), (∀ x ∈ l, x ∈ CHO ++ JUNG ++ JONG) →
      c ∈ (l.getD i "").toList → c.isLower = true := by
    intro l i hl hc
    rw [List.getD_eq_getElem?_getD] at hc
    cases hi : l[i]? with
    | none =>
      rw [hi] at hc
      exact absurd hc (by simp)
    | some x =>
      rw [hi, Option.getD_some] at hc
      exact List.all_eq_true.1 (List.all_eq_true.1 hall x (hl x (List.mem_of_getElem? hi))) c hc
  rw [syllableRR] at h
  simp only [String.toList_append, List.mem_append] at h
  rcases h with (h | h) | h
  · exact hpart CHO _ (fun x hx => by simp [hx]) h
  · exact hpart JUNG _ (fun x hx => by simp [hx]) h
  · exact hpart JONG _ (fun x hx => by simp [hx]) h

theorem syllableRR_ne_nil (d : Char) : syllableRR d ≠ [] := by
  have hall : ∀ i < 21, (JUNG.getD i "").toList ≠ [] := by decide
  have hmod : (d.toNat - 0xac00) % (21 * 28) / 28 < 21 := by omega
  rw [syllableRR]
  simp only [String.toList_append, ne_eq, List.append_eq_nil_iff, not_and]
  exact fun h => absurd h.2 (hall _ hmod)

/-- Small letters are left as they are. -/
theorem mem_normalizeName_lower (hu : u.Canonical) (hf : u.CaseFolding)
    (h : ∀ c ∈ s, c.isLower = true) (hc : c ∈ s) : c ∈ normalizeName u s := by
  have hascii : ∀ c ∈ s, 97 ≤ c.toNat ∧ c.toNat ≤ 122 := fun c hc => toNat_isLower (h c hc)
  have hvisible : visible s = s := by
    refine visible_eq fun c hc => ?_
    have hn := hascii c hc
    rw [isRewritten, isInvisible_of_lt (by omega) (by omega) (by omega),
      toHalfWidth_of_lt (by omega)]
    simp
  have hlower : u.toLowerCase s = s := hf.lower_fixed s fun c hc => by
    have hn := hascii c hc
    refine hf.lower_ascii c (by omega) (decide_eq_false fun hupper => ?_)
    have hle : c.toNat ≤ 90 := UInt32.le_iff_toNat_le.1 hupper.2
    omega
  have hfold : foldName u s = s := by
    have hmap : s.map mapHomoglyph = s := by
      rw [List.map_congr_left fun c hc => mapHomoglyph_ascii
        (by have hn := hascii c hc; omega : c.toNat < 128), List.map_id']
    calc foldName u s = (u.toLowerCase (visible s)).map mapHomoglyph := rfl
      _ = s := by rw [hvisible, hlower, hmap]
  have hn := hascii c hc
  have hp := isPlain_lower (h c hc)
  refine mem_tidy_of hp (hf.letter_ascii c (h c hc)) (List.mem_filter.2 ⟨?_, ?_⟩)
  · rw [hfold, mem_nfd]
    exact ⟨c, hc, by rw [(hu.ascii c (by omega)).1]; exact List.mem_singleton_self c⟩
  · simp only [isPlain, Bool.and_eq_true] at hp
    exact hp.1.2

theorem join_nil (parts : List Str) : join [] parts = parts.flatten := by
  rw [join]
  induction parts with
  | nil => rfl
  | cons p parts ih =>
    cases parts with
    | nil => rfl
    | cons q parts =>
      rw [List.intersperse_cons_cons, List.flatten_cons, List.flatten_cons, List.nil_append, ih]
      rfl

/-- **A name with syllables has a spelling with a token.** -/
theorem exists_spelling (hu : u.Canonical) (hf : u.CaseFolding) (h : hasHangul s = true) :
    ∃ v ∈ inferredNames (nameOnly s), nameTokens u v ≠ [] := by
  obtain ⟨surname, given, hs⟩ := List.exists_cons_of_ne_nil (hasHangul_iff.1 h)
  have hlower : ∀ c ∈ ((surname :: given).map syllableRR).flatten, c.isLower = true := by
    intro c hc
    obtain ⟨part, hpart, hcp⟩ := List.mem_flatten.1 hc
    obtain ⟨d, -, rfl⟩ := List.mem_map.1 hpart
    exact syllableRR_lower hcp
  refine ⟨join [] ((surname :: given).map syllableRR), ?_, ?_⟩
  · have hname : inferredNames (nameOnly s) = romanizeVariants s := if_pos h
    rw [hname, romanizeVariants, filter_space_hangul, hs]
    exact List.mem_eraseDups.2 (List.mem_append_right _ (List.mem_singleton_self _))
  · rw [join_nil]
    obtain ⟨c, hc⟩ := List.exists_mem_of_ne_nil _ (syllableRR_ne_nil surname)
    have hin : c ∈ ((surname :: given).map syllableRR).flatten :=
      List.mem_flatten.2 ⟨_, List.mem_map_of_mem List.mem_cons_self, hc⟩
    have hsep : isSeparator c = false := by
      have hl := syllableRR_lower hc
      refine isSeparator_false (isPlain_lower hl) ?_ ?_ <;> rintro rfl <;>
        exact absurd hl (by decide)
    obtain ⟨t, ht, -⟩ := exists_token hsep (mem_normalizeName_lower hu hf hlower hin)
    exact contentTokens_ne_nil (List.ne_nil_of_mem ht)

/-! ## Screening of equivalent names -/

/-- **Equivalent names are screened alike exactly when no form of the name has a syllable, or a
    letter that hides a lookalike.** -/
theorem equivalent_iff (hu : u.Canonical) (hf : u.CaseFolding) (he : u.Equivalence) (s : Str) :
    Equivalent u s ↔ ∀ t ∈ [s, u.nfc s],
      hasHangul t = false ∧ ∀ c ∈ u.toLowerCase (visible t), ¬ Hides u c := by
  constructor
  · intro h t ht
    have hmem : ∀ corpus, screenNames u corpus (nameOnly (u.nfd s)) =
        screenNames u corpus (nameOnly t) := by
      intro corpus
      have hnone : ∀ r ∈ (nameOnly s).romanizedName, r ∉ [s, u.nfc s, u.nfd s] := by
        rintro r ⟨⟩
      have hnfd := h (u.nfd s) (by simp) corpus (nameOnly s) hnone
      rcases List.mem_cons.1 ht with rfl | ht
      · exact hnfd
      · rw [List.mem_singleton.1 ht]
        exact hnfd.trans (h (u.nfc s) (by simp) corpus (nameOnly s) hnone).symm
    have hsyl := hasHangul_nfd he s
    refine ⟨hasHangul_of_same hf (exists_spelling hu hf) hsyl hmem, ?_⟩
    have hplain : ∀ c ∈ normalizeName u (u.nfd s), mapHomoglyph c = c := by
      by_contra hno
      push Not at hno
      obtain ⟨c, hc, hh⟩ := (exists_lookalike_iff hf hu (u.nfd s)).1 hno
      exact not_hides_nfd hu he s c hc hh
    intro c hc hh
    obtain ⟨d, hd, hne⟩ := (exists_lookalike_iff hf hu t).2 ⟨c, hc, hh⟩
    exact hne (lookalike_of_same hf hsyl hplain hmem d hd)
  · intro h
    obtain ⟨hs, hsh⟩ := h s (by simp)
    obtain ⟨hc, hch⟩ := h (u.nfc s) (by simp)
    have hnfd : normalizeName u (u.nfd s) = normalizeName u s := normalizeName_nfd hu he hsh
    have hnfc : normalizeName u (u.nfc s) = normalizeName u s := by
      rw [← normalizeName_nfd hu he hch, hu.nfd_nfc, hnfd]
    intro t ht corpus input hrom
    have hother : ∀ r ∈ [s, u.nfc s, u.nfd s], input.romanizedName ≠ some r :=
      fun r hr heq => hrom r heq hr
    rcases List.mem_cons.1 ht with rfl | ht
    · exact screenNames_congr hf hnfc (by rw [filter_hangul hc, filter_hangul hs])
        (hother s (by simp)) (hother _ (by simp))
    · rw [List.mem_singleton.1 ht]
      exact screenNames_congr hf hnfd
        (by rw [filter_hangul (hasHangul_nfd he s), filter_hangul hs]) (hother s (by simp))
        (hother _ (by simp))

/-! ## Three scripts and Hangul -/

/-- The tables of the three scripts with the syllables. -/
def fourScripts : Unicode :=
  { threeScripts with
    decomposition := fun c =>
      if isHangulSyllable c then decomposeJamo c else threeScripts.decomposition c }

theorem toNat_jamo {n : ℕ} (h : n < 0x1200) : (Char.ofNat n).toNat = n := by
  have hvalid : n.isValidChar := .inl (by omega)
  rw [Char.ofNat, dif_pos hvalid]
  rfl

/-- A jamo has no entry in the other tables. -/
theorem jamo_cases (c : Char) :
    fourScripts.decomposition c = threeScripts.decomposition c ∧ isHangulSyllable c = false ∨
      isHangulSyllable c = true ∧
        ∀ d ∈ fourScripts.decomposition c, 0x1100 ≤ d.toNat ∧ d.toNat < 0x1200 := by
  cases hc : isHangulSyllable c with
  | false => exact .inl ⟨if_neg (ne_true_of_eq_false hc), rfl⟩
  | true =>
    refine .inr ⟨rfl, fun d hd => ?_⟩
    have hdec : fourScripts.decomposition c = decomposeJamo c := if_pos hc
    rw [hdec, decomposeJamo, if_pos hc] at hd
    simp only [isHangulSyllable, inRange, Bool.and_eq_true, decide_eq_true_eq] at hc
    simp only [List.mem_append, List.mem_cons, List.not_mem_nil, or_false] at hd
    rcases hd with (rfl | rfl) | hd
    · rw [toNat_jamo (by omega)]
      omega
    · rw [toNat_jamo (by omega)]
      omega
    · split_ifs at hd
      · cases hd
      · rw [List.mem_singleton.1 hd, toNat_jamo (by omega)]
        omega

/-- Jamo are left alone by every other table. -/
theorem jamo_plain {d : Char} (h : 0x1100 ≤ d.toNat ∧ d.toNat < 0x1200) :
    threeScripts.decomposition d = [d] ∧ isHangulSyllable d = false ∧ lowerChar d = d := by
  have hall : ∀ p ∈ COMPOSED, p.1 < 0x1100 := by decide
  refine ⟨(composed_cases d).resolve_right fun hm => ?_, ?_, ?_⟩
  · have hlt := hall _ hm
    omega
  · simp only [isHangulSyllable, inRange, Bool.and_eq_false_iff, decide_eq_false_iff_not]
    omega
  · rw [lowerChar_eq_iff, caseDistance]
    split_ifs <;> omega

theorem jamo_decomposition {d : Char} (h : 0x1100 ≤ d.toNat ∧ d.toNat < 0x1200) :
    fourScripts.decomposition d = [d] := by
  obtain ⟨hdec, hsyl, -⟩ := jamo_plain h
  exact (if_neg (ne_true_of_eq_false hsyl)).trans hdec

theorem composed_not_syllable {c d : Char} (h : d ∈ threeScripts.decomposition c)
    (hc : isHangulSyllable c = false) : isHangulSyllable d = false := by
  have hall : ∀ p ∈ COMPOSED, p.2.all (fun d => !isHangulSyllable d) := by decide
  rcases composed_cases c with heq | hm
  · rw [heq, List.mem_singleton] at h
    rwa [h]
  · simpa using List.all_eq_true.1 (hall _ hm) d h

theorem canonical_fourScripts : fourScripts.Canonical where
  decomposition_mem c d hd := by
    rcases jamo_cases c with ⟨heq, hc⟩ | ⟨-, hj⟩
    · rw [heq] at hd
      have hsyl := composed_not_syllable hd hc
      exact (if_neg (ne_true_of_eq_false hsyl)).trans
        (canonical_threeScripts.decomposition_mem c d hd)
    · exact jamo_decomposition (hj d hd)
  nfd_nfc s := rfl
  ascii c hc := by
    have hsyl : isHangulSyllable c = false := by
      simp only [isHangulSyllable, inRange, Bool.and_eq_false_iff, decide_eq_false_iff_not]
      omega
    obtain ⟨hdec, hclass⟩ := canonical_threeScripts.ascii c hc
    exact ⟨(if_neg (ne_true_of_eq_false hsyl)).trans hdec, hclass⟩
  diacritic := canonical_threeScripts.diacritic
  joiner c d hd hn := by
    rcases jamo_cases c with ⟨heq, -⟩ | ⟨-, hj⟩
    · exact canonical_threeScripts.joiner c d (heq ▸ hd) hn
    · have hrange := hj d hd
      omega
  joiner_lower := canonical_threeScripts.joiner_lower
  space := canonical_threeScripts.space

theorem caseFolding_fourScripts : fourScripts.CaseFolding :=
  { caseFolding_threeScripts with
    lower_decomposition := fun c hc d hd => by
      rcases jamo_cases c with ⟨heq, -⟩ | ⟨-, hj⟩
      · exact caseFolding_threeScripts.lower_decomposition c hc d (heq ▸ hd)
      · exact congrArg (fun x => [x]) (jamo_plain (hj d hd)).2.2
    fullWidth_decomposition := fun c d hd hw => by
      rcases jamo_cases c with ⟨heq, -⟩ | ⟨-, hj⟩
      · exact caseFolding_threeScripts.fullWidth_decomposition c d (heq ▸ hd) hw
      · have hrange := hj d hd
        simp only [isFullWidth, inRange, Bool.and_eq_true, decide_eq_true_eq] at hw
        omega }

theorem decomposition_lowerChar (c : Char) :
    fourScripts.decomposition (lowerChar c) = (fourScripts.decomposition c).map lowerChar := by
  rcases jamo_cases c with ⟨heq, hc⟩ | ⟨hc, hj⟩
  · have hsyl : isHangulSyllable (lowerChar c) = false := by
      simp only [isHangulSyllable, inRange, Bool.and_eq_false_iff, decide_eq_false_iff_not] at hc ⊢
      rw [toNat_lowerChar, caseDistance]
      split_ifs <;> omega
    have hlower : fourScripts.decomposition (lowerChar c) =
        threeScripts.decomposition (lowerChar c) := if_neg (ne_true_of_eq_false hsyl)
    rw [heq, hlower]
    rcases composed_cases c with hself | hm
    · rw [hself]
      refine (composed_cases (lowerChar c)).resolve_right fun hm => ?_
      -- the capital of a composed letter is composed
      have hcap : ∀ p ∈ COMPOSED, ∀ n, n + caseDistance n = p.1 →
          n ∈ [0x451, 0x439, 0x401, 0x419] := by
        intro p hp n hn
        have hfst : p.1 ∈ [0x451, 0x439, 0x401, 0x419] := List.mem_map_of_mem hp
        simp only [List.mem_cons, List.not_mem_nil, or_false] at hfst ⊢
        rw [caseDistance] at hn
        split_ifs at hn <;> omega
      have hn := hcap _ hm c.toNat (toNat_lowerChar c).symm
      have hne : ∀ n ∈ [0x451, 0x439, 0x401, 0x419],
          threeScripts.decomposition (Char.ofNat n) ≠ [Char.ofNat n] := by decide
      have hno := hne _ hn
      rw [Char.ofNat_toNat] at hno
      exact hno hself
    · have hall : ∀ p ∈ COMPOSED, threeScripts.decomposition (lowerChar (Char.ofNat p.1)) =
          p.2.map lowerChar := by decide +kernel
      have hcase := hall _ hm
      rwa [Char.ofNat_toNat] at hcase
  · have hlower : lowerChar c = c := by
      simp only [isHangulSyllable, inRange, Bool.and_eq_true, decide_eq_true_eq] at hc
      rw [lowerChar_eq_iff, caseDistance]
      split_ifs <;> omega
    rw [hlower, List.map_congr_left fun d hd => (jamo_plain (hj d hd)).2.2, List.map_id']

theorem nfd_lowerChar (s : Str) :
    fourScripts.nfd (s.map lowerChar) = (fourScripts.nfd s).map lowerChar := by
  have hclass : ∀ c, fourScripts.combiningClass (lowerChar c) = fourScripts.combiningClass c := by
    intro c
    by_cases hc : lowerChar c = c
    · rw [hc]
    · have hdist := hc
      rw [lowerChar_eq_iff] at hdist
      have hmark : isDiacritic c = false ∧ isDiacritic (lowerChar c) = false := by
        simp only [isDiacritic, inRange, Bool.and_eq_false_iff, decide_eq_false_iff_not]
        rw [toNat_lowerChar]
        rw [caseDistance] at hdist ⊢
        split_ifs at hdist ⊢ <;> omega
      simp [fourScripts, threeScripts, hmark.1, hmark.2]
  have hmap : (s.map lowerChar).flatMap fourScripts.decomposition =
      (s.flatMap fourScripts.decomposition).map lowerChar := by
    rw [List.flatMap_map, List.map_flatMap]
    exact List.flatMap_congr fun c _ => decomposition_lowerChar c
  rw [Unicode.nfd, hmap, Combining.canonicalOrder_map fun c _ => hclass c]
  rfl

theorem isRewritten_cases (h : isRewritten c = true) :
    c.toNat = 0xad ∨ c.toNat = 0x34f ∨ 0x200b ≤ c.toNat ∧ c.toNat ≤ 0x3000 ∨ 0xfeff ≤ c.toNat := by
  rw [isRewritten, Bool.or_eq_true] at h
  rcases h with h | h
  · simp only [isInvisible, inRange, Bool.or_eq_true, Bool.and_eq_true, decide_eq_true_eq,
      beq_iff_eq] at h
    omega
  · rw [bne_iff_ne, toHalfWidth] at h
    split_ifs at h with hw hs
    · simp only [inRange, Bool.and_eq_true, decide_eq_true_eq] at hw
      omega
    · omega
    · exact absurd rfl h

theorem equivalence_fourScripts : fourScripts.Equivalence where
  lower_nfd s := by
    have hl := nfd_lowerChar (fourScripts.nfd s)
    rw [(isNfd_nfd canonical_fourScripts s).nfd_eq] at hl
    exact hl.trans (nfd_lowerChar s).symm
  lower_decomposed s hs c hc := by
    obtain ⟨d, hd, rfl⟩ := List.mem_map.1 hc
    rw [decomposition_lowerChar, hs d hd]
    rfl
  rewritten c hc := by
    have hall : ∀ p ∈ COMPOSED, 0x400 ≤ p.1 ∧ p.1 < 0x500 := by decide
    have hrange := isRewritten_cases hc
    rcases jamo_cases c with ⟨heq, -⟩ | ⟨hsyl, -⟩
    · rw [heq]
      refine (composed_cases c).resolve_right fun hm => ?_
      have hcom := hall _ hm
      omega
    · simp only [isHangulSyllable, inRange, Bool.and_eq_true, decide_eq_true_eq] at hsyl
      omega
  rewritten_mem c d hd hr := by
    rcases jamo_cases c with ⟨heq, -⟩ | ⟨-, hj⟩
    · have hall : ∀ p ∈ COMPOSED, p.2.all (fun d => !isRewritten d) := by decide
      rw [heq] at hd
      rcases composed_cases c with hself | hm
      · rw [hself, List.mem_singleton] at hd
        exact hd.symm
      · have hno := List.all_eq_true.1 (hall _ hm) d hd
        simp [hr] at hno
    · have hrange := hj d hd
      have hrewritten := isRewritten_cases hr
      omega
  wide_class c hc := by
    have hr : isRewritten c = true := by simp [isRewritten, hc]
    have hne : c.toNat ≠ 0x34f := by
      intro hj
      refine hc ?_
      rw [toHalfWidth_of_lt (by omega)]
    have hrange := isRewritten_cases hr
    refine if_neg fun hd => ?_
    have hmark := hd.1
    simp only [isDiacritic, inRange, Bool.and_eq_true, decide_eq_true_eq] at hmark
    omega
  homoglyph := by decide +kernel
  syllable c d hd := by
    rcases jamo_cases c with ⟨heq, hc⟩ | ⟨-, hj⟩
    · exact composed_not_syllable (heq ▸ hd) hc
    · exact (jamo_plain (hj d hd)).2.1

/-- The syllables of a listed Korean name are found, its jamo are not. -/
theorem screening_not_equivalent :
    ¬ ∀ (entries : List SanctionEntry) (corpus : Corpus) (s : Str),
      buildCorpus hangulTables DEFAULT_MATCH_LIMITS entries = .ok corpus →
      screenNames hangulTables corpus (nameOnly (hangulTables.nfd s)) =
        screenNames hangulTables corpus (nameOnly s) := by
  intro h
  have hhits : (buildCorpus hangulTables DEFAULT_MATCH_LIMITS [listedKim] >>= fun corpus =>
      (screenNames hangulTables corpus (nameOnly subjectKim.fullName)).bind fun composed =>
        (screenNames hangulTables corpus (nameOnly (hangulTables.nfd subjectKim.fullName))).map
          fun jamo => (corpus, composed.map fun h => (h.matchedName, h.score, h.matchType),
            jamo)).map Prod.snd =
      .ok ([("jong un kim".toList, 1, .romanized)], []) := by
    decide +kernel
  obtain ⟨⟨corpus, composed, jamo⟩, hrun, hpair⟩ := Revert.map_ok.1 hhits
  simp only [Prod.mk.injEq] at hpair
  obtain ⟨rfl, rfl⟩ := hpair
  obtain ⟨_, hcorpus, hrun⟩ := Revert.bind_ok.1 hrun
  obtain ⟨hits, hsyl, hrun⟩ := Revert.bind_ok.1 hrun
  obtain ⟨_, hjamo, hpair⟩ := Revert.map_ok.1 hrun
  have heq := h _ _ subjectKim.fullName hcorpus
  rw [hsyl, hjamo, Except.ok.injEq] at heq
  simp only [Prod.mk.injEq] at hpair
  rw [← heq, hpair.2.2] at hpair
  exact absurd hpair.2.1 (by decide)

/-- A Korean name, a name that hides a lookalike, and one that has composed letters. -/
theorem equivalent_scripts :
    ¬ Equivalent fourScripts subjectKim.fullName ∧ ¬ Equivalent fourScripts "Пётр".toList ∧
      Equivalent fourScripts "Сергей Petrov".toList := by
  refine ⟨fun h => ?_, fun h => ?_, ?_⟩
  · have hno := ((equivalent_iff canonical_fourScripts caseFolding_fourScripts
      equivalence_fourScripts _).1 h _ List.mem_cons_self).1
    exact absurd hno (by decide)
  · exact ((equivalent_iff canonical_fourScripts caseFolding_fourScripts
      equivalence_fourScripts _).1 h _ List.mem_cons_self).2 (Char.ofNat 0x451)
        (by decide +kernel) (by decide +kernel)
  · refine (equivalent_iff canonical_fourScripts caseFolding_fourScripts
      equivalence_fourScripts _).2 ?_
    have hnone : (hasHangul "Сергей Petrov".toList ||
        (fourScripts.toLowerCase (visible "Сергей Petrov".toList)).any fun c =>
          decide (Hides fourScripts c)) = false := by
      decide +kernel
    rw [Bool.or_eq_false_iff, List.any_eq_false] at hnone
    have hboth : hasHangul "Сергей Petrov".toList = false ∧
        ∀ c ∈ fourScripts.toLowerCase (visible "Сергей Petrov".toList), ¬ Hides fourScripts c :=
      ⟨hnone.1, fun c hc => by simpa using hnone.2 c hc⟩
    intro t ht
    rcases List.mem_cons.1 ht with rfl | ht
    · exact hboth
    · rw [List.mem_singleton.1 ht]
      exact hboth

end Aml

end Proofmark
