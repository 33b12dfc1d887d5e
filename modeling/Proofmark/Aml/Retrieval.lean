/-
  Retrieval is complete.

  A positive score needs a token of the query and a token of the listed name that are equal
  or within the supported edits (`match_of_score_pos`).  Such tokens share a deletion key
  or a boundary bigram, so `searchTokens` finds the listed one (`searchTokens_complete`),
  and with it the name.

  `screening_retrieval_complete`: `candidatesFor` reports the entries, with the scores,
  that a scan of all names of all entries reports.
-/
import Proofmark.Aml.Match

namespace Proofmark

namespace Aml

open Revert

variable {u : Unicode}

/-! ## Folds that may fail -/

/-- What a fold has established of the elements it has passed. -/
theorem foldlM_history {α σ ε : Type} {f : σ → α → Except ε σ} {P : List α → σ → Prop}
    (hstep : ∀ done s x s', P done s → f s x = .ok s' → P (done ++ [x]) s') {l : List α} {s s' : σ}
    (h : l.foldlM f s = .ok s') (h0 : P [] s) : P l s' := by
  have hgen : ∀ (l done : List α) (s : σ), P done s → l.foldlM f s = .ok s' → P (done ++ l) s' := by
    intro l
    induction l with
    | nil =>
      intro done s hP h
      rw [List.foldlM_nil, pure_ok] at h
      rw [List.append_nil, ← h]
      exact hP
    | cons x l ih =>
      intro done s hP h
      rw [List.foldlM_cons, bind_ok] at h
      obtain ⟨s₁, h1, h2⟩ := h
      have hl := ih (done ++ [x]) s₁ (hstep done s x s₁ hP h1) h2
      rwa [List.append_assoc] at hl
  exact hgen l [] s h0 h

@[simp] theorem capacity_ok {count limit : ℕ} {boundary : String} {x : Unit} :
    capacity count limit boundary = .ok x ↔ count ≤ limit := by
  rw [capacity, revertIf_ok, not_lt]

/-! ## The index -/

/-- The indexed name for the `raw.2`-th name of an entry: one that has tokens. -/
def indexedName (u : Unicode) (ei : ℕ) (raw : Str × ℕ) : Option IndexedName :=
  if nameTokens u raw.1 = [] then none
  else some ⟨ei, normalizeName u raw.1, nameTokens u raw.1, decide (0 < raw.2)⟩

/-- The indexed names of an entry. -/
def indexedNames (u : Unicode) (e : SanctionEntry × ℕ) : List IndexedName :=
  e.1.names.zipIdx.filterMap (indexedName u e.2)

theorem indexedName_some {ei : ℕ} {raw : Str × ℕ} {n : IndexedName}
    (h : indexedName u ei raw = some n) : n.entryIdx = ei ∧ n.tokens = nameTokens u raw.1 := by
  rw [indexedName] at h
  split_ifs at h
  rw [Option.some.injEq] at h
  subst h
  dsimp only
  exact ⟨rfl, rfl⟩

theorem exists_indexedName (ei : ℕ) (raw : Str × ℕ) (h : nameTokens u raw.1 ≠ []) :
    ∃ n, indexedName u ei raw = some n := ⟨_, if_neg h⟩

/-- Every name is posted under each of its tokens, and no other token has postings. -/
structure NameIndex.Posted (s : NameIndex) : Prop where
  complete : ∀ (i : ℕ) (n : IndexedName), s.names[i]? = some n →
    ∀ t ∈ n.tokens, i ∈ Postings.get t s.byToken
  sound : ∀ t ∈ s.byToken.map Prod.fst, ∃ n ∈ s.names, t ∈ n.tokens

theorem postTokens_ok {limits : MatchLimits} {idx : ℕ} {toks : List Str} {s s' : NameIndex}
    (h : toks.foldlM (postToken limits idx) s = .ok s') :
    s'.names = s.names ∧ (∀ t i, i ∈ Postings.get t s.byToken → i ∈ Postings.get t s'.byToken) ∧
      (∀ t ∈ toks, idx ∈ Postings.get t s'.byToken) ∧
      ∀ t ∈ s'.byToken.map Prod.fst, t ∈ s.byToken.map Prod.fst ∨ t ∈ toks := by
  refine foldlM_history (P := fun done x => x.names = s.names ∧
    (∀ t i, i ∈ Postings.get t s.byToken → i ∈ Postings.get t x.byToken) ∧
      (∀ t ∈ done, idx ∈ Postings.get t x.byToken) ∧
      ∀ t ∈ x.byToken.map Prod.fst, t ∈ s.byToken.map Prod.fst ∨ t ∈ done) ?_ h
    ⟨rfl, fun _ _ => id, by simp, fun _ => .inl⟩
  rintro done x t x' ⟨h1, h2, h3, h4⟩ hx
  simp only [postToken, bind_ok, capacity_ok, pure_ok] at hx
  obtain ⟨_, -, rfl⟩ := hx
  refine ⟨h1, fun t' i hi => Postings.mem_get_post.2 (.inl (h2 t' i hi)), fun t' ht' => ?_,
    fun t' ht' => ?_⟩
  · rcases List.mem_append.1 ht' with ht' | ht'
    · exact Postings.mem_get_post.2 (.inl (h3 t' ht'))
    · exact Postings.mem_get_post.2 (.inr ⟨List.mem_singleton.1 ht', rfl⟩)
  · rcases Postings.mem_keys_post.1 ht' with ht' | rfl
    · exact (h4 t' ht').imp id (List.mem_append_left _)
    · exact .inr (List.mem_append_right _ (List.mem_singleton_self _))

/-- **Indexing one name.** -/
theorem indexName_ok {limits : MatchLimits} {ei : ℕ} {raw : Str × ℕ} {s s' : NameIndex}
    (h : indexName u limits ei s raw = .ok s') (hs : s.Posted) :
    s'.Posted ∧ s'.names = s.names ++ (indexedName u ei raw).toList := by
  have hskip (h0 : nameTokens u raw.1 = []) (hss : s = s') :
      s'.Posted ∧ s'.names = s.names ++ (indexedName u ei raw).toList := by
    rw [← hss, indexedName, if_pos h0, Option.toList_none, List.append_nil]
    exact ⟨hs, rfl⟩
  by_cases h1 : normalizeName u raw.1 = []
  · rw [indexName, if_pos h1, pure_ok] at h
    refine hskip ?_ h
    rw [nameTokens, h1]
    rfl
  by_cases h2 : nameTokens u raw.1 = []
  · rw [indexName, if_neg h1, ← nameTokens, if_pos h2, pure_ok] at h
    exact hskip h2 h
  rw [indexName, if_neg h1, ← nameTokens, if_neg h2] at h
  simp only [bind_ok, capacity_ok] at h
  obtain ⟨_, -, h⟩ := h
  obtain ⟨hn, hkeep, hnew, hkeys⟩ := postTokens_ok h
  rw [indexedName, if_neg h2]
  refine ⟨⟨fun i n hi t ht => ?_, fun t ht => ?_⟩, hn⟩
  · rw [hn, List.getElem?_append] at hi
    split_ifs at hi with hlt
    · exact hkeep t i (hs.complete i n hi t ht)
    · -- the name that was added
      obtain ⟨hi', rfl⟩ := List.getElem?_eq_some_iff.1 hi
      have hidx : i = s.names.length := by
        simp only [List.length_singleton] at hi'
        omega
      subst hidx
      refine hnew t (List.mem_eraseDups.2 ?_)
      simpa using ht
  · rw [hn]
    rcases hkeys t ht with ht | ht
    · obtain ⟨n, hmem, htn⟩ := hs.sound t ht
      exact ⟨n, List.mem_append_left _ hmem, htn⟩
    · refine ⟨_, List.mem_append_right _ (List.mem_singleton_self _), ?_⟩
      dsimp only
      exact List.mem_eraseDups.1 ht

theorem indexEntry_ok {limits : MatchLimits} {e : SanctionEntry × ℕ} {s s' : NameIndex}
    (h : indexEntry u limits s e = .ok s') (hs : s.Posted) :
    s'.Posted ∧ s'.names = s.names ++ indexedNames u e := by
  refine foldlM_history (P := fun done x => x.Posted ∧ x.names = s.names ++
    done.filterMap (indexedName u e.2)) ?_ h ⟨hs, by simp⟩
  rintro done x raw x' ⟨h1, h2⟩ hx
  obtain ⟨h3, h4⟩ := indexName_ok hx h1
  refine ⟨h3, ?_⟩
  rw [h4, h2, List.filterMap_append, List.append_assoc]
  cases hr : indexedName u e.2 raw <;> simp [hr]

/-- What the index of a corpus holds. -/
structure Indexes (u : Unicode) (corpus : Corpus) : Prop where
  names : corpus.names = corpus.entries.zipIdx.flatMap (indexedNames u)
  posted : ∀ (i : ℕ) (n : IndexedName), corpus.names[i]? = some n →
    ∀ t ∈ n.tokens, i ∈ Postings.get t corpus.byToken
  vocabulary : ∀ t ∈ corpus.byToken.map Prod.fst, ∃ n ∈ corpus.names, t ∈ n.tokens
  deletions : ∀ t ∈ corpus.byToken.map Prod.fst, ∀ key ∈ deletionKeys u t,
    t ∈ Postings.get key corpus.byDeletion
  grams : ∀ t ∈ corpus.byToken.map Prod.fst, ∀ gram ∈ editGrams u t,
    t ∈ Postings.get gram corpus.byGram

theorem buildCorpus_ok {limits : MatchLimits} {entries : List SanctionEntry} {corpus : Corpus}
    (h : buildCorpus u limits entries = .ok corpus) :
    corpus.entries = entries ∧ Indexes u corpus := by
  simp only [buildCorpus, bind_ok, revertIf_ok, pure_ok] at h
  obtain ⟨_, -, index, hindex, grams, hgrams, rfl⟩ := h
  have hnames : index.Posted ∧ index.names = entries.zipIdx.flatMap (indexedNames u) := by
    refine foldlM_history (P := fun done x => x.Posted ∧ x.names = done.flatMap (indexedNames u)) ?_
      hindex ⟨⟨fun i n hi => by simp at hi, by simp⟩, rfl⟩
    rintro done x e x' ⟨h1, h2⟩ hx
    obtain ⟨h3, h4⟩ := indexEntry_ok hx h1
    exact ⟨h3, by rw [h4, h2, List.flatMap_append]; simp⟩
  have hgram : ∀ k v, v ∈ Postings.get k grams.1 ↔ (k, v) ∈ (index.byToken.map Prod.fst).flatMap
      fun token => (editGrams u token).map fun g => (g, token) := by
    refine foldlM_history (P := fun done x => ∀ k v, v ∈ Postings.get k x.1 ↔ (k, v) ∈ done) ?_
      hgrams (by simp [Postings.get])
    rintro done x p x' h1 hx k v
    simp only [postGram, bind_ok, capacity_ok, pure_ok] at hx
    obtain ⟨_, -, rfl⟩ := hx
    rw [Postings.mem_get_post, h1, List.mem_append, List.mem_singleton, Prod.ext_iff]
  refine ⟨rfl, hnames.2, hnames.1.complete, hnames.1.sound, fun t ht key hkey => ?_,
    fun t ht gram hg => ?_⟩
  · refine Postings.mem_get_foldl.2 (.inr (List.mem_flatMap.2 ⟨t, ht, ?_⟩))
    exact List.mem_map.2 ⟨key, hkey, rfl⟩
  · exact (hgram gram t).2 (List.mem_flatMap.2 ⟨t, ht, List.mem_map.2 ⟨gram, hg, rfl⟩⟩)

/-! ## Retrieved tokens -/

theorem mem_addToken {s : TokenSearch} {t x : Str} :
    t ∈ (addToken s x).matchingTokens ↔ t ∈ s.matchingTokens ∨ t = x := by
  rw [addToken]
  split_ifs with h
  · exact ⟨.inl, fun ht => ht.elim id fun he => he ▸ h⟩
  · rw [List.mem_append, List.mem_singleton]

theorem mem_foldl_addToken {s : TokenSearch} {l : List Str} {t : Str} :
    t ∈ (l.foldl addToken s).matchingTokens ↔ t ∈ s.matchingTokens ∨ t ∈ l := by
  induction l generalizing s with
  | nil => simp
  | cons x l ih => rw [List.foldl_cons, ih, mem_addToken, List.mem_cons, or_assoc]

theorem supportedEditLimit_le (t : Str) : supportedEditLimit u t ≤ 2 := by
  rw [supportedEditLimit]
  split_ifs <;> omega

theorem length_of_limit_pos {t : Str} (h : 0 < supportedEditLimit u t) :
    4 ≤ (codePoints u t).length ∧ (codePoints u t).length ≤ 64 := by
  rw [supportedEditLimit] at h
  by_contra hlt
  rw [if_pos (by rw [MIN_EDIT_TOKEN, MAX_EDIT_TOKEN]; omega)] at h
  omega

/-- **The tokens near a query token are retrieved.** -/
theorem searchToken_ok {corpus : Corpus} {token : Str} {s s' : TokenSearch} (hu : u.Canonical)
    (hx : Indexes u corpus) (htoken : IsNfd u token)
    (h : searchToken u corpus s token = .ok s') :
    (∀ t ∈ s.matchingTokens, t ∈ s'.matchingTokens) ∧
      ∀ near ∈ corpus.byToken.map Prod.fst, IsNfd u near →
        withinSupportedEdits u token near = true → near = token ∨ near ∈ s'.matchingTokens := by
  simp only [searchToken, bind_ok, pure_ok] at h
  obtain ⟨s₁, hdel, ⟨vocabulary, visits⟩, hgram, rfl⟩ := h
  have hd := foldlM_history (P := fun done x => (∀ t ∈ s.matchingTokens, t ∈ x.matchingTokens) ∧
    ∀ near ∈ done, withinOneEdit u token near = true → near ∈ x.matchingTokens) (by
      rintro done x near x' ⟨h1, h2⟩ hstep
      simp only [visitDeletion, bind_ok, capacity_ok, pure_ok] at hstep
      obtain ⟨_, -, rfl⟩ := hstep
      have hkeep : ∀ t ∈ x.matchingTokens, t ∈ (if withinOneEdit u token near = true then
          addToken ⟨x.matchingTokens, x.postingVisits + 1⟩ near
          else ⟨x.matchingTokens, x.postingVisits + 1⟩ : TokenSearch).matchingTokens := by
        intro t ht
        split_ifs
        exacts [mem_addToken.2 (.inl ht), ht]
      refine ⟨fun t ht => hkeep t (h1 t ht), fun n hn hw => ?_⟩
      rcases List.mem_append.1 hn with hn | hn
      · exact hkeep n (h2 n hn hw)
      · rw [List.mem_singleton.1 hn] at hw ⊢
        rw [if_pos hw]
        exact mem_addToken.2 (.inr rfl)) hdel ⟨fun _ => id, by simp⟩
  have hg := foldlM_history (P := fun done x => ∀ near ∈ done, near ∈ x.1) (by
      rintro done x near x' h1 hstep
      simp only [visitGram, bind_ok, capacity_ok, pure_ok] at hstep
      obtain ⟨_, -, _, -, rfl⟩ := hstep
      intro n hn
      rcases List.mem_append.1 hn with hn | hn
      · split_ifs
        exacts [h1 n hn, List.mem_append_left _ (h1 n hn)]
      · rw [List.mem_singleton.1 hn]
        split_ifs with hin
        exacts [hin, List.mem_append_right _ (List.mem_singleton_self _)]) hgram (by simp)
  refine ⟨fun t ht => mem_foldl_addToken.2 (.inl (hd.1 t ht)), fun near hvoc hnear hw => ?_⟩
  by_cases hnfc : u.nfc token = u.nfc near
  · exact .inl (htoken.eq_of_nfc hu hnear hnfc).symm
  right
  have hlimits := hw
  rw [withinSupportedEdits, if_neg hnfc] at hlimits
  simp only [Bool.and_eq_true, decide_eq_true_eq] at hlimits
  obtain ⟨hpos, hdist⟩ := hlimits
  have hle := supportedEditLimit_le (u := u) token
  have hle' := supportedEditLimit_le (u := u) near
  obtain hone | htwo : min (supportedEditLimit u token) (supportedEditLimit u near) = 1 ∨
      min (supportedEditLimit u token) (supportedEditLimit u near) = 2 := by omega
  · -- one edit: a common deletion key
    rw [hone] at hdist
    obtain ⟨key, hkey, hkey'⟩ := deletionKeys_meet (length_of_limit_pos (by omega))
      (length_of_limit_pos (by omega)) hdist
    refine mem_foldl_addToken.2 (.inl (hd.2 near ?_ ?_))
    · exact List.mem_flatMap.2 ⟨key, hkey, hx.deletions near hvoc key hkey'⟩
    · rw [withinOneEdit, if_neg hnfc]
      simp only [Bool.and_eq_true, decide_eq_true_eq]
      exact ⟨⟨by omega, by omega⟩, hdist⟩
  · -- two edits: a common boundary bigram
    rw [htwo] at hdist
    obtain ⟨gram, hgr, hgr'⟩ := editGrams_meet (by omega) (by omega) hdist
    refine mem_foldl_addToken.2 (.inr (List.mem_filter.2 ⟨hg near ?_, hw⟩))
    exact List.mem_flatMap.2 ⟨gram, hgr, hx.grams near hvoc gram hgr'⟩

/-- **Every vocabulary token that matches a query token is retrieved.** -/
theorem searchTokens_complete {corpus : Corpus} {matchType : MatchType} {tokens : List Str}
    {s : TokenSearch} (hu : u.Canonical) (hx : Indexes u corpus) (htokens : ∀ q ∈ tokens, IsNfd u q)
    (h : searchTokens u corpus matchType tokens = .ok s) {q t : Str} (hq : q ∈ tokens)
    (ht : t ∈ corpus.byToken.map Prod.fst) (hnfd : IsNfd u t)
    (hm : q = t ∨ matchType ≠ .romanized ∧ withinSupportedEdits u q t = true) :
    t ∈ s.matchingTokens := by
  rw [searchTokens] at h
  split_ifs at h with hrom
  · rw [pure_ok] at h
    rcases hm with rfl | hm
    · rw [← h]
      exact List.mem_eraseDups.2 hq
    · exact absurd hrom hm.1
  · have hall := foldlM_history (P := fun done (x : TokenSearch) => (∀ q ∈ done, q ∈ tokens) →
      (∀ q ∈ tokens, q ∈ x.matchingTokens) ∧ ∀ q ∈ done, ∀ t ∈ corpus.byToken.map Prod.fst,
        IsNfd u t → withinSupportedEdits u q t = true → t ∈ x.matchingTokens) (by
      intro done x q x' h1 hstep hsub
      obtain ⟨hold, hfound⟩ := h1 fun q' hq' => hsub q' (List.mem_append_left _ hq')
      have hqt : q ∈ tokens := hsub q (List.mem_append_right _ (List.mem_singleton_self _))
      obtain ⟨hkeep, hnew⟩ := searchToken_ok hu hx (htokens q hqt) hstep
      refine ⟨fun q' hq' => hkeep q' (hold q' hq'), fun q' hq' t ht hn hw => ?_⟩
      rcases List.mem_append.1 hq' with hq' | hq'
      · exact hkeep t (hfound q' hq' t ht hn hw)
      · rw [List.mem_singleton.1 hq'] at hw
        rcases hnew t ht hn hw with rfl | hin
        · exact hkeep _ (hold _ hqt)
        · exact hin) h (fun _ => ⟨fun q hq => List.mem_eraseDups.2 hq, by simp⟩)
    obtain ⟨hold, hfound⟩ := hall fun q hq => List.mem_eraseDups.1 hq
    rcases hm with rfl | hm
    · exact hold q hq
    · exact hfound q (List.mem_eraseDups.2 hq) t ht hnfd hm.2

/-! ## Positive scores -/

theorem exists_of_nameScore_pos {tokens listed : List Str} (h : 0 < nameScore tokens listed) :
    ∃ t ∈ tokens, t ∈ listed := by
  by_contra hno
  have hinter : ((tokens.eraseDups).filter fun t => listed.eraseDups.contains t) = [] := by
    rw [List.filter_eq_nil_iff]
    intro t ht hc
    rw [List.contains_iff_mem, List.mem_eraseDups] at hc
    exact hno ⟨t, List.mem_eraseDups.1 ht, hc⟩
  rw [nameScore, hinter, if_pos List.length_nil] at h
  exact lt_irrefl _ h

theorem exists_of_editNameScore_pos {tokens listed : List Str}
    (h : 0 < editNameScore u tokens listed) :
    ∃ q ∈ tokens, ∃ t ∈ listed, q = t ∨ withinSupportedEdits u q t = true := by
  by_contra hno
  have hexact : exactPairs tokens.eraseDups listed.eraseDups = [] := by
    rw [exactPairs, List.filterMap_eq_nil_iff]
    rintro ⟨t, i⟩ hp
    rw [if_neg]
    intro ht
    have hmem := (List.mem_zipIdx' hp).2
    exact hno ⟨t, List.mem_eraseDups.1 (hmem ▸ List.getElem_mem _), t, List.mem_eraseDups.1 ht,
      .inl rfl⟩
  have hpairs : (tokens.eraseDups.zipIdx.flatMap fun p => listed.eraseDups.zipIdx.filterMap fun q =>
      if p.2 ∈ ([] : List (ℕ × ℕ)).map Prod.fst ∨ q.2 ∈ ([] : List (ℕ × ℕ)).map Prod.snd then none
      else if withinSupportedEdits u p.1 q.1 then
        some (⟨p.2, q.2, editSimilarity u p.1 q.1⟩ : EditPair)
      else none) = [] := by
    rw [List.flatMap_eq_nil_iff]
    rintro ⟨q, i⟩ hq
    rw [List.filterMap_eq_nil_iff]
    rintro ⟨t, j⟩ ht
    have hqm := (List.mem_zipIdx' hq).2
    have htm := (List.mem_zipIdx' ht).2
    have hw : ¬ withinSupportedEdits u q t = true := fun hw =>
      hno ⟨q, List.mem_eraseDups.1 (hqm ▸ List.getElem_mem _), t,
        List.mem_eraseDups.1 (htm ▸ List.getElem_mem _), .inr hw⟩
    simp [hw]
  rw [editNameScore, hexact] at h
  dsimp only at h
  rw [hpairs] at h
  split_ifs at h
  · exact lt_irrefl _ h
  · simp at h

theorem bestToken_some {token : Str} {large : List Str} {used : List ℕ} {p : ℕ × ℚ}
    (h : bestToken u token large used = some p) :
    ∃ t ∈ large, withinSupportedEdits u token t = true := by
  by_contra hno
  have hnone : ∀ l : List (Str × ℕ), (∀ x ∈ l, x.1 ∈ large) →
      l.foldl (fun best p => if p.2 ∉ used ∧ withinSupportedEdits u token p.1 = true ∧
        best.all (fun q : ℕ × ℚ => decide (q.2 < editSimilarity u token p.1)) = true then
        some (p.2, editSimilarity u token p.1) else best) none = none := by
    intro l
    induction l with
    | nil => exact fun _ => rfl
    | cons x l ih =>
      intro hl
      rw [List.foldl_cons, if_neg fun hc => hno ⟨x.1, hl x List.mem_cons_self, hc.2.1⟩]
      exact ih fun y hy => hl y (List.mem_cons_of_mem _ hy)
  rw [bestToken, hnone] at h
  · cases h
  · rintro ⟨t, i⟩ hx
    rw [(List.mem_zipIdx' hx).2]
    exact List.getElem_mem _

theorem missingTokenLoop_some {large small : List Str} {used : List ℕ} {s r : ℚ}
    (h : missingTokenLoop u large small used s = some r) (hs : small ≠ []) :
    ∃ q ∈ small, ∃ t ∈ large, withinSupportedEdits u q t = true := by
  cases small with
  | nil => exact absurd rfl hs
  | cons token small =>
    rw [missingTokenLoop] at h
    cases hb : bestToken u token large used with
    | none =>
      rw [hb] at h
      cases h
    | some p =>
      obtain ⟨t, ht, hw⟩ := bestToken_some hb
      exact ⟨token, List.mem_cons_self, t, ht, hw⟩

theorem exists_of_missingTokenNameScore_pos {tokens listed : List Str}
    (h : 0 < missingTokenNameScore u tokens listed) :
    ∃ q ∈ tokens, ∃ t ∈ listed, withinSupportedEdits u q t = true := by
  rw [missingTokenNameScore] at h
  split_ifs at h with h1 h2
  · exact absurd h (lt_irrefl _)
  · rw [not_or, not_not, not_lt] at h1
    cases hl : missingTokenLoop u listed.eraseDups tokens.eraseDups [] 0 with
    | none =>
      dsimp only at h
      rw [hl] at h
      exact absurd h (lt_irrefl _)
    | some r =>
      obtain ⟨q, hq, t, ht, hw⟩ := missingTokenLoop_some hl (List.ne_nil_of_length_pos (by omega))
      exact ⟨q, List.mem_eraseDups.1 hq, t, List.mem_eraseDups.1 ht, hw⟩
  · rw [not_or, not_not, not_lt] at h1
    cases hl : missingTokenLoop u tokens.eraseDups listed.eraseDups [] 0 with
    | none =>
      dsimp only at h
      rw [hl] at h
      exact absurd h (lt_irrefl _)
    | some r =>
      obtain ⟨t, ht, q, hq, hw⟩ := missingTokenLoop_some hl (List.ne_nil_of_length_pos (by omega))
      refine ⟨q, List.mem_eraseDups.1 hq, t, List.mem_eraseDups.1 ht, ?_⟩
      rw [withinSupportedEdits_symm]
      exact hw

/-- **A positive score needs a pair of matching tokens.** -/
theorem match_of_score_pos {matchType : MatchType} {tokens listed : List Str}
    (h : 0 < candidateScore u matchType tokens listed) :
    ∃ q ∈ tokens, ∃ t ∈ listed,
      q = t ∨ matchType ≠ .romanized ∧ withinSupportedEdits u q t = true := by
  rw [candidateScore, lt_max_iff, lt_max_iff] at h
  rcases h with (h | h) | h
  · obtain ⟨t, ht, hl⟩ := exists_of_nameScore_pos h
    exact ⟨t, ht, t, hl, .inl rfl⟩
  · split_ifs at h with hrom
    · exact absurd h (lt_irrefl _)
    · obtain ⟨q, hq, t, ht, hm⟩ := exists_of_editNameScore_pos h
      exact ⟨q, hq, t, ht, hm.imp id fun hw => ⟨hrom, hw⟩⟩
  · split_ifs at h with hrom
    · exact absurd h (lt_irrefl _)
    · obtain ⟨q, hq, t, ht, hw⟩ := exists_of_missingTokenNameScore_pos h
      exact ⟨q, hq, t, ht, .inr ⟨hrom, hw⟩⟩

/-! ## Candidates -/

theorem addNames_ok {corpus : Corpus} {l names names' : List ℕ}
    (h : l.foldlM (addName corpus) names = .ok names') :
    (∀ i ∈ names, i ∈ names') ∧ ∀ i ∈ l, i ∈ names' := by
  refine foldlM_history (P := fun done x => (∀ i ∈ names, i ∈ x) ∧ ∀ i ∈ done, i ∈ x) ?_ h
    ⟨fun _ => id, by simp⟩
  rintro done x ni x' ⟨h1, h2⟩ hx
  simp only [addName, bind_ok, capacity_ok, pure_ok] at hx
  obtain ⟨_, -, rfl⟩ := hx
  have hkeep : ∀ i ∈ x, i ∈ if ni ∈ x then x else x ++ [ni] := by
    intro i hi
    split_ifs
    exacts [hi, List.mem_append_left _ hi]
  refine ⟨fun i hi => hkeep i (h1 i hi), fun i hi => ?_⟩
  rcases List.mem_append.1 hi with hi | hi
  · exact hkeep i (h2 i hi)
  · rw [List.mem_singleton.1 hi]
    split_ifs with hin
    exacts [hin, List.mem_append_right _ (List.mem_singleton_self _)]

/-- The names posted under the retrieved tokens are candidates. -/
theorem visitTokens_ok {corpus : Corpus} {l : List Str} {s s' : List ℕ × ℕ}
    (h : l.foldlM (visitToken corpus) s = .ok s') :
    ∀ t ∈ l, ∀ i ∈ Postings.get t corpus.byToken, i ∈ s'.1 := by
  refine foldlM_history
    (P := fun done x => ∀ t ∈ done, ∀ i ∈ Postings.get t corpus.byToken, i ∈ x.1) ?_ h (by simp)
  intro done x t x' h1 hx
  simp only [visitToken, bind_ok, capacity_ok, pure_ok] at hx
  obtain ⟨_, -, names, hnames, rfl⟩ := hx
  obtain ⟨hkeep, hnew⟩ := addNames_ok hnames
  intro t' ht' i hi
  rcases List.mem_append.1 ht' with ht' | ht'
  · exact hkeep i (h1 t' ht' i hi)
  · rw [List.mem_singleton.1 ht'] at hi
    exact hnew i hi

theorem find_keepBest (best : List (ℕ × Candidate)) (ei k : ℕ) (c : Candidate) :
    Keyed.find Prod.fst k (keepBest best ei c) =
      if k = ei then (Keyed.find Prod.fst ei best).elim (some (ei, c)) fun prev =>
        if prev.2.score < c.score then some (ei, c) else some prev
      else Keyed.find Prod.fst k best := by
  rw [keepBest]
  cases hf : Keyed.find Prod.fst ei best with
  | none =>
    dsimp only
    rw [Keyed.find_concat (a := (ei, c)) hf]
    rfl
  | some prev =>
    dsimp only [Option.elim]
    by_cases hlt : prev.2.score < c.score
    · rw [if_pos hlt, if_pos hlt]
      by_cases hk : k = ei
      · have hself : Keyed.find Prod.fst ei (Keyed.change Prod.fst ei (fun _ => (ei, c)) best) =
            (Keyed.find Prod.fst ei best).map fun _ => (ei, c) :=
          Keyed.find_change_self fun _ _ => rfl
        rw [if_pos hk, hk, hself, hf]
        rfl
      · have hother : Keyed.find Prod.fst k (Keyed.change Prod.fst ei (fun _ => (ei, c)) best) =
            Keyed.find Prod.fst k best := Keyed.find_change_of_ne (fun _ _ => rfl) hk
        rw [hother, if_neg hk]
    · rw [if_neg hlt, if_neg hlt]
      split_ifs with hk
      · rw [hk, hf]
      · rfl

/-- The candidate kept for an entry is the better one. -/
theorem keepBest_at (best : List (ℕ × Candidate)) (ei : ℕ) (c : Candidate) :
    ∃ p, Keyed.find Prod.fst ei (keepBest best ei c) = some p ∧ c.score ≤ p.2.score ∧
      (∀ q, Keyed.find Prod.fst ei best = some q → q.2.score ≤ p.2.score) ∧
      (p = (ei, c) ∨ Keyed.find Prod.fst ei best = some p) := by
  rw [find_keepBest, if_pos rfl]
  cases hf : Keyed.find Prod.fst ei best with
  | none =>
    refine ⟨(ei, c), rfl, le_refl _, ?_, .inl rfl⟩
    intro q hq
    cases hq
  | some prev =>
    dsimp only [Option.elim]
    split_ifs with hlt
    · refine ⟨(ei, c), rfl, le_refl _, ?_, .inl rfl⟩
      intro q hq
      cases hq
      exact hlt.le
    · refine ⟨prev, rfl, not_lt.1 hlt, ?_, .inr rfl⟩
      intro q hq
      cases hq
      exact le_refl _

theorem keepBest_of_ne {best : List (ℕ × Candidate)} {ei k : ℕ} {c : Candidate} (h : k ≠ ei) :
    Keyed.find Prod.fst k (keepBest best ei c) = Keyed.find Prod.fst k best := by
  rw [find_keepBest, if_neg h]

theorem nodup_keepBest {best : List (ℕ × Candidate)} {ei : ℕ} {c : Candidate}
    (h : (best.map Prod.fst).Nodup) : ((keepBest best ei c).map Prod.fst).Nodup := by
  rw [keepBest]
  cases hf : Keyed.find Prod.fst ei best with
  | none =>
    dsimp only
    exact Keyed.nodup_concat h hf
  | some prev =>
    dsimp only
    have hkeys : (Keyed.change Prod.fst ei (fun _ => (ei, c)) best).map Prod.fst =
        best.map Prod.fst := Keyed.keys_change fun _ hk => hk.symm ▸ rfl
    split_ifs
    · rwa [hkeys]
    · exact h

section
variable {corpus : Corpus} {matchType : MatchType} {tokens : List Str} {minScore : ℚ}

/-- A name of the index belongs to an entry and has a score. -/
structure HasScore (u : Unicode) (corpus : Corpus) (matchType : MatchType) (tokens : List Str)
    (ni ei : ℕ) (entry : SanctionEntry) (score : ℚ) : Prop where
  name : ∃ n, corpus.names[ni]? = some n ∧ n.entryIdx = ei ∧
    candidateScore u matchType tokens n.tokens = score
  entry_eq : corpus.entries[ei]? = some entry

/-- What the best candidates hold after the names in `done`. -/
structure BestOf (u : Unicode) (corpus : Corpus) (matchType : MatchType) (tokens : List Str)
    (minScore : ℚ) (done : List ℕ) (best : List (ℕ × Candidate)) : Prop where
  nodup : (best.map Prod.fst).Nodup
  sound : ∀ ei p, Keyed.find Prod.fst ei best = some p → minScore ≤ p.2.score ∧
    ∃ ni ∈ done, HasScore u corpus matchType tokens ni ei p.2.entry p.2.score
  complete : ∀ ni ∈ done, ∀ ei entry score, HasScore u corpus matchType tokens ni ei entry score →
    minScore ≤ score → ∃ p, Keyed.find Prod.fst ei best = some p ∧ score ≤ p.2.score

/-- **One more name** keeps the best candidate of every entry. -/
theorem BestOf.step {done : List ℕ} {best : List (ℕ × Candidate)} {ni : ℕ}
    (h : BestOf u corpus matchType tokens minScore done best) :
    BestOf u corpus matchType tokens minScore (done ++ [ni])
      (scoreName u corpus matchType tokens minScore best ni) := by
  -- a name that gives no candidate
  have hskip (hno : ∀ ei entry score, HasScore u corpus matchType tokens ni ei entry score →
      score < minScore) : BestOf u corpus matchType tokens minScore (done ++ [ni]) best := by
    refine ⟨h.nodup, fun ei p hp => ?_, fun n hn ei entry score hs hmin => ?_⟩
    · obtain ⟨h1, n, hn, hs⟩ := h.sound ei p hp
      exact ⟨h1, n, List.mem_append_left _ hn, hs⟩
    · rcases List.mem_append.1 hn with hn | hn
      · exact h.complete n hn ei entry score hs hmin
      · rw [List.mem_singleton.1 hn] at hs
        exact absurd hmin (not_le.2 (hno ei entry score hs))
  rw [scoreName]
  cases hn : corpus.names[ni]? with
  | none =>
    refine hskip fun ei entry score hs => ?_
    obtain ⟨n, hn', -⟩ := hs.name
    rw [hn] at hn'
    cases hn'
  | some n =>
    have hscore {ei : ℕ} {entry : SanctionEntry} {score : ℚ}
        (hs : HasScore u corpus matchType tokens ni ei entry score) :
        n.entryIdx = ei ∧ candidateScore u matchType tokens n.tokens = score := by
      obtain ⟨n', hn', h1, h2⟩ := hs.name
      rw [hn] at hn'
      cases hn'
      exact ⟨h1, h2⟩
    dsimp only
    by_cases hlt : candidateScore u matchType tokens n.tokens < minScore
    · rw [if_pos hlt]
      exact hskip fun ei entry score hs => (hscore hs).2 ▸ hlt
    rw [if_neg hlt]
    cases he : corpus.entries[n.entryIdx]? with
    | none =>
      refine hskip fun ei entry score hs => ?_
      have hentry := hs.entry_eq
      rw [← (hscore hs).1, he] at hentry
      cases hentry
    | some entry =>
      dsimp only
      generalize hc :
        (⟨entry, n.norm, candidateScore u matchType tokens n.tokens, _⟩ : Candidate) = c
      have hcs : c.score = candidateScore u matchType tokens n.tokens := by rw [← hc]
      have hnew : HasScore u corpus matchType tokens ni n.entryIdx c.entry c.score := by
        rw [hcs, ← hc]
        exact ⟨⟨n, hn, rfl, rfl⟩, he⟩
      obtain ⟨p, hp, hle, hprev, hor⟩ := keepBest_at best n.entryIdx c
      refine ⟨nodup_keepBest h.nodup, fun ei q hq => ?_, fun i hi ei entry' score hs hmin => ?_⟩
      · have hold (hq : Keyed.find Prod.fst ei best = some q) : minScore ≤ q.2.score ∧
            ∃ i ∈ done ++ [ni], HasScore u corpus matchType tokens i ei q.2.entry q.2.score := by
          obtain ⟨h1, i, hi, hs⟩ := h.sound ei q hq
          exact ⟨h1, i, List.mem_append_left _ hi, hs⟩
        by_cases hei : ei = n.entryIdx
        · subst hei
          rw [hp, Option.some.injEq] at hq
          subst hq
          rcases hor with rfl | hor
          · exact ⟨hcs ▸ not_lt.1 hlt, ni, List.mem_append_right _ (List.mem_singleton_self _),
              hnew⟩
          · exact hold hor
        · rw [keepBest_of_ne hei] at hq
          exact hold hq
      · by_cases hei : ei = n.entryIdx
        · subst hei
          refine ⟨p, hp, ?_⟩
          rcases List.mem_append.1 hi with hi | hi
          · obtain ⟨q, hq, hsq⟩ := h.complete i hi n.entryIdx entry' score hs hmin
            exact hsq.trans (hprev q hq)
          · rw [List.mem_singleton.1 hi] at hs
            rw [← (hscore hs).2, ← hcs]
            exact hle
        · rw [keepBest_of_ne hei]
          rcases List.mem_append.1 hi with hi | hi
          · exact h.complete i hi ei entry' score hs hmin
          · rw [List.mem_singleton.1 hi] at hs
            exact absurd (hscore hs).1.symm hei

theorem bestOf_foldl (names : List ℕ) : BestOf u corpus matchType tokens minScore names
    (names.foldl (scoreName u corpus matchType tokens minScore) []) := by
  induction names using List.reverseRecOn with
  | nil => exact ⟨List.nodup_nil, fun ei p hp => (by cases hp), fun ni hn => (by cases hn)⟩
  | append_singleton names ni ih =>
    rw [List.foldl_concat]
    exact ih.step

/-! ## The scan of the whole corpus -/

/-- The best score of the names of an entry. -/
def bestScore (u : Unicode) (matchType : MatchType) (tokens : List Str) (e : SanctionEntry) : ℚ :=
  (e.names.map fun raw => candidateScore u matchType tokens (nameTokens u raw)).foldl max 0

/-- Every entry whose best score reaches the minimum, with that score. -/
def scanAll (u : Unicode) (entries : List SanctionEntry) (matchType : MatchType)
    (tokens : List Str) (minScore : ℚ) : List (SanctionEntry × ℚ) :=
  (entries.filter fun e => decide (minScore ≤ bestScore u matchType tokens e)).map fun e =>
    (e, bestScore u matchType tokens e)

theorem le_foldl_max {l : List ℚ} {a x : ℚ} (h : x ≤ a ∨ x ∈ l) : x ≤ l.foldl max a := by
  induction l generalizing a with
  | nil => exact h.elim id fun hx => absurd hx List.not_mem_nil
  | cons y l ih =>
    rw [List.foldl_cons]
    rcases h with h | h
    · exact ih (.inl (h.trans (le_max_left a y)))
    · rcases List.mem_cons.1 h with rfl | h
      · exact ih (.inl (le_max_right a x))
      · exact ih (.inr h)

theorem foldl_max_mem {l : List ℚ} {a : ℚ} : l.foldl max a = a ∨ l.foldl max a ∈ l := by
  induction l generalizing a with
  | nil => exact .inl rfl
  | cons y l ih =>
    rw [List.foldl_cons]
    obtain h | h := @ih (max a y)
    · rcases max_choice a y with h' | h'
      · exact .inl (h.trans h')
      · exact .inr (List.mem_cons.2 (.inl (h.trans h')))
    · exact .inr (List.mem_cons_of_mem y h)

theorem score_le_bestScore {e : SanctionEntry} {raw : Str} (h : raw ∈ e.names) :
    candidateScore u matchType tokens (nameTokens u raw) ≤ bestScore u matchType tokens e :=
  le_foldl_max (.inr (List.mem_map.2 ⟨raw, h, rfl⟩))

theorem bestScore_eq {e : SanctionEntry} (h : 0 < bestScore u matchType tokens e) :
    ∃ raw ∈ e.names, candidateScore u matchType tokens (nameTokens u raw) =
      bestScore u matchType tokens e := by
  rcases (foldl_max_mem : bestScore u matchType tokens e = 0 ∨ _) with h0 | hm
  · exact absurd h0 h.ne'
  · exact List.mem_map.1 hm

/-- The names of an entry with a positive score are indexed. -/
theorem hasScore_of_mem {entry : SanctionEntry} {ei : ℕ} {raw : Str} (hx : Indexes u corpus)
    (he : corpus.entries[ei]? = some entry) (hr : raw ∈ entry.names)
    (hpos : 0 < candidateScore u matchType tokens (nameTokens u raw)) :
    ∃ ni, HasScore u corpus matchType tokens ni ei entry
      (candidateScore u matchType tokens (nameTokens u raw)) := by
  obtain ⟨q, -, t, ht, -⟩ := match_of_score_pos hpos
  obtain ⟨i, hi⟩ := List.mem_iff_getElem?.1 hr
  obtain ⟨n, hn⟩ := exists_indexedName ei (raw, i) (List.ne_nil_of_mem ht)
  have hmem : n ∈ corpus.names := by
    rw [hx.names]
    refine List.mem_flatMap.2 ⟨(entry, ei), List.mem_zipIdx_iff_getElem?.2 he, ?_⟩
    exact List.mem_filterMap.2 ⟨(raw, i), List.mem_zipIdx_iff_getElem?.2 hi, hn⟩
  obtain ⟨ni, hni⟩ := List.mem_iff_getElem?.1 hmem
  obtain ⟨h1, h2⟩ := indexedName_some hn
  exact ⟨ni, ⟨n, hni, h1, by rw [h2]⟩, he⟩

/-- An indexed name is one of its entry. -/
theorem mem_of_hasScore {entry : SanctionEntry} {ni ei : ℕ} {score : ℚ} (hx : Indexes u corpus)
    (h : HasScore u corpus matchType tokens ni ei entry score) :
    ∃ raw ∈ entry.names, candidateScore u matchType tokens (nameTokens u raw) = score := by
  obtain ⟨n, hn, rfl, rfl⟩ := h.name
  have hmem := List.mem_of_getElem? hn
  rw [hx.names] at hmem
  obtain ⟨⟨e, ei⟩, he, hmem⟩ := List.mem_flatMap.1 hmem
  obtain ⟨⟨raw, i⟩, hr, hsome⟩ := List.mem_filterMap.1 hmem
  obtain ⟨h1, h2⟩ := indexedName_some hsome
  have hentry := h.entry_eq
  rw [h1, List.mem_zipIdx_iff_getElem?.1 he, Option.some.injEq] at hentry
  rw [h2, ← hentry]
  exact ⟨raw, List.mem_of_getElem? (List.mem_zipIdx_iff_getElem?.1 hr), rfl⟩

/-- The tokens of the vocabulary are decomposed. -/
theorem isNfd_vocabulary (hu : u.Canonical) (hx : Indexes u corpus) {t : Str}
    (ht : t ∈ corpus.byToken.map Prod.fst) : IsNfd u t := by
  obtain ⟨n, hn, htn⟩ := hx.vocabulary t ht
  rw [hx.names] at hn
  obtain ⟨e, -, hn⟩ := List.mem_flatMap.1 hn
  obtain ⟨raw, -, hsome⟩ := List.mem_filterMap.1 hn
  rw [(indexedName_some hsome).2] at htn
  exact isNfd_nameTokens hu htn

/-- **A name with a positive score is a candidate.** -/
theorem mem_candidateNames {s : TokenSearch} {ni ei : ℕ} {entry : SanctionEntry} {score : ℚ}
    {names : List ℕ × ℕ} (hu : u.Canonical) (hx : Indexes u corpus)
    (htokens : ∀ q ∈ tokens, IsNfd u q) (hs : searchTokens u corpus matchType tokens = .ok s)
    (hv : s.matchingTokens.foldlM (visitToken corpus) ([], s.postingVisits) = .ok names)
    (h : HasScore u corpus matchType tokens ni ei entry score) (hpos : 0 < score) :
    ni ∈ names.1 := by
  obtain ⟨n, hn, -, hscore⟩ := h.name
  rw [← hscore] at hpos
  obtain ⟨q, hq, t, ht, hm⟩ := match_of_score_pos hpos
  have hposted := hx.posted ni n hn t ht
  have hvoc := Postings.mem_keys_of_mem_get hposted
  have hin := searchTokens_complete hu hx htokens hs hq hvoc (isNfd_vocabulary hu hx hvoc) hm
  exact visitTokens_ok hv t hin ni hposted

/-- **The candidates are the entries that reach the minimum**, with their best scores. -/
theorem perm_scanAll {names : List ℕ} {best : List (ℕ × Candidate)} (hx : Indexes u corpus)
    (hmin : 0 < minScore) (h : BestOf u corpus matchType tokens minScore names best)
    (hnames : ∀ ni ei entry score, HasScore u corpus matchType tokens ni ei entry score →
      0 < score → ni ∈ names) :
    (best.map fun p => (p.2.entry, p.2.score)).Perm
      (scanAll u corpus.entries matchType tokens minScore) := by
  -- an entry that reaches the minimum is kept
  have hkept : ∀ ei entry, corpus.entries[ei]? = some entry →
      minScore ≤ bestScore u matchType tokens entry →
      ∃ p, Keyed.find Prod.fst ei best = some p ∧
        bestScore u matchType tokens entry ≤ p.2.score := by
    intro ei entry he hreach
    obtain ⟨raw, hr, hscore⟩ := bestScore_eq (hmin.trans_le hreach)
    obtain ⟨ni, hhas⟩ := hasScore_of_mem hx he hr (hscore ▸ hmin.trans_le hreach)
    rw [hscore] at hhas
    exact h.complete ni (hnames ni ei entry _ hhas (hmin.trans_le hreach)) ei entry _ hhas hreach
  -- a candidate that is kept has the best score of its entry
  have hbest : ∀ p ∈ best, corpus.entries[p.1]? = some p.2.entry ∧ minScore ≤ p.2.score ∧
      p.2.score = bestScore u matchType tokens p.2.entry := by
    intro p hp
    have hfind := Keyed.find_of_mem h.nodup hp
    obtain ⟨hreach, ni, -, hhas⟩ := h.sound p.1 p hfind
    obtain ⟨raw, hr, hscore⟩ := mem_of_hasScore hx hhas
    have hle : p.2.score ≤ bestScore u matchType tokens p.2.entry :=
      hscore ▸ score_le_bestScore hr
    obtain ⟨p', hp', hge⟩ := hkept p.1 p.2.entry hhas.entry_eq (hreach.trans hle)
    rw [hfind, Option.some.injEq] at hp'
    exact ⟨hhas.entry_eq, hreach, le_antisymm hle (hp' ▸ hge)⟩
  have hperm : (best.map fun p => (p.2.entry, p.1)).Perm (corpus.entries.zipIdx.filter fun e =>
      decide (minScore ≤ bestScore u matchType tokens e.1)) := by
    refine (List.perm_ext_iff_of_nodup ?_ (List.Nodup.filter _ ?_)).2 ?_
    · refine List.Nodup.of_map Prod.snd ?_
      rw [List.map_map]
      exact h.nodup
    · refine List.Nodup.of_map Prod.snd ?_
      rw [List.zipIdx_map_snd]
      exact List.nodup_range'
    · rintro ⟨entry, ei⟩
      rw [List.mem_map, List.mem_filter, List.mem_zipIdx_iff_getElem?, decide_eq_true_eq]
      constructor
      · rintro ⟨p, hp, heq⟩
        cases heq
        obtain ⟨h1, h2, h3⟩ := hbest p hp
        exact ⟨h1, h3 ▸ h2⟩
      · rintro ⟨he, hreach⟩
        obtain ⟨p, hp, -⟩ := hkept ei entry he hreach
        obtain ⟨hmem, hkey⟩ := Keyed.mem_of_find hp
        have hentry := (hbest p hmem).1
        rw [hkey, he, Option.some.injEq] at hentry
        exact ⟨p, hmem, Prod.ext hentry.symm hkey⟩
  have hmap := hperm.map fun e => (e.1, bestScore u matchType tokens e.1)
  rw [List.map_map] at hmap
  have hleft : (best.map fun p => (p.2.entry, p.2.score)) =
      best.map ((fun e : SanctionEntry × ℕ => (e.1, bestScore u matchType tokens e.1)) ∘
        fun p => (p.2.entry, p.1)) := by
    refine List.map_congr_left fun p hp => ?_
    rw [Function.comp_apply, (hbest p hp).2.2]
  have hright : scanAll u corpus.entries matchType tokens minScore =
      (corpus.entries.zipIdx.filter fun e =>
        decide (minScore ≤ bestScore u matchType tokens e.1)).map fun e =>
          (e.1, bestScore u matchType tokens e.1) := by
    rw [scanAll]
    conv_lhs => rw [← List.zipIdx_map_fst 0 corpus.entries, List.filter_map, List.map_map]
    rfl
  rw [hleft, hright]
  exact hmap

end

/-- **Screening retrieval is complete.**  Unless a capacity is exceeded, `candidatesFor`
reports the entries and the scores that a scan of all names of all entries reports, and every
vocabulary token that matches a query token is retrieved. -/
theorem screening_retrieval_complete {limits : MatchLimits} {entries : List SanctionEntry}
    {corpus : Corpus} {query : Str} {matchType : MatchType} {minScore : ℚ} {cs : List Candidate}
    (hu : u.Canonical) (hc : buildCorpus u limits entries = .ok corpus) (hmin : 0 < minScore)
    (hcs : candidatesFor u corpus (nameTokens u query) matchType minScore = .ok cs) :
    (cs.map fun c => (c.entry, c.score)).Perm
        (scanAll u entries matchType (nameTokens u query) minScore) ∧
      ∃ s, searchTokens u corpus matchType (nameTokens u query) = .ok s ∧
        ∀ q ∈ nameTokens u query, ∀ t ∈ corpus.byToken.map Prod.fst,
          (q = t ∨ matchType ≠ .romanized ∧
            (withinSupportedEdits u q t = true ∨ withinSupportedEdits u t q = true)) →
          t ∈ s.matchingTokens := by
  obtain ⟨hentries, hx⟩ := buildCorpus_ok hc
  have htokens : ∀ q ∈ nameTokens u query, IsNfd u q := fun q hq => isNfd_nameTokens hu hq
  simp only [candidatesFor, bind_ok, capacity_ok, pure_ok] at hcs
  obtain ⟨_, -, s, hs, names, hv, rfl⟩ := hcs
  refine ⟨?_, s, hs, fun q hq t ht hm => ?_⟩
  · rw [← hentries]
    refine List.Perm.trans ?_ (perm_scanAll hx hmin (bestOf_foldl names.1)
      fun ni ei entry score => mem_candidateNames hu hx htokens hs hv)
    have hsort := (List.perm_insertionSort (fun x y : Candidate => y.score ≤ x.score)
      ((names.1.foldl (scoreName u corpus matchType (nameTokens u query) minScore) []).map
        Prod.snd)).map fun c => (c.entry, c.score)
    rwa [List.map_map] at hsort
  · refine searchTokens_complete hu hx htokens hs hq ht (isNfd_vocabulary hu hx ht) (hm.imp id ?_)
    rintro ⟨hrom, hw | hw⟩
    · exact ⟨hrom, hw⟩
    · rw [withinSupportedEdits_symm] at hw
      exact ⟨hrom, hw⟩

/-! ## A misspelt query -/

/-- Tables that agree with the standard on ASCII. -/
def asciiTables : Unicode where
  decomposition c := [c]
  combiningClass c := if isDiacritic c = true ∧ c.toNat ≠ 0x34f then 230 else 0
  nfc := id
  toLowerCase s := s.map Char.toLower
  toUpperCase s := s.map Char.toUpper
  isLetter := Char.isAlpha
  isNumber := Char.isDigit

theorem canonical_asciiTables : asciiTables.Canonical where
  decomposition_mem c d hd := rfl
  nfd_nfc s := rfl
  ascii c hc := by
    refine ⟨rfl, if_neg fun h => ?_⟩
    have h1 := h.1
    simp only [isDiacritic, inRange, Bool.and_eq_true, decide_eq_true_eq] at h1
    omega
  diacritic c h1 h2 := by
    have hclass : asciiTables.combiningClass c = 230 := if_pos ⟨h1, h2⟩
    rw [hclass]
    decide
  joiner c d hd _ := (List.mem_singleton.1 hd).symm
  joiner_lower s h c hc := by
    obtain ⟨d, hd, rfl⟩ := List.mem_map.1 hc
    rw [Char.toLower]
    split_ifs with hupper
    · have hle : d.val.toNat ≤ 90 := UInt32.le_iff_toNat_le.1 hupper.2
      have hval : (d.val + ('a'.val - 'A'.val)).toNat = (d.val.toNat + 32) % 2 ^ 32 :=
        UInt32.toNat_add _ _
      intro h0
      have hlower : (d.val + ('a'.val - 'A'.val)).toNat = 0x34f := h0
      omega
    · exact h d hd
  space c h := by
    refine if_neg fun hd => ?_
    have h1 := hd.1
    simp only [isDiacritic, isSpace, inRange, Bool.and_eq_true, Bool.or_eq_true, decide_eq_true_eq,
      List.mem_cons, List.not_mem_nil, or_false] at h1 h
    omega

/-- A listed person with an alias. -/
def listedSmith : SanctionEntry where
  listId := .OFAC_SDN
  entryId := "7".toList
  primaryName := "Jonathan Smith".toList
  names := ["Jonathan Smith".toList, "Johnny Smith".toList]
  dobs := []
  countries := []
  cryptoAddresses := []

theorem screening_retrieval_complete_misspelt :
    ∃ corpus, buildCorpus asciiTables DEFAULT_MATCH_LIMITS [listedSmith] = .ok corpus ∧
      [(listedSmith, (67 / 80 : ℚ))].Perm (scanAll asciiTables [listedSmith] .fuzzy
        (nameTokens asciiTables "smyth jonathna".toList) (72 / 100)) := by
  have h : (buildCorpus asciiTables DEFAULT_MATCH_LIMITS [listedSmith] >>= fun corpus =>
      candidatesFor asciiTables corpus (nameTokens asciiTables "smyth jonathna".toList) .fuzzy
        (72 / 100)) = .ok [⟨listedSmith, "jonathan smith".toList, 67 / 80, .fuzzy⟩] := by
    decide +kernel
  rw [bind_ok] at h
  obtain ⟨corpus, hc, hcs⟩ := h
  exact ⟨corpus, hc,
    (screening_retrieval_complete canonical_asciiTables hc (by decide +kernel) hcs).1⟩

end Aml

end Proofmark
