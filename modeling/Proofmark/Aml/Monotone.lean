/-
  Screening against a larger list (`screenNames` of src/aml/match.ts, src/aml/engine.ts).

  `Contains` says that a list has the entries of another one, with more names or wallets.
  The first candidate of an entry is rounded to three digits and the further ones are not, so
  a candidate that comes to stand in front of another one can lower the score of the hit.

  `screening_monotone_iff`: the decision is at least as severe over the larger list, unless
  an entry held the subject by a rounded score alone (`BlockLost`, `ReviewLost`).
-/
import Proofmark.Aml.Softening

namespace Proofmark

namespace Aml

open Revert

/-! ## Larger lists -/

/-- The same entry with more names or wallets. -/
structure Extends (e e' : SanctionEntry) : Prop where
  listId : e'.listId = e.listId
  entryId : e'.entryId = e.entryId
  dobs : e'.dobs = e.dobs
  countries : e'.countries = e.countries
  names : ∀ n ∈ e.names, n ∈ e'.names
  cryptoAddresses : ∀ a ∈ e.cryptoAddresses, a ∈ e'.cryptoAddresses

/-- Every entry of `es` is in `es'`. -/
def Contains (es es' : List SanctionEntry) : Prop := ∀ e ∈ es, ∃ e' ∈ es', Extends e e'

/-- No two entries have one list and one number. -/
def UniqueIds (es : List SanctionEntry) : Prop := (es.map fun e => (e.listId, e.entryId)).Nodup

variable {u : Unicode} {corpus corpus' : Corpus} {limits limits' : MatchLimits}
  {es es' : List SanctionEntry} {e e' : SanctionEntry} {input : MatchInput}
  {matchType : MatchType} {minScore : ℚ}

theorem Extends.key (h : Extends e e') : e'.key = e.key := by
  rw [SanctionEntry.key, SanctionEntry.key, h.listId, h.entryId]

/-- The first letter of a list. -/
theorem head_toStr_inj {l l' : ListId} (h : l.toStr.head? = l'.toStr.head?) : l = l' := by
  cases l <;> cases l' <;> first | rfl | exact absurd h (by decide)

theorem key_inj (h : e.key = e'.key) : e.listId = e'.listId ∧ e.entryId = e'.entryId := by
  rw [SanctionEntry.key, SanctionEntry.key] at h
  have hne : ∀ l : ListId, l.toStr ≠ [] := fun l => by cases l <;> decide
  have hhead := congrArg List.head? h
  rw [List.head?_append_of_ne_nil _ (hne _), List.head?_append_of_ne_nil _ (hne _)] at hhead
  have hlist := head_toStr_inj hhead
  rw [hlist] at h
  exact ⟨hlist, (List.cons.inj (List.append_cancel_left h)).2⟩

theorem UniqueIds.eq (h : UniqueIds es) (he : e ∈ es) (he' : e' ∈ es) (hk : e.key = e'.key) :
    e = e' := by
  obtain ⟨hl, hi⟩ := key_inj hk
  exact List.inj_on_of_nodup_map h he he' (Prod.ext hl hi)

theorem Extends.comparisonOf (h : Extends e e') : comparisonOf input e' = comparisonOf input e := by
  rw [Aml.comparisonOf, Aml.comparisonOf, h.dobs, h.countries]

theorem Extends.corroborationOf (h : Extends e e') :
    corroborationOf input e' = corroborationOf input e := by
  rw [Aml.corroborationOf, Aml.corroborationOf, h.comparisonOf]

/-- **More names do not lower the best score.** -/
theorem Extends.bestScore_le (h : Extends e e') (tokens : List Str)
    (hpos : 0 < bestScore u matchType tokens e) :
    bestScore u matchType tokens e ≤ bestScore u matchType tokens e' := by
  obtain ⟨raw, hr, heq⟩ := bestScore_eq hpos
  rw [← heq]
  exact score_le_bestScore (h.names raw hr)

/-! ## Candidates in the larger list -/

/-- The candidates of a name, read off the list. -/
theorem mem_candidatesFor {query : Str} {cs : List Candidate} (hu : u.Canonical)
    (hc : buildCorpus u limits es = .ok corpus) (hmin : 0 < minScore)
    (hcs : candidatesFor u corpus (nameTokens u query) matchType minScore = .ok cs) :
    (∀ c ∈ cs, c.entry ∈ es ∧ minScore ≤ c.score ∧
      c.score = bestScore u matchType (nameTokens u query) c.entry) ∧
    ∀ e ∈ es, minScore ≤ bestScore u matchType (nameTokens u query) e →
      ∃ c ∈ cs, c.entry = e ∧ c.score = bestScore u matchType (nameTokens u query) e := by
  have hperm := (screening_retrieval_complete hu hc hmin hcs).1
  constructor
  · intro c hmem
    have hscan := hperm.subset (List.mem_map.2 ⟨c, hmem, rfl⟩)
    obtain ⟨e, he, heq⟩ := List.mem_map.1 hscan
    obtain ⟨rfl, hscore⟩ := Prod.mk.inj heq
    obtain ⟨he, hreach⟩ := List.mem_filter.1 he
    exact ⟨he, hscore ▸ of_decide_eq_true hreach, hscore.symm⟩
  · intro e he hreach
    have hscan : (e, bestScore u matchType (nameTokens u query) e) ∈
        scanAll u es matchType (nameTokens u query) minScore :=
      List.mem_map.2 ⟨e, List.mem_filter.2 ⟨he, decide_eq_true hreach⟩, rfl⟩
    obtain ⟨c, hmem, heq⟩ := List.mem_map.1 (hperm.symm.subset hscan)
    obtain ⟨h1, h2⟩ := Prod.mk.inj heq
    exact ⟨c, hmem, h1, h2⟩

/-- Which candidates some names have. -/
theorem mem_candidatesOf {names : List Str} {cs : List Candidate}
    (h : candidatesOf u corpus matchType minScore names = .ok cs) :
    (∀ c ∈ cs, ∃ name ∈ names, ∃ new,
      candidatesFor u corpus (nameTokens u name) matchType minScore = .ok new ∧ c ∈ new) ∧
    ∀ name ∈ names, nameTokens u name ≠ [] → ∃ new,
      candidatesFor u corpus (nameTokens u name) matchType minScore = .ok new ∧
        ∀ c ∈ new, c ∈ cs := by
  refine foldlM_history (P := fun done cs =>
    (∀ c ∈ cs, ∃ name ∈ done, ∃ new,
      candidatesFor u corpus (nameTokens u name) matchType minScore = .ok new ∧ c ∈ new) ∧
    ∀ name ∈ done, nameTokens u name ≠ [] → ∃ new,
      candidatesFor u corpus (nameTokens u name) matchType minScore = .ok new ∧
        ∀ c ∈ new, c ∈ cs) ?_ h ⟨by simp, by simp⟩
  rintro done cs name cs' ⟨ih1, ih2⟩ hstep
  by_cases h0 : nameTokens u name = []
  · rw [if_pos h0, pure_ok] at hstep
    subst hstep
    refine ⟨fun c hc => ?_, fun n hn hne => ?_⟩
    · obtain ⟨n, hn, hnew⟩ := ih1 c hc
      exact ⟨n, List.mem_append_left _ hn, hnew⟩
    · rcases List.mem_append.1 hn with hn | hn
      · exact ih2 n hn hne
      · exact absurd (List.mem_singleton.1 hn ▸ h0) hne
  · rw [if_neg h0] at hstep
    simp only [bind_ok, pure_ok] at hstep
    obtain ⟨new, hnew, rfl⟩ := hstep
    refine ⟨fun c hc => ?_, fun n hn hne => ?_⟩
    · rcases List.mem_append.1 hc with hc | hc
      · obtain ⟨n, hn, hold⟩ := ih1 c hc
        exact ⟨n, List.mem_append_left _ hn, hold⟩
      · exact ⟨name, List.mem_append_right _ (List.mem_singleton_self _), new, hnew, hc⟩
    · rcases List.mem_append.1 hn with hn | hn
      · obtain ⟨old, hold, hsub⟩ := ih2 n hn hne
        exact ⟨old, hold, fun c hc => List.mem_append_left _ (hsub c hc)⟩
      · rw [List.mem_singleton.1 hn]
        exact ⟨new, hnew, fun c hc => List.mem_append_right _ hc⟩

/-- The candidates of a list have their entries and scores from it. -/
theorem entry_of_candidatesOf {names : List Str} {cs : List Candidate} (hu : u.Canonical)
    (hc : buildCorpus u limits es = .ok corpus) (hmin : 0 < minScore)
    (h : candidatesOf u corpus matchType minScore names = .ok cs) : ∀ c ∈ cs, c.entry ∈ es := by
  intro c hmem
  obtain ⟨name, -, new, hnew, hin⟩ := (mem_candidatesOf h).1 c hmem
  exact ((mem_candidatesFor hu hc hmin hnew).1 c hin).1

/-- **A candidate has one of at least its score in the larger list.** -/
theorem exists_candidate {names : List Str} {cs cs' : List Candidate} (hu : u.Canonical)
    (hc : buildCorpus u limits es = .ok corpus) (hc' : buildCorpus u limits' es' = .ok corpus')
    (hsub : Contains es es') (hmin : 0 < minScore)
    (h : candidatesOf u corpus matchType minScore names = .ok cs)
    (h' : candidatesOf u corpus' matchType minScore names = .ok cs') :
    ∀ c ∈ cs, ∃ c' ∈ cs', Extends c.entry c'.entry ∧ c.score ≤ c'.score := by
  intro c hmem
  obtain ⟨name, hname, new, hnew, hin⟩ := (mem_candidatesOf h).1 c hmem
  obtain ⟨he, hreach, hscore⟩ := (mem_candidatesFor hu hc hmin hnew).1 c hin
  obtain ⟨e', he', hext⟩ := hsub c.entry he
  have hpos : 0 < bestScore u matchType (nameTokens u name) c.entry :=
    hmin.trans_le (hreach.trans_eq hscore)
  have hle := hext.bestScore_le (nameTokens u name) hpos
  -- a name without tokens has no score
  have htokens : nameTokens u name ≠ [] := by
    obtain ⟨raw, -, heq⟩ := bestScore_eq hpos
    obtain ⟨q, hq, -⟩ := match_of_score_pos (heq ▸ hpos)
    exact List.ne_nil_of_mem hq
  obtain ⟨new', hnew', hsub'⟩ := (mem_candidatesOf h').2 name hname htokens
  obtain ⟨c', hin', rfl, hscore'⟩ := (mem_candidatesFor hu hc' hmin hnew').2 e' he'
    (hreach.trans (hscore.trans_le hle))
  exact ⟨c', hsub' c' hin', hext, hscore.trans_le (hle.trans_eq hscore'.symm)⟩

/-! ## Wallets -/

theorem mem_foldl_wallet {l : List Str} {i : ℕ} {m : List (Str × ℕ)} {x : Str × ℕ} :
    x ∈ l.foldl (fun m a => (u.toLowerCase a, i) :: m) m ↔
      x ∈ m ∨ ∃ a ∈ l, x = (u.toLowerCase a, i) := by
  induction l generalizing m with
  | nil => simp
  | cons a l ih =>
    rw [List.foldl_cons, ih, List.mem_cons, List.exists_mem_cons_iff]
    tauto

theorem mem_indexWallets {x : Str × ℕ} :
    x ∈ indexWallets u es ↔ ∃ e, es[x.2]? = some e ∧
      ∃ a ∈ e.cryptoAddresses, isEvmAddress a = true ∧ x.1 = u.toLowerCase a := by
  have hfold : ∀ (l : List (SanctionEntry × ℕ)) (m : List (Str × ℕ)),
      x ∈ l.foldl (fun m p => (p.1.cryptoAddresses.filter isEvmAddress).foldl
          (fun m a => (u.toLowerCase a, p.2) :: m) m) m ↔
        x ∈ m ∨ ∃ p ∈ l, ∃ a ∈ p.1.cryptoAddresses.filter isEvmAddress,
          x = (u.toLowerCase a, p.2) := by
    intro l
    induction l with
    | nil => simp
    | cons p l ih =>
      intro m
      rw [List.foldl_cons, ih, mem_foldl_wallet, List.exists_mem_cons_iff, or_assoc]
  rw [indexWallets, hfold]
  constructor
  · rintro (h | ⟨⟨e, i⟩, hp, a, ha, rfl⟩)
    · cases h
    · obtain ⟨ha, hevm⟩ := List.mem_filter.1 ha
      exact ⟨e, List.mem_zipIdx_iff_getElem?.1 hp, a, ha, hevm, rfl⟩
  · rintro ⟨e, he, a, ha, hevm, hx⟩
    exact .inr ⟨(e, x.2), List.mem_zipIdx_iff_getElem?.2 he, a, List.mem_filter.2 ⟨ha, hevm⟩,
      Prod.ext hx rfl⟩

theorem byWallet_buildCorpus (hc : buildCorpus u limits es = .ok corpus) :
    corpus.byWallet = indexWallets u es := by
  simp only [buildCorpus, bind_ok, revertIf_ok, pure_ok] at hc
  obtain ⟨_, -, _, -, _, -, rfl⟩ := hc
  rfl

/-- When the wallet is listed. -/
theorem walletHits_ne_nil_iff (hc : buildCorpus u limits es = .ok corpus) :
    walletHits u corpus input ≠ [] ↔
      isLowerEvmAddress (u.toLowerCase input.walletAddress) = true ∧
        ∃ e ∈ es, ∃ a ∈ e.cryptoAddresses, isEvmAddress a = true ∧
          u.toLowerCase input.walletAddress = u.toLowerCase a := by
  have hentries := (buildCorpus_ok hc).1
  simp only [walletHits, byWallet_buildCorpus hc, hentries]
  split_ifs with hw
  · rw [and_iff_right hw]
    cases hl : (indexWallets u es).lookup (u.toLowerCase input.walletAddress) with
    | none =>
      rw [Option.bind_none]
      refine iff_of_false (not_not.2 rfl) ?_
      rintro ⟨e, he, a, ha, hevm, heq⟩
      obtain ⟨i, hi⟩ := List.mem_iff_getElem?.1 he
      have hmem : (u.toLowerCase input.walletAddress, i) ∈ indexWallets u es :=
        mem_indexWallets.2 ⟨e, hi, a, ha, hevm, heq⟩
      rw [List.lookup_eq_none_iff] at hl
      exact absurd (hl _ hmem) (by simp)
    | some i =>
      obtain ⟨l₁, l₂, hsplit, -⟩ := List.lookup_eq_some_iff.1 hl
      have hmem : (u.toLowerCase input.walletAddress, i) ∈ indexWallets u es := by
        rw [hsplit]
        simp
      obtain ⟨e, he, a, ha, hevm, heq⟩ := mem_indexWallets.1 hmem
      rw [Option.bind_some, he]
      exact iff_of_true (List.cons_ne_nil _ _) ⟨e, List.mem_of_getElem? he, a, ha, hevm, heq⟩
  · exact iff_of_false (not_not.2 rfl) fun h => hw h.1

/-- **A listed wallet stays listed.** -/
theorem walletHits_contains (hc : buildCorpus u limits es = .ok corpus)
    (hc' : buildCorpus u limits' es' = .ok corpus') (hsub : Contains es es')
    (h : walletHits u corpus input ≠ []) : walletHits u corpus' input ≠ [] := by
  obtain ⟨hw, e, he, a, ha, hevm, heq⟩ := (walletHits_ne_nil_iff hc).1 h
  obtain ⟨e', he', hext⟩ := hsub e he
  exact (walletHits_ne_nil_iff hc').2 ⟨hw, e', he', a, hext.cryptoAddresses a ha, hevm, heq⟩

/-! ## Blocking candidates -/

/-- The date of birth of the subject identifies the entry, and nothing speaks against it. -/
def Identified (input : MatchInput) (e : SanctionEntry) : Prop :=
  (comparisonOf input e).dob = .match_ ∧ identityConflicts (comparisonOf input e) = false ∧
    identityUnusable (comparisonOf input e) = false

/-- The entry blocks: its first candidate is rounded up to 0.88, or one reaches it. -/
def Blocked (input : MatchInput) (cs : List Candidate) (k : Str) : Prop :=
  ∃ c, (atKey k cs).head? = some c ∧ Identified input c.entry ∧
    (8795 / 10000 ≤ c.score ∨ ∃ d ∈ atKey k cs, 88 / 100 ≤ d.score)

theorem Extends.identified (h : Extends e e') : Identified input e' ↔ Identified input e := by
  rw [Identified, Identified, h.comparisonOf]

theorem le_toFixed3_block {x : ℚ} : 88 / 100 ≤ toFixed3 x ↔ 8795 / 10000 ≤ x := by
  have h := @thousandths_le_toFixed3 880 x
  norm_num at h ⊢
  exact h

theorem identified_newHit {c : Candidate} {t : MatchType} :
    ((newHit input c t).corroborated = true ∧ (newHit input c t).identityComparison.any
      (fun c => c.dob == .match_) = true) ↔ Identified input c.entry := by
  simp only [newHit, Identified, Bool.and_eq_true, decide_eq_true_eq, Bool.not_eq_true',
    Option.any_some, beq_iff_eq]
  constructor
  · rintro ⟨⟨⟨-, h1⟩, h2⟩, h3⟩
    exact ⟨h3, h1, h2⟩
  · rintro ⟨h3, h1, h2⟩
    refine ⟨⟨⟨?_, h1⟩, h2⟩, h3⟩
    simp [corroborationOf, h3]

/-- **When the hit of an entry blocks.** -/
theorem blocks_iff_blocked {l : List (Candidate × MatchType)} (hl : ∀ p ∈ l, p.2 ≠ .wallet)
    (k : Str) :
    (∃ h, hitAt k (l.foldl (push input) []) = some h ∧ h.blocks = true) ↔
      Blocked input (l.map Prod.fst) k := by
  have hat : atKey k (l.map Prod.fst) =
      (l.filter fun p => decide (p.1.entry.key = k)).map Prod.fst := List.filter_map
  have hsub : ∀ p ∈ l.filter fun p => decide (p.1.entry.key = k), p.2 ≠ .wallet :=
    fun p hp => hl p (List.mem_filter.1 hp).1
  rw [hitAt_foldl_push, Blocked, hat]
  generalize l.filter (fun p => decide (p.1.entry.key = k)) = l' at hsub
  cases l' with
  | nil => simp [hitAt, Keyed.find]
  | cons p l' =>
    obtain ⟨h, hfold, hr⟩ := @raised_foldl input l' (newHit input p.1 p.2)
      (hsub p List.mem_cons_self) fun q hq => hsub q (List.mem_cons_of_mem p hq)
    have hsome : ((p :: l').foldl (pushAt input) (hitAt k [])) = some h := hfold
    have hscore : 88 / 100 ≤ h.score ↔
        8795 / 10000 ≤ p.1.score ∨ ∃ d ∈ (p :: l').map Prod.fst, 88 / 100 ≤ d.score := by
      rw [hr.score, newHit, le_toFixed3_block, List.map_cons, List.exists_mem_cons_iff]
      constructor
      · rintro (h1 | ⟨q, hq, h1⟩)
        exacts [.inl h1, .inr (.inr ⟨q.1, List.mem_map.2 ⟨q, hq, rfl⟩, h1⟩)]
      · rintro (h1 | h1 | ⟨d, hd, h1⟩)
        · exact .inl h1
        · exact .inl (le_trans (by norm_num) h1)
        · obtain ⟨q, hq, rfl⟩ := List.mem_map.1 hd
          exact .inr ⟨q, hq, h1⟩
    rw [hsome]
    simp only [Option.some.injEq, exists_eq_left', List.map_cons, List.head?_cons,
      ScreeningHit.blocks, Bool.or_eq_true, beq_iff_eq, hr.notWallet, false_or, Bool.and_eq_true,
      decide_eq_true_eq, hr.corroborated, hr.identityComparison, hscore]
    rw [← @identified_newHit input p.1 p.2]
    tauto

/-! ## The decisions -/

section
variable {subject : ScreeningSubject} {dir inf dir' inf' : List Candidate}

/-- The screening over the candidates of the names. -/
theorem screen_eq (hd : suppliedCandidates u corpus (subject.input u) = .ok dir)
    (hi : inferredCandidates u corpus (subject.input u) = .ok inf) :
    screen u corpus subject = .ok (decideHits u corpus subject (sortHits
      (((dir.map fun c => (c, suppliedType c)) ++ inf.map fun c => (c, MatchType.romanized)).foldl
        (push (subject.input u)) (walletHits u corpus (subject.input u))))) := by
  have hsup : screenSupplied u corpus (subject.input u) =
      .ok ((dir.map fun c => (c, suppliedType c)).foldl (push (subject.input u))
        (walletHits u corpus (subject.input u))) := pushNames_ok _ _ _ hd
  have hall := fun hits => pushNames_ok (subject.input u) (fun _ => .romanized) hits hi
  rw [List.foldl_append]
  exact bind_ok.2 ⟨_, bind_ok.2 ⟨_, hsup, bind_ok.2 ⟨_, hall _, rfl⟩⟩, rfl⟩

theorem pairs_ne_wallet (hdir : ∀ c ∈ dir, c.Reaches .fuzzy (72 / 100)) :
    ∀ p ∈ (dir.map fun c => (c, suppliedType c)) ++ inf.map fun c => (c, MatchType.romanized),
      p.2 ≠ .wallet := by
  intro p hp
  rcases List.mem_append.1 hp with hp | hp
  · exact suppliedType_pairs hdir p hp
  · obtain ⟨c, -, rfl⟩ := List.mem_map.1 hp
    exact MatchType.noConfusion

/-- **When the engine blocks.** -/
theorem screen_block_iff (hdir : ∀ c ∈ dir, c.Reaches .fuzzy (72 / 100)) :
    (decideHits u corpus subject (sortHits
      (((dir.map fun c => (c, suppliedType c)) ++ inf.map fun c => (c, MatchType.romanized)).foldl
        (push (subject.input u)) (walletHits u corpus (subject.input u))))).decision = .BLOCK ↔
      walletHits u corpus (subject.input u) ≠ [] ∨
        ∃ k, Blocked (subject.input u) (dir ++ inf) k := by
  rw [decideHits_block_iff]
  by_cases hw : walletHits u corpus (subject.input u) = []
  · have hfst : ((dir.map fun c => (c, suppliedType c)) ++
        inf.map fun c => (c, MatchType.romanized)).map Prod.fst = dir ++ inf := by
      rw [List.map_append, List.map_map, List.map_map]
      exact congrArg₂ _ (List.map_id' dir) (List.map_id' inf)
    have hblocked := fun k =>
      @blocks_iff_blocked (subject.input u) _ (@pairs_ne_wallet dir inf hdir) k
    rw [hfst] at hblocked
    simp only [hw, ne_eq, not_true_eq_false, false_or, ← hblocked]
    constructor
    · rintro ⟨h, hm, hb⟩
      obtain ⟨k, hk⟩ := (mem_hits_iff (nodup_foldl_push (by simp))).1 hm
      exact ⟨k, h, hk, hb⟩
    · rintro ⟨k, h, hk, hb⟩
      exact ⟨h, (mem_hits_iff (nodup_foldl_push (by simp))).2 ⟨k, hk⟩, hb⟩
  · exact iff_of_true (blocks_of_wallet hw) (.inl hw)

/-- **When the engine allows.** -/
theorem screen_allow_iff (hdir : ∀ c ∈ dir, c.Reaches .fuzzy (72 / 100))
    (hinf : ∀ c ∈ inf, c.Reaches .romanized (85 / 100)) :
    (decideHits u corpus subject (sortHits
      (((dir.map fun c => (c, suppliedType c)) ++ inf.map fun c => (c, MatchType.romanized)).foldl
        (push (subject.input u)) (walletHits u corpus (subject.input u))))).decision = .ALLOW ↔
      AllowedWithoutHits u corpus subject ∧ walletHits u corpus (subject.input u) = [] ∧
        ∀ k, ¬ (Clear dir k ∨ (atKey k inf = [] ∧ Near dir k) ∨
          atKey k inf ≠ [] ∧ Supported (subject.input u) (dir ++ inf) k) := by
  by_cases hw : walletHits u corpus (subject.input u) = []
  · have hallow := decideHits_allow_of_push u corpus subject (subject.input u)
      (@pairs_ne_wallet dir inf hdir)
    rw [hw, hallow, and_iff_right rfl, ← allHits_eq]
    simp only [active_all hdir hinf]
  · rw [decideHits_block_iff.2 (blocks_of_wallet hw)]
    exact iff_of_false Decision.noConfusion fun h => hw h.2.1

/-- An entry blocked by the rounded score of its first candidate, and over the larger list no
entry blocks. -/
structure BlockLost (u : Unicode) (corpus' : Corpus) (input : MatchInput)
    (cs cs' : List Candidate) : Prop where
  noWallet : walletHits u corpus' input = []
  rounded : ∃ k c, (atKey k cs).head? = some c ∧ Identified input c.entry ∧
    8795 / 10000 ≤ c.score
  below : ∀ c ∈ cs', Identified input c.entry → c.score < 88 / 100
  behind : ∀ k c, (atKey k cs').head? = some c → Identified input c.entry → c.score < 8795 / 10000

/-- An entry held the subject by the rounded score of its first supplied candidate, and over the
larger list no entry holds it. -/
structure ReviewLost (u : Unicode) (corpus' : Corpus) (subject : ScreeningSubject)
    (dir inf dir' inf' : List Candidate) : Prop where
  allowed : AllowedWithoutHits u corpus' subject
  noWallet : walletHits u corpus' (subject.input u) = []
  rounded : ∃ k, Near dir k ∧ atKey k inf = []
  below : ∀ c ∈ dir', c.score < 82 / 100
  overtaken : ∀ k, Near dir' k → atKey k inf' ≠ []
  unsupported : ∀ k, atKey k inf' ≠ [] → ¬ Supported (subject.input u) (dir' ++ inf') k

/-- The candidates of two lists, the second of which contains the first. -/
structure Grown (es es' : List SanctionEntry) (cs cs' : List Candidate) : Prop where
  unique : UniqueIds es
  unique' : UniqueIds es'
  entry : ∀ c ∈ cs, c.entry ∈ es
  entry' : ∀ c ∈ cs', c.entry ∈ es'
  grown : ∀ c ∈ cs, ∃ c' ∈ cs', Extends c.entry c'.entry ∧ c.score ≤ c'.score

/-- The entry at a key is one for all its candidates. -/
theorem head_entry {cs : List Candidate} {c : Candidate} (hu : UniqueIds es)
    (he : ∀ c ∈ cs, c.entry ∈ es) (hc : c ∈ cs) :
    ∃ d, (atKey c.entry.key cs).head? = some d ∧ d ∈ cs ∧ d.entry = c.entry := by
  have hmem : c ∈ atKey c.entry.key cs := List.mem_filter.2 ⟨hc, by simp⟩
  obtain ⟨d, l, hl⟩ := List.exists_cons_of_ne_nil (List.ne_nil_of_mem hmem)
  have hd : d ∈ atKey c.entry.key cs := hl ▸ List.mem_cons_self
  obtain ⟨hdc, hkey⟩ := List.mem_filter.1 hd
  exact ⟨d, by rw [hl]; rfl, hdc, hu.eq (he d hdc) (he c hc) (of_decide_eq_true hkey)⟩

/-- **When a block is lost.** -/
theorem Grown.blockLost_iff {cs cs' : List Candidate} (h : Grown es es' cs cs')
    (hw : walletHits u corpus input ≠ [] → walletHits u corpus' input ≠ []) :
    ((walletHits u corpus input ≠ [] ∨ ∃ k, Blocked input cs k) ∧
      ¬ (walletHits u corpus' input ≠ [] ∨ ∃ k, Blocked input cs' k)) ↔
      BlockLost u corpus' input cs cs' := by
  constructor
  · rintro ⟨hblock, hno⟩
    rw [not_or, not_not] at hno
    obtain ⟨hw', hno⟩ := hno
    have hbelow : ∀ c ∈ cs', Identified input c.entry → c.score < 88 / 100 := by
      intro c hc hid
      refine not_le.1 fun hge => hno ⟨c.entry.key, ?_⟩
      obtain ⟨d, hd, -, heq⟩ := head_entry h.unique' h.entry' hc
      exact ⟨d, hd, heq.symm ▸ hid, .inr ⟨c, List.mem_filter.2 ⟨hc, by simp⟩, hge⟩⟩
    refine ⟨hw', ?_, hbelow, fun k c hc hid => not_le.1 fun hge => hno ⟨k, c, hc, hid, .inl hge⟩⟩
    rcases hblock with hwallet | ⟨k, c, hc, hid, hscore⟩
    · exact absurd hw' (hw hwallet)
    · refine ⟨k, c, hc, hid, hscore.resolve_right ?_⟩
      rintro ⟨d, hd, hge⟩
      obtain ⟨hdc, hdk⟩ := List.mem_filter.1 hd
      obtain ⟨hcc, hck⟩ := List.mem_filter.1 (List.mem_of_mem_head? hc)
      have hsame : d.entry = c.entry := h.unique.eq (h.entry d hdc) (h.entry c hcc)
        ((of_decide_eq_true hdk).trans (of_decide_eq_true hck).symm)
      obtain ⟨d', hd', hext, hle⟩ := h.grown d hdc
      exact absurd (hge.trans hle)
        (not_le.2 (hbelow d' hd' (hext.identified.2 (hsame.symm ▸ hid))))
  · intro hl
    obtain ⟨k, c, hc, hid, hge⟩ := hl.rounded
    refine ⟨.inr ⟨k, c, hc, hid, .inl hge⟩, ?_⟩
    rintro (hw' | ⟨k', c', hc', hid', hor⟩)
    · exact hw' hl.noWallet
    · rcases hor with hge' | ⟨d, hd, hge'⟩
      · exact absurd hge' (not_le.2 (hl.behind k' c' hc' hid'))
      · obtain ⟨hdc, hdk⟩ := List.mem_filter.1 hd
        obtain ⟨hcc, hck⟩ := List.mem_filter.1 (List.mem_of_mem_head? hc')
        have hsame : d.entry = c'.entry := h.unique'.eq (h.entry' d hdc) (h.entry' c' hcc)
          ((of_decide_eq_true hdk).trans (of_decide_eq_true hck).symm)
        exact absurd hge' (not_le.2 (hl.below d hdc (hsame.symm ▸ hid')))

/-- **When a review is lost.** -/
theorem Grown.reviewLost_iff (hdir : Grown es es' dir dir') (hinf : Grown es es' inf inf')
    (hw : walletHits u corpus (subject.input u) ≠ [] →
      walletHits u corpus' (subject.input u) ≠ [])
    (hallowed : AllowedWithoutHits u corpus subject ↔ AllowedWithoutHits u corpus' subject) :
    ((AllowedWithoutHits u corpus' subject ∧ walletHits u corpus' (subject.input u) = [] ∧
        ∀ k, ¬ (Clear dir' k ∨ (atKey k inf' = [] ∧ Near dir' k) ∨
          atKey k inf' ≠ [] ∧ Supported (subject.input u) (dir' ++ inf') k)) ∧
      ¬ (AllowedWithoutHits u corpus subject ∧ walletHits u corpus (subject.input u) = [] ∧
        ∀ k, ¬ (Clear dir k ∨ (atKey k inf = [] ∧ Near dir k) ∨
          atKey k inf ≠ [] ∧ Supported (subject.input u) (dir ++ inf) k))) ↔
      ReviewLost u corpus' subject dir inf dir' inf' := by
  have hentry : ∀ c ∈ dir ++ inf, c.entry ∈ es := fun c hc =>
    (List.mem_append.1 hc).elim (hdir.entry c) (hinf.entry c)
  have hentry' : ∀ c ∈ dir' ++ inf', c.entry ∈ es' := fun c hc =>
    (List.mem_append.1 hc).elim (hdir.entry' c) (hinf.entry' c)
  constructor
  · rintro ⟨⟨hal, hw', hno⟩, hsome⟩
    have hbelow : ∀ c ∈ dir', c.score < 82 / 100 := fun c hc => not_le.1 fun hge =>
      hno c.entry.key (.inl ⟨c, List.mem_filter.2 ⟨hc, by simp⟩, hge⟩)
    refine ⟨hal, hw', ?_, hbelow, fun k hn h0 => hno k (.inr (.inl ⟨h0, hn⟩)),
      fun k h0 hs => hno k (.inr (.inr ⟨h0, hs⟩))⟩
    have hactive : ∃ k, Clear dir k ∨ (atKey k inf = [] ∧ Near dir k) ∨
        atKey k inf ≠ [] ∧ Supported (subject.input u) (dir ++ inf) k := by
      by_contra hnone
      refine hsome ⟨hallowed.2 hal, ?_, fun k hk => hnone ⟨k, hk⟩⟩
      by_contra hwallet
      exact hw hwallet hw'
    obtain ⟨k, ⟨c, hc, hge⟩ | ⟨h0, hn⟩ | ⟨hne, hs⟩⟩ := hactive
    · obtain ⟨c', hc', -, hle⟩ := hdir.grown c (List.mem_filter.1 hc).1
      exact absurd (hge.trans hle) (not_le.2 (hbelow c' hc'))
    · exact ⟨k, hn, h0⟩
    · -- a supported entry with an inferred candidate keeps both
      obtain ⟨c, hc⟩ := List.exists_mem_of_ne_nil _ hne
      obtain ⟨hci, hck⟩ := List.mem_filter.1 hc
      obtain ⟨c', hc', hext, -⟩ := hinf.grown c hci
      obtain ⟨d, hd, hsup⟩ := hs
      obtain ⟨hdc, hdk⟩ := List.mem_filter.1 (List.mem_of_mem_head? hd)
      have hsame : d.entry = c.entry := hdir.unique.eq (hentry d hdc) (hinf.entry c hci)
        ((of_decide_eq_true hdk).trans (of_decide_eq_true hck).symm)
      have hin : c' ∈ dir' ++ inf' := List.mem_append_right _ hc'
      obtain ⟨d', hd', -, heq⟩ := head_entry hdir.unique' hentry' hin
      refine absurd (.inr (.inr ⟨?_, d', hd', ?_⟩)) (hno c'.entry.key)
      · exact List.ne_nil_of_mem (List.mem_filter.2 ⟨hc', by simp⟩)
      · rw [heq, hext.corroborationOf, ← hsame]
        exact hsup
  · intro hl
    obtain ⟨k, hn, h0⟩ := hl.rounded
    refine ⟨⟨hl.allowed, hl.noWallet, fun k => ?_⟩, fun h => h.2.2 k (.inr (.inl ⟨h0, hn⟩))⟩
    rintro (⟨c, hc, hge⟩ | ⟨h0, hn⟩ | ⟨hne, hs⟩)
    · exact absurd hge (not_le.2 (hl.below c (List.mem_filter.1 hc).1))
    · exact hl.overtaken k hn h0
    · exact hl.unsupported k hne hs

theorem severity_le_iff_lost {d d' : Decision} :
    d.severity ≤ d'.severity ↔
      ¬ (d = .BLOCK ∧ d' ≠ .BLOCK) ∧ ¬ (d' = .ALLOW ∧ d ≠ .ALLOW) := by
  cases d <;> cases d' <;> simp [Decision.severity]

end

/-! ## An alias that lowers a decision -/

/-- A listed person. -/
def listedMina : SanctionEntry where
  listId := .OFAC_SDN
  entryId := "7".toList
  primaryName := "Mina Torre Alexandrova".toList
  names := ["Mina Torre Alexandrova".toList]
  dobs := []
  countries := []
  cryptoAddresses := []

/-- The same person with an alias that is near the full name of the subject. -/
def aliasedMina : SanctionEntry :=
  { listedMina with
    names := ["Mina Torre Alexandrova".toList, "Ana Bela Carla Dora Xyz".toList] }

/-- A subject whose romanised name is one edit from the listed one in every token. -/
def subjectMina : ScreeningSubject where
  fullName := "Ana Bela Carla Dora Eva".toList
  romanizedName := some "Mino Torra Alexandrovo".toList
  dateOfBirth := "1995-08-20".toList
  nationality := "FR".toList
  residence := "FR".toList
  walletAddress := []

theorem contains_mina : Contains [listedMina] [aliasedMina] := by
  intro e he
  rw [List.mem_singleton.1 he]
  exact ⟨aliasedMina, List.mem_singleton_self _, rfl, rfl, rfl, rfl,
    fun n hn => List.mem_cons.2 (.inl (List.mem_singleton.1 hn)), fun a ha => ha⟩

end Aml

end Proofmark
