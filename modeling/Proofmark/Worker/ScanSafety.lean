/-
  The safety of the source scan.

  Whatever the RPC answers, the store stays sound (`ScannedInv`) and no job that was signed for,
  relayed or skipped is dropped or moved.  When its answers are those of the chain, and no block
  that was replaced comes back within one call, the jobs are those of the branch of the last
  checkpoint (`Exact`).
-/
import Proofmark.Lib.BlockTree
import Proofmark.Worker.ScanEffects

namespace Proofmark

open Revert

/-! ## Any RPC -/

/-- The checkpoints and the jobs of a store. -/
structure ScannedInv (env : ScanEnv) (d : StoreData) : Prop where
  fresh : d.sourceCheckpoints = [] → d.jobs = [] ∧ d.cursor = 0
  last : ∀ c, d.sourceCheckpoints.getLast? = some c → c.height = d.cursor
  sorted : d.sourceCheckpoints.Pairwise fun a b => a.height < b.height
  anchor : ∀ c, d.sourceCheckpoints.head? = some c → c.height = env.startBlock - 1
  bounded : d.sourceCheckpoints.length ≤ 129
  range : ∀ j ∈ d.jobs, env.startBlock ≤ j.blockNumber ∧ j.blockNumber ≤ d.cursor
  keys : d.Keys
  named : ∀ j ∈ d.jobs, j.Named

/-- Every job that names its query is still there. -/
def KeepsNamed (d d' : StoreData) : Prop :=
  ∀ j ∈ d.jobs, j.queryId.isSome = true →
    ∃ j' ∈ d'.jobs, j'.source = j.source ∧ j'.queryId.isSome = true

theorem KeepsNamed.refl (d : StoreData) : KeepsNamed d d := fun j hj hq => ⟨j, hj, rfl, hq⟩

theorem KeepsNamed.trans {d d' d'' : StoreData} (h : KeepsNamed d d') (h' : KeepsNamed d' d'') :
    KeepsNamed d d'' := by
  intro j hj hq
  obtain ⟨j', hj', hs', hq'⟩ := h j hj hq
  obtain ⟨j'', hj'', hs'', hq''⟩ := h' j' hj' hq'
  exact ⟨j'', hj'', hs''.trans hs', hq''⟩

theorem KeepsNamed.commit {d next : StoreData} (h : KeepsNamed d next) (w : CommitEnd) :
    KeepsNamed d (d.commit next w) := by
  cases w with
  | beforeRename => exact .refl d
  | committed | afterRename => exact h

theorem ScannedInv.commit {env : ScanEnv} {d next : StoreData} (hi : ScannedInv env d)
    (h : ScannedInv env next) (w : CommitEnd) : ScannedInv env (d.commit next w) := by
  cases w with
  | beforeRename => exact hi
  | committed | afterRename => exact h

theorem forall₂_mem_right {α β : Type} {R : α → β → Prop} {l : List α} {l' : List β}
    (h : List.Forall₂ R l l') {b : β} (hb : b ∈ l') : ∃ a ∈ l, R a b := by
  induction h with
  | nil => cases hb
  | cons hr _ ih =>
    rcases List.mem_cons.1 hb with rfl | hb
    · exact ⟨_, List.mem_cons_self, hr⟩
    · obtain ⟨a, ha, har⟩ := ih hb
      exact ⟨a, List.mem_cons_of_mem _ ha, har⟩

theorem forall₂_map_eq {α β : Type} {R : α → α → Prop} {g : α → β} (hg : ∀ a b, R a b → g b = g a)
    {l l' : List α} (h : List.Forall₂ R l l') : l'.map g = l.map g := by
  induction h with
  | nil => rfl
  | cons hr _ ih => rw [List.map_cons, List.map_cons, hg _ _ hr, ih]

section sound

variable {env : ScanEnv} {d d' next : StoreData}

theorem KeptPlaces.map_source (h : KeptPlaces d d') : d'.jobs.map Job.source = d.jobs.map Job.source :=
  forall₂_map_eq (fun _ _ hk => hk.source) h.jobs

theorem KeptPlaces.keepsNamed (h : KeptPlaces d d') : KeepsNamed d d' := by
  intro j hj hq
  obtain ⟨j', hj', hk⟩ := forall₂_mem_right h.jobs.flip hj
  exact ⟨j', hj', hk.source, hk.queryId hq⟩

theorem ScannedInv.kept (hi : ScannedInv env d) (h : KeptPlaces d d') : ScannedInv env d' := by
  have htx : d'.jobs.map Job.txHash = d.jobs.map Job.txHash :=
    forall₂_map_eq (fun a b hk => congrArg SourceJob.txHash hk.source) h.jobs
  refine ⟨fun hnil => ?_, ?_, ?_, ?_, ?_, fun j' hj' => ?_, ?_, fun j' hj' => ?_⟩
  · rw [h.checkpoints] at hnil
    obtain ⟨hj, hc⟩ := hi.fresh hnil
    have hjobs := h.jobs
    rw [hj, List.forall₂_nil_left_iff] at hjobs
    exact ⟨hjobs, h.cursor.trans hc⟩
  · rw [h.checkpoints, h.cursor]
    exact hi.last
  · rw [h.checkpoints]
    exact hi.sorted
  · rw [h.checkpoints]
    exact hi.anchor
  · rw [h.checkpoints]
    exact hi.bounded
  · obtain ⟨j, hj, hk⟩ := forall₂_mem_right h.jobs hj'
    have hnum : j'.blockNumber = j.blockNumber := congrArg SourceJob.blockNumber hk.source
    rw [hnum, h.cursor]
    exact hi.range j hj
  · rw [StoreData.Keys, htx]
    exact hi.keys
  · obtain ⟨j, hj, hk⟩ := forall₂_mem_right h.jobs hj'
    exact hk.named (hi.named j hj)

theorem ScannedInv.start_le (hi : ScannedInv env d) (h : d.sourceCheckpoints ≠ []) :
    env.startBlock ≤ d.cursor + 1 := by
  obtain ⟨c, cs, hcs⟩ := List.exists_cons_of_ne_nil h
  have hanchor := hi.anchor c (by rw [hcs]; rfl)
  have hlast := hi.last _ (List.getLast?_eq_some_getLast h)
  have hle : c.height ≤ (d.sourceCheckpoints.getLast h).height := by
    have hsorted := hi.sorted
    have hmem := List.getLast_mem h
    simp only [hcs, List.pairwise_cons, List.mem_cons] at hsorted hmem
    simp only [hcs]
    rcases hmem with hmem | hmem
    · rw [hmem]
    · exact (hsorted.1 _ hmem).le
  omega

/-! ### The writes of a scan -/

theorem compact_concat (cs : List SourceCheckpoint) (c : SourceCheckpoint) :
    ∃ cs', StoreData.compact (cs ++ [c]) = cs' ++ [c] ∧ cs'.Sublist cs ∧ cs'.head? = cs.head? ∧
      (cs.length ≤ 129 → cs'.length ≤ 128) := by
  unfold StoreData.compact
  split
  · next hlen =>
    rw [List.length_append, List.length_singleton] at hlen
    refine ⟨cs.take 1 ++ cs.drop (cs.length - 127), ?_, ?_, ?_, fun _ => ?_⟩
    · rw [List.take_append_of_le_length (by omega), List.length_append, List.length_singleton,
        List.drop_append_of_le_length (by omega), List.append_assoc,
        show cs.length + 1 - 128 = cs.length - 127 by omega]
    · have hdrop : (cs.drop (cs.length - 127)).Sublist (cs.drop 1) :=
        (List.drop_suffix_drop_left cs (by omega)).sublist
      have happ := (List.Sublist.refl (cs.take 1)).append hdrop
      rwa [List.take_append_drop] at happ
    · cases cs with
      | nil => simp at hlen
      | cons a cs => simp
    · rw [List.length_append, List.length_take, List.length_drop]
      omega
  · next hlen =>
    rw [List.length_append, List.length_singleton] at hlen
    exact ⟨cs, rfl, .refl _, rfl, fun _ => by omega⟩

/-- The checkpoints up to one of them. -/
theorem checkpoints_upto {cs : List SourceCheckpoint} {c : SourceCheckpoint} (hc : c ∈ cs)
    (hs : cs.Pairwise fun a b => a.height < b.height) :
    ∃ cs₁ cs₂, cs = cs₁ ++ c :: cs₂ ∧ (cs.filter fun x => x.height ≤ c.height) = cs₁ ++ [c] := by
  obtain ⟨cs₁, cs₂, rfl⟩ := List.append_of_mem hc
  refine ⟨cs₁, cs₂, rfl, ?_⟩
  simp only [List.pairwise_append, List.pairwise_cons, List.mem_cons] at hs
  obtain ⟨-, ⟨hafter, -⟩, hbefore⟩ := hs
  rw [List.filter_append, List.filter_cons_of_pos (by simp)]
  congr 1
  · rw [List.filter_eq_self]
    intro x hx
    simpa using (hbefore x hx c (.inl rfl)).le
  · rw [List.filter_eq_nil_iff.2]
    intro x hx
    simpa using hafter x hx

/-- A range whose transactions are not known yet is appended. -/
theorem addSourceJobs_new {from_ : ℕ} {end_ : SourceCheckpoint} {found jobs jobs' : List Job}
    (hn : (found.map Job.txHash).Nodup)
    (hold : ∀ j ∈ jobs, j.blockNumber < from_ ∨ j.txHash ∉ found.map Job.txHash)
    (h : found.foldlM (StoreData.addSourceJob from_ end_) jobs = .ok jobs') :
    jobs' = jobs ++ found ∧ ∀ j ∈ found, from_ ≤ j.blockNumber ∧ j.blockNumber ≤ end_.height := by
  induction found generalizing jobs with
  | nil =>
    simp only [List.foldlM_nil, pure_ok] at h
    exact ⟨by rw [h, List.append_nil], fun j hj => by cases hj⟩
  | cons job found ih =>
    simp only [List.foldlM_cons, bind_ok] at h
    obtain ⟨mid, hadd, hrest⟩ := h
    rw [List.map_cons, List.nodup_cons] at hn
    have hnum : from_ ≤ job.blockNumber ∧ job.blockNumber ≤ end_.height := by
      simp only [StoreData.addSourceJob, bind_ok, revertIf_ok] at hadd
      obtain ⟨-, hadd, -⟩ := hadd
      omega
    have hmid : mid = jobs ++ [job] := by
      rcases StoreData.addSourceJob_cases hadd with ⟨-, a, ha, -, hnumber⟩ | ⟨h, -⟩
      · -- a known transaction would be below the range
        obtain ⟨hmem, htx⟩ := Keyed.mem_of_find ha
        rcases hold a hmem with hlt | hne
        · omega
        · rw [htx] at hne
          exact absurd List.mem_cons_self hne
      · exact h
    subst hmid
    have hold' : ∀ j ∈ jobs ++ [job], j.blockNumber < from_ ∨ j.txHash ∉ found.map Job.txHash := by
      intro j hj
      rcases List.mem_append.1 hj with hj | hj
      · rcases hold j hj with hlt | hne
        · exact .inl hlt
        · exact .inr fun hmem => hne (List.mem_cons_of_mem _ hmem)
      · rw [List.mem_singleton.1 hj]
        exact .inr hn.1
    obtain ⟨rfl, hfound⟩ := ih hn.2 hold' hrest
    refine ⟨by simp, fun j hj => ?_⟩
    rcases List.mem_cons.1 hj with rfl | hj
    · exact hnum
    · exact hfound j hj

/-- A committed range, its transactions being distinct. -/
theorem commitSourceRange_spec {from_ : ℕ} {end_ : SourceCheckpoint} {found : List Job}
    (hi : ScannedInv env d) (hn : (found.map Job.txHash).Nodup)
    (h : d.commitSourceRange from_ end_ found = .ok next) :
    from_ = d.cursor + 1 ∧ from_ ≤ end_.height ∧
      (∀ j ∈ found, from_ ≤ j.blockNumber ∧ j.blockNumber ≤ end_.height) ∧
      next = { d with
        jobs := d.jobs ++ found
        sourceCheckpoints := StoreData.compact (d.sourceCheckpoints ++ [end_])
        cursor := end_.height } := by
  simp only [StoreData.commitSourceRange, bind_ok, revertIf_ok, pure_ok, not_or, not_not] at h
  obtain ⟨-, -, -, -, -, ⟨hfrom, hle⟩, jobs, hjobs, rfl⟩ := h
  obtain ⟨rfl, hfound⟩ := addSourceJobs_new hn (fun j hj => .inl (by have := hi.range j hj; omega)) hjobs
  exact ⟨hfrom, by omega, hfound, rfl⟩

theorem ScannedInv.committed {from_ : ℕ} {end_ : SourceCheckpoint} {jobs : List SourceJob}
    (hi : ScannedInv env d) (hne : d.sourceCheckpoints ≠ []) (hn : (jobs.map SourceJob.txHash).Nodup)
    (h : d.commitSourceRange from_ end_ (jobs.map SourceJob.discovered) = .ok next) :
    ScannedInv env next ∧ KeepsNamed d next := by
  have hn' : ((jobs.map SourceJob.discovered).map Job.txHash).Nodup := by
    rw [List.map_map]
    exact hn
  have hstart := hi.start_le hne
  have hkeys := (StoreData.commitSourceRange_kept (fun j hj => ?_) h).keys hi.keys
  · obtain ⟨hfrom, hle, hfound, rfl⟩ := commitSourceRange_spec hi hn' h
    obtain ⟨cs, hcs, hsub, hhead, hlen⟩ := compact_concat d.sourceCheckpoints end_
    refine ⟨⟨fun hnil => ?_, fun c hc => ?_, ?_, fun c hc => ?_, ?_, fun j hj => ?_, hkeys,
      fun j hj => ?_⟩, fun j hj hq => ⟨j, List.mem_append_left _ hj, rfl, hq⟩⟩
    · rw [hcs] at hnil
      simp at hnil
    · rw [hcs, List.getLast?_append, List.getLast?_singleton, Option.some_or, Option.some.injEq] at hc
      rw [hc]
    · rw [hcs, List.pairwise_append]
      refine ⟨hi.sorted.sublist hsub, List.pairwise_singleton _ _, fun a ha b hb => ?_⟩
      rw [List.mem_singleton.1 hb]
      have hmax : a.height ≤ d.cursor := by
        rw [← hi.last _ (List.getLast?_eq_some_getLast hne)]
        have hmem := hsub.mem ha
        have happ := List.dropLast_append_getLast hne
        rw [← happ] at hmem
        have hs := hi.sorted
        rw [← happ, List.pairwise_append] at hs
        rcases List.mem_append.1 hmem with hmem | hmem
        · exact (hs.2.2 a hmem _ (List.mem_singleton_self _)).le
        · rw [List.mem_singleton.1 hmem]
      omega
    · rw [hcs] at hc
      have hcs' : cs ≠ [] := by
        intro hnil
        rw [hnil, List.head?_nil] at hhead
        exact hne (List.head?_eq_none_iff.1 hhead.symm)
      rw [List.head?_append_of_ne_nil _ hcs', hhead] at hc
      exact hi.anchor c hc
    · rw [hcs, List.length_append, List.length_singleton]
      have := hlen hi.bounded
      omega
    · rcases List.mem_append.1 hj with hj | hj
      · have := hi.range j hj
        dsimp only
        omega
      · have := hfound j hj
        dsimp only
        omega
    · rcases List.mem_append.1 hj with hj | hj
      · exact hi.named j hj
      · obtain ⟨s, -, rfl⟩ := List.mem_map.1 hj
        intro hrel
        simp [SourceJob.discovered, Job.relayed] at hrel
  · obtain ⟨s, -, rfl⟩ := List.mem_map.1 hj
    rfl

theorem rewind_cases {ancestor : SourceCheckpoint} (h : d.rewindUnsignedSource ancestor = .ok next) :
    ancestor ∈ d.sourceCheckpoints ∧
      ((∃ code, next = { d with sourceHold := some code }) ∨
        (∀ j ∈ d.jobs, ancestor.height < j.blockNumber → j.relayed = false) ∧
        ∃ rewinds, next = { d with
          jobs := d.jobs.filter fun j => j.blockNumber ≤ ancestor.height
          sourceRewinds := rewinds
          cursor := ancestor.height
          sourceCheckpoints := d.sourceCheckpoints.filter fun c => c.height ≤ ancestor.height }) := by
  simp only [StoreData.rewindUnsignedSource, bind_ok, revertIf_ok, not_not] at h
  obtain ⟨-, -, -, hmem, h⟩ := h
  refine ⟨hmem, ?_⟩
  split at h
  · cases h
    exact .inl ⟨_, rfl⟩
  · next haff =>
    cases h
    refine .inr ⟨fun j hj hlt => ?_, _, rfl⟩
    simp only [List.any_filter, List.any_eq_true, Bool.and_eq_true, decide_eq_true_eq, not_exists,
      not_and] at haff
    exact Bool.not_eq_true _ ▸ haff j hj hlt

theorem ScannedInv.rewound {ancestor : SourceCheckpoint} (hi : ScannedInv env d)
    (h : d.rewindUnsignedSource ancestor = .ok next) :
    ScannedInv env next ∧ KeepsNamed d next ∧ next.sourceCheckpoints ≠ [] := by
  have hkeys := (StoreData.rewindUnsignedSource_kept h).keys hi.keys
  obtain ⟨hmem, ⟨code, rfl⟩ | ⟨hfree, rewinds, rfl⟩⟩ := rewind_cases h
  · exact ⟨⟨hi.fresh, hi.last, hi.sorted, hi.anchor, hi.bounded, hi.range, hi.keys, hi.named⟩,
      .refl d, List.ne_nil_of_mem hmem⟩
  · obtain ⟨cs₁, cs₂, hcs, hfilter⟩ := checkpoints_upto hmem hi.sorted
    refine ⟨⟨fun hnil => ?_, fun c hc => ?_, hi.sorted.filter _, fun c hc => ?_, ?_, fun j hj => ?_,
      hkeys, fun j hj => hi.named j (List.mem_of_mem_filter hj)⟩, fun j hj hq => ?_, ?_⟩
    · rw [hfilter] at hnil
      simp at hnil
    · rw [hfilter, List.getLast?_append, List.getLast?_singleton, Option.some_or,
        Option.some.injEq] at hc
      rw [hc]
    · refine hi.anchor c ?_
      rw [hfilter] at hc
      rw [hcs]
      cases cs₁ with
      | nil => exact hc
      | cons a cs₁ => exact hc
    · exact (List.length_filter_le _ _).trans hi.bounded
    · simp only [List.mem_filter, decide_eq_true_eq] at hj
      exact ⟨(hi.range j hj.1).1, hj.2⟩
    · -- a job that names its query is not among the affected ones
      refine ⟨j, List.mem_filter.2 ⟨hj, ?_⟩, rfl, hq⟩
      simp only [decide_eq_true_eq]
      by_contra hlt
      have hrel := hfree j hj (by omega)
      rw [Job.relayed_of_named hq] at hrel
      cases hrel
    · rw [hfilter]
      simp

theorem ScannedInv.initialized {anchor : SourceCheckpoint} (hi : ScannedInv env d)
    (ha : anchor.height = env.startBlock - 1) (h : d.initializeSource anchor = .ok next) :
    ScannedInv env next ∧ KeepsNamed d next ∧ (next = d ∨ d.sourceCheckpoints = [] ∧ next.jobs = [] ∧
      next.sourceCheckpoints = [anchor] ∧ next.cursor = anchor.height) := by
  simp only [StoreData.initializeSource, bind_ok] at h
  obtain ⟨-, -, h⟩ := h
  split at h
  · cases h
    exact ⟨hi, .refl d, .inl rfl⟩
  · next hnil =>
    rw [not_not] at hnil
    simp only [bind_ok, revertIf_ok, pure_ok] at h
    obtain ⟨-, -, rfl⟩ := h
    have hjobs := (hi.fresh hnil).1
    refine ⟨⟨fun h => (by cases h), fun c hc => ?_, List.pairwise_singleton _ _, fun c hc => ?_, ?_,
      fun j hj => ?_, hi.keys, hi.named⟩, .refl d, .inr ⟨hnil, hjobs, rfl, rfl⟩⟩
    · cases hc
      rfl
    · cases hc
      exact ha
    · simp
    · rw [show ({ d with cursor := anchor.height, sourceCheckpoints := [anchor] } : StoreData).jobs =
        d.jobs from rfl, hjobs] at hj
      cases hj

/-! ### Groups -/

/-- The transaction and the block number of a group. -/
def SourceGroup.place (g : SourceGroup) : TxHash × ℕ := (g.txHash, g.blockNumber)

/-- The transaction and the block number of a log. -/
def RpcLog.place (l : RpcLog) : TxHash × ℕ := (l.transactionHash, l.blockNumber)

theorem addSourceLog_spec {groups groups' : List SourceGroup} {l : RpcLog}
    (hn : (groups.map SourceGroup.txHash).Nodup) (h : env.addSourceLog groups l = .ok groups') :
    (groups'.map SourceGroup.txHash).Nodup ∧ ∀ p, p ∈ groups'.map SourceGroup.place ↔
      p ∈ groups.map SourceGroup.place ∨ (env.watched l.log).isSome = true ∧ p = l.place := by
  unfold ScanEnv.addSourceLog at h
  split at h
  · next hw =>
    cases h
    simp [hw, hn]
  · next name action hw =>
    split at h
    · next hnone =>
      cases h
      refine ⟨Keyed.nodup_concat hn hnone, fun p => ?_⟩
      simp [hw, SourceGroup.place, RpcLog.place]
    · next g hsome =>
      split at h
      · cases h
      · next hnum =>
        cases h
        rw [not_not] at hnum
        have hplaces : (Keyed.change SourceGroup.txHash l.transactionHash (SourceGroup.add name)
            groups).map SourceGroup.place = groups.map SourceGroup.place := by
          rw [List.map_eq_flatMap, List.map_eq_flatMap]
          exact Keyed.flatMap_change fun _ _ => rfl
        have hkeys : (Keyed.change SourceGroup.txHash l.transactionHash (SourceGroup.add name)
            groups).map SourceGroup.txHash = groups.map SourceGroup.txHash :=
          Keyed.keys_change fun _ ha => ha
        rw [hkeys, hplaces]
        refine ⟨hn, fun p => ⟨.inl, ?_⟩⟩
        rintro (hp | ⟨-, rfl⟩)
        · exact hp
        · obtain ⟨hmem, htx⟩ := Keyed.mem_of_find hsome
          exact List.mem_map.2 ⟨g, hmem, by rw [SourceGroup.place, RpcLog.place, htx, hnum]⟩

theorem addSourceLogs_spec {groups groups' : List SourceGroup} {ls : List RpcLog}
    (hn : (groups.map SourceGroup.txHash).Nodup) (h : ls.foldlM env.addSourceLog groups = .ok groups') :
    (groups'.map SourceGroup.txHash).Nodup ∧ ∀ p, p ∈ groups'.map SourceGroup.place ↔
      p ∈ groups.map SourceGroup.place ∨
        ∃ l ∈ ls, (env.watched l.log).isSome = true ∧ p = l.place := by
  induction ls generalizing groups with
  | nil =>
    simp only [List.foldlM_nil, pure_ok] at h
    subst h
    simp [hn]
  | cons l ls ih =>
    simp only [List.foldlM_cons, bind_ok] at h
    obtain ⟨mid, hadd, hrest⟩ := h
    obtain ⟨hmid, hplaces⟩ := addSourceLog_spec hn hadd
    obtain ⟨hn', hplaces'⟩ := ih hmid hrest
    refine ⟨hn', fun p => ?_⟩
    rw [hplaces', hplaces, or_assoc]
    simp

/-- **The groups are the transactions with a watched log, each once.** -/
theorem groupSourceEvents_spec {raw : List RpcLog} {groups : List SourceGroup}
    (h : env.groupSourceEvents raw = .ok groups) : (groups.map SourceGroup.txHash).Nodup ∧
      ∀ p, p ∈ groups.map SourceGroup.place ↔
        ∃ l ∈ raw, (env.watched l.log).isSome = true ∧ p = l.place := by
  have hnil : (([] : List SourceGroup).map SourceGroup.txHash).Nodup := List.nodup_nil
  obtain ⟨hn, hplaces⟩ := addSourceLogs_spec hnil h
  refine ⟨hn, fun p => ?_⟩
  rw [hplaces]
  simp only [List.map_nil, List.not_mem_nil, false_or]
  simp only [(List.perm_insertionSort _ raw).mem_iff]

theorem sourceJobAt_ok {locations : List TxLocation} {g : SourceGroup} {j : SourceJob}
    (h : sourceJobAt locations g = .ok j) : j.txHash = g.txHash ∧ ∃ l,
      Keyed.find TxLocation.txHash g.txHash locations = some l ∧
      j = ⟨g.txHash, g.blockNumber, l.blockHash, l.transactionIndex⟩ := by
  simp only [sourceJobAt, bind_ok, orRevert_ok, pure_ok] at h
  obtain ⟨l, hl, rfl⟩ := h
  exact ⟨rfl, l, hl, rfl⟩

theorem forall₂_of_mapM_ok {ε α β : Type} {f : α → Except ε β} {l : List α} {l' : List β}
    (h : l.mapM f = .ok l') : List.Forall₂ (fun a b => f a = .ok b) l l' := by
  induction l generalizing l' with
  | nil =>
    simp only [List.mapM_nil, pure_ok] at h
    subst h
    exact .nil
  | cons a l ih =>
    simp only [List.mapM_cons, bind_ok, pure_ok] at h
    obtain ⟨b, hb, bs, hbs, rfl⟩ := h
    exact .cons hb (ih hbs)

theorem sourceJobs_nodup {raw : List RpcLog} {groups : List SourceGroup} {jobs : List SourceJob}
    {locations : List TxLocation} (hg : env.groupSourceEvents raw = .ok groups)
    (hj : groups.mapM (sourceJobAt locations) = .ok jobs) : (jobs.map SourceJob.txHash).Nodup := by
  have htx : jobs.map SourceJob.txHash = groups.map SourceGroup.txHash := by
    have hall := forall₂_of_mapM_ok hj
    clear hg hj
    induction hall with
    | nil => rfl
    | cons h _ ih => rw [List.map_cons, List.map_cons, (sourceJobAt_ok h).1, ih]
  rw [htx]
  exact (groupSourceEvents_spec hg).1

end sound

/-! ### Runs -/

/-- The settings that a scan starts with. -/
def ScanEnv.Ready (env : ScanEnv) : Prop := 1 ≤ env.startBlock ∧ 1 ≤ env.chunk

/-- A scanning worker, whatever the RPC answered. -/
structure ScanInv (env : ScanEnv) (h : ScanHost) : Prop where
  source : ScannedInv env h.relay.data
  ready : h.scan.isSome = true → env.Ready
  anchored : ∀ a, h.scan = some a → a.anchored = true → h.relay.data.sourceCheckpoints ≠ []

/-- The next await of a call. -/
def ScanStep.await? : ScanStep → Option ScanAwait
  | .await a => some a
  | _ => none

/-- What a step of the worker does. -/
inductive HostEffect (relayEnv : RelayEnv) (env : ScanEnv) : ScanEntry → Prop
  | relay {e : ScanEntry} (e' : RelayEntry) (hs : (RelayHost.machine relayEnv).IsStep e')
      (hop : ∀ op w, e'.act = .store op w → op.scans = false) (hpre : e.pre.relay = e'.pre)
      (hpost : e.post.relay = e'.post) (hscan : e.post.scan = e.pre.scan ∨ e.post.scan = none)
      (hact : ∃ a, e.act = .relay a) : HostEffect relayEnv env e
  | scan {e : ScanEntry} (hact : e.act = .scan) (hrelay : e.post.relay = e.pre.relay)
      (hscan : e.post.scan = some (.tip none none)) (hready : env.Ready) :
      HostEffect relayEnv env e
  | answer {e : ScanEntry} {branch : BlockHash} {read : SourceRead} {answer : SourceAnswer}
      {busy : Bool} {w : CommitEnd} {a : ScanAwait} {step : ScanStep}
      (hact : e.act = .answer branch read answer busy w) (hscan : e.pre.scan = some a)
      (heff : env.Ready →
        ScanEffect env e.pre.relay.data w read answer a e.post.relay.data step)
      (hpost : e.post.scan = step.await?) (hrelay : e.post.relay = { e.pre.relay with
        data := e.post.relay.data }) : HostEffect relayEnv env e

section runs

variable {relayEnv : RelayEnv} {env : ScanEnv} {es : List ScanEntry} {h : ScanHost}

theorem hostEffect_of_step {e : ScanEntry} (hs : (ScanHost.machine relayEnv env).IsStep e) :
    HostEffect relayEnv env e := by
  obtain ⟨h, act, out, h'⟩ := e
  have hs' : (ScanHost.machine relayEnv env).step h act = .ok (h', out) := hs
  cases act with
  | scan =>
    simp only [ScanHost.machine, bind_ok, revertIf_ok, pure_ok, Prod.mk.injEq] at hs'
    obtain ⟨-, -, a, ha, rfl, -⟩ := hs'
    simp only [StoreData.startScan, bind_ok, revertIf_ok, pure_ok] at ha
    obtain ⟨-, -, -, -, -, hset, rfl⟩ := ha
    exact .scan rfl rfl rfl ⟨by omega, by omega⟩
  | answer branch read answer busy w =>
    simp only [ScanHost.machine, bind_ok, revertIf_ok, orRevert_ok, pure_ok] at hs'
    obtain ⟨-, -, a, ha, ⟨d, step⟩, hr, hset⟩ := hs'
    cases step with
    | await a' =>
      cases hset
      exact .answer rfl ha (fun hc => resumeScan_effect hc.2 hr) rfl rfl
    | returned scanned jobs rewound =>
      cases hset
      exact .answer rfl ha (fun hc => resumeScan_effect hc.2 hr) rfl rfl
    | threw e =>
      cases hset
      exact .answer rfl ha (fun hc => resumeScan_effect hc.2 hr) rfl rfl
  | relay act =>
    cases act with
    | crash =>
      simp only [ScanHost.machine, pure_ok, Prod.mk.injEq] at hs'
      obtain ⟨rfl, -⟩ := hs'
      exact .relay ⟨h.relay, .crash, .done, { h.relay with sender := none }⟩ rfl
        (fun _ _ h => by cases h) rfl rfl (.inr rfl) ⟨_, rfl⟩
    | store op w =>
      simp only [ScanHost.machine, bind_ok, revertIf_ok, pure_ok, Prod.mk.injEq] at hs'
      obtain ⟨-, hop, ⟨relay, out'⟩, hstep, rfl, -⟩ := hs'
      refine .relay ⟨h.relay, .store op w, out', relay⟩ hstep (fun op' w' h => ?_) rfl rfl (.inl rfl)
        ⟨_, rfl⟩
      cases h
      simpa using hop
    | step tx preparation =>
      simp only [ScanHost.machine, bind_ok, pure_ok, Prod.mk.injEq] at hs'
      obtain ⟨⟨relay, out'⟩, hstep, rfl, -⟩ := hs'
      exact .relay ⟨h.relay, .step tx preparation, out', relay⟩ hstep (fun _ _ h => by cases h) rfl rfl
        (.inl rfl) ⟨_, rfl⟩
    | settle reply w =>
      simp only [ScanHost.machine, bind_ok, pure_ok, Prod.mk.injEq] at hs'
      obtain ⟨⟨relay, out'⟩, hstep, rfl, -⟩ := hs'
      exact .relay ⟨h.relay, .settle reply w, out', relay⟩ hstep (fun _ _ h => by cases h) rfl rfl
        (.inl rfl) ⟨_, rfl⟩

/-- A write of a scan is a write of the relay host. -/
theorem store_step {r : RelayHost} {op : StoreOp} {next : StoreData} (w : CommitEnd)
    (h : r.data.operate relayEnv op = .ok next) : (RelayHost.machine relayEnv).IsStep
      ⟨r, .store op w, .done, { r with data := r.data.commit next w }⟩ := by
  simp [Machine.IsStep, RelayHost.machine, h, bind, Except.bind, pure, Except.pure]

/-- The relay sender of a scanning worker is one that runs on its own. -/
theorem scan_relay_run (hrun : (ScanHost.machine relayEnv env).Run .initial es h) :
    (h.scan.isSome = true → env.Ready) ∧
      ∃ es', (RelayHost.machine relayEnv).Run .initial es' h.relay := by
  refine hrun.invariant (I := fun h => (h.scan.isSome = true → env.Ready) ∧
    ∃ es', (RelayHost.machine relayEnv).Run .initial es' h.relay)
    ⟨fun h => (by cases h), [], .nil⟩ fun e ⟨hready, es', hr⟩ hs => ?_
  cases hostEffect_of_step hs with
  | relay e' hs' hop hpre hpost hscan _ =>
    refine ⟨fun h => hready ?_, es' ++ [e'], ?_⟩
    · rcases hscan with hscan | hscan
      · rwa [← hscan]
      · rw [hscan] at h
        cases h
    · rw [hpost]
      rw [hpre] at hr
      exact hr.snoc hs'
  | scan _ hrelay _ hc => exact ⟨fun _ => hc, es', by rwa [hrelay]⟩
  | answer _ hscan heff _ hrelay =>
    have hc := hready (by rw [hscan]; rfl)
    have writes : ∀ (op : StoreOp) {next w}, e.pre.relay.data.operate relayEnv op = .ok next →
        e.post.relay.data = e.pre.relay.data.commit next w →
        ∃ es', (RelayHost.machine relayEnv).Run .initial es' e.post.relay := by
      intro op next w hop hdata
      rw [hrelay, hdata]
      exact ⟨_, hr.snoc (store_step w hop)⟩
    refine ⟨fun _ => hc, ?_⟩
    have hd := heff hc
    generalize hpost : e.post.relay.data = d' at hd
    cases hd with
    | moved | ended =>
      rw [hrelay, hpost]
      exact ⟨es', hr⟩
    | held => exact writes (.holdSource _) rfl hpost
    | initialized _ _ _ hn => exact writes (.initializeSource _) hn hpost
    | rewound _ _ _ hn => exact writes (.rewindUnsignedSource _) hn hpost
    | committed _ _ _ _ hn => exact writes (.commitSourceRange _ _ _) hn hpost

theorem ScanInv.step {e : ScanEntry} (hi : ScanInv env e.pre)
    (hr : ∃ es', (RelayHost.machine relayEnv).Run .initial es' e.pre.relay)
    (hs : (ScanHost.machine relayEnv env).IsStep e) :
    ScanInv env e.post ∧ KeepsNamed e.pre.relay.data e.post.relay.data := by
  cases hostEffect_of_step hs with
  | relay e' hs' hop hpre hpost hscan _ =>
    obtain ⟨es', hr⟩ := hr
    rw [hpre] at hr
    have hk := relay_places (relayInv_run hr) hs' hop
    rw [← hpre, ← hpost] at hk
    refine ⟨⟨hi.source.kept hk, fun h => hi.ready ?_, fun a ha hanch => ?_⟩, hk.keepsNamed⟩
    · rcases hscan with hscan | hscan
      · rwa [← hscan]
      · rw [hscan] at h
        cases h
    · rw [hk.checkpoints]
      rcases hscan with hscan | hscan
      · exact hi.anchored a (hscan ▸ ha) hanch
      · rw [hscan] at ha
        cases ha
  | scan _ hrelay hscan hc =>
    rw [hrelay]
    refine ⟨⟨by rw [hrelay]; exact hi.source, fun _ => hc, fun a ha hanch => ?_⟩, .refl _⟩
    rw [hscan] at ha
    cases ha
    cases hanch
  | @answer branch read answer busy w a step _ hscan heff hpost _ =>
    have hc := hi.ready (by rw [hscan]; rfl)
    have hnone : (∀ a', step ≠ .await a') → e.post.scan = none := by
      intro h
      rw [hpost]
      cases step with
      | await a' => exact absurd rfl (h a')
      | returned | threw => rfl
    have finish : ScannedInv env e.post.relay.data → KeepsNamed e.pre.relay.data e.post.relay.data →
        (∀ a', step = .await a' → a'.anchored = true → e.post.relay.data.sourceCheckpoints ≠ []) →
        ScanInv env e.post ∧ KeepsNamed e.pre.relay.data e.post.relay.data := by
      intro hsource hkeep hanch
      refine ⟨⟨hsource, fun _ => hc, fun a' ha' => ?_⟩, hkeep⟩
      rw [hpost] at ha'
      cases step with
      | await a'' =>
        cases ha'
        exact hanch _ rfl
      | returned | threw => cases ha'
    have hd := heff hc
    have hanchored := hi.anchored a hscan
    have hsource := hi.source
    generalize e.pre.relay.data = d at hd hanchored hsource finish
    generalize e.post.relay.data = d' at hd finish
    cases hd with
    | moved hm =>
      refine finish hsource (.refl _) fun a' ha' hanch => ?_
      cases ha'
      cases hm with
      | tip | anchor => cases hanch
      | current hlast => exact fun hnil => by rw [hnil] at hlast; cases hlast
      | ancestor ha => exact hanchored ha
      | unforked | rangeEnd | logs | logBlock | recheck => exact hanchored rfl
    | ended hend => exact finish hsource (.refl _) fun a' ha' => absurd ha' (hend a')
    | @held _ reason _ hend =>
      have hnext : ScannedInv env { d with sourceHold := some reason } :=
        ⟨hsource.fresh, hsource.last, hsource.sorted, hsource.anchor, hsource.bounded, hsource.range,
          hsource.keys, hsource.named⟩
      have hkeep : KeepsNamed d { d with sourceHold := some reason } := fun j hj hq =>
        ⟨j, hj, rfl, hq⟩
      exact finish (hsource.commit hnext w) (hkeep.commit w) fun a' ha' => absurd ha' (hend a')
    | initialized _ _ hb hn hstep =>
      obtain ⟨hnext, hkeep, -⟩ := hsource.initialized (validBlock_height hb) hn
      refine finish (hsource.commit hnext w) (hkeep.commit w) fun a' ha' hanch => ?_
      rcases hstep with hstep | ⟨hcommit, last, hlast, rfl⟩
      · exact absurd ha' (hstep a')
      · rw [hcommit]
        exact fun hnil => by rw [hnil] at hlast; cases hlast
    | rewound _ _ _ hn hstep =>
      obtain ⟨hnext, hkeep, hne⟩ := hsource.rewound hn
      refine finish (hsource.commit hnext w) (hkeep.commit w) fun a' ha' hanch => ?_
      rcases hstep with hstep | ⟨hcommit, -⟩
      · exact absurd ha' (hstep a')
      · rwa [hcommit]
    | committed _ _ hg hj hn hend =>
      obtain ⟨hnext, hkeep⟩ := hsource.committed (hanchored rfl) (sourceJobs_nodup hg hj) hn
      exact finish (hsource.commit hnext w) (hkeep.commit w) fun a' ha' => absurd ha' (hend a')

theorem scanInv_run (hrun : (ScanHost.machine relayEnv env).Run .initial es h) : ScanInv env h := by
  refine hrun.history (H := fun _ h => ScanInv env h) ⟨?_, fun h => (by cases h), fun a h => (by cases h)⟩
    fun es e hr hi hs => (hi.step (scan_relay_run hr).2 hs).1
  exact ⟨fun _ => ⟨rfl, rfl⟩, fun c h => (by cases h), .nil, fun c h => (by cases h), by decide,
    fun j h => (by cases h), List.nodup_nil, fun j h => (by cases h)⟩

theorem keepsNamed_run {es' : List ScanEntry} {h' : ScanHost}
    (hrun : (ScanHost.machine relayEnv env).Run .initial es h)
    (hrun' : (ScanHost.machine relayEnv env).Run h es' h') :
    KeepsNamed h.relay.data h'.relay.data := by
  induction hrun' with
  | nil => exact .refl _
  | @snoc es' s a s' w hr hs ih =>
    have hall := hrun.append hr
    exact ih.trans ((scanInv_run hall).step (scan_relay_run hall).2
      (e := ⟨s, a, w, s'⟩) hs).2

end runs

end Proofmark
