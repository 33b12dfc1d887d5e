/-
  What the writes of the store change.

  A write reserves an envelope, finishes the reserved one, or is neither and `Kept`: it
  leaves the reservation as it was and drops or revives no job that was ever signed for.
-/
import Proofmark.Worker.Relay
import Mathlib.Data.List.Nodup

namespace Proofmark

open Revert

@[simp] theorem JobPatch.apply_txHash (p : JobPatch) (j : Job) : (p.apply j).txHash = j.txHash := by
  cases p <;> rfl

@[simp] theorem JobPatch.apply_ascTxHash (p : JobPatch) (j : Job) :
    (p.apply j).ascTxHash = j.ascTxHash := by
  cases p <;> rfl

@[simp] theorem JobPatch.apply_relayHistory (p : JobPatch) (j : Job) :
    (p.apply j).relayHistory = j.relayHistory := by
  cases p <;> rfl

theorem JobPatch.apply_state (p : JobPatch) (j : Job) : (p.apply j).state = p.state.getD j.state := by
  cases p <;> rfl

/-- The job of a reservation. -/
@[simp] theorem StoreData.finished_txHash (relay : RelayEnvelope) (receipt : RelayReceipt) (j : Job) :
    (StoreData.finished relay receipt j).txHash = j.txHash := rfl

namespace StoreData

variable {env : RelayEnv} {d d' next : StoreData} {tx : TxHash} {j j' : Job}

/-- The job of an envelope, once it is reserved. -/
def Pending (d : StoreData) (relay : RelayEnvelope) : Prop :=
  ∃ j, d.get relay.sourceTxHash = some j ∧ j.state = .submitted ∧
    j.ascTxHash = some relay.hash ∧ j.queryId = some relay.queryId ∧ j.relayHistory = []

def Keys (d : StoreData) : Prop := (d.jobs.map Job.txHash).Nodup

/-- What becomes of a job that was signed for. -/
structure KeptJob (d : StoreData) (j j' : Job) : Prop where
  ascTxHash : j'.ascTxHash = j.ascTxHash
  relayHistory : j'.relayHistory = j.relayHistory
  terminal : j.state.terminal = true → j'.state.terminal = true
  reserved : d.relay.map RelayEnvelope.sourceTxHash = some j.txHash →
    j'.state = j.state ∧ j'.queryId = j.queryId

/-- **A write that is neither a reservation nor a finish.** -/
structure Kept (d d' : StoreData) : Prop where
  relay : d'.relay = d.relay
  keys : d.Keys → d'.Keys
  signed : ∀ tx j, d.get tx = some j → j.ascTxHash.isSome = true →
    ∃ j', d'.get tx = some j' ∧ KeptJob d j j'
  history : ∀ j' ∈ d'.jobs, j'.relayHistory = [] ∨
    ∃ j ∈ d.jobs, j.txHash = j'.txHash ∧ j.relayHistory = j'.relayHistory

theorem KeptJob.refl : KeptJob d j j := ⟨rfl, rfl, id, fun _ => ⟨rfl, rfl⟩⟩

theorem get_txHash (h : d.get tx = some j) : j.txHash = tx := (Keyed.mem_of_find h).2

/-- A write that touches no job. -/
theorem Kept.of_jobs (hr : d'.relay = d.relay) (hj : d'.jobs = d.jobs) : Kept d d' := by
  refine ⟨hr, fun hk => ?_, fun tx j h _ => ⟨j, ?_, .refl⟩, fun j' hj' => ?_⟩
  · rwa [Keys, hj]
  · rwa [get, hj]
  · rw [hj] at hj'
    exact .inr ⟨j', hj', rfl, rfl⟩

theorem Kept.refl (d : StoreData) : Kept d d := .of_jobs rfl rfl

theorem Kept.commit (h : Kept d next) (w : CommitEnd) : Kept d (d.commit next w) := by
  cases w with
  | beforeRename => exact .refl d
  | committed => exact h
  | afterRename => exact h

/-! ## Jobs -/

section setJob

variable {f : Job → Job}

theorem get_setJob_self (hf : ∀ j, (f j).txHash = j.txHash) :
    (d.setJob tx f).get tx = (d.get tx).map f :=
  Keyed.find_change_self fun j hj => (hf j).trans hj

theorem get_setJob_of_ne {tx' : TxHash} (hf : ∀ j, (f j).txHash = j.txHash) (h : tx' ≠ tx) :
    (d.setJob tx f).get tx' = d.get tx' :=
  Keyed.find_change_of_ne (fun j hj => (hf j).trans hj) h

theorem keys_setJob (hf : ∀ j, (f j).txHash = j.txHash) (h : d.Keys) : (d.setJob tx f).Keys := by
  rw [Keys, setJob, Keyed.keys_change fun j hj => (hf j).trans hj]
  exact h

theorem mem_setJob (h : j' ∈ (d.setJob tx f).jobs) :
    j' ∈ d.jobs ∨ ∃ j ∈ d.jobs, j.txHash = tx ∧ j' = f j :=
  Keyed.mem_change h

/-- A change of one job that keeps what was signed. -/
theorem Kept.setJob (hf : ∀ j, (f j).txHash = j.txHash)
    (hh : ∀ j, (f j).relayHistory = j.relayHistory)
    (hk : ∀ j, d.get tx = some j → KeptJob d j (f j)) : Kept d (d.setJob tx f) := by
  refine ⟨rfl, keys_setJob hf, fun tx' j hj _ => ?_, fun j' hj' => ?_⟩
  · by_cases htx : tx' = tx
    · subst htx
      exact ⟨f j, by rw [get_setJob_self hf, hj]; rfl, hk j hj⟩
    · exact ⟨j, by rwa [get_setJob_of_ne hf htx], .refl⟩
  · rcases mem_setJob hj' with hj' | ⟨j, hj, -, rfl⟩
    · exact .inr ⟨j', hj', rfl, rfl⟩
    · exact .inr ⟨j, hj, (hf j).symm, (hh j).symm⟩

end setJob

/-- A patch keeps what was signed, when it revives no terminal job. -/
theorem update_kept {p : JobPatch} (hp : ∀ relay, d.relay = some relay → d.Pending relay)
    (ht : ∀ j, d.get tx = some j → j.state.terminal = true → (p.apply j).state.terminal = true)
    (h : d.update tx p = .ok next) : Kept d next := by
  simp only [update, bind_ok, revertIf_ok, pure_ok, not_and, not_exists] at h
  obtain ⟨-, hg, rfl⟩ := h
  refine .setJob (fun j => p.apply_txHash j) (fun j => p.apply_relayHistory j) fun j hj =>
    ⟨p.apply_ascTxHash j, p.apply_relayHistory j, ht j hj, fun hr => ?_⟩
  -- the reserved job is submitted, and a patch may only leave it so
  rw [get_txHash hj] at hr
  obtain ⟨relay, hrelay, htx⟩ := Option.map_eq_some_iff.1 hr
  obtain ⟨j', hj', hs, -⟩ := hp relay hrelay
  rw [htx, hj] at hj'
  cases hj'
  have hg' := hg hr
  cases p with
  | reconciling => exact ⟨hs.symm, rfl⟩
  | failed n e => exact ⟨rfl, rfl⟩
  | lastError e => exact ⟨rfl, rfl⟩
  | attested => exact absurd (hg' .attested rfl) (by decide)
  | dead n e => exact absurd (hg' .dead rfl) (by decide)
  | skipped q o => exact absurd (hg' .skipped rfl) (by decide)

/-! ## Scans -/

/-- Adding a scanned job appends it, unless it is there. -/
theorem addSourceJob_cases {from_ : ℕ} {end_ : SourceCheckpoint} {jobs jobs' : List Job} {job : Job}
    (h : addSourceJob from_ end_ jobs job = .ok jobs') :
    (jobs' = jobs ∧ ∃ a, Keyed.find Job.txHash job.txHash jobs = some a ∧
      a.blockHash = job.blockHash ∧ a.blockNumber = job.blockNumber) ∨
    (jobs' = jobs ++ [job] ∧ Keyed.find Job.txHash job.txHash jobs = none) := by
  simp only [addSourceJob, bind_ok, revertIf_ok] at h
  obtain ⟨-, -, h⟩ := h
  cases hf : Keyed.find Job.txHash job.txHash jobs with
  | none =>
    simp only [hf, Except.ok.injEq] at h
    exact .inr ⟨h.symm, rfl⟩
  | some a =>
    simp only [hf] at h
    split at h
    · cases h
    · next hne =>
      cases h
      simp only [not_or, not_not] at hne
      exact .inl ⟨rfl, a, rfl, hne⟩

/-- What a scan leaves of the jobs: those before it, and new ones without a history. -/
theorem addSourceJobs_kept {from_ : ℕ} {end_ : SourceCheckpoint} {found : List Job}
    (hfound : ∀ j ∈ found, j.relayHistory = []) {jobs jobs' : List Job}
    (h : found.foldlM (addSourceJob from_ end_) jobs = .ok jobs') :
    ((jobs.map Job.txHash).Nodup → (jobs'.map Job.txHash).Nodup) ∧
    (∀ tx j, Keyed.find Job.txHash tx jobs = some j → Keyed.find Job.txHash tx jobs' = some j) ∧
    ∀ j ∈ jobs', j ∈ jobs ∨ j.relayHistory = [] := by
  induction found generalizing jobs with
  | nil =>
    simp only [List.foldlM_nil, pure_ok] at h
    subst h
    exact ⟨id, fun _ _ => id, fun _ => .inl⟩
  | cons job found ih =>
    simp only [List.foldlM_cons, bind_ok] at h
    obtain ⟨mid, hadd, hrest⟩ := h
    obtain ⟨hn, hf, hm⟩ := ih (fun j hj => hfound j (List.mem_cons_of_mem _ hj)) hrest
    rcases addSourceJob_cases hadd with ⟨rfl, -⟩ | ⟨rfl, hnone⟩
    · exact ⟨hn, hf, hm⟩
    · refine ⟨fun hk => hn ?_, fun tx j hj => hf tx j ?_, fun j hj => ?_⟩
      · rw [List.map_append, List.map_singleton, List.nodup_append_comm, List.singleton_append,
          List.nodup_cons]
        refine ⟨fun hmem => ?_, hk⟩
        obtain ⟨a, ha, he⟩ := List.mem_map.1 hmem
        exact Keyed.find_eq_none.1 hnone a ha he
      · rw [Keyed.find_concat hnone, if_neg, hj]
        rintro rfl
        rw [hnone] at hj
        cases hj
      · rcases hm j hj with hj | hj
        · rcases List.mem_append.1 hj with hj | hj
          · exact .inl hj
          · exact .inr (hfound j (by rw [List.mem_singleton.1 hj]; exact List.mem_cons_self))
        · exact .inr hj

theorem commitSourceRange_kept {from_ : ℕ} {end_ : SourceCheckpoint} {found : List Job}
    (hfound : ∀ j ∈ found, j.relayHistory = []) (h : d.commitSourceRange from_ end_ found = .ok next) :
    Kept d next := by
  simp only [commitSourceRange, bind_ok, revertIf_ok, pure_ok] at h
  obtain ⟨-, -, -, -, -, -, jobs, hjobs, rfl⟩ := h
  obtain ⟨hn, hf, hm⟩ := addSourceJobs_kept hfound hjobs
  refine ⟨rfl, hn, fun tx j hj _ => ⟨j, hf tx j hj, .refl⟩, fun j hj => ?_⟩
  rcases hm j hj with hj | hj
  · exact .inr ⟨j, hj, rfl, rfl⟩
  · exact .inl hj

/-- A rewind drops no job that was signed for. -/
theorem rewindUnsignedSource_kept {ancestor : SourceCheckpoint}
    (h : d.rewindUnsignedSource ancestor = .ok next) : Kept d next := by
  simp only [rewindUnsignedSource, bind_ok, revertIf_ok] at h
  obtain ⟨-, -, -, -, h⟩ := h
  split at h
  · simp only [pure_ok] at h
    subst h
    exact .of_jobs rfl rfl
  · next haff =>
    simp only [pure_ok] at h
    subst h
    refine ⟨rfl, fun hk => ?_, fun tx j hj hasc => ⟨j, Keyed.find_filter_of hj ?_, .refl⟩,
      fun j hj => .inr ⟨j, List.mem_of_mem_filter hj, rfl, rfl⟩⟩
    · exact hk.sublist (List.filter_sublist.map _)
    · simp only [List.any_filter, List.any_eq_true, Bool.and_eq_true, decide_eq_true_eq, not_exists,
        not_and] at haff
      have hle := haff j (Keyed.mem_of_find hj).1
      simp only [decide_eq_true_eq]
      by_contra hlt
      exact hle (by omega) (by simp [Job.relayed, hasc])

/-- **The other writes of the worker.** -/
theorem operate_kept {op : StoreOp} (hp : ∀ relay, d.relay = some relay → d.Pending relay)
    (h : d.operate env op = .ok next) : Kept d next := by
  cases op with
  | initializeHubSigner n =>
    simp only [operate, initializeHubSigner, bind_ok] at h
    obtain ⟨-, -, h⟩ := h
    split at h
    · split at h
      · cases h
        exact .refl d
      · cases h
    · cases h
      exact .of_jobs rfl rfl
  | initializeSource c =>
    simp only [operate, initializeSource, bind_ok] at h
    obtain ⟨-, -, h⟩ := h
    split at h
    · cases h
      exact .refl d
    · simp only [bind_ok, pure_ok] at h
      obtain ⟨-, -, rfl⟩ := h
      exact .of_jobs rfl rfl
  | commitSourceRange from_ end_ jobs =>
    refine commitSourceRange_kept (fun j hj => ?_) h
    obtain ⟨a, -, rfl⟩ := List.mem_map.1 hj
    rfl
  | rewindUnsignedSource ancestor => exact rewindUnsignedSource_kept h
  | holdSource reason =>
    cases h
    exact .of_jobs rfl rfl
  | holdHub reason =>
    cases h
    exact .of_jobs rfl rfl
  | attested tx =>
    simp only [operate, pendingJob, bind_ok, orRevert_ok, revertIf_ok] at h
    obtain ⟨-, ⟨j, hj, hnt⟩, h⟩ := h
    refine update_kept hp (fun j' hj' ht => ?_) h
    rw [hj] at hj'
    cases hj'
    exact absurd ht hnt
  | processFailed tx message =>
    simp only [operate, pendingJob, bind_ok, orRevert_ok, revertIf_ok] at h
    obtain ⟨-, ⟨j, hj, hnt⟩, h⟩ := h
    have hpend : ∀ p : JobPatch, ∀ j', d.get tx = some j' → j'.state.terminal = true →
        (p.apply j').state.terminal = true := by
      intro p j' hj' ht
      rw [hj] at hj'
      cases hj'
      exact absurd ht hnt
    unfold processFailed at h
    split at h
    · exact update_kept hp (hpend _) h
    · dsimp only at h
      split at h
      · exact update_kept hp (hpend _) h
      · exact update_kept hp (hpend _) h

/-! ## The relay -/

end StoreData

end Proofmark
