/-
  The audit never holds: what it has read stays what the chain holds, and the counts that it
  reads lie between the resolved and the reserved envelopes.
-/
import Proofmark.Worker.RecoveryFacts

namespace Proofmark

open Revert HubChain

variable {env : WorkerEnv} {hub hub' : HubChain} {d d' snapshot : StoreData}

/-- The envelopes that were reserved: the resolved ones and the reserved one. -/
def StoreData.reservedCount (d : StoreData) : ℕ := d.usedNonces.length + d.relay.toList.length

/-! ## Terminal jobs -/

/-- A settled job with its history. -/
def Audited (snapshot : StoreData) (t : Job × RelayHistory) : Prop :=
  t.1 ∈ snapshot.jobs ∧ t.1.state.settled = true ∧ t.1.relayHistory = [t.2]

theorem terminalJobs_ok {jobs : List Job} (hj : ∀ j ∈ jobs, JobFact env hub j) :
    ∃ l, StoreData.terminalJobs jobs = some l ∧
      (∀ t ∈ l, t.1 ∈ jobs ∧ t.1.state.settled = true ∧ t.1.relayHistory = [t.2]) ∧
      l.map (fun t => t.2.nonce) = jobs.flatMap (fun j => j.relayHistory.map RelayHistory.nonce) ∧
      l.length = (jobs.filter fun j => j.state.settled).length := by
  induction jobs with
  | nil => exact ⟨[], rfl, by simp, rfl, rfl⟩
  | cons j jobs ih =>
    obtain ⟨l, hl, hmem, hn, hlen⟩ := ih fun a ha => hj a (List.mem_cons_of_mem _ ha)
    have hjf := hj j List.mem_cons_self
    cases hs : j.state.settled with
    | true =>
      obtain ⟨h, q, hh, hq, ha, -⟩ := hjf.settled hs
      obtain ⟨x, hx⟩ := Option.isSome_iff_exists.1 ha
      refine ⟨(j, h) :: l, ?_, fun t ht => ?_, ?_, ?_⟩
      · simp [StoreData.terminalJobs, hs, hh, hq, hx, hl]
      · rcases List.mem_cons.1 ht with rfl | ht
        · exact ⟨List.mem_cons_self, hs, hh⟩
        · exact ⟨List.mem_cons_of_mem _ (hmem t ht).1, (hmem t ht).2⟩
      · rw [List.map_cons, hn, List.flatMap_cons, hh]
        rfl
      · rw [List.filter_cons, if_pos hs, List.length_cons, List.length_cons, hlen]
    | false =>
      have hh := hjf.unsettled hs
      refine ⟨l, ?_, fun t ht => ⟨List.mem_cons_of_mem _ (hmem t ht).1, (hmem t ht).2⟩, ?_, ?_⟩
      · simp [StoreData.terminalJobs, hs, hh, hl]
      · rw [hn, List.flatMap_cons, hh]
        rfl
      · rw [List.filter_cons, if_neg (by rw [hs]; exact Bool.false_ne_true), hlen]

/-- The number of settled jobs is that of used nonces. -/
theorem length_settled (hj : ∀ j ∈ d.jobs, JobFact env hub j) :
    (d.jobs.filter fun j => j.state.settled).length = d.usedNonces.length := by
  obtain ⟨l, -, -, hn, hlen⟩ := terminalJobs_ok hj
  rw [← hlen, StoreData.usedNonces, ← hn, List.length_map]

/-- Sorted by nonce, the histories have the nonces from the baseline on. -/
theorem byNonce_nonces {l : List (Job × RelayHistory)} {n : ℕ}
    (hp : (l.map fun t => t.2.nonce).Perm (List.range n)) :
    (StoreData.byNonce l).map (fun t => t.2.nonce) = List.range' 0 l.length := by
  have hlen : l.length = n := by simpa using hp.length_eq
  rw [hlen, ← List.range_eq_range']
  have hperm : ((StoreData.byNonce l).map fun t => t.2.nonce).Perm (List.range n) :=
    ((List.perm_insertionSort _ l).map _).trans hp
  have hsorted : ((StoreData.byNonce l).map fun t => t.2.nonce).Pairwise (· ≤ ·) := by
    refine List.pairwise_map.2 ?_
    exact List.pairwise_insertionSort (fun a b : Job × RelayHistory => a.2.nonce ≤ b.2.nonce) l
  have hrange : (List.range n).Pairwise (· ≤ ·) := List.pairwise_lt_range.imp Nat.le_of_lt
  exact hperm.eq_of_pairwise (fun a b _ _ => Nat.le_antisymm) hsorted hrange

/-! ## Evidence -/

/-- The used nonces, read off the terminal jobs' evidence. -/
theorem usedNonces_evidence (hj : ∀ j ∈ d.jobs, JobFact env hub j) :
    d.usedNonces = ((d.jobs.filter fun j => j.state.terminal).map Job.evidence).flatMap
      fun e => e.relayHistory.map RelayHistory.nonce := by
  rw [List.flatMap_map]
  refine (flatMap_filter_of fun j hj' ht => ?_).symm
  have hh := (hj j hj').unsettled (JobState.settled_of_not_terminal ht)
  change j.relayHistory.map RelayHistory.nonce = []
  rw [hh]
  rfl

/-- Equal evidence has the same number of used nonces, and the same reservation. -/
theorem evidence_eq (hj : ∀ j ∈ d.jobs, JobFact env hub j)
    (hj' : ∀ j ∈ snapshot.jobs, JobFact env hub j)
    (h : d.evidenceIdentity = snapshot.evidenceIdentity) :
    d.relay = snapshot.relay ∧ d.usedNonces.length = snapshot.usedNonces.length := by
  simp only [StoreData.evidenceIdentity, EvidenceIdentity.mk.injEq] at h
  obtain ⟨-, -, hrel, hterm⟩ := h
  refine ⟨hrel, ?_⟩
  rw [usedNonces_evidence hj, usedNonces_evidence hj']
  have hperm := (List.perm_insertionSort (fun a b : TerminalEvidence => a.txHash.toNat ≤ b.txHash.toNat)
    ((d.jobs.filter fun j => j.state.terminal).map Job.evidence)).symm
  rw [hterm] at hperm
  exact ((hperm.trans (List.perm_insertionSort _ _)).flatMap_right _).length_eq

/-! ## The audit -/

/-- A block that is deep enough at the head that the audit has read. -/
def DeepAt (env : WorkerEnv) (head blockNumber : ℕ) : Prop :=
  blockNumber ≤ head ∧ env.hubConfirmations ≤ head - blockNumber + 1

/-- The blocks of a job's evidence are deep at the head. -/
structure JobDeep (env : WorkerEnv) (head : ℕ) (j : Job) : Prop where
  history : j.state.settled = true → ∀ h ∈ j.relayHistory, DeepAt env head h.receipt.blockNumber
  skipped : j.state = .skipped → ∀ o, j.skipObservation = some o → DeepAt env head o.blockNumber

/-- The receipt that the hub gives for a history. -/
def RelayHistory.hubReceipt (env : WorkerEnv) (h : RelayHistory) : HubReceipt :=
  ⟨h.hash, env.signer, env.asc, h.receipt.status, h.receipt.blockNumber, h.receipt.blockHash⟩

/-- A count between the resolved envelopes of the snapshot and the reserved ones now. -/
def CountFact (d snapshot : StoreData) (n : ℕ) : Prop :=
  snapshot.usedNonces.length ≤ n ∧ n ≤ d.reservedCount

/-- What an audit holds at its await. -/
def PcFact (env : WorkerEnv) (hub : HubChain) (d snapshot : StoreData) : AuditAwait → Prop
  | .head => True
  | .receipt head j h rest =>
    (∀ j ∈ snapshot.jobs, JobDeep env head j) ∧ ∀ t ∈ (j, h) :: rest, Audited snapshot t
  | .block head j h rest r | .again head j h rest r | .processed head j h rest r =>
    (∀ j ∈ snapshot.jobs, JobDeep env head j) ∧ (∀ t ∈ (j, h) :: rest, Audited snapshot t) ∧
      r = h.hubReceipt env
  | .skipBlock head q o rest | .skipProcessed head q o rest | .skipAgain head q o rest =>
    (∀ j ∈ snapshot.jobs, JobDeep env head j) ∧ (∀ j ∈ rest, j ∈ snapshot.jobs) ∧
      hub.Confirms env q o.blockNumber o.blockHash
  | .counts latest pending =>
    (∀ n, latest = some n → CountFact d snapshot n) ∧ ∀ n, pending = some n → CountFact d snapshot n

/-- The audit has read this history's success. -/
def ProcessedFact : AuditAwait → Prop
  | .processed _ _ h _ _ => h.receipt.status = .success
  | _ => True

structure AuditInv (env : WorkerEnv) (hub : HubChain) (d : StoreData) (t : AuditTask) : Prop where
  baseline : t.snapshot.hubStartNonce = some 0
  jobs : ∀ j ∈ t.snapshot.jobs, JobFact env hub j
  relayNonce : ∀ r, t.snapshot.relay = some r → r.nonce = t.snapshot.usedNonces.length
  nonces : t.snapshot.usedNonces.length ≤ d.usedNonces.length
  pc : PcFact env hub d t.snapshot t.pc
  processed : ProcessedFact t.pc

/-- What the chain and the store keep is what a running audit relies on. -/
theorem AuditInv.mono {t : AuditTask} (hi : AuditInv env hub d t) (hg : Grows hub hub')
    (hn : d.usedNonces.length ≤ d'.usedNonces.length) (hc : d.reservedCount ≤ d'.reservedCount) :
    AuditInv env hub' d' t := by
  obtain ⟨hb, hj, hr, hu, hpc, hp⟩ := hi
  refine ⟨hb, fun j hj' => (hj j hj').grows hg, hr, hu.trans hn, ?_, hp⟩
  cases h : t.pc with
  | counts latest pending =>
    rw [h] at hpc
    exact ⟨fun n hn => ⟨(hpc.1 n hn).1, (hpc.1 n hn).2.trans hc⟩,
      fun n hn => ⟨(hpc.2 n hn).1, (hpc.2 n hn).2.trans hc⟩⟩
  | skipBlock head q o rest | skipProcessed head q o rest | skipAgain head q o rest =>
    rw [h] at hpc
    exact ⟨hpc.1, hpc.2.1, hg.confirms hpc.2.2⟩
  | head => trivial
  | receipt head j x rest | block head j x rest r | processed head j x rest r
  | again head j x rest r =>
    rw [h] at hpc
    exact hpc

/-- What an audit does next: it waits with what it needs, or ends, and does not hold. -/
def Proceeds (env : WorkerEnv) (hub : HubChain) (d snapshot : StoreData) : AuditStep → Prop
  | .await a => PcFact env hub d snapshot a ∧ ProcessedFact a
  | .hold _ => False
  | _ => True

theorem nextSkipped_proceeds {head : ℕ} {jobs : List Job}
    (hj : ∀ j ∈ snapshot.jobs, JobFact env hub j) (hd : ∀ j ∈ snapshot.jobs, JobDeep env head j)
    (hsub : ∀ j ∈ jobs, j ∈ snapshot.jobs) :
    Proceeds env hub d snapshot (AuditTask.nextSkipped env head jobs) := by
  induction jobs with
  | nil => exact ⟨⟨fun n h => (by cases h), fun n h => (by cases h)⟩, trivial⟩
  | cons j jobs ih =>
    have ih' := ih fun a ha => hsub a (List.mem_cons_of_mem _ ha)
    rw [AuditTask.nextSkipped]
    split
    · exact ih'
    · next hs =>
      have hs' : j.state = .skipped := not_not.1 hs
      have hmem := hsub j List.mem_cons_self
      obtain ⟨o, q, ho, hq, hc⟩ := (hj j hmem).skipped hs'
      have hdeep := (hd j hmem).skipped hs' o ho
      simp only [ho, hq]
      rw [if_neg]
      · exact ⟨⟨hd, fun a ha => hsub a (List.mem_cons_of_mem _ ha), hc⟩, trivial⟩
      · rintro (h | h)
        · exact absurd hdeep.1 (Nat.not_le.2 h)
        · exact absurd hdeep.2 (Nat.not_le.2 h)

theorem nextTerminal_proceeds {head : ℕ} {l : List (Job × RelayHistory)}
    (hj : ∀ j ∈ snapshot.jobs, JobFact env hub j) (hd : ∀ j ∈ snapshot.jobs, JobDeep env head j)
    (hl : ∀ t ∈ l, Audited snapshot t) :
    Proceeds env hub d snapshot (AuditTask.nextTerminal env snapshot head l) := by
  cases l with
  | nil => exact nextSkipped_proceeds hj hd fun _ => id
  | cons t l => exact ⟨⟨hd, hl⟩, trivial⟩

/-- The evidence of a job that is deep now is deep at the head now. -/
theorem JobFact.deep {j : Job} (hf : JobFact env hub j) : JobDeep env hub.head j := by
  refine ⟨fun hs h hh => ?_, fun hs o ho => ?_⟩
  · obtain ⟨h', q, hh', -, -, hfact⟩ := hf.settled hs
    rw [hh', List.mem_singleton] at hh
    rw [hh]
    exact hfact.deep
  · obtain ⟨o', q, ho', -, hc⟩ := hf.skipped hs
    cases ho.symm.trans ho'
    exact hc.2.2

/-- **An audit starts without a hold.** -/
theorem start_proceeds (hb : d.hubStartNonce = some 0) (hj : ∀ j ∈ d.jobs, JobFact env hub j)
    (hn : d.usedNonces.Perm (List.range d.usedNonces.length)) :
    Proceeds env hub d d (AuditTask.start env d) := by
  unfold AuditTask.start
  split
  · trivial
  · split
    · trivial
    · obtain ⟨l, hl, -, hnonces, -⟩ := terminalJobs_ok hj
      have hperm : (l.map fun t => t.2.nonce).Perm (List.range d.usedNonces.length) := by
        rw [hnonces]
        exact hn
      simp only [hb, hl, byNonce_nonces hperm, ne_eq, not_true_eq_false, if_false]
      exact ⟨trivial, trivial⟩

/-- **The end of an audit**: the counts are what the snapshot expects. -/
theorem finish_proceeds {t : AuditTask} {latest pending : ℕ} (hi : AuditInv env hub d t)
    (hj : ∀ j ∈ d.jobs, JobFact env hub j) (hl : CountFact d t.snapshot latest)
    (hp : CountFact d t.snapshot pending) :
    Proceeds env hub d t.snapshot (AuditTask.finish d t.snapshot latest pending) := by
  unfold AuditTask.finish
  split
  · trivial
  · split
    · trivial
    · next hid =>
      obtain ⟨hrel, hlen⟩ := evidence_eq hj hi.jobs (not_not.1 hid)
      have hexp : t.snapshot.hubStartNonce.getD 0 +
          (t.snapshot.jobs.filter fun j => j.state.settled).length = t.snapshot.usedNonces.length := by
        rw [hi.baseline, length_settled hi.jobs]
        exact Nat.zero_add _
      simp only [hexp]
      unfold CountFact StoreData.reservedCount at hl hp
      rw [hlen, hrel] at hl hp
      cases hr : t.snapshot.relay with
      | some relay =>
        have hn := hi.relayNonce relay hr
        simp only [hr, Option.toList_some, List.length_singleton] at hl hp
        dsimp only
        rw [if_neg (by omega)]
        trivial
      | none =>
        simp only [hr, Option.toList_none, List.length_nil, Nat.add_zero] at hl hp
        dsimp only
        rw [if_neg (by omega)]
        trivial

/-- The fact behind an audited history. -/
theorem Audited.fact {j : Job} {h : RelayHistory} (ha : Audited snapshot (j, h))
    (hj : ∀ j ∈ snapshot.jobs, JobFact env hub j) :
    ∃ q, j.queryId = some q ∧ HistoryFact env hub q h := by
  obtain ⟨hmem, hs, hh⟩ := ha
  obtain ⟨h', q, hh', hq, -, hfact⟩ := (hj j hmem).settled hs
  cases hh.symm.trans hh'
  exact ⟨q, hq, hfact⟩

/-- **Each answer of the chain is what the audit expects.** -/
theorem resume_proceeds {t : AuditTask} {reply : AuditReply} {step : AuditStep}
    (hi : AuditInv env hub d t) (hj : ∀ j ∈ d.jobs, JobFact env hub j)
    (hnow : hub.mined.length ≤ d.reservedCount) (hlat : d.usedNonces.length ≤ hub.mined.length)
    (hpend : ∀ n, hub.Pending n → n ≤ d.reservedCount)
    (htr : AuditTask.truthful hub t.pc reply = true) (h : t.resume env d reply = some step) :
    Proceeds env hub d t.snapshot step := by
  obtain ⟨snapshot, pc⟩ := t
  have hpc := hi.pc
  have hpr := hi.processed
  have hjobs := hi.jobs
  dsimp only at hpc hpr hjobs htr ⊢
  -- a count that the chain gives now
  have hlatest : ∀ n, n = hub.mined.length → CountFact d snapshot n := by
    rintro _ rfl
    exact ⟨hi.nonces.trans hlat, hnow⟩
  have hpending : ∀ n, hub.Pending n → CountFact d snapshot n := fun n hn =>
    ⟨(hi.nonces.trans hlat).trans hn.1, hpend n hn⟩
  unfold AuditTask.resume at h
  dsimp only at h
  split at h
  · cases h
    trivial
  · -- the head
    next n =>
    cases h
    have hn : n = hub.head := of_decide_eq_true htr
    subst hn
    obtain ⟨l, hl, hmem, -⟩ := terminalJobs_ok hjobs
    rw [hl]
    refine nextTerminal_proceeds hjobs (fun j hj' => (hjobs j hj').deep) fun t ht => ?_
    exact hmem t ((List.perm_insertionSort _ l).mem_iff.1 ht)
  · -- a receipt
    next head j x rest o =>
    have ho : o = hub.receipt x.hash := of_decide_eq_true htr
    obtain ⟨q, -, hfact⟩ := (hpc.2 (j, x) List.mem_cons_self).fact hjobs
    rw [hfact.receipt] at ho
    subst ho
    dsimp only at h
    obtain ⟨hmem, hs, hh⟩ := hpc.2 (j, x) List.mem_cons_self
    have hdeep := (hpc.1 j hmem).history hs x (by rw [hh]; exact List.mem_singleton_self _)
    have h1 := hdeep.1
    have h2 := hdeep.2
    rw [if_neg] at h
    · cases h
      exact ⟨⟨hpc.1, hpc.2, rfl⟩, trivial⟩
    · simp only [ne_eq, not_true_eq_false, false_or, not_or]
      omega
  · -- a block of a receipt
    next head j x rest r o =>
    obtain ⟨hd, ha, rfl⟩ := hpc
    obtain ⟨q, -, hfact⟩ := (ha (j, x) List.mem_cons_self).fact hjobs
    have ho : o = hub.blocks[x.receipt.blockNumber]? := of_decide_eq_true htr
    rw [ho, hfact.block, if_neg (by rw [not_not]; rfl)] at h
    split at h
    · next hs =>
      cases h
      exact ⟨⟨hd, ha, rfl⟩, hs⟩
    · cases h
      exact ⟨⟨hd, ha, rfl⟩, trivial⟩
  · -- a processed query
    next head j x rest r value =>
    obtain ⟨hd, ha, rfl⟩ := hpc
    obtain ⟨q, hq, hfact⟩ := (ha (j, x) List.mem_cons_self).fact hjobs
    have hv : value = hub.processedAt q x.receipt.blockNumber := by
      simpa [AuditTask.truthful, RelayHistory.hubReceipt, hq] using htr
    rw [hv, hfact.processed hpr, if_pos rfl] at h
    cases h
    exact ⟨⟨hd, ha, rfl⟩, trivial⟩
  · -- the block once more
    next head j x rest r o =>
    obtain ⟨hd, ha, rfl⟩ := hpc
    obtain ⟨q, -, hfact⟩ := (ha (j, x) List.mem_cons_self).fact hjobs
    have ho : o = hub.blocks[x.receipt.blockNumber]? := of_decide_eq_true htr
    rw [ho, hfact.block, if_neg (by rw [not_not]; rfl)] at h
    cases h
    exact nextTerminal_proceeds hjobs hd fun t ht => ha t (List.mem_cons_of_mem _ ht)
  · next head q o rest hash =>
    obtain ⟨hd, hsub, hc⟩ := hpc
    have ho : hash = hub.blocks[o.blockNumber]? := of_decide_eq_true htr
    rw [ho, hc.1, if_neg (by rw [not_not])] at h
    cases h
    exact ⟨⟨hd, hsub, hc⟩, trivial⟩
  · next head q o rest value =>
    obtain ⟨hd, hsub, hc⟩ := hpc
    have hv : value = hub.processedAt q o.blockNumber := of_decide_eq_true htr
    rw [hv, hc.2.1, if_pos rfl] at h
    cases h
    exact ⟨⟨hd, hsub, hc⟩, trivial⟩
  · next head q o rest hash =>
    obtain ⟨hd, hsub, hc⟩ := hpc
    have ho : hash = hub.blocks[o.blockNumber]? := of_decide_eq_true htr
    rw [ho, hc.1, if_neg (by rw [not_not])] at h
    cases h
    exact nextSkipped_proceeds hjobs hd hsub
  · next n =>
    cases h
    refine ⟨⟨fun m hm => ?_, fun m hm => (by cases hm)⟩, trivial⟩
    cases hm
    exact hlatest n (of_decide_eq_true htr)
  · next n =>
    cases h
    refine ⟨⟨fun m hm => (by cases hm), fun m hm => ?_⟩, trivial⟩
    cases hm
    exact hpending n (of_decide_eq_true htr)
  · next latest n =>
    cases h
    exact finish_proceeds hi hj (hpc.1 latest rfl)
      (hpending n (of_decide_eq_true htr))
  · next pending n =>
    cases h
    exact finish_proceeds hi hj (hlatest n (of_decide_eq_true htr))
      (hpc.2 pending rfl)
  · cases h

end Proofmark
