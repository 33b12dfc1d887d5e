/-
  The worker does not halt itself, as long as no job runs out of attempts.

  `WorkerInv` ties the store to the hub chain: the resolved envelopes have the first nonces,
  and at most the reserved one is in a block beyond them.
-/
import Proofmark.Worker.RecoveryAudit

namespace Proofmark

open Revert HubChain

/-- Two valid envelopes with one hash have one nonce: the hash commits to the signed bytes. -/
def HashCommits (env : WorkerEnv) : Prop :=
  ∀ r r' : RelayEnvelope, env.validateRelay r = .ok () → env.validateRelay r' = .ok () →
    r.hash = r'.hash → r.nonce = r'.nonce

/-- What a call of the sender holds, against the chain. -/
structure SenderFact (env : WorkerEnv) (hub : HubChain) (d : StoreData) (tx : TxHash)
    (a : SenderAwait) : Prop where
  unreserved : ∀ r, a.unreserved = some r → r.nonce = d.usedNonces.length
  seen : ∀ r x, a.seen = some (r, x) → hub.Receives env r x
  processed : ∀ r x, a = .finalReceipt r x → x.status = .success →
    hub.processedAt r.queryId x.blockNumber = true
  pending : a.reserved = none → ∀ j ∈ d.jobs, j.txHash = tx → j.state.terminal = false

/-- What the store says, against the chain. -/
structure DataInv (env : WorkerEnv) (hub : HubChain) (d : StoreData) : Prop where
  jobs : ∀ j ∈ d.jobs, JobFact env hub j
  nonces : d.usedNonces.Perm (List.range d.usedNonces.length)
  relayNonce : ∀ r, d.relay = some r → r.nonce = d.usedNonces.length
  sent : ∀ r ∈ hub.sent, r.nonce < d.reservedCount
  latest : d.usedNonces.length ≤ hub.mined.length
  hold : d.hubHold = none
  baseline : d.hubStartNonce = some 0

structure WorkerInv (env : WorkerEnv) (h : WorkerHost) : Prop where
  relay : ∃ es, RelayInv env.toRelayEnv es h.relay
  hub : Sound env h.hub
  data : DataInv env h.hub h.relay.data
  sender : ∀ tx a, h.relay.sender = some (tx, a) → SenderFact env h.hub h.relay.data tx a
  audits : ∀ k t, h.audits k = some t → AuditInv env h.hub h.relay.data t

section

variable {env : WorkerEnv} {hub hub' : HubChain} {d d' : StoreData} {tx : TxHash}
  {a : SenderAwait} {relay : RelayEnvelope} {h : WorkerHost}

theorem DataInv.mined_le (hi : DataInv env hub d) (hs : Sound env hub) :
    hub.mined.length ≤ d.reservedCount :=
  hs.length_mined_le hi.sent

/-- A pending count is no more than the reserved envelopes. -/
theorem DataInv.pending_le {n : ℕ} (hi : DataInv env hub d) (hs : Sound env hub) (hn : hub.Pending n) :
    n ≤ d.reservedCount := by
  by_contra hlt
  have hm := hi.mined_le hs
  obtain ⟨r, hr, he⟩ := hn.2 (d.reservedCount - hub.mined.length) (by rw [List.mem_range]; omega)
  have := hi.sent r hr
  omega

/-- With nothing reserved, a pending count is the number of resolved envelopes. -/
theorem DataInv.pending_eq {n : ℕ} (hi : DataInv env hub d) (hs : Sound env hub)
    (hr : d.relay = none) (hn : hub.Pending n) : n = d.usedNonces.length := by
  have h1 := hi.pending_le hs hn
  have h2 := hi.latest
  have h3 := hn.1
  rw [StoreData.reservedCount, hr] at h1
  simp only [Option.toList_none, List.length_nil, Nat.add_zero] at h1
  omega

/-! ## Writes -/

theorem Quiet.reservedCount (hq : Quiet env hub d d') : d'.reservedCount = d.reservedCount := by
  rw [StoreData.reservedCount, hq.nonces, hq.relay, StoreData.reservedCount]

theorem DataInv.quiet (hi : DataInv env hub d) (hq : Quiet env hub d d') : DataInv env hub d' := by
  refine ⟨hq.jobs, ?_, fun r hr => ?_, fun r hr => ?_, ?_, hq.hubHold.trans hi.hold,
    hq.baseline.trans hi.baseline⟩
  · rw [hq.nonces]
    exact hi.nonces
  · rw [hq.relay] at hr
    rw [hq.nonces]
    exact hi.relayNonce r hr
  · rw [hq.reservedCount]
    exact hi.sent r hr
  · rw [hq.nonces]
    exact hi.latest

theorem DataInv.grows (hi : DataInv env hub d) (hg : Grows hub hub')
    (hs : ∀ r ∈ hub'.sent, r.nonce < d.reservedCount) : DataInv env hub' d :=
  ⟨fun j hj => (hi.jobs j hj).grows hg, hi.nonces, hi.relayNonce, hs,
    hi.latest.trans hg.mined.length_le, hi.hold, hi.baseline⟩

theorem SenderFact.grows (hf : SenderFact env hub d tx a) (hg : Grows hub hub') :
    SenderFact env hub' d tx a :=
  ⟨hf.unreserved, fun r x h => hg.receives (hf.seen r x h),
    fun r x h hs => hg.processedAt (hf.processed r x h hs), hf.pending⟩

/-- A call that holds its reserved envelope and no receipt. -/
theorem SenderFact.of_reserved (hu : a.unreserved = none) (hs : a.seen = none)
    (hr : a.reserved = some relay) : SenderFact env hub d tx a := by
  refine ⟨fun r h => ?_, fun r x h => ?_, fun r x h _ => ?_, fun h => ?_⟩
  · rw [hu] at h
    cases h
  · rw [hs] at h
    cases h
  · subst h
    cases hs
  · rw [hr] at h
    cases h

/-- Reserving an envelope with the next nonce. -/
theorem DataInv.reserve {next : StoreData} (hi : DataInv env hub d) (hk : d.Keys)
    (hn : relay.nonce = d.usedNonces.length) (h : d.reserveRelay relay = .ok next) :
    DataInv env hub next ∧ next.usedNonces = d.usedNonces ∧ d.reservedCount ≤ next.reservedCount := by
  obtain ⟨hnone, j, hj, ht, hd⟩ := StoreData.reserveRelay_ok h
  have hused : next.usedNonces = d.usedNonces := by
    rw [hd]
    exact Keyed.flatMap_change fun _ _ => rfl
  have hrel : next.relay = some relay := by rw [hd]
  have hcount : d.reservedCount ≤ next.reservedCount := by
    rw [StoreData.reservedCount, StoreData.reservedCount, hused, hnone]
    exact Nat.le_add_right _ _
  refine ⟨⟨fun j' hj' => ?_, ?_, fun r hr => ?_, fun r hr => ?_, ?_, ?_, ?_⟩, hused, hcount⟩
  · rw [hd] at hj'
    rcases StoreData.mem_setJob hj' with hj' | ⟨j₀, hj₀, htx, rfl⟩
    · exact hi.jobs j' hj'
    · cases hj.symm.trans (StoreData.get_mem hk hj₀ htx)
      exact .of_pending ((hi.jobs j hj₀).unsettled (JobState.settled_of_not_terminal ht)) rfl
  · rw [hused]
    exact hi.nonces
  · cases hrel.symm.trans hr
    rw [hused]
    exact hn
  · exact (hi.sent r hr).trans_le hcount
  · rw [hused]
    exact hi.latest
  · rw [hd]
    exact hi.hold
  · rw [hd]
    exact hi.baseline

/-- **Finishing the reserved envelope** with a receipt of the chain. -/
theorem DataInv.finish {next : StoreData} {r : RelayReceipt} (hi : DataInv env hub d)
    (hs : Sound env hub) (hc : HashCommits env) (hk : d.Keys) (hp : d.Pending relay)
    (hrel : d.relay = some relay) (hv : env.validateRelay relay = .ok ())
    (hr : hub.Receives env relay r)
    (hproc : r.status = .success → hub.processedAt relay.queryId r.blockNumber = true)
    (h : d.finishRelay relay.hash r = .ok next) :
    DataInv env hub next ∧ d.usedNonces.length ≤ next.usedNonces.length ∧
      next.reservedCount = d.reservedCount := by
  have hd := StoreData.finishRelay_ok h hrel
  obtain ⟨j, hj, hsub, hasc, hq, hempty⟩ := hp
  obtain ⟨m, hm, hmr⟩ := Option.map_eq_some_iff.1 hr.1
  have hmem : m ∈ hub.mined := List.mem_of_find?_eq_some hm
  have hhash : m.relay.hash = relay.hash := by simpa using List.find?_some hm
  have hmv := hs.valid m.relay (hs.mined m hmem).1
  -- the job's place in the list of used nonces
  have hused : next.usedNonces.Perm (relay.nonce :: d.usedNonces) := by
    obtain ⟨l₁, l₂, hl, -, hf⟩ := Keyed.change_eq hj
    have hjobs : next.jobs = l₁ ++ StoreData.finished relay r j :: l₂ := by
      rw [hd]
      exact hf _
    have hh : (StoreData.finished relay r j).relayHistory = [⟨relay.hash, relay.nonce, r⟩] := by
      rw [StoreData.finished, hempty]
      rfl
    rw [StoreData.usedNonces, hjobs, StoreData.usedNonces, hl]
    simp only [List.flatMap_append, List.flatMap_cons, hh, hempty, List.map_cons, List.map_nil,
      List.nil_append, List.singleton_append]
    exact List.perm_middle
  have hlen : next.usedNonces.length = d.usedNonces.length + 1 := hused.length_eq
  have hnonce := hi.relayNonce relay hrel
  have hcount : next.reservedCount = d.reservedCount := by
    have hnone : next.relay = none := by rw [hd]
    rw [StoreData.reservedCount, StoreData.reservedCount, hlen, hrel, hnone]
    rfl
  refine ⟨⟨fun j' hj' => ?_, ?_, fun x hx => ?_, fun x hx => ?_, ?_, ?_, ?_⟩, by omega, hcount⟩
  · rw [hd] at hj'
    rcases StoreData.mem_setJob hj' with hj' | ⟨j₀, hj₀, htx, rfl⟩
    · exact hi.jobs j' hj'
    · cases hj.symm.trans (StoreData.get_mem hk hj₀ htx)
      have hstate : (StoreData.finished relay r j).state = r.status.jobState := by
        rw [StoreData.finished]
        cases r.status <;> rfl
      have hsett : r.status.jobState.settled = true := by cases r.status <;> rfl
      refine ⟨fun _ => ⟨⟨relay.hash, relay.nonce, r⟩, relay.queryId, ?_, hq, ?_, ?_, ?_, hr.2, hproc⟩,
        fun hu => ?_, fun hu => ?_⟩
      · rw [StoreData.finished, hempty]
        rfl
      · rw [StoreData.finished, hasc]
        rfl
      · obtain ⟨hto, hsigner⟩ := validateRelay_address hmv
        rw [HubChain.receipt, hm]
        simp only [Option.map_some, hhash, hto, hsigner, hmr]
      · have hb := (hs.mined m hmem).2
        rwa [hmr] at hb
      · rw [hstate, hsett] at hu
        cases hu
      · rw [hstate] at hu
        cases hst : r.status <;> rw [hst] at hu <;> cases hu
  · rw [hlen, List.range_succ]
    refine hused.trans ?_
    rw [hnonce]
    exact (hi.nonces.cons _).trans (List.perm_append_singleton _ _).symm
  · rw [hd] at hx
    cases hx
  · rw [hcount]
    exact hi.sent x hx
  · -- the envelope is in a block, so one more nonce is
    have hlt := hs.mined_nonce hmem
    rw [hc m.relay relay hmv hv hhash, hnonce] at hlt
    omega
  · rw [hd]
    exact hi.hold
  · rw [hd]
    exact hi.baseline

/-- A write of a call keeps the evidence. -/
theorem SenderWrite.quiet {reply : SenderReply} (hi : DataInv env hub d)
    (hf : SenderFact env hub d tx a) (ht : hub.tellsSender env a reply = true)
    (hw : StoreData.SenderWrite d tx a reply d') : Quiet env hub d d' := by
  cases hw with
  | none => exact .refl hi.jobs
  | lastError e _ h =>
    refine update_quiet hi.jobs (fun j hj _ => ?_) h
    exact (hi.jobs j hj).of_same rfl rfl rfl rfl rfl
  | skipped p query final _ ha hr hs h =>
    subst ha hr
    refine update_quiet hi.jobs (fun j hj htx => ?_) h
    have hconf := of_decide_eq_true ht hs
    have hterm := hf.pending rfl j hj htx
    refine ⟨fun h => (by cases h), fun _ => ?_, fun _ => ⟨_, _, rfl, rfl, hconf⟩⟩
    exact (hi.jobs j hj).unsettled (JobState.settled_of_not_terminal hterm)

/-! ## Steps -/

/-- The chain grows, and what it is sent stays below the reserved envelopes. -/
theorem WorkerInv.grows (hi : WorkerInv env h) (hg : Grows h.hub hub') (hs : Sound env hub')
    (hsent : ∀ r ∈ hub'.sent, r.nonce < h.relay.data.reservedCount) :
    WorkerInv env { h with hub := hub' } :=
  ⟨hi.relay, hs, hi.data.grows hg hsent, fun tx a ha => (hi.sender tx a ha).grows hg,
    fun k t ht => (hi.audits k t ht).mono hg le_rfl le_rfl⟩

/-- The sender or the store moves, while the chain stays. -/
theorem WorkerInv.moves {relay : RelayHost} {audits : ℕ → Option AuditTask} (hi : WorkerInv env h)
    (hr : ∃ es, RelayInv env.toRelayEnv es relay) (hd : DataInv env h.hub relay.data)
    (hn : h.relay.data.usedNonces.length ≤ relay.data.usedNonces.length)
    (hc : h.relay.data.reservedCount ≤ relay.data.reservedCount)
    (hs : ∀ tx a, relay.sender = some (tx, a) → SenderFact env h.hub relay.data tx a)
    (ha : ∀ k t, audits k = some t → h.audits k = some t) :
    WorkerInv env ⟨relay, h.hub, audits⟩ :=
  ⟨hr, hi.hub, hd, hs, fun k t ht => (hi.audits k t (ha k t ht)).mono (.refl _) hn hc⟩

/-- What a part of a call does to the store and the chain's view of it. -/
structure Moves (env : WorkerEnv) (hub : HubChain) (d : StoreData) (relay : RelayHost) : Prop where
  data : DataInv env hub relay.data
  nonces : d.usedNonces.length ≤ relay.data.usedNonces.length
  count : d.reservedCount ≤ relay.data.reservedCount
  sender : ∀ tx a, relay.sender = some (tx, a) → SenderFact env hub relay.data tx a

theorem Moves.of_quiet {relay : RelayHost} (hi : DataInv env hub d) (hq : Quiet env hub d relay.data)
    (hs : ∀ tx a, relay.sender = some (tx, a) → SenderFact env hub relay.data tx a) :
    Moves env hub d relay :=
  ⟨hi.quiet hq, by rw [hq.nonces], by rw [hq.reservedCount], hs⟩

/-- **Going on with a call keeps the invariant.** -/
theorem Moves.resume {es : List RelayEntry} {host host' : RelayHost} {out : RelayOutput}
    {reply : SenderReply} {step : SenderStep} (hr : RelayInv env.toRelayEnv es host)
    (hi : DataInv env hub host.data) (hs : Sound env hub) (hc : HashCommits env)
    (hsender : host.sender = some (tx, a)) (hf : SenderFact env hub host.data tx a)
    (ht : hub.tellsSender env a reply = true)
    (he : StoreData.SenderEffect env.toRelayEnv host.data tx a reply d' step)
    (hset : RelayHost.settle tx (d', step) = (host', out)) :
    Moves env hub host.data host' ∧ ∀ r, out = .broadcast r → host'.data.relay = some r := by
  have hsend := hr.sender tx a hsender
  cases he with
  | moved _ a' hw hres hu hfin hp hseen =>
    cases hset
    have hq : Quiet env hub host.data d' ∧ StaysPending host.data d' := by
      rcases hw with rfl | ⟨x, hw⟩
      · exact ⟨.refl hi.jobs, .refl⟩
      · refine ⟨update_quiet hi.jobs (fun j hj _ => ?_) hw, update_staysPending ?_ hw⟩
        · exact (hi.jobs j hj).of_same rfl rfl rfl rfl rfl
        · exact fun j _ ht => ht
    refine ⟨.of_quiet hi hq.1 fun tx' a'' ha => ?_, fun r ho => (by cases ho)⟩
    cases ha
    refine ⟨fun r h => ?_, fun r x h => ?_, fun r x h hsucc => ?_, fun h => ?_⟩
    · rw [hu] at h
      cases h
    · rcases hseen r x h with h | ⟨rfl | rfl, rfl⟩
      · exact hf.seen r x h
      · exact of_decide_eq_true ht
      · exact of_decide_eq_true ht
    · obtain ⟨rfl, rfl⟩ := hfin r x h hsucc
      exact (of_decide_eq_true ht).symm
    · exact hq.2 _ (hf.pending (hres ▸ h))
  | ended _ _ hw hstep =>
    obtain ⟨rfl, hout⟩ := settle_ended hstep hset
    exact ⟨.of_quiet hi (SenderWrite.quiet hi hf ht hw) fun tx' a' ha => (by cases ha),
      fun r ho => absurd ho (hout r)⟩
  | accepted p relay ha hrep hv htx hd =>
    subst ha hrep htx
    cases hset
    refine ⟨.of_quiet hi (.refl hi.jobs) fun tx' a' ha => ?_, fun r ho => (by cases ho)⟩
    cases ha
    refine ⟨fun r h => ?_, fun r x h => (by cases h), fun r x h => (by cases h), fun _ => hf.pending rfl⟩
    cases h
    exact hi.pending_eq hs hsend.reserved.symm (of_decide_eq_true ht)
  | broadcast relay ha =>
    subst ha
    cases hset
    refine ⟨.of_quiet hi (.refl hi.jobs) fun tx' a' ha => ?_, fun r ho => ?_⟩
    · cases ha
      exact .of_reserved rfl rfl rfl
    · cases ho
      exact hsend.reserved.symm
  | reserved relay _ _ ha hn hstep =>
    subst ha
    obtain ⟨hdata, hpost, hout⟩ := settle_reserved hstep hset
    obtain ⟨hi', hused, hcount⟩ := hi.reserve hr.keys (hf.unreserved relay rfl) hn
    rw [← hdata] at hi' hused hcount
    refine ⟨⟨hi', by rw [hused], hcount, fun tx' a' ha => ?_⟩, fun r ho => absurd ho (hout r)⟩
    cases hpost tx' a' ha
    exact .of_reserved rfl rfl rfl
  | finished relay r _ _ ha hrep hn hstep =>
    subst ha
    obtain ⟨rfl, hout⟩ := settle_ended hstep hset
    have hrel := hsend.reserved.symm
    obtain ⟨hi', hused, hcount⟩ := hi.finish hs hc hr.keys (hr.pending relay hrel) hrel
      (hr.signs relay (hr.member relay hrel)).valid (hf.seen relay r rfl) (hf.processed relay r rfl) hn
    exact ⟨⟨hi', hused, hcount.ge, fun tx' a' ha => (by cases ha)⟩, fun r' ho => absurd ho (hout r')⟩

/-- A new block only adds to the chain. -/
theorem block_grows {hash : BlockHash} {included : List (RelayEnvelope × RelayStatus)}
    {queries : List Bytes32} (hs : Sound env hub) (h : hub.block hash included queries = .ok hub') :
    Grows hub hub' ∧ Sound env hub' ∧ hub'.sent = hub.sent := by
  simp only [HubChain.block, bind_ok, revertIf_ok, pure_ok, not_or, not_not, not_exists,
    not_and] at h
  obtain ⟨-, ⟨hn, hsent⟩, rfl⟩ := h
  have hg : Grows hub { hub with
      blocks := hub.blocks ++ [hash]
      mined := hub.mined ++ included.map fun m => ⟨m.1, ⟨m.2, hub.blocks.length, hash⟩⟩
      processed := hub.processed ++ queries.map fun q => (q, hub.blocks.length) } :=
    ⟨List.prefix_append _ _, List.prefix_append _ _, fun p hp => List.mem_append_left _ hp⟩
  refine ⟨hg, ⟨by simp, fun m hm => ?_, ?_, hs.valid⟩, rfl⟩
  · rcases List.mem_append.1 hm with hm | hm
    · exact ⟨(hs.mined m hm).1, hg.blockHash (hs.mined m hm).2⟩
    · obtain ⟨x, hx, rfl⟩ := List.mem_map.1 hm
      exact ⟨hsent x hx, List.getElem?_concat_length⟩
  · have hmap : (included.map fun m => (⟨m.1, ⟨m.2, hub.blocks.length, hash⟩⟩ : MinedRelay)).map
        (fun m => m.relay.nonce) = List.range' hub.mined.length included.length := by
      rw [List.map_map, ← hn]
      rfl
    dsimp only
    rw [List.map_append, hs.nonces, hmap, List.length_append, List.length_map, List.range_eq_range',
      List.range_eq_range', ← List.range'_append_1, Nat.zero_add]

/-- A failed process of the step uses up the attempts of its job. -/
def runsOut (env : WorkerEnv) (e : WorkerEntry) : Bool :=
  match e.act with
  | .relay (.store op _) => exhausts env e.pre.relay.data op
  | _ => false

/-- Where an audit that proceeds leaves the worker. -/
theorem WorkerInv.settleAudit {k : ℕ} {w : CommitEnd} {snapshot : StoreData} {step : AuditStep}
    (hi : WorkerInv env h) (hp : Proceeds env h.hub h.relay.data snapshot step)
    (ht : ∀ a, step = .await a → AuditInv env h.hub h.relay.data ⟨snapshot, a⟩) :
    WorkerInv env (h.settleAudit k snapshot w step).1 ∧
      ∀ reason, (h.settleAudit k snapshot w step).2 ≠ .held reason := by
  have clear : WorkerInv env { h with audits := Function.update h.audits k none } := by
    refine ⟨hi.relay, hi.hub, hi.data, hi.sender, fun k' t ht' => ?_⟩
    dsimp only at ht'
    by_cases hk : k' = k
    · rw [hk, Function.update_self] at ht'
      cases ht'
    · rw [Function.update_of_ne hk] at ht'
      exact hi.audits k' t ht'
  cases step with
  | await a =>
    refine ⟨⟨hi.relay, hi.hub, hi.data, hi.sender, fun k' t ht' => ?_⟩, fun r => by simp [WorkerHost.settleAudit]⟩
    simp only [WorkerHost.settleAudit] at ht'
    by_cases hk : k' = k
    · rw [hk, Function.update_self] at ht'
      cases ht'
      exact ht a rfl
    · rw [Function.update_of_ne hk] at ht'
      exact hi.audits k' t ht'
  | hold reason => exact absurd hp id
  | returned => exact ⟨clear, fun r => by simp [WorkerHost.settleAudit]⟩
  | threw e => exact ⟨clear, fun r => by simp [WorkerHost.settleAudit]⟩

/-- **Each step keeps the invariant and installs no hold**, unless a job runs out of attempts. -/
theorem WorkerInv.step {e : WorkerEntry} (hc : HashCommits env) (hi : WorkerInv env e.pre)
    (hx : runsOut env e = false) (hs : (WorkerHost.machine env).IsStep e) :
    WorkerInv env e.post ∧ ∀ reason, e.out ≠ .held reason := by
  obtain ⟨h, act, out, h'⟩ := e
  have hs' : (WorkerHost.machine env).step h act = .ok (h', out) := hs
  dsimp only at hi ⊢
  obtain ⟨es, hr⟩ := hi.relay
  cases act with
  | relay a =>
    simp only [WorkerHost.machine, bind_ok, revertIf_ok, pure_ok, Prod.mk.injEq, Prod.exists] at hs'
    obtain ⟨-, hallow, relay, rout, hrel, rfl, rfl⟩ := hs'
    have hr' : ∃ es, RelayInv env.toRelayEnv es relay :=
      ⟨_, (RelayInv.step (e := ⟨h.relay, a, rout, relay⟩) hr hrel).1⟩
    refine ⟨?_, fun reason => by simp⟩
    cases a with
    | step tx preparation =>
      simp only [RelayHost.machine, bind_ok, revertIf_ok, pure_ok, Prod.mk.injEq] at hrel
      obtain ⟨-, -, a, ha, rfl, rfl⟩ := hrel
      refine hi.moves hr' hi.data le_rfl le_rfl (fun tx' a' hsender => ?_) fun _ _ => id
      cases hsender
      -- the call starts with the envelope of the store, or on a job that is not terminal
      simp only [StoreData.startStep, bind_ok, revertIf_ok, orRevert_ok] at ha
      obtain ⟨-, -, -, -, j, hj, -, hterm, ha⟩ := ha
      cases hrelay : h.relay.data.relay with
      | some r =>
        simp only [hrelay, pure_ok] at ha
        subst ha
        exact .of_reserved rfl rfl rfl
      | none =>
        simp only [hrelay, bind_ok, orRevert_ok, pure_ok] at ha
        obtain ⟨p, -, rfl⟩ := ha
        refine ⟨fun r h => (by cases h), fun r x h => (by cases h), fun r x h => (by cases h),
          fun _ j' hj' htx => ?_⟩
        cases hj.symm.trans (StoreData.get_mem hr.keys hj' htx)
        simpa using hterm
    | settle reply w =>
      simp only [RelayHost.machine, bind_ok, orRevert_ok, pure_ok] at hrel
      obtain ⟨⟨tx, a⟩, hsender, r, hres, hset⟩ := hrel
      have htell : h.hub.tellsSender env a reply = true := by
        simpa [WorkerHost.allowed, hsender] using hallow
      obtain ⟨hm, hb⟩ := Moves.resume hr hi.data hi.hub hc hsender (hi.sender tx a hsender) htell
        (StoreData.resumeStep_effect hres) hset
      have hw : WorkerInv env ⟨relay, h.hub, h.audits⟩ :=
        hi.moves hr' hm.data hm.nonces hm.count hm.sender fun _ _ => id
      cases rout with
      | broadcast r =>
        -- the chain is sent the reserved envelope
        have hrelay := hb r rfl
        obtain ⟨es', hr''⟩ := hr'
        refine hw.grows ⟨List.prefix_rfl, List.prefix_rfl, fun _ => id⟩ ⟨hw.hub.blocks,
          fun m hm' => ⟨List.mem_append_left _ (hw.hub.mined m hm').1, (hw.hub.mined m hm').2⟩,
          hw.hub.nonces, fun x hx' => ?_⟩ fun x hx' => ?_
        · rcases List.mem_append.1 hx' with hx' | hx'
          · exact hw.hub.valid x hx'
          · rw [List.mem_singleton.1 hx']
            exact (hr''.signs r (hr''.member r hrelay)).valid
        · rcases List.mem_append.1 hx' with hx' | hx'
          · exact hw.data.sent x hx'
          · rw [List.mem_singleton.1 hx', hm.data.relayNonce r hrelay]
            dsimp only
            rw [StoreData.reservedCount, hrelay]
            exact Nat.lt_succ_self _
      | done | awaiting | returned => exact hw
      | threw e => exact hw
    | store op w =>
      simp only [RelayHost.machine, bind_ok, pure_ok, Prod.mk.injEq] at hrel
      obtain ⟨next, hop, rfl, rfl⟩ := hrel
      have hq := operate_quiet hr.keys hi.data.jobs hx
        (by rintro reason rfl; simp [WorkerHost.allowed] at hallow)
        (by rintro n rfl; simp [WorkerHost.allowed] at hallow) hop
      have hq' : Quiet env h.hub h.relay.data (h.relay.data.commit next w) ∧
          StaysPending h.relay.data (h.relay.data.commit next w) := by
        cases w with
        | beforeRename => exact ⟨.refl hi.data.jobs, .refl⟩
        | committed | afterRename => exact hq
      refine hi.moves hr' (hi.data.quiet hq'.1) (by rw [hq'.1.nonces]) (by rw [hq'.1.reservedCount])
        (fun tx a ha => ?_) fun _ _ => id
      obtain ⟨h1, h2, h3, h4⟩ := hi.sender tx a ha
      refine ⟨fun r hr => ?_, h2, h3, fun hres => hq'.2 tx (h4 hres)⟩
      rw [hq'.1.nonces]
      exact h1 r hr
    | crash =>
      simp only [RelayHost.machine, pure_ok, Prod.mk.injEq] at hrel
      obtain ⟨rfl, rfl⟩ := hrel
      exact hi.moves hr' hi.data le_rfl le_rfl (fun tx a ha => (by cases ha)) fun k t ht => by cases ht
  | audit k w =>
    simp only [WorkerHost.machine, bind_ok, revertIf_ok, pure_ok] at hs'
    obtain ⟨-, -, hset⟩ := hs'
    have hp := start_proceeds hi.data.baseline hi.data.jobs hi.data.nonces
    have hinv := hi.settleAudit (k := k) (w := w) hp fun a ha => by
      rw [ha] at hp
      exact ⟨hi.data.baseline, hi.data.jobs, hi.data.relayNonce, le_rfl, hp.1, hp.2⟩
    rw [hset] at hinv
    exact hinv
  | auditReply k reply w =>
    simp only [WorkerHost.machine, bind_ok, revertIf_ok, orRevert_ok, pure_ok] at hs'
    obtain ⟨t, ht, -, htr, step, hres, hset⟩ := hs'
    have hti := hi.audits k t ht
    have hp := resume_proceeds hti hi.data.jobs (hi.data.mined_le hi.hub) hi.data.latest
      (fun n hn => hi.data.pending_le hi.hub hn) (by simpa using htr) hres
    have hinv := hi.settleAudit (k := k) (w := w) hp fun a ha => by
      rw [ha] at hp
      exact ⟨hti.baseline, hti.jobs, hti.relayNonce, hti.nonces, hp.1, hp.2⟩
    rw [hset] at hinv
    exact hinv
  | block hash included queries =>
    simp only [WorkerHost.machine, bind_ok, pure_ok, Prod.mk.injEq] at hs'
    obtain ⟨hub', hb, rfl, rfl⟩ := hs'
    obtain ⟨hg, hsound, hsent⟩ := block_grows hi.hub hb
    refine ⟨hi.grows hg hsound fun r hr' => ?_, fun reason => by simp⟩
    rw [hsent] at hr'
    exact hi.data.sent r hr'

theorem WorkerInv.initial (genesis : BlockHash) : WorkerInv env (.initial genesis) := by
  refine ⟨⟨[], ⟨List.nodup_nil, fun r h => (by cases h), fun r h => (by cases h),
    fun r h => (by cases h), fun r h => (by cases h), fun j h => (by cases h), List.nodup_nil,
    fun _ => List.nodup_nil, fun tx a h => (by cases h)⟩⟩, ⟨by simp [WorkerHost.initial],
    fun m h => (by cases h), rfl, fun r h => (by cases h)⟩, ⟨fun j h => (by cases h), .refl _,
    fun r h => (by cases h), fun r h => (by cases h), Nat.zero_le _, rfl, rfl⟩,
    fun tx a h => (by cases h), fun k t h => (by cases h)⟩

/-- **The worker does not halt itself**: in a run in which no job's failures reach the maximum of
    attempts, no audit installs a hold. -/
theorem worker_not_held {genesis : BlockHash} {es : List WorkerEntry} {s : WorkerHost}
    (hc : HashCommits env) (hr : (WorkerHost.machine env).Run (.initial genesis) es s)
    (hx : ∀ e ∈ es, runsOut env e = false) :
    s.relay.data.hubHold = none ∧ ∀ e ∈ es, ∀ reason, e.out ≠ .held reason := by
  have hrun : ∀ {es s}, (WorkerHost.machine env).Run (.initial genesis) es s →
      (∀ e ∈ es, runsOut env e = false) → WorkerInv env s := fun hr hx =>
    hr.invariant_where (P := fun e => runsOut env e = false) (.initial genesis)
      (fun e he hi hs => (hi.step hc he hs).1) hx
  refine ⟨(hrun hr hx).data.hold, fun e he => ?_⟩
  obtain ⟨es₁, es₂, rfl, h₁, hs, -⟩ := hr.of_mem he
  exact ((hrun h₁ fun x hx' => hx x (List.mem_append_left _ hx')).step hc (hx e he) hs).2

end

/-! Three jobs: the first fails once and is relayed while an audit reads its envelope, the second
    is skipped, the third reverts; an audit of all of it passes. -/

def workerEnv : WorkerEnv := ⟨relayEnv, 2⟩

def workerMachine : Machine WorkerHost WorkerAction WorkerOutput StoreError :=
  WorkerHost.machine workerEnv

theorem hashCommits_workerEnv : HashCommits workerEnv := by
  intro r r' hv hv' hh
  simp only [RelayEnv.validateRelay, bind_ok, orRevert_ok, revertIf_ok, not_or, not_not] at hv hv'
  obtain ⟨t, ht, -, hhash, hn, -⟩ := hv
  obtain ⟨t', ht', -, hhash', hn', -⟩ := hv'
  obtain ⟨b, -, rfl⟩ := Option.map_eq_some_iff.1 ht
  obtain ⟨b', -, rfl⟩ := Option.map_eq_some_iff.1 ht'
  rw [← hhash, ← hhash'] at hh
  rw [← hn, ← hn']
  have h1 := b.isLt
  have h2 := b'.isLt
  have heq := congrArg BitVec.toNat hh
  simp only [relayTransaction, BitVec.toNat_ofNat] at heq ⊢
  omega

def auditedRun : List WorkerAction :=
  let unprocessed : QueryObservation := ⟨.unprocessed, 0, 7, 1, 1⟩
  let observed : QueryObservation := ⟨.confirmed, 1, 8, 2, 1⟩
  let mined : RelayReceipt := ⟨.success, 1, 8⟩
  let reverted : RelayReceipt := ⟨.reverted, 3, 10⟩
  let settle (r : SenderReply) : WorkerAction := .relay (.settle r .committed)
  let store (op : StoreOp) : WorkerAction := .relay (.store op .committed)
  let second : RelayEnvelope :=
    { relayEnvelope 1 with sourceTxHash := 2, queryId := 52 }
  let answer (r : AuditReply) : WorkerAction := .auditReply 0 r .committed
  [store (.initializeSource ⟨0, 10⟩),
    store (.commitSourceRange 1 ⟨4, 14⟩ [⟨0, 2, 12, 0⟩, ⟨1, 3, 13, 1⟩, ⟨2, 3, 13, 2⟩]),
    store (.processFailed 0 "INDEXER_UNAVAILABLE"), store (.attested 0),
    .relay (.step 0 (some (relayPreparation 0))), settle .ready, settle (.observed unprocessed),
    settle .ready, settle (.prepared (relayEnvelope 0)), settle .ready, settle (.receipt none),
    .audit 0 .committed, settle .ready, settle .sent, answer (.number 0), answer (.latest 0),
    .block 8 [(relayEnvelope 0, .success)] [50, 51], answer (.pending 1), .block 9 [] [],
    settle (.receipt (some mined)), settle .ready, settle (.processed true),
    settle (.receipt (some mined)),
    .relay (.step 1 (some (relayPreparation 1))), settle .ready, settle (.observed observed),
    settle .ready, settle (.observed observed),
    .relay (.step 2 (some ⟨52, [1], 500000⟩)), settle .ready, settle (.observed unprocessed),
    settle .ready, settle (.prepared second), settle .ready, settle (.receipt none), settle .ready,
    .block 10 [(second, .reverted)] [], .block 11 [] [], settle .failed,
    settle (.receipt (some reverted)), settle .ready, settle (.receipt (some reverted)),
    .audit 0 .committed, answer (.number 4), answer (.receipt (some ⟨100, 9, 7, .success, 1, 8⟩)),
    answer (.block (some 8)), answer (.processed true), answer (.block (some 8)),
    answer (.receipt (some ⟨101, 9, 7, .reverted, 3, 10⟩)), answer (.block (some 10)),
    answer (.block (some 10)), answer (.block (some 8)), answer (.processed true),
    answer (.block (some 8)), answer (.pending 2), answer (.latest 2)]

theorem worker_not_held_audited :
    (workerMachine.final (.initial 7) auditedRun).relay.data.hubHold = none ∧
    (workerMachine.trace (.initial 7) auditedRun).length = auditedRun.length ∧
    ∀ e ∈ workerMachine.trace (.initial 7) auditedRun, ∀ reason, e.out ≠ .held reason :=
  have h := worker_not_held hashCommits_workerEnv (workerMachine.run_trace (.initial 7) auditedRun)
    (by decide +kernel)
  ⟨h.1, by decide +kernel, h.2⟩

/-- A job that fails three times, and the audit of the next poll. -/
def exhaustedRun : List WorkerAction :=
  let fails : WorkerAction := .relay (.store (.processFailed 0 "INDEXER_UNAVAILABLE") .committed)
  [.relay (.store (.initializeSource ⟨0, 10⟩) .committed),
    .relay (.store (.commitSourceRange 1 ⟨4, 14⟩ [⟨0, 2, 12, 0⟩]) .committed),
    fails, fails, fails, .audit 0 .committed]

/-- **A job that runs out of attempts halts the worker**: it is dead without a history. -/
theorem worker_held_by_dead_job : ¬ ∀ (env : WorkerEnv) (genesis : BlockHash)
    (es : List WorkerEntry) (s : WorkerHost), HashCommits env →
    (WorkerHost.machine env).Run (.initial genesis) es s → s.relay.data.hubHold = none := by
  intro h
  have hheld := h workerEnv 7 _ _ hashCommits_workerEnv
    (workerMachine.run_trace (.initial 7) exhaustedRun)
  exact absurd hheld (by decide +kernel)

end Proofmark
