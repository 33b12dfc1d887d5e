/-
  The safety of revocation delivery.

  `status` is what the delivery can change of a job.  `StatusEffect` reads it off an
  operation, `Progress` says how a pass of the runner goes on, and `RunnerInv` ties the
  jobs that the runner holds to the stored ones.  A pass keeps at most one job outstanding
  as long as it begins with no unsigned job before a signed one.
-/
import Proofmark.Pipeline.RevocationDelivery
import Proofmark.Pipeline.VaultCompliance

namespace Proofmark

open Revert

abbrev DeliveryStatus := Option RevocationTransaction × RevocationJobState

theorem VaultOp.delivers_of_repeats {op : VaultOp} (h : op.repeats = true) :
    op.delivers = false := by
  cases op <;> first | rfl | cases h

theorem VaultOp.delivers_of_retains {op : VaultOp} (h : op.retains = true) :
    op.delivers = false := by
  cases op <;> first | rfl | cases h

namespace VaultData

variable {env : VaultEnv} {d d' d'' : VaultData} {op : VaultOp} {id : RevocationJobId}

/-! ## The status of a job -/

def status (d : VaultData) (id : RevocationJobId) : Option DeliveryStatus :=
  (d.job id).map fun j => (j.transaction, j.state)

/-- The job holds a signed transaction without a receipt. -/
def Outstanding (d : VaultData) (id : RevocationJobId) : Prop :=
  ∃ t s, d.status id = some (some t, s) ∧ s ≠ .confirmed

/-- The jobs keep their status, and new ones are pending and unsigned. -/
def Frame (d d' : VaultData) : Prop :=
  ∀ id, d'.status id = d.status id ∨ d.status id = none ∧ d'.status id = some (none, .pending)

/-- The status of one job is set. -/
def SetsStatus (d : VaultData) (id : RevocationJobId) (x : DeliveryStatus) (d' : VaultData) : Prop :=
  ∀ id', d'.status id' = if id' = id then some x else d.status id'

theorem Frame.refl (d : VaultData) : Frame d d := fun _ => .inl rfl

theorem Frame.trans (h : Frame d d') (h' : Frame d' d'') : Frame d d'' := by
  intro id
  rcases h' id with h2 | ⟨h2, h3⟩
  · rw [h2]
    exact h id
  · rcases h id with h1 | ⟨-, h1⟩
    · exact .inr ⟨h1 ▸ h2, h3⟩
    · rw [h1] at h2
      cases h2

theorem Frame.status (h : Frame d d') {x : DeliveryStatus} (hx : d.status id = some x) :
    d'.status id = some x := by
  rcases h id with h1 | ⟨h1, -⟩
  · exact h1.trans hx
  · rw [hx] at h1
    cases h1

theorem Frame.outstanding (h : Frame d d') (ho : Outstanding d' id) : Outstanding d id := by
  obtain ⟨t, s, hs, hc⟩ := ho
  rcases h id with h1 | ⟨-, h1⟩
  · exact ⟨t, s, h1 ▸ hs, hc⟩
  · rw [h1] at hs
    cases hs

theorem Frame.of_revocations (h : d'.revocations = d.revocations) : Frame d d' := by
  intro id
  left
  rw [VaultData.status, VaultData.status, job, job, h]

theorem status_setJob {j : RevocationJob} (h : (d.job j.id).isSome) :
    SetsStatus d j.id (j.transaction, j.state) (d.setJob j) := by
  intro id
  unfold status setJob job
  split
  · next hid =>
    subst hid
    rw [Keyed.find_change_self fun _ _ => rfl]
    obtain ⟨x, hx⟩ := Option.isSome_iff_exists.1 h
    rw [job] at hx
    rw [hx]
    rfl
  · next hid => rw [Keyed.find_change_of_ne (fun _ _ => rfl) hid]

theorem SetsStatus.frame {x : DeliveryStatus} (h : SetsStatus d id x d') (hx : d.status id = some x) :
    Frame d d' := by
  intro id'
  left
  rw [h id']
  split
  · next he => rw [he, hx]
  · rfl

theorem Frame.queue {r : VaultRecord} {at_ : ℤ} (h : d.queueRevocation r at_ = .ok d') :
    Frame d d' := by
  rcases queue_ok h with ⟨-, rfl⟩ | ⟨-, j, -, hs, hid, ht, hn, rfl⟩
  · exact .refl _
  · intro id
    have hjob : ({ d with revocations := d.revocations ++ [j] } : VaultData).job id =
        if id = j.id then some j else d.job id := Keyed.find_concat hn
    rw [VaultData.status, VaultData.status, hjob]
    by_cases he : id = j.id
    · subst he
      right
      rw [if_pos rfl, hn]
      exact ⟨rfl, by rw [Option.map_some, ht, hs]⟩
    · left
      rw [if_neg he]

theorem Frame.recover {now : ℤ} {l : List VaultRecord}
    (h : l.foldlM (fun d record => d.recoverRecord now record) d = .ok d') : Frame d d' := by
  induction l generalizing d with
  | nil =>
    rw [List.foldlM_nil, pure_ok] at h
    subst h
    exact .refl _
  | cons r l ih =>
    rw [List.foldlM_cons, bind_ok] at h
    obtain ⟨d₁, h1, h2⟩ := h
    refine Frame.trans ?_ (ih h2)
    unfold recoverRecord at h1
    split at h1
    · exact .queue h1
    · cases h1
      exact .refl _

/-- **What an operation does to the status of the jobs.** -/
inductive StatusEffect (d : VaultData) : VaultOp → VaultData → Prop
  | frame (op : VaultOp) (d' : VaultData) (hf : Frame d d')
      (hop : op.delivers = true → ∃ id error, op = .failRevocation id error false) :
    StatusEffect d op d'
  | prepared (id : RevocationJobId) (t : RevocationTransaction) (x : DeliveryStatus)
      (d' : VaultData) (hx : d.status id = some x) (hs : SetsStatus d id (some t, .prepared) d') :
    StatusEffect d (.prepareRevocation id t) d'
  | finished (id : RevocationJobId) (at_ : ℤ) (t : RevocationTransaction) (s : RevocationJobState)
      (d' : VaultData) (hx : d.status id = some (some t, s))
      (hs : SetsStatus d id (some { t with raw := [] }, .confirmed) d') :
    StatusEffect d (.finishRevocation id at_) d'
  | reverted (id : RevocationJobId) (error : String) (x : DeliveryStatus) (d' : VaultData)
      (hx : d.status id = some x) (hs : SetsStatus d id (none, .pending) d') :
    StatusEffect d (.failRevocation id error true) d'

theorem status_effect (h : d.apply env op = .ok d') : StatusEffect d op d' := by
  have hsame (hr : d'.revocations = d.revocations) (hop : op.delivers = false) :
      StatusEffect d op d' :=
    .frame _ _ (.of_revocations hr) fun hd => by rw [hop] at hd; cases hd
  cases apply_effect h with
  | same _ hop =>
    exact hsame rfl (VaultOp.delivers_of_repeats hop)
  | stored r hn he hc hr => exact hsame rfl rfl
  | updated _ r r' hr hs hb => exact hsame rfl (by cases hs <;> rfl)
  | blocked _ r r' at_ _ hr hs hb hstate hq =>
    have hset : Frame d (d.setRecord r') := .of_revocations rfl
    refine .frame _ _ (hset.trans (.queue hq)) fun hd => ?_
    cases hs <;> cases hd
  | controlled _ r c hr hs hop =>
    exact hsame rfl (VaultOp.delivers_of_retains hop)
  | requested r requestId input at_ hr => exact hsame rfl rfl
  | approved r request operator at_ hr hreq hn ho hf => exact hsame rfl rfl
  | erased r request at_ hr hreq hb => exact hsame rfl rfl
  | purged now => exact hsame purge_revocations rfl
  | recovered now _ hr => exact .frame _ _ (.recover hr) fun hd => by cases hd
  | delivered _ j j' hj hs =>
    have hid := hs.kept.1
    have hstatus : d.status j.id = some (j.transaction, j.state) := by rw [status, hj]; rfl
    have hset : SetsStatus d j.id (j'.transaction, j'.state) (d.setJob j') := by
      rw [← hid]
      exact status_setJob (by rw [hid, hj]; rfl)
    cases hs with
    | prepared t hc => exact .prepared _ t _ _ hstatus hset
    | finished at_ t ht =>
      rw [ht] at hstatus
      exact .finished _ at_ t _ _ hstatus hset
    | failed error lastError hc =>
      exact .frame _ _ (hset.frame hstatus) fun _ => ⟨_, _, rfl⟩
    | reverted error lastError hc => exact .reverted _ error _ _ hstatus hset
    | observed expected o recordedAt observations =>
      exact .frame _ _ (hset.frame hstatus) fun hd => by cases hd

/-- Jobs have distinct ids. -/
theorem nodup_jobs (hn : (d.revocations.map RevocationJob.id).Nodup)
    (h : d.apply env op = .ok d') : (d'.revocations.map RevocationJob.id).Nodup := by
  have hqueue {d d' : VaultData} {r : VaultRecord} {at_ : ℤ}
      (hn : (d.revocations.map RevocationJob.id).Nodup) (h : d.queueRevocation r at_ = .ok d') :
      (d'.revocations.map RevocationJob.id).Nodup := by
    rcases queue_ok h with ⟨-, rfl⟩ | ⟨-, j, -, -, hid, -, hj, rfl⟩
    · exact hn
    · exact Keyed.nodup_concat hn hj
  cases apply_effect h with
  | blocked _ r r' at_ _ hr hs hb hstate hq =>
    have hset : ((d.setRecord r').revocations.map RevocationJob.id).Nodup := hn
    exact hqueue hset hq
  | purged now =>
    rw [purge_revocations]
    exact hn
  | recovered now _ hr =>
    clear h
    generalize d.records = l at hr
    induction l generalizing d with
    | nil =>
      rw [List.foldlM_nil, pure_ok] at hr
      exact hr ▸ hn
    | cons r l ih =>
      rw [List.foldlM_cons, bind_ok] at hr
      obtain ⟨d₁, h1, h2⟩ := hr
      unfold recoverRecord at h1
      split at h1
      · exact ih (hqueue hn h1) h2
      · cases h1
        exact ih hn h2
  | delivered _ j j' hj hs =>
    rw [setJob, Keyed.keys_change fun _ _ => rfl]
    exact hn
  | _ => exact hn

end VaultData

open VaultData

namespace OutboxHost

variable {env : DeliveryEnv} {h h' : OutboxHost} {op : VaultOp} {run : DeliveryRun}
  {reply : DeliveryReply} {d d' : VaultData}

/-! ## The runner -/

/-- **Where a write of the runner leaves the host.** -/
inductive MutateEffect (env : DeliveryEnv) (h : OutboxHost) (op : VaultOp) :
    OutboxHost → Except DeliveryError Unit → Prop
  | refused (h' : OutboxHost) (e : DeliveryError) (hd : h'.data = h.data) (hr : h'.run = h.run) :
    MutateEffect env h op h' (.error e)
  | committed (h' : OutboxHost) (r : Except DeliveryError Unit)
      (ha : h.data.apply env.vault op = .ok h'.data) (hr : h'.run = h.run) :
    MutateEffect env h op h' r

theorem mutate_effect (op : VaultOp) (w : EnvelopeWrite) :
    MutateEffect env h op (h.mutate env op w).1 (h.mutate env op w).2 := by
  unfold mutate
  split
  · exact .refused _ _ rfl rfl
  · split
    · exact .refused _ _ rfl rfl
    · split
      · exact .refused _ _ rfl rfl
      · next d ha =>
        cases w with
        | acknowledged => exact .committed _ _ ha rfl
        | beforeRename => exact .refused _ _ rfl rfl
        | afterRename => exact .committed _ _ ha rfl

theorem giveUp_effect (job : RevocationJob) (w : EnvelopeWrite) :
    Frame h.data (h.giveUp env job w).data ∧ (h.giveUp env job w).run = none ∧
    ((h.data.revocations.map RevocationJob.id).Nodup →
      ((h.giveUp env job w).data.revocations.map RevocationJob.id).Nodup) := by
  unfold giveUp
  have heff := @mutate_effect env h (.failRevocation job.id
    "transport or persistence failure; reconcile by stored transaction hash" false) w
  generalize h.mutate env _ w = r at heff
  obtain ⟨h', r⟩ := r
  dsimp only at heff
  refine ⟨?_, rfl, fun hn => ?_⟩
  · cases heff with
    | refused e hd hr =>
      change Frame h.data h'.data
      rw [hd]
      exact .refl _
    | committed _ ha hr =>
      generalize hop : VaultOp.failRevocation job.id _ false = op at ha
      cases status_effect ha with
      | frame _ _ hf _ => exact hf
      | _ => cases hop
  · cases heff with
    | refused e hd hr =>
      change (h'.data.revocations.map RevocationJob.id).Nodup
      rw [hd]
      exact hn
    | committed _ ha hr => exact nodup_jobs hn ha

/-- The receipt of the current job's transaction, as it is recorded. -/
inductive Settled (d : VaultData) (run : DeliveryRun) (reply : DeliveryReply) : VaultData → Prop
  | success (t : RevocationTransaction) (s : RevocationJobState) (d' : VaultData)
      (ha : run.await = .receipt ∨ run.await = .wait) (hr : reply = .receipt (some .success))
      (hx : d.status run.job.id = some (some t, s))
      (hs : SetsStatus d run.job.id (some { t with raw := [] }, .confirmed) d') :
    Settled d run reply d'
  | reverted (x : DeliveryStatus) (d' : VaultData)
      (ha : run.await = .receipt ∨ run.await = .wait) (hr : reply = .receipt (some .reverted))
      (hx : d.status run.job.id = some x) (hs : SetsStatus d run.job.id (none, .pending) d') :
    Settled d run reply d'

/-- **What a pass does to the jobs between two awaits.** -/
inductive JobEffect (d : VaultData) (run : DeliveryRun) (reply : DeliveryReply) : VaultData → Prop
  | frame (d' : VaultData) (hf : Frame d d') : JobEffect d run reply d'
  | signed (t : RevocationTransaction) (d' : VaultData) (ha : run.await = .prepare)
      (hs : SetsStatus d run.job.id (some t, .prepared) d') : JobEffect d run reply d'
  | settled (d' : VaultData) (hs : Settled d run reply d') : JobEffect d run reply d'

/-- **How a pass goes on.** -/
inductive Progress (h : OutboxHost) (run : DeliveryRun) (reply : DeliveryReply) : OutboxHost → Prop
  | waits (a : DeliveryAwait) (h' : OutboxHost) (hd : h'.data = h.data)
      (hr : h'.run = some { run with await := a }) (ha : run.await ≠ .prepare)
      (ha' : a ≠ .prepare) : Progress h run reply h'
  | signed (t : RevocationTransaction) (j : RevocationJob) (h' : OutboxHost)
      (ha : run.await = .prepare) (hs : SetsStatus h.data run.job.id (some t, .prepared) h'.data)
      (hj : h'.data.job run.job.id = some j)
      (hr : h'.run = some { run with job := j, await := .receipt }) : Progress h run reply h'
  | stopped (d : VaultData) (h' : OutboxHost) (hj : JobEffect h.data run reply d)
      (hf : Frame d h'.data) (hr : h'.run = none) : Progress h run reply h'
  | moved (x : RevocationJob) (rest : List RevocationJob) (h' : OutboxHost)
      (hs : Settled h.data run reply h'.data) (hx : run.rest = x :: rest)
      (hr : h'.run = some ⟨x, if x.transaction.isNone then .prepare else .receipt, rest⟩) :
    Progress h run reply h'

theorem next_effect (jobs : List RevocationJob) (w : EnvelopeWrite) :
    (Frame h.data (h.next env jobs w).data ∧ (h.next env jobs w).run = none) ∨
    ∃ x rest, jobs = x :: rest ∧ (h.next env jobs w).data = h.data ∧ (h.next env jobs w).run =
      some ⟨x, if x.transaction.isNone then .prepare else .receipt, rest⟩ := by
  unfold next
  split
  · exact .inl ⟨.refl _, rfl⟩
  · next job rest =>
    cases ht : job.transaction with
    | none => exact .inr ⟨job, rest, rfl, rfl, by rw [ht]; rfl⟩
    | some t =>
      dsimp only
      split
      · exact .inr ⟨job, rest, rfl, rfl, by rw [ht]; rfl⟩
      · exact .inl ⟨(giveUp_effect job w).1, (giveUp_effect job w).2.1⟩

theorem settle_progress {r : Option RevocationReceipt} {now : ℤ} {w w' : EnvelopeWrite}
    (ha : run.await = .receipt ∨ run.await = .wait) :
    Progress h run (.receipt r) (h.settle env run r now w w') := by
  unfold settle
  have heff := @mutate_effect env h (settlement run.job.id now r) w
  -- what the write did to the current job
  have hjob : JobEffect h.data run (.receipt r) (h.mutate env (settlement run.job.id now r) w).1.data ∧
      ((h.mutate env (settlement run.job.id now r) w).2 = .ok () → r.isSome = true →
        Settled h.data run (.receipt r) (h.mutate env (settlement run.job.id now r) w).1.data) := by
    generalize h.mutate env (settlement run.job.id now r) w = q at heff
    obtain ⟨h', o⟩ := q
    dsimp only at heff ⊢
    cases heff with
    | refused e hd hr =>
      rw [hd]
      exact ⟨.frame _ (.refl _), fun he => by cases he⟩
    | committed _ hap hr =>
      cases r with
      | none =>
        refine ⟨.frame _ ?_, fun _ hn => by cases hn⟩
        generalize hop : settlement run.job.id now none = op at hap
        cases status_effect hap with
        | frame _ _ hf _ => exact hf
        | _ => cases hop
      | some r =>
        cases r with
        | success =>
          generalize hop : settlement run.job.id now (some .success) = op at hap
          cases status_effect hap with
          | frame _ _ hf hdel =>
            subst hop
            obtain ⟨_, _, hn⟩ := hdel rfl
            cases hn
          | finished id at_ t s _ hx hs =>
            simp only [settlement, VaultOp.finishRevocation.injEq] at hop
            obtain ⟨rfl, -⟩ := hop
            have hset : Settled h.data run (.receipt (some .success)) _ := .success t s _ ha rfl hx hs
            exact ⟨.settled _ hset, fun _ _ => hset⟩
          | _ => cases hop
        | reverted =>
          generalize hop : settlement run.job.id now (some .reverted) = op at hap
          cases status_effect hap with
          | frame _ _ hf hdel =>
            subst hop
            obtain ⟨_, _, hn⟩ := hdel rfl
            cases hn
          | reverted id error x _ hx hs =>
            simp only [settlement, VaultOp.failRevocation.injEq] at hop
            obtain ⟨rfl, -⟩ := hop
            have hset : Settled h.data run (.receipt (some .reverted)) _ := .reverted x _ ha rfl hx hs
            exact ⟨.settled _ hset, fun _ _ => hset⟩
          | _ => cases hop
  generalize h.mutate env (settlement run.job.id now r) w = q at hjob
  obtain ⟨h', _ | u⟩ := q
  · exact .stopped _ _ hjob.1 (giveUp_effect run.job w').1 (giveUp_effect run.job w').2.1
  · dsimp only at hjob ⊢
    cases r with
    | none => exact .stopped _ _ hjob.1 (.refl _) rfl
    | some r =>
      have hset := hjob.2 rfl rfl
      rw [if_neg (by simp)]
      rcases @next_effect env h' run.rest w' with ⟨hf, hr⟩ | ⟨x, rest, hx, hd, hr⟩
      · exact .stopped _ _ (.settled _ hset) hf hr
      · exact .moved x rest _ (by rw [hd]; exact hset) hx hr

theorem receive_progress {now : ℤ} {w w' : EnvelopeWrite} {q : OutboxHost × DeliveryOutput}
    (hq : h.receive env run reply now w w' = some q) : Progress h run reply q.1 := by
  have hgive : Progress h run reply (h.giveUp env run.job w') :=
    .stopped _ _ (.frame _ (.refl _)) (giveUp_effect run.job w').1 (giveUp_effect run.job w').2.1
  unfold receive at hq
  split at hq
  · next t ha =>
    have heff := @mutate_effect env h (.prepareRevocation run.job.id t) w
    generalize h.mutate env (.prepareRevocation run.job.id t) w = m at heff hq
    have hsigned (h' : OutboxHost) (ho : h.data.apply env.vault (.prepareRevocation run.job.id t) =
        .ok h'.data) : SetsStatus h.data run.job.id (some t, .prepared) h'.data := by
      generalize hop : VaultOp.prepareRevocation run.job.id t = op at ho
      cases status_effect ho with
      | frame _ _ hf hdel =>
        subst hop
        obtain ⟨_, _, hn⟩ := hdel rfl
        cases hn
      | prepared id t x _ hx hs =>
        cases hop
        exact hs
      | _ => cases hop
    obtain ⟨h', _ | u⟩ := m
    · cases hq
      have hf := (@giveUp_effect env h' run.job w').1
      cases heff with
      | refused e hd hr =>
        exact .stopped _ _ (.frame _ (.refl _)) (hd ▸ hf) (giveUp_effect run.job w').2.1
      | committed _ hap hr =>
        exact .stopped _ _ (.signed t _ ha (hsigned h' hap)) hf (giveUp_effect run.job w').2.1
    · cases heff with
      | committed _ hap hr =>
        have hs := hsigned h' hap
        dsimp only at hq
        -- the stored job is there
        obtain ⟨j, hj⟩ : ∃ j, h'.data.job run.job.id = some j := by
          have hst := hs run.job.id
          rw [if_pos rfl, VaultData.status, Option.map_eq_some_iff] at hst
          obtain ⟨j, hj, -⟩ := hst
          exact ⟨j, hj⟩
        rw [hj, Option.getD_some] at hq
        split at hq
        · cases hq
          exact .signed t j _ ha hs hj rfl
        · cases hq
          exact .stopped _ _ (.signed t _ ha hs) (giveUp_effect j w').1 (giveUp_effect j w').2.1
  · next ha =>
    split at hq
    · cases hq
    · split at hq
      · cases hq
        exact hgive
      · cases hq
        exact .waits .broadcast _ rfl rfl (by rw [ha]; simp) (by simp)
  · next ha =>
    cases hq
    exact settle_progress (.inl ha)
  · next ha =>
    cases hq
    exact .waits .wait _ rfl rfl (by rw [ha]; simp) (by simp)
  · next ha =>
    cases hq
    exact .waits .wait _ rfl rfl (by rw [ha]; simp) (by simp)
  · next ha =>
    cases hq
    exact settle_progress (.inr ha)
  · cases hq
    exact hgive
  · cases hq
    exact hgive
  · cases hq
    exact hgive
  · cases hq

/-! ## Invariants -/

/-- The job that the runner holds is stored with the same transaction and not confirmed. -/
def Holds (d : VaultData) (x : RevocationJob) : Prop :=
  ∃ s, d.status x.id = some (x.transaction, s) ∧ s ≠ .confirmed

structure RunnerInv (h : OutboxHost) : Prop where
  nodup : (h.data.revocations.map RevocationJob.id).Nodup
  holds : ∀ run, h.run = some run → ∀ x ∈ run.job :: run.rest, Holds h.data x
  distinct : ∀ run, h.run = some run → ((run.job :: run.rest).map RevocationJob.id).Nodup
  await : ∀ run, h.run = some run → (run.await = .prepare ↔ run.job.transaction = none)

theorem Holds.frame {x : RevocationJob} (hx : Holds d x) (hf : Frame d d') : Holds d' x := by
  obtain ⟨s, hs, hc⟩ := hx
  exact ⟨s, hf.status hs, hc⟩

theorem Holds.other {x : RevocationJob} {id : RevocationJobId} {y : DeliveryStatus}
    (hx : Holds d x) (hs : SetsStatus d id y d') (hne : x.id ≠ id) : Holds d' x := by
  obtain ⟨s, hst, hc⟩ := hx
  exact ⟨s, by rw [hs, if_neg hne, hst], hc⟩

theorem Settled.other {x : RevocationJob} (hs : Settled d run reply d') (hx : Holds d x)
    (hne : x.id ≠ run.job.id) : Holds d' x := by
  cases hs with
  | success t s _ ha hr hx' hs => exact hx.other hs hne
  | reverted y _ ha hr hx' hs => exact hx.other hs hne

theorem rest_ne (hn : ((run.job :: run.rest).map RevocationJob.id).Nodup) {x : RevocationJob}
    (hx : x ∈ run.rest) : x.id ≠ run.job.id := fun he =>
  (List.nodup_cons.1 hn).1 (he ▸ List.mem_map_of_mem hx)

/-- The runner at the start of a job. -/
theorem await_iff (x : RevocationJob) :
    (if x.transaction.isNone then DeliveryAwait.prepare else .receipt) = .prepare ↔
      x.transaction = none := by
  cases x.transaction <;> simp

theorem RunnerInv.progress (hi : RunnerInv h) (hrun : h.run = some run)
    (hn : (h'.data.revocations.map RevocationJob.id).Nodup) (hp : Progress h run reply h') :
    RunnerInv h' := by
  have hholds := hi.holds run hrun
  have hdistinct := hi.distinct run hrun
  have hawait := hi.await run hrun
  cases hp with
  | waits a _ hd hr ha ha' =>
    refine ⟨hn, fun run' hr' x hx => ?_, fun run' hr' => ?_, fun run' hr' => ?_⟩
    all_goals rw [hr, Option.some.injEq] at hr'; subst hr'
    · rw [hd]
      exact hholds x hx
    · exact hdistinct
    · exact ⟨fun he => absurd he ha', fun he => absurd (hawait.2 he) ha⟩
  | signed t j _ ha hs hj hr =>
    have hst := hs run.job.id
    rw [if_pos rfl, VaultData.status, hj, Option.map_some, Option.some.injEq, Prod.mk.injEq] at hst
    have hjid := job_id hj
    refine ⟨hn, fun run' hr' x hx => ?_, fun run' hr' => ?_, fun run' hr' => ?_⟩
    all_goals rw [hr, Option.some.injEq] at hr'; subst hr'
    · rcases List.mem_cons.1 hx with rfl | hx
      · refine ⟨.prepared, ?_, by simp⟩
        have hx' : x.transaction = some t := hst.1
        rw [hjid, hs, if_pos rfl, hx']
      · exact (hholds x (List.mem_cons_of_mem _ hx)).other hs (rest_ne hdistinct hx)
    · change (j.id :: _).Nodup
      rw [hjid]
      exact hdistinct
    · change DeliveryAwait.receipt = .prepare ↔ j.transaction = none
      rw [hst.1]
      simp
  | stopped d _ hj hf hr =>
    refine ⟨hn, fun run' hr' => ?_, fun run' hr' => ?_, fun run' hr' => ?_⟩
    all_goals rw [hr] at hr'; cases hr'
  | moved x rest _ hs hx hr =>
    rw [hx] at hholds hdistinct
    refine ⟨hn, fun run' hr' y hy => ?_, fun run' hr' => ?_, fun run' hr' => ?_⟩
    all_goals rw [hr, Option.some.injEq] at hr'; subst hr'
    · refine hs.other (hholds y (List.mem_cons_of_mem _ hy)) ?_
      rw [← hx] at hdistinct
      exact rest_ne hdistinct (hx ▸ hy)
    · exact (List.nodup_cons.1 hdistinct).2
    · exact await_iff x

/-- A stored job has its status. -/
theorem status_of_mem (hn : (d.revocations.map RevocationJob.id).Nodup) {j : RevocationJob}
    (hj : j ∈ d.revocations) : d.status j.id = some (j.transaction, j.state) := by
  have hjob : d.job j.id = some j := Keyed.find_of_mem hn hj
  rw [VaultData.status, hjob]
  rfl

theorem listPending_mem {j : RevocationJob} (hj : j ∈ h.listPendingRevocations) :
    j ∈ h.data.revocations ∧ j.state ≠ .confirmed := by
  obtain ⟨hj, hs⟩ := List.mem_filter.1 hj
  exact ⟨hj, of_decide_eq_true hs⟩

/-- The operations of other processes. -/
theorem RunnerInv.frame (hi : RunnerInv h) (hn : (h'.data.revocations.map RevocationJob.id).Nodup)
    (hf : Frame h.data h'.data) (hr : h'.run = h.run) : RunnerInv h' :=
  ⟨hn, fun run hrun x hx => (hi.holds run (hr ▸ hrun) x hx).frame hf,
    fun run hrun => hi.distinct run (hr ▸ hrun), fun run hrun => hi.await run (hr ▸ hrun)⟩

/-- The runner is idle. -/
theorem RunnerInv.idle (hn : (h'.data.revocations.map RevocationJob.id).Nodup) (hr : h'.run = none) :
    RunnerInv h' := by
  refine ⟨hn, fun run hrun => ?_, fun run hrun => ?_, fun run hrun => ?_⟩
  all_goals rw [hr] at hrun; cases hrun

theorem RunnerInv.started (hn : (h.data.revocations.map RevocationJob.id).Nodup)
    {x : RevocationJob} {rest : List RevocationJob} (hx : h.listPendingRevocations = x :: rest)
    (hd : h'.data = h.data)
    (hr : h'.run = some ⟨x, if x.transaction.isNone then .prepare else .receipt, rest⟩) :
    RunnerInv h' := by
  refine ⟨hd ▸ hn, fun run hrun y hy => ?_, fun run hrun => ?_, fun run hrun => ?_⟩
  all_goals rw [hr, Option.some.injEq] at hrun; subst hrun
  · dsimp only at hy
    rw [← hx] at hy
    obtain ⟨hy, hs⟩ := listPending_mem hy
    exact ⟨y.state, by rw [hd]; exact status_of_mem hn hy, hs⟩
  · dsimp only
    rw [← hx]
    exact hn.sublist (List.filter_sublist.map _)
  · exact await_iff x

/-- **What a step of the machine is.** -/
inductive StepEffect (env : DeliveryEnv) (h : OutboxHost) : OutboxAction → OutboxHost → Prop
  | started (w : EnvelopeWrite) (x : RevocationJob) (rest : List RevocationJob) (h' : OutboxHost)
      (hx : h.listPendingRevocations = x :: rest) (hd : h'.data = h.data)
      (hr : h'.run = some ⟨x, if x.transaction.isNone then .prepare else .receipt, rest⟩) :
    StepEffect env h (.begin_ w) h'
  | replied (r : DeliveryReply) (now : ℤ) (w w' : EnvelopeWrite) (run : DeliveryRun)
      (h' : OutboxHost) (hrun : h.run = some run) (hp : Progress h run r h') :
    StepEffect env h (.reply r now w w') h'
  | framed (a : OutboxAction) (h' : OutboxHost) (hf : Frame h.data h'.data)
      (hr : h'.run = h.run ∨ h'.run = none) : StepEffect env h a h'

theorem nodup_mutate (hn : (h.data.revocations.map RevocationJob.id).Nodup) (op : VaultOp)
    (w : EnvelopeWrite) :
    ((h.mutate env op w).1.data.revocations.map RevocationJob.id).Nodup := by
  have heff := @mutate_effect env h op w
  generalize h.mutate env op w = q at heff
  obtain ⟨h', r⟩ := q
  dsimp only at heff ⊢
  cases heff with
  | refused e hd hr =>
    rw [hd]
    exact hn
  | committed _ ha hr => exact nodup_jobs hn ha

theorem nodup_next (hn : (h.data.revocations.map RevocationJob.id).Nodup)
    (jobs : List RevocationJob) (w : EnvelopeWrite) :
    ((h.next env jobs w).data.revocations.map RevocationJob.id).Nodup := by
  unfold next
  split
  · exact hn
  · split
    · exact hn
    · split
      · exact hn
      · exact (giveUp_effect _ w).2.2 hn

theorem nodup_settle (hn : (h.data.revocations.map RevocationJob.id).Nodup)
    (r : Option RevocationReceipt) (now : ℤ) (w w' : EnvelopeWrite) :
    ((h.settle env run r now w w').data.revocations.map RevocationJob.id).Nodup := by
  have hm := @nodup_mutate env h hn (settlement run.job.id now r) w
  unfold settle
  generalize h.mutate env (settlement run.job.id now r) w = q at hm
  obtain ⟨h', _ | u⟩ := q
  · exact (giveUp_effect _ w').2.2 hm
  · dsimp only at hm ⊢
    split
    · exact hm
    · exact nodup_next hm _ w'

theorem nodup_receive (hn : (h.data.revocations.map RevocationJob.id).Nodup) {now : ℤ}
    {w w' : EnvelopeWrite} {q : OutboxHost × DeliveryOutput}
    (hq : h.receive env run reply now w w' = some q) :
    (q.1.data.revocations.map RevocationJob.id).Nodup := by
  have hgive : ((h.giveUp env run.job w').data.revocations.map RevocationJob.id).Nodup :=
    (giveUp_effect run.job w').2.2 hn
  unfold receive at hq
  split at hq
  · next t _ =>
    have hm := @nodup_mutate env h hn (.prepareRevocation run.job.id t) w
    generalize h.mutate env (.prepareRevocation run.job.id t) w = m at hq hm
    obtain ⟨h', _ | u⟩ := m
    · cases hq
      exact (giveUp_effect _ w').2.2 hm
    · dsimp only at hq
      split at hq
      · cases hq
        exact hm
      · cases hq
        exact (giveUp_effect _ w').2.2 hm
  · split at hq
    · cases hq
    · split at hq
      · cases hq
        exact hgive
      · cases hq
        exact hn
  · cases hq
    exact nodup_settle hn _ _ _ _
  · cases hq
    exact hn
  · cases hq
    exact hn
  · cases hq
    exact nodup_settle hn _ _ _ _
  · cases hq
    exact hgive
  · cases hq
    exact hgive
  · cases hq
    exact hgive
  · cases hq

theorem step_effect {e : OutboxStep} (hs : (machine env).IsStep e)
    (hn : (e.pre.data.revocations.map RevocationJob.id).Nodup) :
    StepEffect env e.pre e.act e.post ∧ (e.post.data.revocations.map RevocationJob.id).Nodup := by
  obtain ⟨h, a, out, h'⟩ := e
  change (machine env).step h a = .ok (h', out) at hs
  dsimp only at hn ⊢
  cases a with
  | begin_ w =>
    simp only [machine, bind_ok, pure_ok, Prod.mk.injEq] at hs
    obtain ⟨-, -, -, -, rfl, -⟩ := hs
    refine ⟨?_, nodup_next hn _ w⟩
    rcases @next_effect env h h.listPendingRevocations w with ⟨hf, hr⟩ | ⟨x, rest, hx, hd, hr⟩
    · exact .framed _ _ hf (.inr hr)
    · exact .started w x rest _ hx hd hr
  | reply r now w w' =>
    simp only [machine, bind_ok, orRevert_ok] at hs
    obtain ⟨run, hrun, hq⟩ := hs
    exact ⟨.replied r now w w' run h' hrun (receive_progress hq), nodup_receive hn hq⟩
  | operate op w =>
    simp only [machine, bind_ok, revertIf_ok, mapError_ok, pure_ok, Prod.mk.injEq,
      Bool.not_eq_true] at hs
    obtain ⟨-, hdel, -, -, d, hd, rfl, -⟩ := hs
    have hf : Frame h.data d := by
      cases status_effect hd with
      | frame _ _ hf _ => exact hf
      | _ => cases hdel
    cases w with
    | acknowledged => exact ⟨.framed _ _ hf (.inl rfl), nodup_jobs hn hd⟩
    | beforeRename => exact ⟨.framed _ _ (.refl _) (.inl rfl), hn⟩
    | afterRename => exact ⟨.framed _ _ hf (.inl rfl), nodup_jobs hn hd⟩
  | crash =>
    simp only [machine, pure_ok, Prod.mk.injEq] at hs
    obtain ⟨rfl, -⟩ := hs
    exact ⟨.framed _ _ (.refl _) (.inr rfl), hn⟩
  | unlock =>
    simp only [machine, bind_ok, pure_ok, Prod.mk.injEq] at hs
    obtain ⟨-, -, rfl, -⟩ := hs
    exact ⟨.framed _ _ (.refl _) (.inl rfl), hn⟩

theorem RunnerInv.step {e : OutboxStep} (hi : RunnerInv e.pre) (hs : (machine env).IsStep e) :
    RunnerInv e.post := by
  obtain ⟨heff, hn⟩ := step_effect hs hi.nodup
  obtain ⟨h, a, out, h'⟩ := e
  dsimp only at hi heff hn ⊢
  cases heff with
  | started w x rest _ hx hd hr => exact .started hi.nodup hx hd hr
  | replied r now w w' run _ hrun hp => exact hi.progress hrun hn hp
  | framed _ _ hf hr =>
    rcases hr with hr | hr
    · exact hi.frame hn hf hr
    · exact .idle hn hr

theorem runnerInv_initial : RunnerInv initial := .idle List.nodup_nil rfl

theorem runnerInv_run {es : List OutboxStep} (hr : (machine env).Run initial es h) : RunnerInv h :=
  hr.invariant runnerInv_initial fun _ hi hs => hi.step hs

/-! ## Lossless delivery -/

/-- The step brings the receipt of the transaction that the runner holds for the job. -/
def Answered (e : OutboxStep) (id : RevocationJobId) (t : RevocationTransaction)
    (r : RevocationReceipt) : Prop :=
  ∃ run now w w', e.pre.run = some run ∧ (run.await = .receipt ∨ run.await = .wait) ∧
    run.job.id = id ∧ run.job.transaction = some t ∧ e.act = .reply (.receipt (some r)) now w w'

/-- **What a step may do to a job**: sign it when it holds no transaction, confirm it on the
    success receipt of its own transaction, and drop that transaction on its revert. -/
inductive Lossless (e : OutboxStep) (id : RevocationJobId) : DeliveryStatus → DeliveryStatus → Prop
  | kept (x : DeliveryStatus) : Lossless e id x x
  | signed (t : RevocationTransaction) (s : RevocationJobState) (hs : s ≠ .confirmed) :
    Lossless e id (none, s) (some t, .prepared)
  | confirmed (t : RevocationTransaction) (s : RevocationJobState) (h : Answered e id t .success) :
    Lossless e id (some t, s) (some { t with raw := [] }, .confirmed)
  | reverted (t : RevocationTransaction) (s : RevocationJobState) (hs : s ≠ .confirmed)
      (h : Answered e id t .reverted) : Lossless e id (some t, s) (none, .pending)

/-- A job whose status a step sets. -/
theorem lossless_set {e : OutboxStep} {id id' : RevocationJobId} {x y z : DeliveryStatus}
    (hs : SetsStatus d id y d') (hx : d.status id = some x) (hl : Lossless e id x y)
    (hz : d.status id' = some z) : ∃ z', d'.status id' = some z' ∧ Lossless e id' z z' := by
  by_cases hid : id' = id
  · subst hid
    rw [hx, Option.some.injEq] at hz
    subst hz
    exact ⟨y, by rw [hs, if_pos rfl], hl⟩
  · exact ⟨z, by rw [hs, if_neg hid, hz], .kept z⟩

theorem Settled.lossless {e : OutboxStep} {now : ℤ} {w w' : EnvelopeWrite} {id : RevocationJobId}
    {z : DeliveryStatus} (hi : RunnerInv e.pre) (hrun : e.pre.run = some run)
    (hact : e.act = .reply reply now w w') (hs : Settled e.pre.data run reply d')
    (hz : e.pre.data.status id = some z) : ∃ z', d'.status id = some z' ∧ Lossless e id z z' := by
  obtain ⟨s₀, hst, hc⟩ := hi.holds run hrun run.job List.mem_cons_self
  have hawait := hi.await run hrun
  cases hs with
  | success t s _ ha hr hx hs =>
    subst hr
    rw [hst, Option.some.injEq, Prod.mk.injEq] at hx
    rw [hx.1] at hst
    exact lossless_set hs hst (.confirmed t s₀ ⟨run, now, w, w', hrun, ha, rfl, hx.1, hact⟩) hz
  | reverted x _ ha hr hx hs =>
    subst hr
    cases ht : run.job.transaction with
    | none =>
      rw [hawait.2 ht] at ha
      rcases ha with ha | ha <;> cases ha
    | some t =>
      rw [ht] at hst
      exact lossless_set hs hst (.reverted t s₀ hc ⟨run, now, w, w', hrun, ha, rfl, ht, hact⟩) hz

theorem signed_lossless {e : OutboxStep} {id : RevocationJobId} {t : RevocationTransaction}
    {z : DeliveryStatus} (hi : RunnerInv e.pre) (hrun : e.pre.run = some run)
    (ha : run.await = .prepare) (hs : SetsStatus e.pre.data run.job.id (some t, .prepared) d')
    (hz : e.pre.data.status id = some z) : ∃ z', d'.status id = some z' ∧ Lossless e id z z' := by
  obtain ⟨s₀, hst, hc⟩ := hi.holds run hrun run.job List.mem_cons_self
  rw [(hi.await run hrun).1 ha] at hst
  exact lossless_set hs hst (.signed t s₀ hc) hz

/-- **Each step is lossless.** -/
theorem lossless_step {e : OutboxStep} (hi : RunnerInv e.pre) (hs : (machine env).IsStep e)
    {id : RevocationJobId} {z : DeliveryStatus} (hz : e.pre.data.status id = some z) :
    ∃ z', e.post.data.status id = some z' ∧ Lossless e id z z' := by
  obtain ⟨heff, -⟩ := step_effect hs hi.nodup
  generalize ha : e.act = a at heff
  generalize hp : e.post = p at heff
  cases heff with
  | started w x rest _ hx hd hr => exact ⟨z, by rw [hd, hz], .kept z⟩
  | framed _ _ hf hr => exact ⟨z, hf.status hz, .kept z⟩
  | replied r now w w' run _ hrun hprog =>
    cases hprog with
    | waits a _ hd hr ha ha' => exact ⟨z, by rw [hd, hz], .kept z⟩
    | signed t j _ hpr hs hj hr => exact signed_lossless hi hrun hpr hs hz
    | moved x rest _ hs hx hr => exact hs.lossless hi hrun ha hz
    | stopped d₁ _ hj hf hr =>
      obtain ⟨z', hz', hl⟩ : ∃ z', d₁.status id = some z' ∧ Lossless e id z z' := by
        cases hj with
        | frame _ hf => exact ⟨z, hf.status hz, .kept z⟩
        | signed t _ hpr hs => exact signed_lossless hi hrun hpr hs hz
        | settled _ hs => exact hs.lossless hi hrun ha hz
      exact ⟨z', hf.status hz', hl⟩

/-! ## Single flight -/

/-- No unsigned job stands before a signed one among the unconfirmed jobs. -/
def SignedFirst (h : OutboxHost) : Prop :=
  h.listPendingRevocations.Pairwise fun a b => b.transaction.isSome → a.transaction.isSome

instance (h : OutboxHost) : Decidable (SignedFirst h) := inferInstanceAs (Decidable (List.Pairwise _ _))

/-- At most one job is outstanding, and during a pass it is the current one. -/
structure PassInv (h : OutboxHost) : Prop where
  unique : ∀ id id', Outstanding h.data id → Outstanding h.data id' → id = id'
  current : ∀ run, h.run = some run → ∀ id, Outstanding h.data id → id = run.job.id
  unsigned : ∀ run, h.run = some run → ∀ x ∈ run.rest, x.transaction = none

theorem outstanding_set {id id' : RevocationJobId} {x : DeliveryStatus}
    (hs : SetsStatus d id x d') (ho : Outstanding d' id') : id' = id ∨ Outstanding d id' := by
  obtain ⟨t, s, hst, hc⟩ := ho
  rw [hs] at hst
  split at hst
  · next he => exact .inl he
  · exact .inr ⟨t, s, hst, hc⟩

theorem Settled.none_outstanding (ho : ∀ id, Outstanding d id → id = run.job.id)
    (hs : Settled d run reply d') (id : RevocationJobId) : ¬ Outstanding d' id := by
  have hset (x : DeliveryStatus) (hs : SetsStatus d run.job.id x d')
      (hx : x.1 = none ∨ x.2 = .confirmed) : ¬ Outstanding d' id := by
    intro hout
    have hid : id = run.job.id := (outstanding_set hs hout).elim (fun h => h) (ho id)
    obtain ⟨t, s, hst, hc⟩ := hout
    rw [hs, if_pos hid, Option.some.injEq] at hst
    subst hst
    rcases hx with hx | hx
    · cases hx
    · exact hc hx
  cases hs with
  | success t s _ ha hr hx hs => exact hset _ hs (.inr rfl)
  | reverted x _ ha hr hx hs => exact hset _ hs (.inl rfl)

theorem JobEffect.current (ho : ∀ id, Outstanding d id → id = run.job.id)
    (hj : JobEffect d run reply d') (id : RevocationJobId) (hout : Outstanding d' id) :
    id = run.job.id := by
  cases hj with
  | frame _ hf => exact ho id (hf.outstanding hout)
  | signed t _ ha hs => exact (outstanding_set hs hout).elim (fun h => h) (ho id)
  | settled _ hs => exact absurd hout (hs.none_outstanding ho id)

theorem PassInv.progress (hi : PassInv h) (hrun : h.run = some run)
    (hp : Progress h run reply h') : PassInv h' := by
  have hcur := hi.current run hrun
  have hrest := hi.unsigned run hrun
  cases hp with
  | waits a _ hd hr ha ha' =>
    refine ⟨hd ▸ hi.unique, fun run' hr' => ?_, fun run' hr' => ?_⟩
    all_goals rw [hr, Option.some.injEq] at hr'; subst hr'
    · rw [hd]
      exact hcur
    · exact hrest
  | signed t j _ ha hs hj hr =>
    have hall (id : RevocationJobId) (ho : Outstanding h'.data id) : id = run.job.id :=
      (outstanding_set hs ho).elim (fun h => h) (hcur id)
    refine ⟨fun id id' ho ho' => (hall id ho).trans (hall id' ho').symm, fun run' hr' => ?_,
      fun run' hr' => ?_⟩
    all_goals rw [hr, Option.some.injEq] at hr'; subst hr'
    · intro id ho
      exact (hall id ho).trans (job_id hj).symm
    · exact hrest
  | stopped d₁ _ hj hf hr =>
    have hall (id : RevocationJobId) (ho : Outstanding h'.data id) : id = run.job.id :=
      hj.current hcur id (hf.outstanding ho)
    refine ⟨fun id id' ho ho' => (hall id ho).trans (hall id' ho').symm, fun run' hr' => ?_,
      fun run' hr' => ?_⟩
    all_goals rw [hr] at hr'; cases hr'
  | moved x rest _ hs hx hr =>
    have hnone := hs.none_outstanding hcur
    refine ⟨fun id id' ho => absurd ho (hnone id), fun run' hr' => ?_, fun run' hr' => ?_⟩
    all_goals rw [hr, Option.some.injEq] at hr'; subst hr'
    · exact fun id ho => absurd ho (hnone id)
    · exact fun y hy => hrest y (hx ▸ List.mem_cons_of_mem _ hy)

/-- An outstanding job is listed as pending and signed. -/
theorem outstanding_listed {id : RevocationJobId} (ho : Outstanding h.data id) :
    ∃ j ∈ h.listPendingRevocations, j.id = id ∧ j.transaction.isSome := by
  obtain ⟨t, s, hst, hc⟩ := ho
  rw [VaultData.status, Option.map_eq_some_iff] at hst
  obtain ⟨j, hj, he⟩ := hst
  simp only [Prod.mk.injEq] at he
  obtain ⟨ht, rfl⟩ := he
  exact ⟨j, List.mem_filter.2 ⟨(Keyed.mem_of_find hj).1, by simpa using hc⟩, job_id hj,
    by rw [ht]; rfl⟩

theorem outstanding_of_listed (hn : (h.data.revocations.map RevocationJob.id).Nodup)
    {j : RevocationJob} (hj : j ∈ h.listPendingRevocations) (ht : j.transaction.isSome) :
    Outstanding h.data j.id := by
  obtain ⟨hj, hs⟩ := listPending_mem hj
  obtain ⟨t, ht⟩ := Option.isSome_iff_exists.1 ht
  exact ⟨t, j.state, by rw [status_of_mem hn hj, ht], hs⟩

theorem PassInv.started (hi : PassInv h) (hn : (h.data.revocations.map RevocationJob.id).Nodup)
    (hord : SignedFirst h) {x : RevocationJob} {rest : List RevocationJob}
    (hx : h.listPendingRevocations = x :: rest) (hd : h'.data = h.data)
    (hr : h'.run = some ⟨x, if x.transaction.isNone then .prepare else .receipt, rest⟩) :
    PassInv h' := by
  have hids : (h.listPendingRevocations.map RevocationJob.id).Nodup :=
    hn.sublist (List.filter_sublist.map _)
  -- a signed job behind the first would be a second outstanding one
  have hunsigned : ∀ y ∈ rest, y.transaction = none := by
    intro y hy
    cases hty : y.transaction with
    | none => rfl
    | some t =>
      exfalso
      rw [SignedFirst, hx] at hord
      have hys : y.transaction.isSome := by rw [hty]; rfl
      have hxs := (List.pairwise_cons.1 hord).1 y hy hys
      have h1 := outstanding_of_listed hn (hx ▸ List.mem_cons_self) hxs
      have h2 := outstanding_of_listed hn (hx ▸ List.mem_cons_of_mem _ hy) hys
      have hid := hi.unique _ _ h1 h2
      rw [hx] at hids
      exact (List.nodup_cons.1 hids).1 (hid ▸ List.mem_map_of_mem hy)
  refine ⟨hd ▸ hi.unique, fun run hrun id ho => ?_, fun run hrun => ?_⟩
  all_goals rw [hr, Option.some.injEq] at hrun; subst hrun
  · rw [hd] at ho
    obtain ⟨j, hj, rfl, ht⟩ := outstanding_listed ho
    rw [hx] at hj
    rcases List.mem_cons.1 hj with rfl | hj
    · rfl
    · rw [hunsigned j hj] at ht
      cases ht
  · exact hunsigned

theorem PassInv.step {e : OutboxStep} (hi : PassInv e.pre) (hr : RunnerInv e.pre)
    (hord : e.act.begins = true → SignedFirst e.pre) (hs : (machine env).IsStep e) :
    PassInv e.post := by
  obtain ⟨heff, -⟩ := step_effect hs hr.nodup
  generalize ha : e.act = a at heff
  generalize hp : e.post = p at heff
  cases heff with
  | started w x rest _ hx hd hrun => exact hi.started hr.nodup (hord (by rw [ha]; rfl)) hx hd hrun
  | replied r now w w' run _ hrun hprog => exact hi.progress hrun hprog
  | framed _ _ hf hrun =>
    refine ⟨fun id id' ho ho' => hi.unique id id' (hf.outstanding ho) (hf.outstanding ho'),
      fun run hr' id ho => ?_, fun run hr' => ?_⟩
    all_goals rcases hrun with hrun | hrun <;> rw [hrun] at hr'
    · exact hi.current run hr' id (hf.outstanding ho)
    · cases hr'
    · exact hi.unsigned run hr'
    · cases hr'

theorem passInv_initial : PassInv initial := by
  refine ⟨fun id id' ho => ?_, fun run hr => (by cases hr), fun run hr => (by cases hr)⟩
  obtain ⟨t, s, hs, -⟩ := ho
  cases hs

/-- A job that holds a signed transaction without a receipt. -/
def outstanding (j : RevocationJob) : Prop := j.transaction.isSome ∧ j.state ≠ .confirmed

instance (j : RevocationJob) : Decidable (outstanding j) := inferInstanceAs (Decidable (_ ∧ _))

/-- The outbox after a run: one job at a time, and nothing lost on the way. -/
structure SingleFlightOutbox (es : List OutboxStep) (h : OutboxHost) : Prop where
  atMostOne : ∀ a ∈ h.data.revocations, ∀ b ∈ h.data.revocations, outstanding a → outstanding b → a = b
  lossless : ∀ e ∈ es, ∀ id z, e.pre.data.status id = some z →
    ∃ z', e.post.data.status id = some z' ∧ Lossless e id z z'

/-- **The outbox is single-flight and lossless**, in every run in which no pass begins with an
    unsigned job before a signed one. -/
theorem revocation_outbox_single_flight {es : List OutboxStep}
    (hr : (machine env).Run initial es h)
    (hord : ∀ e ∈ es, e.act.begins = true → SignedFirst e.pre) : SingleFlightOutbox es h := by
  refine ⟨fun a ha b hb hao hbo => ?_, fun e he id z hz => ?_⟩
  · have hinv : RunnerInv h ∧ PassInv h :=
      hr.invariant_where (I := fun h => RunnerInv h ∧ PassInv h)
        (P := fun e => e.act.begins = true → SignedFirst e.pre)
        ⟨runnerInv_initial, passInv_initial⟩
        (fun e hP hi hs => ⟨hi.1.step hs, hi.2.step hi.1 hP hs⟩) hord
    have hout (j : RevocationJob) (hj : j ∈ h.data.revocations) (ho : outstanding j) :
        Outstanding h.data j.id := by
      obtain ⟨t, ht⟩ := Option.isSome_iff_exists.1 ho.1
      exact ⟨t, j.state, by rw [status_of_mem hinv.1.nodup hj, ht], ho.2⟩
    exact List.inj_on_of_nodup_map hinv.1.nodup ha hb
      (hinv.2.unique _ _ (hout a ha hao) (hout b hb hbo))
  · obtain ⟨es₁, es₂, -, hpre, hs, -⟩ := hr.of_mem he
    exact lossless_step (runnerInv_run hpre) hs hz

end OutboxHost

/-! Two blocked cases.  The first job's transaction is mined and reverts, the second's stays
unknown; the next pass signs the first job again. -/

def deliveryEnv : DeliveryEnv := ⟨vaultEnv, fun _ t => t.chainId = 11155111⟩

def activeCase (id : String) : VaultRecord := { vaultCase with id := id, state := .active }

def revocationTx (n : Bytes32) : RevocationTransaction := ⟨n, [2], 11155111, 9⟩

def blockedCases : List OutboxAction :=
  [.operate (.put (activeCase "a")) .acknowledged, .operate (.put (activeCase "b")) .acknowledged,
    .operate (.recordRescreen "a" ⟨20, .block, none, []⟩ (activeCase "a")) .acknowledged,
    .operate (.recordRescreen "b" ⟨20, .block, none, []⟩ (activeCase "b")) .acknowledged]

/-- The runner signs a job, broadcasts it and gets a receipt or none. -/
def deliverJob (n : Bytes32) (r : Option RevocationReceipt) : List OutboxAction :=
  [.reply (.signed (revocationTx n)) 30 .acknowledged .acknowledged,
    .reply (.receipt none) 30 .acknowledged .acknowledged,
    .reply .sent 30 .acknowledged .acknowledged, .reply (.receipt r) 30 .acknowledged .acknowledged]

def firstPass : List OutboxAction :=
  .begin_ .acknowledged :: (deliverJob 5 (some .reverted) ++ deliverJob 6 none)

def twoOutstanding : List OutboxAction :=
  blockedCases ++ firstPass ++ .begin_ .acknowledged :: deliverJob 7 none

theorem revocation_outbox_two_outstanding :
    ¬ ∀ (es : List OutboxStep) (h : OutboxHost),
      (OutboxHost.machine deliveryEnv).Run .initial es h → OutboxHost.SingleFlightOutbox es h := by
  intro hall
  have hone := (hall _ _ ((OutboxHost.machine deliveryEnv).run_trace .initial twoOutstanding)).atMostOne
  revert hone
  decide +kernel

/-- Until the second pass the outbox was single-flight. -/
theorem revocation_outbox_single_flight_first :
    OutboxHost.SingleFlightOutbox
      ((OutboxHost.machine deliveryEnv).trace .initial (blockedCases ++ firstPass))
      ((OutboxHost.machine deliveryEnv).final .initial (blockedCases ++ firstPass)) :=
  OutboxHost.revocation_outbox_single_flight
    ((OutboxHost.machine deliveryEnv).run_trace .initial (blockedCases ++ firstPass)) (by decide +kernel)

end Proofmark
