/-
  The safety of callback fences.

  Evidence with a fence is never approved (`Guarded`).  The records that a call has read are
  the stored one as long as the revision is (`Known`), so that a compare-and-set on the
  revision retains the stored fence.
-/
import Proofmark.Pipeline.SumsubSession

namespace Proofmark

open Revert

/-! ## Evidence -/

/-- Evidence with a fence is not approved. -/
def SumsubEvidence.Guarded (v : SumsubEvidence) : Prop :=
  v.webhookFence.isSome = true → v.decision ≠ .approved

/-- **What retaining a fence does.** -/
theorem retain_cases (c : SumsubEvidence) (previous : Option SumsubEvidence) :
    (¬ Fences previous c.providerReviewedAt ∧ retainSumsubWebhookFence c previous = c) ∨
    ∃ p f, previous = some p ∧ p.webhookFence = some f ∧ Fences previous c.providerReviewedAt ∧
      retainSumsubWebhookFence c previous =
        { c with decision := p.decision, webhookFence := some f } := by
  unfold retainSumsubWebhookFence
  split
  · refine .inl ⟨?_, rfl⟩
    rintro ⟨p, hp, -⟩
    cases hp
  · next p =>
    split
    · next hf =>
      refine .inl ⟨?_, rfl⟩
      rintro ⟨q, hq, f, hf', -⟩
      cases hq
      rw [hf] at hf'
      cases hf'
    · next f hf =>
      split
      · next hr =>
        refine .inl ⟨?_, rfl⟩
        rintro ⟨q, hq, g, hg, hn⟩
        cases hq
        rw [hf] at hg
        cases hg
        exact hn hr
      · next hr => exact .inr ⟨p, f, rfl, hf, ⟨p, rfl, f, hf, hr⟩, rfl⟩

@[simp] theorem retain_reviewedAt (c : SumsubEvidence) (previous : Option SumsubEvidence) :
    (retainSumsubWebhookFence c previous).providerReviewedAt = c.providerReviewedAt := by
  rcases retain_cases c previous with ⟨-, h⟩ | ⟨p, f, -, -, -, h⟩ <;> rw [h]

theorem guarded_retain {c : SumsubEvidence} {previous : Option SumsubEvidence} (hc : c.Guarded)
    (hp : ∀ p ∈ previous, p.Guarded) : (retainSumsubWebhookFence c previous).Guarded := by
  rcases retain_cases c previous with ⟨-, h⟩ | ⟨p, f, hprev, hf, -, h⟩
  · rwa [h]
  · rw [h]
    intro _
    exact hp p hprev (by rw [hf]; rfl)

theorem guarded_evaluate (status : SumsubStatus) : status.evaluate.Guarded := by
  intro h
  cases h

@[simp] theorem apply_reviewedAt (c : SumsubEvidence) (w : SumsubWebhook) :
    (applySumsubWebhookFence c w).providerReviewedAt = c.providerReviewedAt := by
  unfold applySumsubWebhookFence
  split
  · rfl
  · split <;> rfl

/-- A callback that fences denies approval. -/
theorem apply_fencing {c : SumsubEvidence} {w : SumsubWebhook} (h : w.fencing = true) :
    (applySumsubWebhookFence c w).decision ≠ .approved := by
  unfold applySumsubWebhookFence
  split
  · simp
  · next ho =>
    have hr : w.reviewAnswer = some .red := by simpa [SumsubWebhook.fencing, ho] using h
    rw [if_pos hr]
    dsimp only
    split <;> simp

theorem apply_not_fencing {c : SumsubEvidence} {w : SumsubWebhook} (h : w.fencing = false) :
    applySumsubWebhookFence c w = { c with signedWebhook := true } := by
  simp only [SumsubWebhook.fencing, Bool.or_eq_false_iff, decide_eq_false_iff_not] at h
  unfold applySumsubWebhookFence
  rw [if_neg (by rw [h.1]; exact Bool.false_ne_true), if_neg h.2]

/-- A final rejection rejects, behind its own fence. -/
theorem apply_finalRed {c : SumsubEvidence} {w : SumsubWebhook} (h : w.finalRed = true) :
    (applySumsubWebhookFence c w).decision = .rejected ∧
    ∃ f, (applySumsubWebhookFence c w).webhookFence = some f ∧ f.eventAt = w.createdAtMs := by
  simp only [SumsubWebhook.finalRed, Bool.and_eq_true, Bool.not_eq_true', decide_eq_true_eq] at h
  obtain ⟨⟨⟨ho, -⟩, ha⟩, ht⟩ := h
  unfold applySumsubWebhookFence
  rw [if_neg (by rw [ho]; exact Bool.false_ne_true), if_pos ha]
  exact ⟨if_pos ht, _, rfl, rfl⟩

theorem guarded_apply (status : SumsubStatus) (w : SumsubWebhook) :
    (applySumsubWebhookFence status.evaluate w).Guarded := by
  cases hf : w.fencing with
  | true => exact fun _ => apply_fencing hf
  | false =>
    rw [apply_not_fencing hf]
    intro h
    cases h

/-! ## The session -/

/-- A record that a call has read. -/
structure Known (s : SumsubSession) (record : SumsubRecord) : Prop where
  revision : record.revision ≤ s.revision
  guarded : ∀ v ∈ record.latest, v.Guarded
  current : record.revision = s.revision → record.latest = s.record.latest

theorem Known.mono {s s' : SumsubSession} {record : SumsubRecord} (hk : Known s record)
    (hs : s' = s ∨ s'.revision = s.revision + 1) : Known s' record := by
  rcases hs with rfl | hrev
  · exact hk
  · refine ⟨hk.revision.trans (hrev ▸ Nat.le_succ _), hk.guarded, fun h => ?_⟩
    have := hk.revision
    omega

/-- The records that a call holds. -/
def SumsubTask.records : SumsubTask → List SumsubRecord
  | .statusGet | .webhookGet _ => []
  | .statusEvaluate record | .statusCheck record _ | .statusSave record _
  | .webhookEvaluate _ record | .webhookReread _ record _ _ => [record]
  | .webhookClaim _ record _ _ reread => [record, reread]

/-- The callback that a step accepts as fresh. -/
def SumsubOutput.accepts : SumsubOutput → Option SumsubWebhook
  | .claimed webhook _ _ _ .fresh => some webhook
  | _ => none

/-- The callbacks that were accepted as fresh. -/
def acceptedCallbacks (es : List SumsubStep) : List SumsubWebhook := es.filterMap fun e => e.out.accepts

namespace SumsubHost

variable {applicantIdHash : String → Bytes32} {es : List SumsubStep} {e : SumsubStep}
  {h h' : SumsubHost}

/-- **What a step does to the session.** -/
inductive SessionEffect (s : SumsubSession) : SumsubOutput → SumsubSession → Prop
  | same (out : SumsubOutput) (ha : out.accepts = none) : SessionEffect s out s
  | saved (record : SumsubRecord) (fetched : SumsubStatus) (s' : SumsubSession)
      (hk : Known s record) (hrev : record.revision = s.revision)
      (hfence : s.eventAt.getD 0 ≤ fetched.reviewDate.getD 0 ∨
        s.eventAt.getD 0 ≤ ((observed record fetched).webhookFence.map WebhookFence.eventAt).getD 0)
      (hr : s'.record = ⟨record.revision + 1, some (observed record fetched)⟩)
      (hrev' : s'.revision = s.revision + 1) (he : s'.eventAt = s.eventAt) :
    SessionEffect s (.saved record fetched .ok) s'
  | claimed (webhook : SumsubWebhook) (record reread : SumsubRecord) (fetched : SumsubStatus)
      (s' : SumsubSession) (hk : Known s record) (hk' : Known s reread)
      (hrev : reread.revision = s.revision) (hnew : s.eventAt.getD 0 < webhook.createdAtMs)
      (hr : s'.record = ⟨reread.revision + 1,
        some (retainSumsubWebhookFence (restricted webhook record fetched) reread.latest)⟩)
      (hrev' : s'.revision = s.revision + 1) (he : s'.eventAt = some webhook.createdAtMs) :
    SessionEffect s (.claimed webhook record fetched reread .fresh) s'

/-- What holds after any run. -/
structure SumsubInv (es : List SumsubStep) (h : SumsubHost) : Prop where
  revision : h.session.record.revision = h.session.revision
  guarded : ∀ v ∈ h.session.record.latest, v.Guarded
  tasks : ∀ i task, h.tasks i = some task → ∀ record ∈ task.records, Known h.session record
  events : ∀ w ∈ acceptedCallbacks es, w.createdAtMs ≤ h.session.eventAt.getD 0

theorem save_cases {s : SumsubSession} {record : SumsubRecord} {fetched : SumsubStatus}
    (hk : Known s record) :
    SessionEffect s (.saved record fetched (s.save (observed record fetched) record.revision).2)
      (s.save (observed record fetched) record.revision).1 := by
  unfold SumsubSession.save
  split
  · exact .same _ rfl
  · next hrev =>
    split
    · exact .same _ rfl
    · next hf =>
      rw [not_and_or, not_lt, not_lt] at hf
      have hdate : (observed record fetched).providerReviewedAt = fetched.reviewDate :=
        retain_reviewedAt _ _
      rw [hdate] at hf
      exact .saved record fetched _ hk (not_not.1 hrev).symm hf rfl rfl rfl

theorem webhook_cases {s : SumsubSession} {w : SumsubWebhook} {record reread : SumsubRecord}
    {fetched : SumsubStatus} (hk : Known s record) (hk' : Known s reread) :
    SessionEffect s
      (.claimed w record fetched reread (s.webhook w.digest w.createdAtMs fetched.applicantIdHash
        (retainSumsubWebhookFence (restricted w record fetched) reread.latest) reread.revision).2)
      (s.webhook w.digest w.createdAtMs fetched.applicantIdHash
        (retainSumsubWebhookFence (restricted w record fetched) reread.latest) reread.revision).1 := by
  unfold SumsubSession.webhook
  split
  · exact .same _ rfl
  · split
    · exact .same _ rfl
    · next hrev =>
      split
      · exact .same _ rfl
      · split
        · exact .same _ rfl
        · next he =>
          exact .claimed w record reread fetched _ hk hk' (not_not.1 hrev).symm (not_le.1 he) rfl rfl rfl

/-- The record as it is read. -/
theorem SumsubInv.known (hi : SumsubInv es h) : Known h.session h.session.record :=
  ⟨hi.revision.le, hi.guarded, fun _ => rfl⟩

theorem advance_effect (hi : SumsubInv es h) {task : SumsubTask} {answer : Option SumsubStatus}
    {r : SumsubSession × Option SumsubTask × SumsubOutput}
    (hk : ∀ record ∈ task.records, Known h.session record)
    (hr : h.advance applicantIdHash task answer = some r) :
    SessionEffect h.session r.2.2 r.1 ∧
      ∀ task' ∈ r.2.1, ∀ record ∈ task'.records, Known h.session record := by
  unfold advance at hr
  dsimp only at hr
  split at hr <;> cases hr
  · refine ⟨.same _ rfl, ?_⟩
    rintro _ ⟨⟩ record hrec
    exact List.mem_singleton.1 hrec ▸ hi.known
  · refine ⟨.same _ rfl, ?_⟩
    rintro _ ⟨⟩ record hrec
    exact hk record hrec
  · refine ⟨.same _ rfl, fun task' ht record hrec => ?_⟩
    dsimp only at ht
    split at ht <;> cases ht
    exact hk record hrec
  · refine ⟨save_cases (hk _ List.mem_cons_self), ?_⟩
    rintro _ ⟨⟩
  · refine ⟨.same _ rfl, ?_⟩
    rintro _ ⟨⟩ record hrec
    exact List.mem_singleton.1 hrec ▸ hi.known
  · refine ⟨.same _ rfl, fun task' ht record hrec => ?_⟩
    dsimp only at ht
    split at ht <;> cases ht
    exact hk record hrec
  · refine ⟨.same _ rfl, ?_⟩
    rintro _ ⟨⟩ record hrec
    rcases List.mem_cons.1 hrec with rfl | hrec
    · exact hk _ List.mem_cons_self
    · exact List.mem_singleton.1 hrec ▸ hi.known
  · refine ⟨webhook_cases (hk _ List.mem_cons_self) (hk _ (by simp [SumsubTask.records])),
      fun task' ht record hrec => ?_⟩
    dsimp only at ht
    split at ht <;> cases ht
    rw [List.mem_singleton.1 hrec]
    exact hk _ List.mem_cons_self

theorem SessionEffect.revision {s s' : SumsubSession} {out : SumsubOutput}
    (heff : SessionEffect s out s') : s' = s ∨ s'.revision = s.revision + 1 := by
  cases heff with
  | same _ ha => exact .inl rfl
  | saved record fetched _ hk hrev hf hr hrev' he => exact .inr hrev'
  | claimed w record reread fetched _ hk hk' hrev hnew hr hrev' he => exact .inr hrev'

theorem guarded_restricted {w : SumsubWebhook} {record : SumsubRecord} {fetched : SumsubStatus}
    (hk : ∀ v ∈ record.latest, v.Guarded) : (restricted w record fetched).Guarded :=
  guarded_retain (guarded_apply fetched w) hk

/-- The parts of the invariant that the session's effect keeps. -/
theorem SumsubInv.session {s' : SumsubSession} {out : SumsubOutput} (hi : SumsubInv es h)
    (heff : SessionEffect h.session out s') (hout : e.out = out) :
    s'.record.revision = s'.revision ∧ (∀ v ∈ s'.record.latest, v.Guarded) ∧
      ∀ w ∈ acceptedCallbacks (es ++ [e]), w.createdAtMs ≤ s'.eventAt.getD 0 := by
  have hacc : acceptedCallbacks (es ++ [e]) = acceptedCallbacks es ++ out.accepts.toList := by
    rw [acceptedCallbacks, List.filterMap_append, List.filterMap_cons, List.filterMap_nil, hout]
    cases out.accepts <;> rfl
  rw [hacc]
  cases heff with
  | same _ ha =>
    rw [ha]
    exact ⟨hi.revision, hi.guarded, by simpa using hi.events⟩
  | saved record fetched _ hk hrev hf hr hrev' he =>
    refine ⟨by rw [hr, hrev', hrev], fun v hv => ?_, ?_⟩
    · rw [hr] at hv
      cases hv
      exact guarded_retain (guarded_evaluate fetched) hk.guarded
    · rw [he]
      simpa [SumsubOutput.accepts] using hi.events
  | claimed w record reread fetched _ hk hk' hrev hnew hr hrev' he =>
    refine ⟨by rw [hr, hrev', hrev], fun v hv => ?_, fun w' hw' => ?_⟩
    · rw [hr] at hv
      cases hv
      exact guarded_retain (guarded_restricted hk.guarded) hk'.guarded
    · rw [he]
      rcases List.mem_append.1 hw' with hw' | hw'
      · exact (hi.events w' hw').trans hnew.le
      · rw [List.mem_singleton.1 hw']
        rfl

/-- **Every step is one of the session's effects and keeps the invariant.** -/
theorem SumsubInv.step (hi : SumsubInv es e.pre) (hs : (machine applicantIdHash).IsStep e) :
    SessionEffect e.pre.session e.out e.post.session ∧ SumsubInv (es ++ [e]) e.post := by
  have hbuild (heff : SessionEffect e.pre.session e.out e.post.session)
      (ht : ∀ i task, e.post.tasks i = some task → ∀ record ∈ task.records,
        Known e.pre.session record) :
      SessionEffect e.pre.session e.out e.post.session ∧ SumsubInv (es ++ [e]) e.post := by
    obtain ⟨h1, h2, h3⟩ := hi.session heff rfl
    exact ⟨heff, h1, h2, fun i task hi' record hrec => (ht i task hi' record hrec).mono heff.revision,
      h3⟩
  obtain ⟨h, a, out, h'⟩ := e
  rw [Machine.IsStep] at hs
  dsimp only at hi hbuild ⊢
  have hstart {task₀ : SumsubTask} (ht : task₀.records = []) (i : ℕ) (task : SumsubTask)
      (hi' : (h.start task₀).tasks i = some task) : ∀ record ∈ task.records, Known h.session record := by
    rw [start] at hi'
    dsimp only at hi'
    rw [Function.update_apply] at hi'
    split at hi'
    · cases hi'
      rw [ht]
      intro record hrec
      cases hrec
    · exact hi.tasks i task hi'
  cases a with
  | currentStatus =>
    simp only [machine, pure_ok, Prod.mk.injEq] at hs
    obtain ⟨rfl, rfl⟩ := hs
    exact hbuild (.same _ rfl) (hstart rfl)
  | acceptWebhook w =>
    simp only [machine, pure_ok, Prod.mk.injEq] at hs
    obtain ⟨rfl, rfl⟩ := hs
    exact hbuild (.same _ rfl) (hstart rfl)
  | resume i answer =>
    simp only [machine, bind_ok, orRevert_ok, pure_ok, Prod.mk.injEq] at hs
    obtain ⟨task, ht, r, hr, rfl, rfl⟩ := hs
    obtain ⟨heff, hnext⟩ := advance_effect hi (hi.tasks i task ht) hr
    refine hbuild heff fun j task' hj => ?_
    dsimp only at hj
    rw [Function.update_apply] at hj
    split at hj
    · exact hnext task' hj
    · exact hi.tasks j task' hj
  | crash i =>
    simp only [machine, pure_ok, Prod.mk.injEq] at hs
    obtain ⟨rfl, rfl⟩ := hs
    refine hbuild (.same _ rfl) fun j task' hj => ?_
    dsimp only at hj
    rw [Function.update_apply] at hj
    split at hj
    · cases hj
    · exact hi.tasks j task' hj

theorem sumsubInv_run (hr : (machine applicantIdHash).Run initial es h) : SumsubInv es h := by
  refine hr.history (H := SumsubInv) ⟨rfl, fun v hv => (by cases hv), fun i task ht => (by cases ht),
    fun w hw => (by cases hw)⟩ fun es e _ hi hs => (hi.step hs).2

/-! ## The fences of a run -/

/-- What a status save may store: an approval with its review date. -/
def SaveOk (record : SumsubRecord) (fetched : SumsubStatus) : Prop :=
  fetched.decision = .approved → ¬ Fences record.latest fetched.reviewDate →
    fetched.reviewDate.isSome = true

instance (record : SumsubRecord) (fetched : SumsubStatus) : Decidable (SaveOk record fetched) :=
  inferInstanceAs (Decidable (_ → _ → _))

/-- What may come with a fresh callback: a final rejection does not meet an older fence that the
    fetched review date does not clear; an approval that no fence holds back is at least as new
    as the callbacks that fenced before. -/
def ClaimOk (es : List SumsubStep) (w : SumsubWebhook) (record : SumsubRecord)
    (fetched : SumsubStatus) (reread : SumsubRecord) : Prop :=
  (w.finalRed = true →
    ¬ Fences record.latest fetched.reviewDate ∧ ¬ Fences reread.latest fetched.reviewDate) ∧
  (w.fencing = false → fetched.decision = .approved →
    ¬ Fences record.latest fetched.reviewDate → ¬ Fences reread.latest fetched.reviewDate →
    ∃ r ∈ fetched.reviewDate, ∀ w' ∈ acceptedCallbacks es, w'.fencing = true → w'.createdAtMs ≤ r)

instance (es : List SumsubStep) (w : SumsubWebhook) (record : SumsubRecord) (fetched : SumsubStatus)
    (reread : SumsubRecord) : Decidable (ClaimOk es w record fetched reread) :=
  have : Decidable (∃ r ∈ fetched.reviewDate,
      ∀ w' ∈ acceptedCallbacks es, w'.fencing = true → w'.createdAtMs ≤ r) := inferInstance
  @instDecidableAnd _ _ inferInstance inferInstance

def OutputOk (es : List SumsubStep) : SumsubOutput → Prop
  | .saved record fetched .ok => SaveOk record fetched
  | .claimed w record fetched reread .fresh => ClaimOk es w record fetched reread
  | _ => True

instance (es : List SumsubStep) (out : SumsubOutput) : Decidable (OutputOk es out) :=
  match out with
  | .done | .saved _ _ .fenced | .saved _ _ .revisionConflict | .claimed _ _ _ _ .duplicate
  | .claimed _ _ _ _ .stale | .claimed _ _ _ _ .conflict
  | .claimed _ _ _ _ .revisionConflict => inferInstanceAs (Decidable True)
  | .saved record fetched .ok => inferInstanceAs (Decidable (SaveOk record fetched))
  | .claimed w record fetched reread .fresh =>
    inferInstanceAs (Decidable (ClaimOk es w record fetched reread))

/-- Every step of the run meets the condition. -/
def StepsOk (es : List SumsubStep) : Prop :=
  ∀ i : Fin es.length, OutputOk (es.take i) (es.get i).out

instance (es : List SumsubStep) : Decidable (StepsOk es) := Nat.decidableForallFin _

/-- The stored evidence has a review at least as new, or a newer fence. -/
def Supersedes (at_ : ℕ) (s : SumsubSession) : Prop :=
  ∃ v, s.record.latest = some v ∧
    ((∃ r, v.providerReviewedAt = some r ∧ at_ ≤ r) ∨
      ∃ f, v.webhookFence = some f ∧ at_ < f.eventAt)

/-- The session after a run. -/
structure FenceSafe (es : List SumsubStep) (h : SumsubHost) : Prop where
  approved : ∀ v, h.session.record.latest = some v → v.decision = .approved →
    ∃ r, v.providerReviewedAt = some r ∧
      ∀ w ∈ acceptedCallbacks es, w.fencing = true → w.createdAtMs ≤ r
  rejected : ∀ es₁ e es₂, es = es₁ ++ e :: es₂ → ∀ w, e.out.accepts = some w → w.finalRed = true →
    (∃ v, h.session.record.latest = some v ∧ v.decision = .rejected) ∨
      ∃ x ∈ e :: es₂, Supersedes w.createdAtMs x.post.session

theorem stepsOk_concat (h : StepsOk (es ++ [e])) : StepsOk es ∧ OutputOk es e.out := by
  refine ⟨fun i => ?_, ?_⟩
  · have hi := h ⟨i, by rw [List.length_append]; omega⟩
    simpa [List.take_append_of_le_length i.2.le, List.getElem_append_left i.2] using hi
  · have hl := h ⟨es.length, by simp⟩
    simpa using hl

theorem acceptedCallbacks_concat :
    acceptedCallbacks (es ++ [e]) = acceptedCallbacks es ++ e.out.accepts.toList := by
  rw [acceptedCallbacks, List.filterMap_append, List.filterMap_cons, List.filterMap_nil, acceptedCallbacks]
  cases e.out.accepts <;> rfl

/-- An approval in the evidence that a fresh callback stores is the provider's. -/
theorem approved_of_claim {w : SumsubWebhook} {record reread : SumsubRecord} {fetched : SumsubStatus}
    (hk : ∀ v ∈ record.latest, v.Guarded) (hk' : ∀ v ∈ reread.latest, v.Guarded)
    (ha : (retainSumsubWebhookFence (restricted w record fetched) reread.latest).decision = .approved) :
    w.fencing = false ∧ fetched.decision = .approved ∧
      ¬ Fences record.latest fetched.reviewDate ∧ ¬ Fences reread.latest fetched.reviewDate := by
  have hdate : (restricted w record fetched).providerReviewedAt = fetched.reviewDate := by
    rw [restricted, retain_reviewedAt, apply_reviewedAt]
    rfl
  have hdate' : (applySumsubWebhookFence fetched.evaluate w).providerReviewedAt = fetched.reviewDate :=
    apply_reviewedAt _ _
  rcases retain_cases (restricted w record fetched) reread.latest with ⟨hf', h'⟩ | ⟨p, f, hp, hf, -, h'⟩
  · rw [h', restricted] at ha
    rcases retain_cases (applySumsubWebhookFence fetched.evaluate w) record.latest with
      ⟨hf, h⟩ | ⟨p, f, hp, hf, -, h⟩
    · rw [h] at ha
      cases hw : w.fencing with
      | true => exact absurd ha (apply_fencing hw)
      | false =>
        rw [apply_not_fencing hw] at ha
        exact ⟨rfl, ha, hdate' ▸ hf, hdate ▸ hf'⟩
    · rw [h] at ha
      exact absurd ha (hk p hp (by rw [hf]; rfl))
  · rw [h'] at ha
    exact absurd ha (hk' p hp (by rw [hf]; rfl))

/-- **Approvals are at least as new as the callbacks that fenced.** -/
theorem approved_run (hr : (machine applicantIdHash).Run initial es h) (hok : StepsOk es) :
    ∀ v, h.session.record.latest = some v → v.decision = .approved →
      ∃ r, v.providerReviewedAt = some r ∧
        ∀ w ∈ acceptedCallbacks es, w.fencing = true → w.createdAtMs ≤ r := by
  refine hr.history (H := fun es h => StepsOk es → ∀ v, h.session.record.latest = some v →
    v.decision = .approved → ∃ r, v.providerReviewedAt = some r ∧
      ∀ w ∈ acceptedCallbacks es, w.fencing = true → w.createdAtMs ≤ r) ?_ ?_ hok
  · intro _ v hv
    cases hv
  · intro es e hr ih hs hok v hv ha
    obtain ⟨hok, hout⟩ := stepsOk_concat hok
    have hi := sumsubInv_run hr
    obtain ⟨heff, -⟩ := hi.step hs
    have hold := ih hok
    rw [acceptedCallbacks_concat]
    generalize e.out = out at heff hout
    generalize e.post.session = s' at heff hv
    cases heff with
    | same _ hacc =>
      rw [hacc]
      simpa using hold v hv ha
    | saved record fetched _ hk hrev hf hrec hrev' he =>
      rw [hrec] at hv
      cases hv
      rcases retain_cases fetched.evaluate record.latest with ⟨hn, h⟩ | ⟨p, f, hp, hpf, -, h⟩
      · rw [observed, h] at ha
        have hsome := hout ha hn
        obtain ⟨r, hr⟩ := Option.isSome_iff_exists.1 hsome
        rw [observed, h, hr] at hf
        refine ⟨r, by rw [observed, h]; exact hr, fun w hw _ => ?_⟩
        have hw' : w ∈ acceptedCallbacks es := by simpa [SumsubOutput.accepts] using hw
        -- the save passes only when no later callback was accepted
        have he := hi.events w hw'
        rcases hf with hf | hf
        · exact he.trans hf
        · exact he.trans (hf.trans (Nat.zero_le r))
      · rw [observed, h] at ha
        exact absurd ha (hk.guarded p hp (by rw [hpf]; rfl))
    | claimed w record reread fetched _ hk hk' hrev hnew hrec hrev' he =>
      rw [hrec] at hv
      cases hv
      obtain ⟨hw, hfet, hn, hn'⟩ := approved_of_claim hk.guarded hk'.guarded ha
      obtain ⟨r, hr, hall⟩ := hout.2 hw hfet hn hn'
      refine ⟨r, ?_, fun w' hw' hf => ?_⟩
      · rw [retain_reviewedAt, restricted, retain_reviewedAt, apply_reviewedAt]
        exact hr
      · rcases List.mem_append.1 hw' with hw' | hw'
        · exact hall w' hw' hf
        · rw [List.mem_singleton.1 hw', hw] at hf
          cases hf

/-- The stored evidence is the rejection of a final callback. -/
def RejectedAt (at_ : ℕ) (s : SumsubSession) : Prop :=
  ∃ v f, s.record.latest = some v ∧ v.decision = .rejected ∧ v.webhookFence = some f ∧ f.eventAt = at_

/-- Retaining a rejection keeps it, unless the review is at least as new. -/
theorem retain_rejected {c : SumsubEvidence} {s : SumsubSession} {at_ : ℕ} (hr : RejectedAt at_ s) :
    (∃ r, c.providerReviewedAt = some r ∧ at_ ≤ r) ∨
      (retainSumsubWebhookFence c s.record.latest).decision = .rejected ∧
      ∃ f, (retainSumsubWebhookFence c s.record.latest).webhookFence = some f ∧ f.eventAt = at_ := by
  obtain ⟨v, f, hv, hd, hf, rfl⟩ := hr
  rw [hv]
  rcases retain_cases c (some v) with ⟨hn, -⟩ | ⟨p, g, hp, hg, -, h⟩
  · left
    by_contra hno
    exact hn ⟨v, rfl, f, hf, hno⟩
  · right
    cases hp
    rw [hf] at hg
    cases hg
    rw [h]
    exact ⟨hd, f, rfl, rfl⟩

/-- **A rejection stays until it is superseded.** -/
theorem rejected_step (hi : SumsubInv es e.pre) (hs : (machine applicantIdHash).IsStep e) {at_ : ℕ}
    (hr : RejectedAt at_ e.pre.session) :
    RejectedAt at_ e.post.session ∨ Supersedes at_ e.post.session := by
  obtain ⟨heff, -⟩ := hi.step hs
  have hretain {c : SumsubEvidence} {n : ℕ} (hrec : e.post.session.record =
      ⟨n, some (retainSumsubWebhookFence c e.pre.session.record.latest)⟩) :
      RejectedAt at_ e.post.session ∨ Supersedes at_ e.post.session := by
    rcases @retain_rejected c e.pre.session at_ hr with ⟨r, hd, hle⟩ | ⟨hd, f, hf, he⟩
    · exact .inr ⟨_, by rw [hrec], .inl ⟨r, by rw [retain_reviewedAt]; exact hd, hle⟩⟩
    · exact .inl ⟨_, f, by rw [hrec], hd, hf, he⟩
  generalize e.out = out at heff
  generalize hpost : e.post.session = s' at heff hretain
  cases heff with
  | same _ ha => exact .inl hr
  | saved record fetched _ hk hrev hf hrec hrev' he =>
    rw [observed, hk.current hrev] at hrec
    exact hretain hrec
  | claimed w record reread fetched _ hk hk' hrev hnew hrec hrev' he =>
    rw [hk'.current hrev] at hrec
    exact hretain hrec

/-- A final rejection is stored when it is accepted. -/
theorem rejected_of_accept (hi : SumsubInv es e.pre) (hs : (machine applicantIdHash).IsStep e)
    (hok : OutputOk es e.out) {w : SumsubWebhook} (ha : e.out.accepts = some w)
    (hw : w.finalRed = true) : RejectedAt w.createdAtMs e.post.session := by
  obtain ⟨heff, -⟩ := hi.step hs
  generalize e.out = out at heff ha hok
  generalize e.post.session = s' at heff ⊢
  cases heff with
  | same _ hacc =>
    rw [hacc] at ha
    cases ha
  | saved record fetched _ hk hrev hf hrec hrev' he => cases ha
  | claimed w' record reread fetched _ hk hk' hrev hnew hrec hrev' he =>
    cases ha
    obtain ⟨hn, hn'⟩ := hok.1 hw
    obtain ⟨hd, f, hf, hat⟩ := apply_finalRed (c := fetched.evaluate) hw
    have h1 : restricted w record fetched = applySumsubWebhookFence fetched.evaluate w := by
      rcases retain_cases (applySumsubWebhookFence fetched.evaluate w) record.latest with
        ⟨-, h⟩ | ⟨p, g, hp, hg, hF, -⟩
      · exact h
      · rw [apply_reviewedAt] at hF
        exact absurd hF hn
    have h2 : retainSumsubWebhookFence (restricted w record fetched) reread.latest =
        applySumsubWebhookFence fetched.evaluate w := by
      rw [h1]
      rcases retain_cases (applySumsubWebhookFence fetched.evaluate w) reread.latest with
        ⟨-, h⟩ | ⟨p, g, hp, hg, hF, -⟩
      · exact h
      · rw [apply_reviewedAt] at hF
        exact absurd hF hn'
    rw [h2] at hrec
    exact ⟨_, f, by rw [hrec], hd, hf, hat⟩

theorem stepsOk_split {es₁ es₂ : List SumsubStep} (h : StepsOk (es₁ ++ e :: es₂)) :
    OutputOk es₁ e.out := by
  have hi := h ⟨es₁.length, by simp⟩
  simpa using hi

/-- **Callback fences are safe**, in every run whose steps meet the condition. -/
theorem sumsub_fence_safe (hr : (machine applicantIdHash).Run initial es h) (hok : StepsOk es) :
    FenceSafe es h := by
  refine ⟨approved_run hr hok, ?_⟩
  rintro es₁ e es₂ rfl w ha hw
  obtain ⟨hpre, hs, htail⟩ := hr.split
  have hrej := rejected_of_accept (sumsubInv_run hpre) hs (stepsOk_split hok) ha hw
  -- from the acceptance on
  have hstay : RejectedAt w.createdAtMs h.session ∨
      ∃ x ∈ e :: es₂, Supersedes w.createdAtMs x.post.session := by
    refine htail.history (H := fun es₂ h => RejectedAt w.createdAtMs h.session ∨
      ∃ x ∈ e :: es₂, Supersedes w.createdAtMs x.post.session) (.inl hrej) ?_
    intro es' e' hr' ih hs'
    rcases ih with ih | ⟨x, hx, hsup⟩
    · rcases rejected_step (sumsubInv_run ((hpre.snoc hs).append hr')) hs' ih with h1 | h1
      · exact .inl h1
      · exact .inr ⟨e', by simp, h1⟩
    · refine .inr ⟨x, ?_, hsup⟩
      rcases List.mem_cons.1 hx with rfl | hx
      · exact List.mem_cons_self
      · exact List.mem_cons_of_mem _ (List.mem_append_left _ hx)
  rcases hstay with ⟨v, f, hv, hd, -⟩ | hsup
  · exact .inl ⟨v, hv, hd⟩
  · exact .inr hsup

end SumsubHost

/-! An ongoing review, a final rejection whose status answer is too old to clear it, and a GREEN
callback whose review lies between the two. -/

def sumsubApplicant (id : String) : Bytes32 := BitVec.ofNat 256 id.length

def sumsubStatus (answer : SumsubAnswer) (at_ : Option ℕ) : SumsubStatus :=
  ⟨1, .completed, some answer, if answer = .red then some .final else none, at_⟩

def ongoingCallback (at_ : ℕ) : SumsubWebhook :=
  ⟨"a", .applicantPending, at_, "o", some .pending, true, none, none⟩

def reviewedCallback (answer : SumsubAnswer) (at_ : ℕ) (digest : String) : SumsubWebhook :=
  ⟨"a", .applicantReviewed, at_, digest, some .completed, false, some answer,
    if answer = .red then some .final else none⟩

/-- A callback, alone from its first read to its claim. -/
def deliver (i : ℕ) (w : SumsubWebhook) (status : SumsubStatus) : List SumsubAction :=
  [.acceptWebhook w, .resume i none, .resume i (some status), .resume i none, .resume i none]

def ongoingThenRejected : List SumsubAction :=
  deliver 0 (ongoingCallback 100) (sumsubStatus .green (some 50)) ++
    deliver 1 (reviewedCallback .red 200 "r") (sumsubStatus .red (some 190))

def lostRejection : List SumsubAction :=
  deliver 0 (ongoingCallback 100) (sumsubStatus .green (some 50)) ++
    deliver 1 (reviewedCallback .red 200 "r") (sumsubStatus .green (some 50)) ++
    deliver 2 (reviewedCallback .green 300 "g") (sumsubStatus .green (some 150))

theorem sumsub_fence_safe_ongoing :
    SumsubHost.FenceSafe ((SumsubHost.machine sumsubApplicant).trace .initial ongoingThenRejected)
      ((SumsubHost.machine sumsubApplicant).final .initial ongoingThenRejected) :=
  SumsubHost.sumsub_fence_safe
    ((SumsubHost.machine sumsubApplicant).run_trace .initial ongoingThenRejected) (by decide +kernel)

theorem sumsub_rejection_lost :
    ¬ ∀ (es : List SumsubStep) (h : SumsubHost),
      (SumsubHost.machine sumsubApplicant).Run .initial es h → SumsubHost.FenceSafe es h := by
  intro hall
  have hsafe := (hall _ _ ((SumsubHost.machine sumsubApplicant).run_trace .initial lostRejection)).approved
  have hlatest : ((SumsubHost.machine sumsubApplicant).final .initial lostRejection).session.record.latest.map
      (fun v => (v.decision, v.providerReviewedAt)) = some (.approved, some 150) := by decide +kernel
  have hacc : reviewedCallback .red 200 "r" ∈
      acceptedCallbacks ((SumsubHost.machine sumsubApplicant).trace .initial lostRejection) := by decide +kernel
  obtain ⟨v, hv, he⟩ := Option.map_eq_some_iff.1 hlatest
  rw [Prod.mk.injEq] at he
  obtain ⟨r, hr, hle⟩ := hsafe v hv he.1
  rw [he.2, Option.some.injEq] at hr
  have := hle _ hacc (by decide)
  subst hr
  exact absurd this (by decide)

end Proofmark
