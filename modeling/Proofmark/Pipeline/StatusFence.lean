/-
  When a status read is fenced.

  The store keeps one `eventAt`, that of the last accepted callback, whether or not it fences
  (`FenceInv`).  A read whose time lies between the last fencing callback and the last callback
  is therefore refused without a fence.
-/
import Proofmark.Pipeline.SumsubStore
import Mathlib.Order.Lattice

namespace Proofmark

open Revert

/-! ## Histories -/

/-- The callback that an entry accepts. -/
def freshCallback (e : SumsubRedisStep) : Option SumsubWebhook :=
  match e.act, e.out with
  | .eval _ (.webhook w _ _ _), some .fresh => some w
  | _, _ => none

/-- The callbacks that were accepted. -/
def freshCallbacks (es : List SumsubRedisStep) : List SumsubWebhook := es.filterMap freshCallback

/-- The callbacks that were accepted since the hash was last removed, the last one first. -/
def liveCallbacks (es : List SumsubRedisStep) : List SumsubWebhook :=
  es.foldl (fun ws e => match e.act with
    | .expireLatest _ => []
    | _ => (freshCallback e).toList ++ ws) []

/-- The time of the last callback that the hash knows. -/
def lastCallback (es : List SumsubRedisStep) : ℕ :=
  ((liveCallbacks es).head?.map SumsubWebhook.createdAtMs).getD 0

/-- The time of the newest callback that fences. -/
def lastFence (es : List SumsubRedisStep) : ℕ :=
  (((freshCallbacks es).filter SumsubWebhook.fencing).map SumsubWebhook.createdAtMs).foldr max 0

/-- The time that an observation speaks for: of its review, or of the fence that it carries. -/
def SumsubEvidence.observedAt (v : SumsubEvidence) : ℕ :=
  max (v.providerReviewedAt.getD 0) ((v.webhookFence.map WebhookFence.eventAt).getD 0)

theorem lt_foldr_max {n : ℕ} {l : List ℕ} : n < l.foldr max 0 ↔ ∃ m ∈ l, n < m := by
  induction l with
  | nil => simp
  | cons m l ih => simp [ih]

theorem lt_lastFence {es : List SumsubRedisStep} {n : ℕ} :
    n < lastFence es ↔ ∃ w ∈ freshCallbacks es, w.fencing = true ∧ n < w.createdAtMs := by
  unfold lastFence
  rw [lt_foldr_max]
  simp only [List.mem_map, List.mem_filter]
  constructor
  · rintro ⟨_, ⟨w, ⟨hw, hf⟩, rfl⟩, hn⟩
    exact ⟨w, hw, hf, hn⟩
  · rintro ⟨w, hw, hf, hn⟩
    exact ⟨_, ⟨w, ⟨hw, hf⟩, rfl⟩, hn⟩

theorem liveCallbacks_concat (es : List SumsubRedisStep) (e : SumsubRedisStep) :
    liveCallbacks (es ++ [e]) = match e.act with
      | .expireLatest _ => []
      | _ => (freshCallback e).toList ++ liveCallbacks es := by
  unfold liveCallbacks
  rw [List.foldl_append]
  rfl

/-! ## The event time of the hash -/

namespace SumsubRedis

variable {s : SumsubRedis} {ttl : ℕ}

/-- What an operation does to the event time. -/
theorem eventAt_script (ttl : ℕ) (s : SumsubRedis) (op : SumsubOp) :
    (∃ w applicant evidence revision, op = .webhook w applicant evidence revision ∧
      (s.script ttl op).2 = .fresh ∧ (s.script ttl op).1.eventAt = w.createdAtMs) ∨
    ((∀ w applicant evidence revision, op = .webhook w applicant evidence revision →
      (s.script ttl op).2 ≠ .fresh) ∧ (s.script ttl op).1.eventAt = s.eventAt) := by
  cases op with
  | create =>
    refine .inr ⟨by simp, ?_⟩
    unfold script create
    dsimp only
    split
    · rfl
    · cases hl : s.latest <;> simp [eventAt, hl]
  | get => exact .inr ⟨by simp, rfl⟩
  | save evidence expectedRevision =>
    refine .inr ⟨by simp, ?_⟩
    unfold script save
    dsimp only
    split
    · rfl
    split
    · rfl
    split
    · rfl
    · cases hl : s.latest <;> simp [eventAt, incremented, hl]
  | webhook w applicant evidence expectedRevision =>
    unfold script webhook
    dsimp only
    split
    · exact .inr ⟨by simp, rfl⟩
    split
    · exact .inr ⟨by simp, rfl⟩
    split
    · exact .inr ⟨by simp, rfl⟩
    split
    · exact .inr ⟨by simp, rfl⟩
    split
    · exact .inr ⟨by simp, rfl⟩
    · exact .inl ⟨w, applicant, evidence, expectedRevision, rfl, rfl, rfl⟩

/-- **The event time is that of the last callback.** -/
theorem eventAt_run {es : List SumsubRedisStep} (h : (machine ttl).Run .empty es s) :
    s.eventAt = lastCallback es := by
  refine h.history (H := fun es s => s.eventAt = lastCallback es) rfl ?_
  rintro es ⟨s, a, w, s'⟩ - hes he
  simp only at hes ⊢
  unfold lastCallback at hes ⊢
  rw [liveCallbacks_concat]
  cases a with
  | eval now op =>
    simp only [Machine.IsStep, machine, bind_ok, revertIf_ok, pure_ok, Prod.mk.injEq] at he
    obtain ⟨_, -, rfl, rfl⟩ := he
    rcases eventAt_script ttl { s with now := now } op with
      ⟨v, applicant, evidence, revision, rfl, hreply, hat⟩ | ⟨hreply, hat⟩
    · rw [hat]
      simp [freshCallback, hreply]
    · have hnone : freshCallback (⟨s, .eval now op, some ({ s with now := now }.script ttl op).2,
          ({ s with now := now }.script ttl op).1⟩ : SumsubRedisStep) = none := by
        unfold freshCallback
        split
        · next v applicant evidence revision hact hout =>
          obtain ⟨rfl, rfl⟩ := SumsubRedisAction.eval.inj hact
          exact absurd (Option.some.inj hout) (hreply v applicant evidence revision rfl)
        · rfl
      rw [hnone, hat]
      exact hes
  | expireRecord now =>
    simp only [Machine.IsStep, machine, bind_ok, revertIf_ok, pure_ok, Prod.mk.injEq] at he
    obtain ⟨_, -, _, -, rfl, -⟩ := he
    exact hes
  | expireEvent now digest =>
    simp only [Machine.IsStep, machine, bind_ok, revertIf_ok, pure_ok, Prod.mk.injEq] at he
    obtain ⟨_, -, _, -, rfl, -⟩ := he
    exact hes
  | expireLatest now =>
    simp only [Machine.IsStep, machine, bind_ok, revertIf_ok, pure_ok, Prod.mk.injEq] at he
    obtain ⟨_, -, _, -, rfl, -⟩ := he
    rfl

/-- **When the store refuses an observation.** -/
theorem fenced_iff (hr : s.record.isSome = true) (v : SumsubEvidence) :
    (s.save v s.revision).2 = .fenced ↔ v.observedAt < s.eventAt := by
  have hnone : s.record.isNone = false := by
    rw [Option.isSome_iff_exists] at hr
    obtain ⟨r, hr⟩ := hr
    rw [hr]
    rfl
  unfold save SumsubEvidence.observedAt
  simp only [hnone, Bool.false_eq_true, if_false, ne_eq, not_true_eq_false, max_lt_iff]
  split <;> simp_all

/-- **A status read is refused for a fence** exactly when its time is not between the newest
    callback that fences and the last callback. -/
theorem status_fence_exact {es : List SumsubRedisStep} (h : (machine ttl).Run .empty es s)
    (hr : s.record.isSome = true) (v : SumsubEvidence) :
    ((s.save v s.revision).2 = .fenced → ∃ w ∈ freshCallbacks es, w.fencing = true ∧
      v.providerReviewedAt.getD 0 < w.createdAtMs ∧
      (v.webhookFence.map WebhookFence.eventAt).getD 0 < w.createdAtMs) ↔
    (lastCallback es ≤ v.observedAt ∨ v.observedAt < lastFence es) := by
  rw [fenced_iff hr, eventAt_run h, lt_lastFence]
  simp only [SumsubEvidence.observedAt, max_lt_iff]
  rw [← not_lt, max_lt_iff, imp_iff_not_or]

/-! ## The session of the two operations -/

/-- The session, while its record and its hash are there. -/
def view (s : SumsubRedis) : Option SumsubSession :=
  s.record.bind fun r => s.latest.map fun l =>
    ⟨r.1, s.events.map Prod.fst, l.revision, l.eventAt, l.applicant⟩

theorem view_eq_some {t : SumsubSession} : s.view = some t ↔ ∃ d l, s.record = some (t.record, d) ∧
    s.latest = some l ∧ t.events = s.events.map Prod.fst ∧ t.revision = l.revision ∧
    t.eventAt = l.eventAt ∧ t.applicant = l.applicant := by
  obtain ⟨record, events, revision, eventAt, applicant⟩ := t
  unfold view
  constructor
  · intro h
    simp only [Option.bind_eq_some_iff, Option.map_eq_some_iff, SumsubSession.mk.injEq] at h
    obtain ⟨⟨r, d⟩, hr, l, hl, rfl, rfl, rfl, rfl, rfl⟩ := h
    exact ⟨d, l, hr, hl, rfl, rfl, rfl, rfl⟩
  · rintro ⟨d, l, hr, hl, rfl, rfl, rfl, rfl⟩
    simp [hr, hl]

def replyOfSave : SumsubSave → SumsubReply
  | .ok => .ok
  | .fenced => .fenced
  | .revisionConflict => .revisionConflict

def replyOfClaim : SumsubClaim → SumsubReply
  | .fresh => .fresh
  | .duplicate => .duplicate
  | .stale => .stale
  | .conflict => .conflict
  | .revisionConflict => .revisionConflict

/-- **The store refines the session**: a `save` is that of the session. -/
theorem save_view {t : SumsubSession} (h : s.view = some t) (v : SumsubEvidence) (n : ℕ) :
    (s.save v n).1.view = some (t.save v n).1 ∧ (s.save v n).2 = replyOfSave (t.save v n).2 := by
  obtain ⟨d, l, hr, hl, hevents, hrevision, hat, happlicant⟩ := view_eq_some.1 h
  have hrev : s.revision = t.revision := by simp [revision, hl, hrevision]
  have hev : s.eventAt = t.eventAt.getD 0 := by simp [eventAt, hl, hat]
  unfold save SumsubSession.save
  simp only [hr, Option.isNone_some, Bool.false_eq_true, if_false, hrev, hev]
  split
  · exact ⟨h, rfl⟩
  split
  · exact ⟨h, rfl⟩
  · refine ⟨?_, rfl⟩
    rw [view_eq_some]
    exact ⟨d, _, by simp [setRecord, hr], rfl, hevents, by simp [incremented, hrev],
      by simp [incremented, hl, hat], by simp [incremented, hl, happlicant]⟩

/-- A callback too. -/
theorem webhook_view {t : SumsubSession} (h : s.view = some t) (ttl : ℕ) (w : SumsubWebhook)
    (applicant : Bytes32) (v : SumsubEvidence) (n : ℕ) :
    (s.webhook ttl w applicant v n).1.view =
        some (t.webhook w.digest w.createdAtMs applicant v n).1 ∧
      (s.webhook ttl w applicant v n).2 =
        replyOfClaim (t.webhook w.digest w.createdAtMs applicant v n).2 := by
  obtain ⟨d, l, hr, hl, hevents, hrevision, hat, happlicant⟩ := view_eq_some.1 h
  have hrev : s.revision = t.revision := by simp [revision, hl, hrevision]
  have hev : s.eventAt = t.eventAt.getD 0 := by simp [eventAt, hl, hat]
  have hdigest : (s.events.any fun e => decide (e.1 = w.digest)) = true ↔ w.digest ∈ t.events := by
    rw [hevents]
    simp
  have happ : s.latest.bind SumsubLatest.applicant = t.applicant := by simp [hl, happlicant]
  unfold webhook SumsubSession.webhook
  simp only [hr, Option.isNone_some, Bool.false_eq_true, if_false, hrev, hev, hdigest, happ]
  split
  · exact ⟨h, rfl⟩
  split
  · exact ⟨h, rfl⟩
  split
  · exact ⟨h, rfl⟩
  split
  · exact ⟨h, rfl⟩
  · refine ⟨?_, rfl⟩
    rw [view_eq_some]
    exact ⟨d, _, by simp [setRecord, hr], rfl, by simp [hevents], by simp [incremented, hrev], rfl, rfl⟩

end SumsubRedis

def reviewOf (answer : SumsubAnswer) : SumsubWebhook where
  applicantId := ""
  type := .applicantReviewed
  createdAtMs := 2000
  digest := ""
  reviewStatus := some .completed
  reviewMode := false
  reviewAnswer := some answer
  reviewRejectType := none

/-- What the provider answers about the review of a callback, which it dates before it. -/
def statusOf (answer : SumsubAnswer) : SumsubStatus := ⟨1, .completed, some answer, none, some 1000⟩

/-- A session with one callback. -/
def reviewedOnce (answer : SumsubAnswer) : List SumsubRedisAction :=
  [.eval 0 .create, .eval 1 (.webhook (reviewOf answer) 1
    (applySumsubWebhookFence (statusOf answer).evaluate (reviewOf answer)) 1)]

theorem status_fence_exact_red :
    lastFence ((SumsubRedis.machine 600000).trace .empty (reviewedOnce .red)) = 2000 ∧
    ∃ w ∈ freshCallbacks ((SumsubRedis.machine 600000).trace .empty (reviewedOnce .red)),
      w.fencing = true ∧ 1000 < w.createdAtMs ∧ 0 < w.createdAtMs := by
  refine ⟨by decide, ?_⟩
  exact (SumsubRedis.status_fence_exact
    ((SumsubRedis.machine 600000).run_trace .empty (reviewedOnce .red)) rfl (statusOf .red).evaluate).2
    (.inr (by decide)) rfl

/-- The status read of the review that a green callback has announced. -/
theorem green_callback_fences :
    ¬ ∀ es s (v : SumsubEvidence), (SumsubRedis.machine 600000).Run .empty es s →
      s.record.isSome = true → (s.save v s.revision).2 = .fenced →
      ∃ w ∈ freshCallbacks es, w.fencing = true ∧ v.providerReviewedAt.getD 0 < w.createdAtMs ∧
        (v.webhookFence.map WebhookFence.eventAt).getD 0 < w.createdAtMs := by
  intro h
  obtain ⟨w, hw, hf, -⟩ := h _ _ (statusOf .green).evaluate
    ((SumsubRedis.machine 600000).run_trace .empty (reviewedOnce .green)) rfl rfl
  have hall : ∀ w ∈ freshCallbacks ((SumsubRedis.machine 600000).trace .empty (reviewedOnce .green)),
      w.fencing = false := by decide
  rw [hall w hw] at hf
  cases hf

end Proofmark
