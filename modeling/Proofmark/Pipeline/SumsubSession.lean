/-
  A Sumsub session: the evidence of src/pipeline/providers/sumsub.ts, the Redis store of
  src/pipeline/providers/sumsub-redis.ts and the two operations of
  src/web/lib/sumsub-server.ts on it.

  Status reads and callbacks run at once and wait for the store and the provider between
  their steps.  The provider's answers are inputs of the machine.
-/
import Proofmark.Evm.Types
import Proofmark.Lib.Machine
import Mathlib.Logic.Function.Basic

namespace Proofmark

open Revert

inductive SumsubDecision where
  | notStarted
  | review
  | approved
  | rejected
deriving DecidableEq

inductive SumsubReviewStatus where
  | init
  | pending
  | queued
  | awaitingService
  | awaitingUser
  | onHold
  | prechecked
  | completed
deriving DecidableEq

inductive SumsubAnswer where
  | green
  | red
deriving DecidableEq

inductive SumsubRejectType where
  | final
  | retry
deriving DecidableEq

inductive SumsubWebhookType where
  | applicantCreated
  | applicantPending
  | applicantOnHold
  | applicantReviewed
deriving DecidableEq

inductive FenceReason where
  | ongoingReview
  | providerRejection
deriving DecidableEq

structure WebhookFence where
  eventAt : ℕ
  type : SumsubWebhookType
  reason : FenceReason
deriving DecidableEq

/-- `SumsubEvidenceCandidate`; `signedWebhook` is its `environmentEvidence`. -/
structure SumsubEvidence where
  signedWebhook : Bool
  applicantIdHash : Bytes32
  decision : SumsubDecision
  reviewStatus : SumsubReviewStatus
  reviewAnswer : Option SumsubAnswer
  reviewRejectType : Option SumsubRejectType
  providerReviewedAt : Option ℕ
  webhookFence : Option WebhookFence
deriving DecidableEq

/-- A verified callback; `reviewMode` is present for an ongoing review. -/
structure SumsubWebhook where
  applicantId : String
  type : SumsubWebhookType
  createdAtMs : ℕ
  digest : String
  reviewStatus : Option SumsubReviewStatus
  reviewMode : Bool
  reviewAnswer : Option SumsubAnswer
  reviewRejectType : Option SumsubRejectType
deriving DecidableEq

/-- What the provider's API answers about the applicant of the session. -/
structure SumsubStatus where
  applicantIdHash : Bytes32
  reviewStatus : SumsubReviewStatus
  reviewAnswer : Option SumsubAnswer
  reviewRejectType : Option SumsubRejectType
  reviewDate : Option ℕ
deriving DecidableEq

/-! ## Evidence -/

namespace SumsubStatus

variable (status : SumsubStatus)

def decision : SumsubDecision :=
  if status.reviewStatus = .completed ∧ status.reviewAnswer = some .red then
    if status.reviewRejectType = some .final then .rejected else .review
  else if status.reviewStatus = .completed ∧ status.reviewAnswer = some .green then .approved
  else if status.reviewStatus = .init then .notStarted
  else .review

def evaluate : SumsubEvidence :=
  { signedWebhook := false
    applicantIdHash := status.applicantIdHash
    decision := status.decision
    reviewStatus := status.reviewStatus
    reviewAnswer := status.reviewAnswer
    reviewRejectType := status.reviewRejectType
    providerReviewedAt := status.reviewDate
    webhookFence := none }

end SumsubStatus

namespace SumsubWebhook

variable (webhook : SumsubWebhook)

/-- The first branch of `applySumsubWebhookFence`. -/
def ongoing : Bool :=
  decide (webhook.type = .applicantPending) || decide (webhook.type = .applicantOnHold) ||
    webhook.reviewStatus.any (fun s => s ≠ .completed) || webhook.reviewMode

/-- A callback that fences. -/
def fencing : Bool := webhook.ongoing || decide (webhook.reviewAnswer = some .red)

/-- A completed final rejection. -/
def finalRed : Bool :=
  !webhook.ongoing && decide (webhook.reviewStatus = some .completed) &&
    decide (webhook.reviewAnswer = some .red) && decide (webhook.reviewRejectType = some .final)

end SumsubWebhook

def applySumsubWebhookFence (current : SumsubEvidence) (webhook : SumsubWebhook) : SumsubEvidence :=
  if webhook.ongoing then
    { current with
      signedWebhook := true
      decision := .review
      webhookFence := some ⟨webhook.createdAtMs, webhook.type, .ongoingReview⟩ }
  else if webhook.reviewAnswer = some .red then
    { current with
      signedWebhook := true
      decision := if webhook.reviewRejectType = some .final then .rejected else .review
      webhookFence := some ⟨webhook.createdAtMs, webhook.type, .providerRejection⟩ }
  else { current with signedWebhook := true }

/-- The review date does not clear a fence of the previous evidence. -/
def Fences (previous : Option SumsubEvidence) (reviewedAt : Option ℕ) : Prop :=
  ∃ p ∈ previous, ∃ f ∈ p.webhookFence, ¬ ∃ r ∈ reviewedAt, f.eventAt ≤ r

instance (previous : Option SumsubEvidence) (reviewedAt : Option ℕ) :
    Decidable (Fences previous reviewedAt) := inferInstanceAs (Decidable (∃ _ ∈ _, ∃ _ ∈ _, _))

def retainSumsubWebhookFence (current : SumsubEvidence) (previous : Option SumsubEvidence) :
    SumsubEvidence :=
  match previous with
  | none => current
  | some p =>
    match p.webhookFence with
    | none => current
    | some fence =>
      if ∃ r ∈ current.providerReviewedAt, fence.eventAt ≤ r then current
      else { current with decision := p.decision, webhookFence := some fence }

/-! ## The store -/

structure SumsubRecord where
  revision : ℕ
  latest : Option SumsubEvidence

/-- The three keys of a session: the record, the claimed events and the hash. -/
structure SumsubSession where
  record : SumsubRecord
  events : List String
  revision : ℕ
  eventAt : Option ℕ
  applicant : Option Bytes32

inductive SumsubClaim where
  | fresh
  | duplicate
  | stale
  | conflict
  | revisionConflict
deriving DecidableEq

inductive SumsubSave where
  | ok
  | fenced
  | revisionConflict
deriving DecidableEq

namespace SumsubSession

variable (s : SumsubSession)

/-- The session as `create` makes it. -/
def created : SumsubSession := ⟨⟨1, none⟩, [], 1, none, none⟩

/-- The `save` of the script. -/
def save (evidence : SumsubEvidence) (expectedRevision : ℕ) : SumsubSession × SumsubSave :=
  if s.revision ≠ expectedRevision then (s, .revisionConflict)
  else if evidence.providerReviewedAt.getD 0 < s.eventAt.getD 0 ∧
      (evidence.webhookFence.map WebhookFence.eventAt).getD 0 < s.eventAt.getD 0 then (s, .fenced)
  else ({ s with
    record := ⟨expectedRevision + 1, some evidence⟩
    revision := s.revision + 1 }, .ok)

/-- The `webhook` of the script. -/
def webhook (digest : String) (eventAt : ℕ) (applicant : Bytes32) (evidence : SumsubEvidence)
    (expectedRevision : ℕ) : SumsubSession × SumsubClaim :=
  if digest ∈ s.events then (s, .duplicate)
  else if s.revision ≠ expectedRevision then (s, .revisionConflict)
  else if s.applicant.any (fun a => a ≠ applicant) then (s, .conflict)
  else if eventAt ≤ s.eventAt.getD 0 then (s, .stale)
  else ({ s with
    record := ⟨expectedRevision + 1, some evidence⟩
    events := digest :: s.events
    revision := s.revision + 1
    eventAt := some eventAt
    applicant := some applicant }, .fresh)

end SumsubSession

/-! ## The operations -/

/-- A call at an await, with its locals: `record` is the first read, `reread` that of an
    attempt of `applyWebhook`. -/
inductive SumsubTask where
  | statusGet
  | statusEvaluate (record : SumsubRecord)
  | statusCheck (record : SumsubRecord) (fetched : SumsubStatus)
  | statusSave (record : SumsubRecord) (fetched : SumsubStatus)
  | webhookGet (webhook : SumsubWebhook)
  | webhookEvaluate (webhook : SumsubWebhook) (record : SumsubRecord)
  | webhookReread (webhook : SumsubWebhook) (record : SumsubRecord) (fetched : SumsubStatus)
      (attempt : ℕ)
  | webhookClaim (webhook : SumsubWebhook) (record : SumsubRecord) (fetched : SumsubStatus)
      (attempt : ℕ) (reread : SumsubRecord)

/-- What `currentSumsubStatus` saves. -/
def observed (record : SumsubRecord) (fetched : SumsubStatus) : SumsubEvidence :=
  retainSumsubWebhookFence fetched.evaluate record.latest

/-- What `acceptSumsubWebhook` hands to the store. -/
def restricted (webhook : SumsubWebhook) (record : SumsubRecord) (fetched : SumsubStatus) :
    SumsubEvidence :=
  retainSumsubWebhookFence (applySumsubWebhookFence fetched.evaluate webhook) record.latest

inductive SumsubOutput where
  | done
  | saved (record : SumsubRecord) (fetched : SumsubStatus) (result : SumsubSave)
  | claimed (webhook : SumsubWebhook) (record : SumsubRecord) (fetched : SumsubStatus)
      (reread : SumsubRecord) (claim : SumsubClaim)

/-- The session and the calls in progress. -/
structure SumsubHost where
  session : SumsubSession
  tasks : ℕ → Option SumsubTask
  next : ℕ

/-- A crash also stands for a failed call and for a lost response. -/
inductive SumsubAction where
  | currentStatus
  | acceptWebhook (webhook : SumsubWebhook)
  | resume (i : ℕ) (answer : Option SumsubStatus)
  | crash (i : ℕ)

inductive SumsubHostError where
  | notAwaited

namespace SumsubHost

def initial : SumsubHost := ⟨.created, fun _ => none, 0⟩

variable (applicantIdHash : String → Bytes32) (h : SumsubHost)

/-- From the await that settled to the next one. -/
def advance (task : SumsubTask) (answer : Option SumsubStatus) :
    Option (SumsubSession × Option SumsubTask × SumsubOutput) :=
  let s := h.session
  match task, answer with
  | .statusGet, none => some (s, some (.statusEvaluate s.record), .done)
  | .statusEvaluate record, some fetched => some (s, some (.statusCheck record fetched), .done)
  | .statusCheck record fetched, none =>
    some (s, if s.record.revision ≠ record.revision then none else some (.statusSave record fetched),
      .done)
  | .statusSave record fetched, none =>
    let r := s.save (observed record fetched) record.revision
    some (r.1, none, .saved record fetched r.2)
  | .webhookGet webhook, none => some (s, some (.webhookEvaluate webhook s.record), .done)
  | .webhookEvaluate webhook record, some fetched =>
    some (s, if fetched.applicantIdHash ≠ applicantIdHash webhook.applicantId then none
      else some (.webhookReread webhook record fetched 0), .done)
  | .webhookReread webhook record fetched attempt, none =>
    some (s, some (.webhookClaim webhook record fetched attempt s.record), .done)
  | .webhookClaim webhook record fetched attempt reread, none =>
    let r := s.webhook webhook.digest webhook.createdAtMs fetched.applicantIdHash
      (retainSumsubWebhookFence (restricted webhook record fetched) reread.latest) reread.revision
    some (r.1, if r.2 = .revisionConflict ∧ attempt < 2 then
      some (.webhookReread webhook record fetched (attempt + 1)) else none,
      .claimed webhook record fetched reread r.2)
  | _, _ => none

def start (task : SumsubTask) : SumsubHost :=
  { h with tasks := Function.update h.tasks h.next (some task), next := h.next + 1 }

def machine : Machine SumsubHost SumsubAction SumsubOutput SumsubHostError where
  step h
    | .currentStatus => pure (h.start .statusGet, .done)
    | .acceptWebhook webhook => pure (h.start (.webhookGet webhook), .done)
    | .resume i answer => do
      let task ← orRevert (h.tasks i) .notAwaited
      let r ← orRevert (h.advance applicantIdHash task answer) .notAwaited
      pure ({ h with session := r.1, tasks := Function.update h.tasks i r.2.1 }, r.2.2)
    | .crash i => pure ({ h with tasks := Function.update h.tasks i none }, .done)

end SumsubHost

abbrev SumsubStep := Machine.Entry SumsubHost SumsubAction SumsubOutput

end Proofmark
