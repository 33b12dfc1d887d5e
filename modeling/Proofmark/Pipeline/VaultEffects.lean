/-
  What one operation of the vault does.

  `VaultEffect` lists the outcomes of an operation that commits, each with what it checked;
  `apply_effect` is the only proof that opens the operations.
-/
import Proofmark.Pipeline.Vault

namespace Proofmark

open Revert Function

/-- Operations that may find their work done. -/
def VaultOp.repeats : VaultOp → Bool
  | .put _ | .recordSourceConfirmation _ _ _ | .erase _ _ _ | .recordRevocationObservation _ _ _ _ =>
    true
  | _ => false

/-- Screenings and reviews that block. -/
def VaultOp.blocks : VaultOp → Bool
  | .recordRescreen _ event _ => event.decision = .block
  | .decideReview _ event _ => event.outcome = .blocked
  | _ => false

/-- Changes of the retention controls that are no deletion requests. -/
def VaultOp.retains : VaultOp → Bool
  | .extendRetention _ _ | .placeHold _ _ _ _ _ | .releaseHold _ _ _ _ _ => true
  | _ => false

theorem VaultOp.blocks_of_retains {op : VaultOp} (h : op.retains = true) : op.blocks = false := by
  cases op <;> first | rfl | cases h

namespace VaultData

variable {env : VaultEnv} {d d' : VaultData}

@[simp] theorem timestamp_ok {value : ℤ} {u : Unit} :
    timestamp value = .ok u ↔ safeInteger value 0 := by
  simp [timestamp]

/-! ## Records -/

/-- **The changes of a record.** -/
inductive RecordStep (env : VaultEnv) (d : VaultData) (r : VaultRecord) : VaultOp → VaultRecord → Prop
  | materialized (evidenceHash : String) (issuance : Option SourceIssuanceObservation) :
    RecordStep env d r (.recordMaterialization r.id evidenceHash)
      { r with
        sourceIssuance := issuance
        state := if r.state = .pending then .active else r.state }
  | sourced (evidenceHash : String) (observation : SourceIssuanceObservation)
      (issuance : Option SourceIssuanceObservation) :
    RecordStep env d r (.recordSourceConfirmation r.id evidenceHash observation)
      { r with sourceIssuance := issuance }
  | rescreened (event : RescreenEvent) (expected : VaultRecord) (state : ComplianceState)
      (ht : r.state ≠ .blocked ∧ r.state ≠ .rejected)
      (hb : event.decision = .block → state = .blocked) :
    RecordStep env d r (.recordRescreen r.id event expected)
      { r with
        lastScreenedAt := some event.at_
        rescreens := r.rescreens ++ [event]
        state := state }
  | reviewed (event : ReviewEvent) (state : ComplianceState) (reviews : List ReviewEvent)
      (hc : event.outcome = .cleared → d.unconfirmed r.id = [])
      (hb : event.outcome = .blocked → state = .blocked) :
    RecordStep env d r (.decideReview r.id event (d.reviewRevision env r))
      { r with
        reviews := reviews
        state := state }

/-- The identity and the retention of a record do not change. -/
theorem RecordStep.fixed {r r' : VaultRecord} {op : VaultOp} (h : RecordStep env d r op r') :
    r'.id = r.id ∧ r'.createdAt = r.createdAt ∧ r'.retentionUntil = r.retentionUntil := by
  cases h <;> exact ⟨rfl, rfl, rfl⟩

/-- **The changes of the controls** of a record that leave its requests as they are. -/
inductive ControlsStep (r : VaultRecord) (c : RetentionControls) : RetentionControls → Prop
  | extended (x : RetentionExtension) (hs : safeInteger x.until_ 0)
      (hl : max r.retentionUntil (c.minimumUntil.getD 0) < x.until_) :
    ControlsStep r c { c with
      minimumUntil := some x.until_
      extensions := c.extensions ++ [x] }
  | held (holds : List RetentionHold) : ControlsStep r c { c with holds := holds }

/-- **The changes of a job.** -/
inductive JobStep (j : RevocationJob) : VaultOp → RevocationJob → Prop
  | prepared (t : RevocationTransaction) (hc : j.state ≠ .confirmed) :
    JobStep j (.prepareRevocation j.id t) { j with transaction := some t, state := .prepared }
  | finished (at_ : ℤ) (t : RevocationTransaction) (ht : j.transaction = some t) :
    JobStep j (.finishRevocation j.id at_)
      { j with
        state := .confirmed
        confirmedAt := some at_
        lastError := none
        transaction := some { t with raw := [] } }
  | failed (error : String) (lastError : Option String) (hc : j.state ≠ .confirmed) :
    JobStep j (.failRevocation j.id error false) { j with lastError := lastError }
  | reverted (error : String) (lastError : Option String) (hc : j.state ≠ .confirmed) :
    JobStep j (.failRevocation j.id error true)
      { j with
        lastError := lastError
        state := .pending
        transaction := none }
  | observed (expected : RevocationJob) (o : RevocationObservation) (recordedAt : ℤ)
      (observations : List (ℤ × RevocationObservation)) :
    JobStep j (.recordRevocationObservation j.id expected o recordedAt)
      { j with observations := observations }

/-- A job keeps its id and its record, and stays confirmed once it is. -/
theorem JobStep.kept {j j' : RevocationJob} {op : VaultOp} (h : JobStep j op j') :
    j'.id = j.id ∧ j'.recordId = j.recordId ∧ (j.state = .confirmed → j'.state = .confirmed) := by
  cases h with
  | prepared t hc => exact ⟨rfl, rfl, fun he => absurd he hc⟩
  | finished at_ t ht => exact ⟨rfl, rfl, fun _ => rfl⟩
  | failed error lastError hc => exact ⟨rfl, rfl, fun he => absurd he hc⟩
  | reverted error lastError hc => exact ⟨rfl, rfl, fun he => absurd he hc⟩
  | observed expected o recordedAt observations => exact ⟨rfl, rfl, fun he => he⟩

/-- **The outcomes of an operation that commits.** -/
inductive VaultEffect (env : VaultEnv) (d : VaultData) : VaultOp → VaultData → Prop
  | same (op : VaultOp) (hop : op.repeats = true) : VaultEffect env d op d
  | stored (r : VaultRecord) (hn : d.record r.id = none) (he : ∀ e ∈ d.erasures, e.recordId ≠ r.id)
      (hc : safeInteger r.createdAt 0) (hr : safeInteger r.retentionUntil r.createdAt) :
    VaultEffect env d (.put r) { d with records := d.records ++ [r] }
  | updated (op : VaultOp) (r r' : VaultRecord) (hr : d.record r.id = some r)
      (hs : RecordStep env d r op r') (hb : op.blocks = false) :
    VaultEffect env d op (d.setRecord r')
  | blocked (op : VaultOp) (r r' : VaultRecord) (at_ : ℤ) (d' : VaultData)
      (hr : d.record r.id = some r) (hs : RecordStep env d r op r') (hb : op.blocks = true)
      (hstate : r'.state = .blocked) (hq : (d.setRecord r').queueRevocation r' at_ = .ok d') :
    VaultEffect env d op d'
  | controlled (op : VaultOp) (r : VaultRecord) (c : RetentionControls)
      (hr : d.record r.id = some r) (hs : ControlsStep r (d.controls r.id) c)
      (hop : op.retains = true) :
    VaultEffect env d op (d.setControls r.id c)
  | requested (r : VaultRecord) (requestId : String) (input : DeletionInput) (at_ : ℤ)
      (hr : d.record r.id = some r) :
    VaultEffect env d (.requestDeletion r.id requestId input at_)
      (d.setControls r.id { d.controls r.id with
        requests := (d.controls r.id).requests ++ [⟨requestId, d.deletionFingerprint env r, at_,
          input.operator, input.policyRef, input.serviceRef, input.disposition, input.automatic,
          none⟩] })
  | approved (r : VaultRecord) (request : DeletionRequest) (operator : String) (at_ : ℤ)
      (hr : d.record r.id = some r) (hreq : d.request r.id = some request)
      (hn : request.approval = none) (ho : operator ≠ request.operator)
      (hf : request.fingerprint = d.deletionFingerprint env r) :
    VaultEffect env d (.approveDeletion r.id request.id operator at_)
      (d.setControls r.id { d.controls r.id with
        requests := (d.controls r.id).requests.dropLast ++
          [{ request with approval := some ⟨operator, at_⟩ }] })
  | erased (r : VaultRecord) (request : DeletionRequest) (at_ : ℤ) (hr : d.record r.id = some r)
      (hreq : d.request r.id = some request) (hb : d.deletionBlockers env r at_ = []) :
    VaultEffect env d (.erase r.id request.id at_) (d.eraseApproved r request at_)
  | purged (now : ℤ) :
    VaultEffect env d (.purgeExpired now)
      (d.records.foldl (fun d record => d.purgeRecord env now record) d)
  | recovered (now : ℤ) (d' : VaultData)
      (hr : d.records.foldlM (fun d record => d.recoverRecord now record) d = .ok d') :
    VaultEffect env d (.recoverBlockedRevocations now) d'
  | delivered (op : VaultOp) (j j' : RevocationJob) (hj : d.job j.id = some j)
      (hs : JobStep j op j') :
    VaultEffect env d op (d.setJob j')

theorem record_id {id : String} {r : VaultRecord} (h : d.record id = some r) : r.id = id :=
  (Keyed.mem_of_find h).2

theorem job_id {id : RevocationJobId} {j : RevocationJob} (h : d.job id = some j) : j.id = id :=
  (Keyed.mem_of_find h).2

theorem put_effect {r : VaultRecord} (h : d.put r = .ok d') : VaultEffect env d (.put r) d' := by
  simp only [put, bind_ok, revertIf_ok, timestamp_ok] at h
  obtain ⟨-, -, -, he, -, hc, -, hr, -, hcr, -, -, h⟩ := h
  split at h
  · simp only [bind_ok, pure_ok] at h
    obtain ⟨-, -, rfl⟩ := h
    exact .same _ rfl
  · next hn =>
    rw [pure_ok] at h
    subst h
    refine .stored r hn (fun e hm hid => he ?_) hc ⟨hr.1, by omega⟩
    exact List.any_eq_true.2 ⟨e, hm, by simpa using hid⟩

theorem materialization_effect {id evidenceHash : String}
    (h : d.recordMaterialization id evidenceHash = .ok d') :
    VaultEffect env d (.recordMaterialization id evidenceHash) d' := by
  simp only [recordMaterialization, mustGet, bind_ok, orRevert_ok, pure_ok] at h
  obtain ⟨r, hr, -, -, rfl⟩ := h
  obtain rfl := record_id hr
  exact .updated _ r _ hr (.materialized evidenceHash _) rfl

theorem sourceConfirmation_effect {id evidenceHash : String} {o : SourceIssuanceObservation}
    (h : d.recordSourceConfirmation id evidenceHash o = .ok d') :
    VaultEffect env d (.recordSourceConfirmation id evidenceHash o) d' := by
  simp only [recordSourceConfirmation, mustGet, bind_ok, orRevert_ok] at h
  obtain ⟨r, hr, -, -, -, -, -, -, h⟩ := h
  obtain rfl := record_id hr
  split at h
  · simp only [bind_ok, pure_ok] at h
    obtain ⟨-, -, rfl⟩ := h
    exact .same _ rfl
  · rw [pure_ok] at h
    subst h
    exact .updated _ r _ hr (.sourced evidenceHash o _) rfl

theorem rescreen_effect {id : String} {event : RescreenEvent} {expected : VaultRecord}
    (h : d.recordRescreen id event expected = .ok d') :
    VaultEffect env d (.recordRescreen id event expected) d' := by
  simp only [recordRescreen, bind_ok, orRevert_ok, revertIf_ok, not_or] at h
  obtain ⟨r, hr, -, -, -, ht, -, -, -, -, h⟩ := h
  obtain rfl := record_id hr
  split at h
  · next hd =>
    refine .blocked _ r _ event.at_ d' hr (.rescreened event expected _ ht fun hb => ?_)
      (decide_eq_true hd) ?_ h
    · rw [hd]
    · rw [hd]
  · next hd =>
    rw [pure_ok] at h
    subst h
    exact .updated _ r _ hr (.rescreened event expected _ ht fun hb => absurd hb hd)
      (decide_eq_false hd)

theorem review_effect {id : String} {event : ReviewEvent} {revision : Bytes32}
    (h : d.decideReview env id event revision = .ok d') :
    VaultEffect env d (.decideReview id event revision) d' := by
  simp only [decideReview, bind_ok, orRevert_ok, revertIf_ok, not_and, ne_eq, not_not] at h
  obtain ⟨r, hr, -, rfl, -, -, -, -, -, -, -, -, -, hc, h⟩ := h
  obtain rfl := record_id hr
  split at h
  · next hd =>
    refine .blocked _ r _ event.at_ d' hr (.reviewed event _ _ hc fun _ => ?_)
      (decide_eq_true hd) ?_ h
    · rw [hd]
    · rw [hd]
  · next hd =>
    rw [pure_ok] at h
    subst h
    exact .updated _ r _ hr (.reviewed event _ _ hc fun hb => absurd hb hd) (decide_eq_false hd)

theorem controls_effect {op : VaultOp}
    (hop : (∃ id x, op = .extendRetention id x) ∨ (∃ id h o ref t, op = .placeHold id h o ref t) ∨
      ∃ id h o ref t, op = .releaseHold id h o ref t) (h : d.apply env op = .ok d') :
    VaultEffect env d op d' := by
  rcases hop with ⟨id, x, rfl⟩ | ⟨id, hold, o, ref, t, rfl⟩ | ⟨id, hold, o, ref, t, rfl⟩
  · simp only [apply, extendRetention, mustGet, bind_ok, orRevert_ok, timestamp_ok, revertIf_ok,
      pure_ok, Int.not_le] at h
    obtain ⟨-, -, -, hs, -, -, -, -, r, hr, -, hl, rfl⟩ := h
    obtain rfl := record_id hr
    exact .controlled _ r _ hr (.extended x hs hl) rfl
  · simp only [apply, placeHold, mustGet, bind_ok, orRevert_ok, pure_ok] at h
    obtain ⟨r, hr, -, -, -, -, -, -, -, -, -, -, rfl⟩ := h
    obtain rfl := record_id hr
    exact .controlled _ r _ hr (.held _) rfl
  · simp only [apply, releaseHold, mustGet, bind_ok, orRevert_ok, pure_ok] at h
    obtain ⟨r, hr, -, -, -, -, -, -, x, -, -, -, -, -, rfl⟩ := h
    obtain rfl := record_id hr
    exact .controlled _ r _ hr (.held _) rfl

theorem request_effect {id requestId : String} {input : DeletionInput} {at_ : ℤ}
    (h : d.requestDeletion env id requestId input at_ = .ok d') :
    VaultEffect env d (.requestDeletion id requestId input at_) d' := by
  simp only [requestDeletion, mustGet, bind_ok, orRevert_ok, pure_ok] at h
  obtain ⟨-, -, -, -, -, -, -, -, r, hr, -, -, -, -, -, -, rfl⟩ := h
  obtain rfl := record_id hr
  exact .requested r requestId input at_ hr

theorem approve_effect {id requestId operator : String} {at_ : ℤ}
    (h : d.approveDeletion env id requestId operator at_ = .ok d') :
    VaultEffect env d (.approveDeletion id requestId operator at_) d' := by
  simp only [approveDeletion, mustGet, bind_ok, orRevert_ok, revertIf_ok, pure_ok, ne_eq, not_not,
    Bool.not_eq_true, Option.isSome_eq_false_iff, Option.isNone_iff_eq_none] at h
  obtain ⟨-, -, -, -, r, hr, q, hq, -, rfl, -, ho, -, hn, -, -, -, hf, -, -, rfl⟩ := h
  obtain rfl := record_id hr
  exact .approved r q operator at_ hr hq hn (fun he => ho he.symm) hf

theorem erase_effect {id requestId : String} {at_ : ℤ} (h : d.erase env id requestId at_ = .ok d') :
    VaultEffect env d (.erase id requestId at_) d' := by
  simp only [erase, bind_ok] at h
  obtain ⟨-, -, h⟩ := h
  split at h
  · rw [pure_ok] at h
    subst h
    exact .same _ rfl
  · next r hr =>
    simp only [bind_ok, orRevert_ok, revertIf_ok, pure_ok, ne_eq, not_not] at h
    obtain ⟨q, hq, -, rfl, -, hb, rfl⟩ := h
    obtain rfl := record_id hr
    exact .erased r q at_ hr hq hb

theorem job_effect {op : VaultOp}
    (hop : (∃ id t, op = .prepareRevocation id t) ∨ (∃ id t, op = .finishRevocation id t) ∨
      (∃ id error minedRevert, op = .failRevocation id error minedRevert) ∨
      ∃ id j o t, op = .recordRevocationObservation id j o t) (h : d.apply env op = .ok d') :
    VaultEffect env d op d' := by
  rcases hop with ⟨id, t, rfl⟩ | ⟨id, t, rfl⟩ | ⟨id, error, reverted, rfl⟩ | ⟨id, x, o, t, rfl⟩
  · simp only [apply, prepareRevocation, mustGetJob, bind_ok, orRevert_ok, revertIf_ok, pure_ok] at h
    obtain ⟨j, hj, -, hc, -, -, rfl⟩ := h
    obtain rfl := job_id hj
    exact .delivered _ j _ hj (.prepared t hc)
  · simp only [apply, finishRevocation, mustGetJob, bind_ok, orRevert_ok, pure_ok] at h
    obtain ⟨j, hj, tx, ht, rfl⟩ := h
    obtain rfl := job_id hj
    exact .delivered _ j _ hj (.finished t tx ht)
  · simp only [apply, failRevocation, mustGetJob, bind_ok, orRevert_ok, revertIf_ok, pure_ok] at h
    obtain ⟨j, hj, -, hc, rfl⟩ := h
    obtain rfl := job_id hj
    cases reverted with
    | false => exact .delivered _ j _ hj (.failed error _ hc)
    | true => exact .delivered _ j _ hj (.reverted error _ hc)
  · simp only [apply, recordRevocationObservation, bind_ok, orRevert_ok] at h
    obtain ⟨j, hj, -, -, -, -, tx, -, -, -, -, -, h⟩ := h
    obtain rfl := job_id hj
    split at h
    · rw [pure_ok] at h
      subst h
      exact .delivered _ j _ hj (.observed x o t _)
    · simp only [bind_ok] at h
      obtain ⟨-, -, h⟩ := h
      split at h
      · rw [pure_ok] at h
        subst h
        exact .same _ rfl
      · rw [pure_ok] at h
        subst h
        exact .delivered _ j _ hj (.observed x o t _)

theorem apply_effect {op : VaultOp} (h : d.apply env op = .ok d') : VaultEffect env d op d' := by
  cases op with
  | put r => exact put_effect h
  | recordMaterialization id e => exact materialization_effect h
  | recordSourceConfirmation id e o => exact sourceConfirmation_effect h
  | recordRescreen id event x => exact rescreen_effect h
  | decideReview id event x => exact review_effect h
  | extendRetention id x => exact controls_effect (.inl ⟨_, _, rfl⟩) h
  | placeHold id x o ref t => exact controls_effect (.inr (.inl ⟨_, _, _, _, _, rfl⟩)) h
  | releaseHold id x o ref t => exact controls_effect (.inr (.inr ⟨_, _, _, _, _, rfl⟩)) h
  | requestDeletion id x input t => exact request_effect h
  | approveDeletion id x o t => exact approve_effect h
  | erase id x t => exact erase_effect h
  | purgeExpired now =>
    simp only [apply, purgeExpired, bind_ok, pure_ok] at h
    obtain ⟨-, -, rfl⟩ := h
    exact .purged now
  | recoverBlockedRevocations now => exact .recovered now d' h
  | prepareRevocation id t => exact job_effect (.inl ⟨_, _, rfl⟩) h
  | finishRevocation id t => exact job_effect (.inr (.inl ⟨_, _, rfl⟩)) h
  | failRevocation id e r => exact job_effect (.inr (.inr (.inl ⟨_, _, _, rfl⟩))) h
  | recordRevocationObservation id x o t => exact job_effect (.inr (.inr (.inr ⟨_, _, _, _, rfl⟩))) h

theorem effect_of_step {e : VaultStep} (h : (machine env).IsStep e) :
    VaultEffect env e.pre e.act e.post := by
  obtain ⟨d, op, u, d'⟩ := e
  change (d.apply env op).map (fun d' => (d', ())) = .ok (d', u) at h
  rw [map_ok] at h
  obtain ⟨d'', h, he⟩ := h
  cases he
  exact apply_effect h

end VaultData

end Proofmark
