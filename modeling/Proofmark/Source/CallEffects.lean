/-
  What a successful call does to the source contract.

  `CallEffect` lists all that a call can do: emit events that leave the denials, the
  corrections and the epoch alone; record denials; propose, approve or execute a
  correction; publish an epoch.  `call_effect` is proved once over the external
  functions, and the invariants of the source contract are derived from it.
-/
import Proofmark.Contract.ComplianceSource

namespace Proofmark

open Words Revert Function

namespace SourceEvent

/-- Events that are about neither a denial decision nor an epoch. -/
def quiet : SourceEvent → Bool
  | sanctionDenied .. | sanctionDenialCorrected .. | rosterEpochPublished .. |
    rosterIssuerAuthorized .. | rosterIssuerKeyAuthorized .. => false
  | _ => true

/-- What the source contract guarantees of an event it emits in the block `number` at
    `timestamp`. -/
def Sound (number : U64) (timestamp : ℕ) : SourceEvent → Prop
  | markIssued subject attrs issuer _ _ =>
    subject ≠ 0 ∧ issuer ≠ 0 ∧ MarkAttrs.validAtIssuance attrs timestamp = true
  | keyedMarkIssued subject attrs issuer issuerKeyEpoch _ _ =>
    subject ≠ 0 ∧ issuer ≠ 0 ∧ MarkAttrs.validAtIssuance attrs timestamp = true ∧
      issuerKeyEpoch ≠ 0
  | markRevoked subject _ _ => subject ≠ 0
  | sanctionDenied subject _ _ => subject ≠ 0
  | sanctionDenialCorrected subject denialRevision correctionId reasonHash proposer approver =>
    subject ≠ 0 ∧ denialRevision ≠ 0 ∧ correctionId ≠ 0 ∧ reasonHash ≠ 0 ∧ proposer ≠ 0 ∧
      approver ≠ 0 ∧ proposer ≠ approver
  | rosterEpochPublished epoch root listVersion validUntil sourceCutoff publishedAt snapshotId =>
    Publication.Valid ⟨epoch, root, listVersion, validUntil, sourceCutoff, publishedAt, snapshotId⟩ ∧
      publishedAt.toNat = timestamp
  | rosterIssuerAuthorized _ _ issuer => issuer ≠ 0
  | rosterIssuerKeyAuthorized _ _ issuer issuerKeyEpoch => issuer ≠ 0 ∧ issuerKeyEpoch ≠ 0
  | issuerKeyCompromised issuer issuerKeyEpoch lastTrustedBlock reasonHash =>
    issuer ≠ 0 ∧ issuerKeyEpoch ≠ 0 ∧ reasonHash ≠ 0 ∧ lastTrustedBlock < number
  | _ => True

end SourceEvent

/-- The key epoch that an account reports; zero when the query fails. -/
def Account.currentKeyEpoch (account : Account) : U64 :=
  (value? (ComplianceSource.currentIssuerKeyEpoch account)).getD 0

/-- The publication that a call asks for, with its approvals. -/
def SourceCall.publication? (accounts : Address → Account) (msg : Msg) :
    SourceCall → Option (Publication × List (Address × U64))
  | .publishEpoch epoch root listVersion validUntil sourceCutoff snapshotId =>
    some (⟨epoch, root, listVersion, validUntil, sourceCutoff, BitVec.ofNat 40 msg.timestamp, snapshotId⟩,
      [(msg.sender, 0)])
  | .publishEpochForIssuers epoch root listVersion validUntil sourceCutoff snapshotId approvals =>
    some (⟨epoch, root, listVersion, validUntil, sourceCutoff, BitVec.ofNat 40 msg.timestamp, snapshotId⟩,
      approvals.map fun a => (a.issuer, (accounts a.issuer).currentKeyEpoch))
  | _ => none

/-! ## Effects -/

/-- The denials, the corrections and the epoch are unchanged. -/
structure SameLifecycle (s s' : ComplianceSource) : Prop where
  lastEpoch : s'.lastEpoch = s.lastEpoch
  sourceDenialActive : s'.sourceDenialActive = s.sourceDenialActive
  sourceDenialRevision : s'.sourceDenialRevision = s.sourceDenialRevision
  denialCorrections : s'.denialCorrections = s.denialCorrections
  nextDenialCorrectionId : s'.nextDenialCorrectionId = s.nextDenialCorrectionId

theorem SameLifecycle.refl (s : ComplianceSource) : SameLifecycle s s := ⟨rfl, rfl, rfl, rfl, rfl⟩

/-- The state after one more denial of a subject. -/
def ComplianceSource.denied (s : ComplianceSource) (subject : Address) : ComplianceSource :=
  { s with
    sourceDenialActive := update s.sourceDenialActive subject true
    sourceDenialRevision :=
      update s.sourceDenialRevision subject (s.sourceDenialRevision subject + 1) }

/-- `Denials s subjects s'`: the subjects are denied one after the other. -/
inductive Denials : ComplianceSource → List Address → ComplianceSource → Prop
  | nil (s : ComplianceSource) : Denials s [] s
  | cons {s s' : ComplianceSource} {subject : Address} {subjects : List Address} :
      subject ≠ 0 → s.sourceDenialRevision subject ≠ BitVec.allOnes 64 →
      Denials (s.denied subject) subjects s' → Denials s (subject :: subjects) s'

theorem Denials.lastEpoch_eq {s s' : ComplianceSource} {subjects : List Address}
    (h : Denials s subjects s') : s'.lastEpoch = s.lastEpoch := by
  induction h with
  | nil s => rfl
  | cons _ _ _ ih => rw [ih]; rfl

theorem Denials.denialCorrections_eq {s s' : ComplianceSource} {subjects : List Address}
    (h : Denials s subjects s') : s'.denialCorrections = s.denialCorrections := by
  induction h with
  | nil s => rfl
  | cons _ _ _ ih => rw [ih]; rfl

theorem Denials.subject_ne {s s' : ComplianceSource} {subjects : List Address}
    (h : Denials s subjects s') : ∀ x ∈ subjects, x ≠ 0 := by
  induction h with
  | nil s => simp
  | cons h0 _ _ ih => exact List.forall_mem_cons.2 ⟨h0, ih⟩

/-- All that a successful call can do. -/
inductive CallEffect (accounts : Address → Account) (msg : Msg) (s : ComplianceSource) :
    SourceCall → ComplianceSource → List SourceEvent → Prop
  | quiet {c : SourceCall} {s' : ComplianceSource} {events : List SourceEvent} :
      c.publication? accounts msg = none → SameLifecycle s s' →
      (∀ e ∈ events, e.quiet = true ∧ e.Sound msg.number msg.timestamp) → CallEffect accounts msg s c s' events
  | denied {c : SourceCall} {subjects : List Address} {listVersion epoch : U32}
      {s' : ComplianceSource} : c.publication? accounts msg = none → s.isIssuer msg.sender = true →
      Denials s subjects s' →
      CallEffect accounts msg s c s' (subjects.map fun x => .sanctionDenied x listVersion epoch)
  | proposed {subject : Address} {attrs claimsRoot evidenceHash reasonHash : Bytes32} :
      s.isIssuer msg.sender = true → subject ≠ 0 → s.sourceDenialActive subject = true →
      reasonHash ≠ 0 → s.nextDenialCorrectionId ≠ BitVec.allOnes 256 →
      CallEffect accounts msg s
        (.proposeDenialCorrection subject attrs claimsRoot evidenceHash reasonHash)
        { s with
          nextDenialCorrectionId := s.nextDenialCorrectionId + 1
          denialCorrections := update s.denialCorrections s.nextDenialCorrectionId
            { subject, proposer := msg.sender, approver := 0, attrs, claimsRoot, evidenceHash,
              reasonHash, denialRevision := s.sourceDenialRevision subject
              executeAfter := BitVec.ofNat 40
                (msg.timestamp + ComplianceSource.MIN_DENIAL_CORRECTION_DELAY)
              executed := false } }
        [.denialCorrectionProposed s.nextDenialCorrectionId subject (s.sourceDenialRevision subject)
          msg.sender reasonHash
          (BitVec.ofNat 40 (msg.timestamp + ComplianceSource.MIN_DENIAL_CORRECTION_DELAY))]
  | approved {id : U256} : s.isDenialCorrectionApprover msg.sender = true →
      (s.denialCorrections id).subject ≠ 0 → (s.denialCorrections id).executed = false →
      (s.denialCorrections id).approver = 0 → (s.denialCorrections id).proposer ≠ msg.sender →
      CallEffect accounts msg s (.approveDenialCorrection id)
        { s with
          denialCorrections := update s.denialCorrections id
            { s.denialCorrections id with approver := msg.sender } }
        [.denialCorrectionApproved id msg.sender (s.denialCorrections id).reasonHash]
  | executed {id : U256} : (s.denialCorrections id).subject ≠ 0 →
      (s.denialCorrections id).executed = false →
      s.sourceDenialActive (s.denialCorrections id).subject = true →
      s.sourceDenialRevision (s.denialCorrections id).subject =
        (s.denialCorrections id).denialRevision →
      s.isIssuer (s.denialCorrections id).proposer = true →
      MarkAttrs.validAtIssuance (s.denialCorrections id).attrs msg.timestamp = true →
      (s.denialCorrections id).approver ≠ 0 →
      (s.denialCorrections id).executeAfter.toNat ≤ msg.timestamp →
      CallEffect accounts msg s (.executeDenialCorrection id)
        { s with
          denialCorrections := update s.denialCorrections id
            { s.denialCorrections id with executed := true }
          sourceDenialActive :=
            update s.sourceDenialActive (s.denialCorrections id).subject false }
        [.sanctionDenialCorrected (s.denialCorrections id).subject
            (s.denialCorrections id).denialRevision id (s.denialCorrections id).reasonHash
            (s.denialCorrections id).proposer (s.denialCorrections id).approver,
          .markIssued (s.denialCorrections id).subject (s.denialCorrections id).attrs
            (s.denialCorrections id).proposer (s.denialCorrections id).claimsRoot
            (s.denialCorrections id).evidenceHash]
  | published {c : SourceCall} {p : Publication} {approvals : List (Address × U64)} :
      c.publication? accounts msg = some (p, approvals) → s.isEpochPublisher msg.sender = true →
      s.lastEpoch < p.epoch → p.Valid → p.publishedAt.toNat = msg.timestamp → approvals ≠ [] →
      approvals.length ≤ 16 → (approvals.map Prod.fst).Nodup → (∀ a ∈ approvals, a.1 ≠ 0) →
      CallEffect accounts msg s c { s with lastEpoch := p.epoch } (p.events approvals)

/-! ## Each function has its effect -/

section
variable {env : SourceEnv} {accounts : Address → Account} {msg : Msg} {s s' : ComplianceSource}
  {events : List SourceEvent}

namespace ComplianceSource

@[simp] theorem onlyIssuer_ok {u : Unit} : s.onlyIssuer msg = .ok u ↔ s.isIssuer msg.sender = true := by
  simp [onlyIssuer]

@[simp] theorem onlyEpochPublisher_ok {u : Unit} :
    s.onlyEpochPublisher msg = .ok u ↔ s.isEpochPublisher msg.sender = true := by
  simp [onlyEpochPublisher]

theorem currentIssuerKeyEpoch_ok {account : Account} {k : U64}
    (h : currentIssuerKeyEpoch account = .ok k) : account.currentKeyEpoch = k := by
  simp [Account.currentKeyEpoch, h, value?]

theorem issueBatchLoop_ok {items : List Issuance} (h : issueBatchLoop msg items = .ok events) :
    ∀ e ∈ events, e.quiet = true ∧ e.Sound msg.number msg.timestamp := by
  induction items generalizing events with
  | nil =>
    rw [issueBatchLoop, pure_ok] at h
    simp [← h]
  | cons item items ih =>
    simp only [issueBatchLoop, bind_ok, revertIf_ok, pure_ok] at h
    obtain ⟨_, h0, _, hv, rest, hrest, rfl⟩ := h
    intro e he
    rcases List.mem_cons.1 he with rfl | he
    · exact ⟨rfl, h0, msg.sender_ne, not_not.1 hv⟩
    · exact ih hrest e he

theorem revokeBatchLoop_ok {epoch : U32} {items : List (Address × U16)}
    (h : revokeBatchLoop epoch items = .ok events) : ∀ e ∈ events, e.quiet = true ∧ e.Sound msg.number msg.timestamp := by
  induction items generalizing events with
  | nil =>
    rw [revokeBatchLoop, pure_ok] at h
    simp [← h]
  | cons item items ih =>
    simp only [revokeBatchLoop, bind_ok, revertIf_ok, pure_ok] at h
    obtain ⟨_, h0, rest, hrest, rfl⟩ := h
    intro e he
    rcases List.mem_cons.1 he with rfl | he
    · exact ⟨rfl, h0⟩
    · exact ih hrest e he

theorem denyBatchLoop_ok {listVersion epoch : U32} {subjects : List Address}
    (h : denyBatchLoop listVersion epoch s subjects = .ok (s', events)) :
    Denials s subjects s' ∧ events = subjects.map fun x => .sanctionDenied x listVersion epoch := by
  induction subjects generalizing s events with
  | nil =>
    rw [denyBatchLoop, pure_ok, Prod.mk.injEq] at h
    obtain ⟨rfl, rfl⟩ := h
    exact ⟨.nil s, rfl⟩
  | cons x subjects ih =>
    simp only [denyBatchLoop, recordDenial, bind_ok, revertIf_ok, pure_ok, Prod.mk.injEq] at h
    obtain ⟨_, h0, s₁, ⟨_, hmax, rfl⟩, ⟨s₂, rest⟩, hrest, rfl, rfl⟩ := h
    obtain ⟨h1, h2⟩ := ih hrest
    exact ⟨.cons h0 hmax h1, by rw [h2, List.map_cons]⟩

theorem checkEpoch_ok (listVersion : U32) {epoch : U32} {root : Bytes32} {validUntil sourceCutoff : U40}
    {snapshotId : Bytes32} {u : Unit}
    (h : s.checkEpoch msg epoch root validUntil sourceCutoff snapshotId = .ok u) :
    s.lastEpoch < epoch ∧ Publication.Valid ⟨epoch, root, listVersion, validUntil, sourceCutoff,
      BitVec.ofNat 40 msg.timestamp, snapshotId⟩ ∧
      (BitVec.ofNat 40 msg.timestamp).toNat = msg.timestamp := by
  simp only [checkEpoch, bind_ok, revertIf_ok, not_or, not_not] at h
  obtain ⟨_, hlt, htime, hvalid⟩ := h
  refine ⟨BitVec.not_le.1 hlt, hvalid, ?_⟩
  rw [BitVec.toNat_ofNat, Nat.mod_eq_of_lt (by omega)]

/-- The approvals the loop accepts: distinct nonzero issuers, with their key epochs. -/
theorem approvalsLoop_ok {epoch : U32} {root digest : Bytes32} {previous : Address}
    {approvals : List RootApproval} {p : Publication} (hp : p.epoch = epoch ∧ p.root = root)
    (h : s.approvalsLoop env accounts epoch root digest previous approvals = .ok events) :
    (approvals.map RootApproval.issuer).Pairwise (· < ·) ∧
      (∀ a ∈ approvals, previous < a.issuer) ∧
      events = (approvals.map fun a => (a.issuer, (accounts a.issuer).currentKeyEpoch)).flatMap
        p.approvalEvents := by
  induction approvals generalizing previous events with
  | nil =>
    rw [approvalsLoop, pure_ok] at h
    simp [← h]
  | cons a approvals ih =>
    simp only [approvalsLoop, bind_ok, revertIf_ok, pure_ok, not_or] at h
    obtain ⟨_, ⟨hlt, -⟩, k, hk, rest, hrest, rfl⟩ := h
    obtain ⟨h1, h2, h3⟩ := ih hrest
    have hlt' : previous < a.issuer := BitVec.not_le.1 hlt
    refine ⟨?_, ?_, ?_⟩
    · rw [List.map_cons, List.pairwise_cons]
      refine ⟨fun x hx => ?_, h1⟩
      obtain ⟨b, hb, rfl⟩ := List.mem_map.1 hx
      exact h2 b hb
    · intro b hb
      rcases List.mem_cons.1 hb with rfl | hb
      exacts [hlt', BitVec.lt_trans hlt' (h2 b hb)]
    · rw [List.map_cons, List.flatMap_cons, ← h3, Publication.approvalEvents, hp.1, hp.2,
        currentIssuerKeyEpoch_ok hk]

end ComplianceSource

open ComplianceSource

theorem CallEffect.one {c : SourceCall} {e : SourceEvent} (hc : c.publication? accounts msg = none)
    (hs : SameLifecycle s s') (hq : e.quiet = true) (he : e.Sound msg.number msg.timestamp) :
    CallEffect accounts msg s c s' [e] :=
  .quiet hc hs (by simp [hq, he])

/-- **All that a successful call does.** -/
theorem call_effect {c : SourceCall} (h : s.call env accounts msg c = .ok (s', events)) :
    CallEffect accounts msg s c s' events := by
  cases c with
  | ownership c =>
    simp only [call, ownership, bind_ok, pure_ok, Prod.mk.injEq] at h
    obtain ⟨o, -, rfl, rfl⟩ := h
    refine .quiet rfl ⟨rfl, rfl, rfl, rfl, rfl⟩ ?_
    cases c <;> simp [ownershipEvents, SourceEvent.quiet, SourceEvent.Sound]
  | setIssuer account allowed =>
    simp only [call, setIssuer, bind_ok, pure_ok, Prod.mk.injEq] at h
    obtain ⟨_, -, rfl, rfl⟩ := h
    exact .one rfl ⟨rfl, rfl, rfl, rfl, rfl⟩ rfl trivial
  | setEpochPublisher account allowed =>
    simp only [call, setEpochPublisher, bind_ok, pure_ok, Prod.mk.injEq] at h
    obtain ⟨_, -, rfl, rfl⟩ := h
    exact .one rfl ⟨rfl, rfl, rfl, rfl, rfl⟩ rfl trivial
  | setDenialCorrectionApprover account allowed =>
    simp only [call, setDenialCorrectionApprover, bind_ok, pure_ok, Prod.mk.injEq] at h
    obtain ⟨_, -, _, -, rfl, rfl⟩ := h
    exact .one rfl ⟨rfl, rfl, rfl, rfl, rfl⟩ rfl trivial
  | issue subject attrs claimsRoot evidenceHash =>
    simp only [call, issue, bind_ok, revertIf_ok, pure_ok, Prod.mk.injEq] at h
    obtain ⟨_, -, _, h0, _, hv, rfl, rfl⟩ := h
    exact .one rfl (.refl s) rfl ⟨h0, msg.sender_ne, not_not.1 hv⟩
  | issueOnce requestId subject attrs claimsRoot evidenceHash =>
    simp only [call, issueOnce, bind_ok, revertIf_ok, pure_ok, Prod.mk.injEq] at h
    obtain ⟨_, -, _, h0, _, -, _, hv, rfl, rfl⟩ := h
    exact .one rfl ⟨rfl, rfl, rfl, rfl, rfl⟩ rfl ⟨h0, msg.sender_ne, not_not.1 hv⟩
  | issueOnceWithKey requestId subject attrs claimsRoot evidenceHash issuerKeyEpoch =>
    simp only [call, issueOnceWithKey, bind_ok, revertIf_ok, pure_ok, Prod.mk.injEq] at h
    obtain ⟨_, -, _, h0, _, -, _, hv, _, hk, k, -, _, -, rfl, rfl⟩ := h
    exact .one rfl ⟨rfl, rfl, rfl, rfl, rfl⟩ rfl ⟨h0, msg.sender_ne, not_not.1 hv, hk⟩
  | declareIssuerKeyCompromise issuerKeyEpoch lastTrustedBlock reasonHash =>
    simp only [call, declareIssuerKeyCompromise, bind_ok, revertIf_ok, pure_ok, Prod.mk.injEq,
      not_or] at h
    obtain ⟨_, -, _, hk, k, -, _, ⟨-, hr, hl⟩, rfl, rfl⟩ := h
    exact .one rfl (.refl s) rfl ⟨msg.sender_ne, hk, hr, BitVec.not_le.1 hl⟩
  | issueBatch items =>
    simp only [call, issueBatch, bind_ok, pure_ok, Prod.mk.injEq] at h
    obtain ⟨_, -, evs, hevs, rfl, rfl⟩ := h
    exact .quiet rfl (.refl s) (issueBatchLoop_ok hevs)
  | revoke subject reasonCode epoch =>
    simp only [call, revoke, bind_ok, revertIf_ok, pure_ok, Prod.mk.injEq] at h
    obtain ⟨_, -, _, h0, rfl, rfl⟩ := h
    exact .one rfl (.refl s) rfl h0
  | revokeBatch subjects reasonCodes epoch =>
    simp only [call, revokeBatch, bind_ok, revertIf_ok, pure_ok, Prod.mk.injEq] at h
    obtain ⟨_, -, _, -, evs, hevs, rfl, rfl⟩ := h
    exact .quiet rfl (.refl s) (revokeBatchLoop_ok hevs)
  | deny subject listVersion epoch =>
    simp only [call, deny, recordDenial, bind_ok, revertIf_ok, pure_ok, Prod.mk.injEq,
      onlyIssuer_ok] at h
    obtain ⟨_, hi, _, h0, s₁, ⟨_, hmax, rfl⟩, rfl, rfl⟩ := h
    show CallEffect accounts msg s _ _ ([subject].map fun x => .sanctionDenied x listVersion epoch)
    exact .denied rfl hi (.cons h0 hmax (.nil _))
  | denyBatch subjects listVersion epoch =>
    simp only [call, denyBatch, bind_ok, onlyIssuer_ok] at h
    obtain ⟨_, hi, hloop⟩ := h
    obtain ⟨h1, rfl⟩ := denyBatchLoop_ok hloop
    exact .denied rfl hi h1
  | proposeDenialCorrection subject attrs claimsRoot evidenceHash reasonHash =>
    simp only [call, proposeDenialCorrection, bind_ok, revertIf_ok, pure_ok, Prod.mk.injEq, not_or,
      not_not, onlyIssuer_ok] at h
    obtain ⟨_, hi, _, ⟨h0, hact, hr, -⟩, _, hmax, rfl, rfl⟩ := h
    exact .proposed hi h0 hact hr hmax
  | approveDenialCorrection correctionId =>
    simp only [call, approveDenialCorrection, bind_ok, revertIf_ok, pure_ok, Prod.mk.injEq, not_or,
      not_not] at h
    obtain ⟨_, ha, _, ⟨h0, hex, hap, hpr, -, -⟩, rfl, rfl⟩ := h
    exact .approved ha h0 (Bool.not_eq_true _ ▸ hex) hap hpr
  | executeDenialCorrection correctionId =>
    simp only [call, executeDenialCorrection, bind_ok, revertIf_ok, pure_ok, Prod.mk.injEq, not_or,
      not_not, not_lt] at h
    obtain ⟨_, ⟨h0, hex, hact, hrev, hiss, hv⟩, _, hap, _, htime, rfl, rfl⟩ := h
    exact .executed h0 (Bool.not_eq_true _ ▸ hex) hact hrev hiss hv hap htime
  | publishEpoch epoch root listVersion validUntil sourceCutoff snapshotId =>
    simp only [call, publishEpoch, finishEpoch, bind_ok, pure_ok, Prod.mk.injEq,
      onlyEpochPublisher_ok] at h
    obtain ⟨_, hpub, _, -, _, hcheck, rfl, rfl⟩ := h
    obtain ⟨hlt, hvalid, htime⟩ := checkEpoch_ok listVersion hcheck
    show CallEffect accounts msg s _ _ (Publication.events
      ⟨epoch, root, listVersion, validUntil, sourceCutoff, _, snapshotId⟩ [(msg.sender, 0)])
    exact .published rfl hpub hlt hvalid htime (by simp) (by simp) (by simp)
      (by simpa using msg.sender_ne)
  | publishEpochForIssuers epoch root listVersion validUntil sourceCutoff snapshotId approvals =>
    simp only [call, publishEpochForIssuers, finishEpoch, bind_ok, revertIf_ok, pure_ok,
      Prod.mk.injEq, not_or, onlyEpochPublisher_ok] at h
    obtain ⟨_, hpub, _, hcheck, _, ⟨hne, hle⟩, evs, hloop, rfl, rfl⟩ := h
    obtain ⟨hlt, hvalid, htime⟩ := checkEpoch_ok listVersion hcheck
    obtain ⟨h1, h2, h3⟩ := approvalsLoop_ok
      (p := ⟨epoch, root, listVersion, validUntil, sourceCutoff, BitVec.ofNat 40 msg.timestamp,
        snapshotId⟩) ⟨rfl, rfl⟩ hloop
    rw [h3]
    refine .published rfl hpub hlt hvalid htime ?_ ?_ ?_ ?_
    · intro he
      exact hne (by simpa using congrArg List.length he)
    · simpa [MAX_ROSTER_ISSUERS] using hle
    · rw [List.map_map]
      exact h1.imp fun hlt => BitVec.ne_of_lt hlt
    · intro a ha
      obtain ⟨b, hb, rfl⟩ := List.mem_map.1 ha
      have := h2 b hb
      rintro h0
      rw [show b.issuer = 0 from h0] at this
      simp at this

end

end Proofmark
