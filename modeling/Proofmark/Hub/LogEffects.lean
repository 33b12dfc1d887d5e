/-
  What one log does to the hub contract.

  `LogMeaning.ofLog` reads a log of the source contract as the event it carries, and
  `LogEffect` says all that an applied log changes: the subject its event names, the
  cutoff of the key it declares compromised, or the epoch it publishes.  Everything
  proved about the hub contract later is derived from `applyLog_effect`.
-/
import Proofmark.Contract.ProofmarkASC

namespace Proofmark

open Words Revert Function

/-! ## The event of a log -/

/-- A lifecycle event of one subject. -/
inductive LifecycleEvent where
  | issued (attrs : Bytes32) (issuer : Address) (keyEpoch : U64) (claimsRoot evidenceHash : Bytes32)
  | revoked
  | denied
  | corrected (denialRevision : U64) (correctionId : U256) (reasonHash : Bytes32)
      (proposer approver : Address)
deriving DecidableEq

/-- A denial or a correction of one. -/
def LifecycleEvent.isDecision : LifecycleEvent → Bool
  | .denied | .corrected .. => true
  | .issued .. | .revoked => false

/-- A declared key compromise. -/
structure Compromise where
  issuer : Address
  keyEpoch : U64
  lastTrustedBlock : U64
deriving DecidableEq

/-- What a log tells the hub contract. -/
inductive LogMeaning where
  | nothing
  | lifecycle (subject : Address) (ev : LifecycleEvent)
  | compromise (k : Compromise)
  | epoch
deriving DecidableEq

/-- The word at position `i` of the first `n` data words. -/
def LogEntry.dataWord (L : LogEntry) (n i : ℕ) : Bytes32 := ((abiWords n L.data).getD []).getD i 0

/-- The meaning of a log to a hub contract that trusts `source`. -/
def LogMeaning.ofLog (source : Address) (L : LogEntry) : LogMeaning :=
  if L.address_ ≠ source ∨ L.topics.length = 0 then .nothing
  else if L.topic 0 = Sig.ISSUED then
    .lifecycle (toAddress (L.topic 1)) (.issued (L.topic 2) (toAddress (L.topic 3)) 0
      (L.dataWord 2 0) (L.dataWord 2 1))
  else if L.topic 0 = Sig.KEYED_ISSUED then
    .lifecycle (toAddress (L.topic 1)) (.issued (L.topic 2) (toAddress (L.topic 3))
      ((L.dataWord 3 0).setWidth 64) (L.dataWord 3 1) (L.dataWord 3 2))
  else if L.topic 0 = Sig.REVOKED then .lifecycle (toAddress (L.topic 1)) .revoked
  else if L.topic 0 = Sig.DENIED then .lifecycle (toAddress (L.topic 1)) .denied
  else if L.topic 0 = Sig.EPOCH then .epoch
  else if L.topic 0 = Sig.KEY_COMPROMISED then
    .compromise ⟨toAddress (L.topic 1), (L.topic 2).setWidth 64, (L.dataWord 2 0).setWidth 64⟩
  else if L.topic 0 = Sig.DENIAL_CORRECTED then
    .lifecycle (toAddress (L.topic 1)) (.corrected ((L.topic 2).setWidth 64) (L.topic 3)
      (L.dataWord 3 0) (toAddress (L.dataWord 3 1)) (toAddress (L.dataWord 3 2)))
  else .nothing

/-- The lifecycle event of `subject` in a log of the source contract. -/
def LogEntry.lifecycle? (L : LogEntry) (source subject : Address) : Option LifecycleEvent :=
  match LogMeaning.ofLog source L with
  | .lifecycle subject' ev => if subject' = subject then some ev else none
  | _ => none

/-- The compromise declared by a log of the source contract. -/
def LogEntry.compromise? (L : LogEntry) (source : Address) : Option Compromise :=
  match LogMeaning.ofLog source L with
  | .compromise k => some k
  | _ => none

/-! ## The effect of a log -/

/-- The update of a subject by an event at a coordinate. -/
def SubjectState.apply (st : SubjectState) (c : Coord) : LifecycleEvent → SubjectState
  | .issued attrs issuer keyEpoch claimsRoot evidenceHash =>
    st.onIssued c attrs issuer keyEpoch claimsRoot evidenceHash
  | .revoked => st.onRevoked c
  | .denied => st.onDenied c
  | .corrected denialRevision correctionId reasonHash proposer approver =>
    st.onDenialCorrected c denialRevision correctionId reasonHash proposer approver

/-- A cutoff after one more declaration: the tightest one stands. -/
def KeyCutoff.tighten (k : KeyCutoff) (lastTrustedBlock : U64) : KeyCutoff :=
  if ¬ k.compromised ∨ lastTrustedBlock < k.lastTrustedBlock then ⟨true, lastTrustedBlock⟩ else k

/-- The hub contract after a declared compromise. -/
def ProofmarkASC.declare (asc : ProofmarkASC) (k : Compromise) : ProofmarkASC :=
  { asc with
    issuerKeys := update asc.issuerKeys (k.issuer, k.keyEpoch)
      ((asc.issuerKeys (k.issuer, k.keyEpoch)).tighten k.lastTrustedBlock) }

/-- What applying a log does. -/
inductive LogEffect (now : ℕ) (c : Coord) (receiptLogs : List LogEntry) (L : LogEntry)
    (asc : ProofmarkASC) : ProofmarkASC → Prop
  | nothing : LogMeaning.ofLog asc.sourceContract L = .nothing →
      LogEffect now c receiptLogs L asc asc
  | lifecycle {subject : Address} {ev : LifecycleEvent} :
      LogMeaning.ofLog asc.sourceContract L = .lifecycle subject ev →
      LogEffect now c receiptLogs L asc (asc.updateSubject subject fun st => st.apply c ev)
  | compromise {k : Compromise} : LogMeaning.ofLog asc.sourceContract L = .compromise k →
      LogEffect now c receiptLogs L asc (asc.declare k)
  | epoch {asc' : ProofmarkASC} : LogMeaning.ofLog asc.sourceContract L = .epoch →
      asc.onEpoch now c.height L receiptLogs = .ok asc' → LogEffect now c receiptLogs L asc asc'

section
variable {asc asc' : ProofmarkASC} {now : ℕ} {c : Coord} {receiptLogs : List LogEntry}
  {L : LogEntry}

@[simp] theorem requireTrusted_ok {n : ℕ} {u : Unit} : asc.requireTrusted L n = .ok u ↔
    L.address_ = asc.sourceContract ∧ L.topics.length = n := by
  simp [ProofmarkASC.requireTrusted]

theorem dataWord_of_abiWords {n : ℕ} {ws : List Bytes32} (h : abiWords n L.data = some ws) (i : ℕ) :
    L.dataWord n i = ws.getD i 0 := by
  simp [LogEntry.dataWord, h]

theorem setWidth_of_toUInt? {n : ℕ} {w : Bytes32} {x : BitVec n} (h : toUInt? n w = some x) :
    w.setWidth n = x := by
  unfold toUInt? at h
  split_ifs at h
  exact Option.some.inj h

theorem onIssued_ok (h : asc.onIssued c L = .ok asc') :
    asc' = asc.updateSubject (toAddress (L.topic 1)) fun st =>
      st.onIssued c (L.topic 2) (toAddress (L.topic 3)) 0 (L.dataWord 2 0) (L.dataWord 2 1) := by
  simp only [ProofmarkASC.onIssued, bind_ok, orRevert_ok, pure_ok] at h
  obtain ⟨_, -, ws, hws, rfl⟩ := h
  simp only [dataWord_of_abiWords hws]

theorem onKeyedIssued_ok (h : asc.onKeyedIssued c L = .ok asc') :
    asc' = asc.updateSubject (toAddress (L.topic 1)) fun st =>
      st.onIssued c (L.topic 2) (toAddress (L.topic 3)) ((L.dataWord 3 0).setWidth 64)
        (L.dataWord 3 1) (L.dataWord 3 2) := by
  simp only [ProofmarkASC.onKeyedIssued, bind_ok, orRevert_ok, pure_ok] at h
  obtain ⟨_, -, _, -, ws, hws, k, hk, _, -, rfl⟩ := h
  simp only [dataWord_of_abiWords hws, setWidth_of_toUInt? hk]

theorem onTombstone_ok {newStatus : MarkStatus} (h : asc.onTombstone c L newStatus = .ok asc') :
    asc' = asc.updateSubject (toAddress (L.topic 1)) fun st =>
      if newStatus = .denied then st.onDenied c else st.onRevoked c := by
  simp only [ProofmarkASC.onTombstone, bind_ok, pure_ok] at h
  obtain ⟨_, -, rfl⟩ := h
  rfl

theorem onDenialCorrected_ok (h : asc.onDenialCorrected c L = .ok asc') :
    asc' = asc.updateSubject (toAddress (L.topic 1)) fun st =>
      st.onDenialCorrected c ((L.topic 2).setWidth 64) (L.topic 3) (L.dataWord 3 0)
        (toAddress (L.dataWord 3 1)) (toAddress (L.dataWord 3 2)) := by
  simp only [ProofmarkASC.onDenialCorrected, bind_ok, orRevert_ok, pure_ok] at h
  obtain ⟨_, -, _, -, ws, hws, p, hp, a, ha, _, -, rfl⟩ := h
  simp only [dataWord_of_abiWords hws, toAddress, setWidth_of_toUInt? hp, setWidth_of_toUInt? ha]

theorem onKeyCompromised_ok {height : U64} (h : asc.onKeyCompromised height L = .ok asc') :
    asc' = asc.declare
      ⟨toAddress (L.topic 1), (L.topic 2).setWidth 64, (L.dataWord 2 0).setWidth 64⟩ := by
  simp only [ProofmarkASC.onKeyCompromised, bind_ok, orRevert_ok] at h
  obtain ⟨_, -, _, -, ws, hws, x, hx, _, -, h⟩ := h
  rw [ProofmarkASC.declare, dataWord_of_abiWords hws, setWidth_of_toUInt? hx, KeyCutoff.tighten]
  split_ifs at h ⊢ with hc
  · exact (pure_ok.1 h).symm
  · rw [update_eq_self]
    exact (pure_ok.1 h).symm

/-- **All that an applied log does.** -/
theorem applyLog_effect (h : asc.applyLog now c receiptLogs L = .ok asc') :
    LogEffect now c receiptLogs L asc asc' := by
  unfold ProofmarkASC.applyLog at h
  split_ifs at h with h0 h1 h2 h3 h4 h5 h6 h7
  · rw [← pure_ok.1 h]
    exact .nothing (by rw [LogMeaning.ofLog, if_pos h0])
  · rw [onIssued_ok h]
    exact .lifecycle (by rw [LogMeaning.ofLog, if_neg h0, if_pos h1])
  · rw [onKeyedIssued_ok h]
    exact .lifecycle (by rw [LogMeaning.ofLog, if_neg h0, if_neg h1, if_pos h2])
  · rw [onTombstone_ok h]
    exact .lifecycle (by rw [LogMeaning.ofLog, if_neg h0, if_neg h1, if_neg h2, if_pos h3])
  · rw [onTombstone_ok h]
    refine .lifecycle (?_ : _ = LogMeaning.lifecycle _ .denied)
    rw [LogMeaning.ofLog, if_neg h0, if_neg h1, if_neg h2, if_neg h3, if_pos h4]
  · refine .epoch ?_ h
    rw [LogMeaning.ofLog, if_neg h0, if_neg h1, if_neg h2, if_neg h3, if_neg h4, if_pos h5]
  · rw [onKeyCompromised_ok h]
    refine .compromise ?_
    rw [LogMeaning.ofLog, if_neg h0, if_neg h1, if_neg h2, if_neg h3, if_neg h4, if_neg h5,
      if_pos h6]
  · rw [onDenialCorrected_ok h]
    refine .lifecycle (?_ : _ = LogMeaning.lifecycle _ (.corrected ..))
    rw [LogMeaning.ofLog, if_neg h0, if_neg h1, if_neg h2, if_neg h3, if_neg h4, if_neg h5,
      if_neg h6, if_pos h7]
  · rw [← pure_ok.1 h]
    refine .nothing ?_
    rw [LogMeaning.ofLog, if_neg h0, if_neg h1, if_neg h2, if_neg h3, if_neg h4, if_neg h5,
      if_neg h6, if_neg h7]

end

end Proofmark
