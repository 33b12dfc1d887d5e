/-
  What a transaction to the note does.

  `call_effect` lists it once: nothing that matters, a movement between verified
  accounts, or one step of the recovery protocol.  Every result about runs of the note is
  derived from it.
-/
import Proofmark.Contract.GatedRwaNote

namespace Proofmark

open Revert Function ERC20

/-- The account that an executed request credits. -/
def RecoveryRequest.recipient (d : RecoveryRequest) : Address :=
  match d.kind with
  | .transfer => d.to_
  | .burn => 0

namespace GatedRwaNote

/-- The part of the note that the recovery protocol writes is unchanged. -/
structure SameRecovery (s s' : GatedRwaNote) : Prop where
  POLICY_ID : s'.POLICY_ID = s.POLICY_ID
  complianceBypass : s'.complianceBypass = s.complianceBypass
  recoveryProposer : s'.recoveryProposer = s.recoveryProposer
  recoveryApprover : s'.recoveryApprover = s.recoveryApprover
  nextRecoveryId : s'.nextRecoveryId = s.nextRecoveryId
  recoveryRequests : s'.recoveryRequests = s.recoveryRequests

/-- The call is not one of the recovery protocol. -/
def Call.ordinary : Call → Bool
  | .configureRecoveryGovernance .. | .proposeRecovery .. | .approveRecovery .. |
    .executeRecovery .. => false
  | _ => true

/-- All that a successful call can do. -/
inductive NoteEffect (isVerified : Address → U256 → Bool) (msg : Msg) (s : GatedRwaNote) :
    Call → GatedRwaNote → Prop
  | quiet {c : Call} {s' : GatedRwaNote} : c.ordinary = true → SameRecovery s s' →
      s'.token.balances = s.token.balances → s'.token.totalSupply = s.token.totalSupply →
      NoteEffect isVerified msg s c s'
  | moved {c : Call} {s' : GatedRwaNote} {from_ to_ : Address} {value : U256} :
      c.ordinary = true → SameRecovery s s' → Moved from_ to_ value s.token s'.token →
      s'.token.Conserved → (from_ ≠ 0 → isVerified from_ s.POLICY_ID = true) →
      (to_ ≠ 0 → isVerified to_ s.POLICY_ID = true) → NoteEffect isVerified msg s c s'
  | configured {proposer approver : Address} : s.recoveryProposer = 0 → proposer ≠ approver →
      NoteEffect isVerified msg s (.configureRecoveryGovernance proposer approver)
        { s with recoveryProposer := proposer, recoveryApprover := approver }
  | proposed {kind : RecoveryKind} {from_ to_ : Address} {amount : U256} {reasonHash : Bytes32} :
      msg.sender = s.recoveryProposer → from_ ≠ 0 → (kind = .burn → to_ = 0) →
      s.nextRecoveryId ≠ BitVec.allOnes 256 →
      NoteEffect isVerified msg s (.proposeRecovery kind from_ to_ amount reasonHash)
        { s with
          nextRecoveryId := s.nextRecoveryId + 1
          recoveryRequests := update s.recoveryRequests s.nextRecoveryId
            { from_, to_, amount, reasonHash, proposer := msg.sender, approver := 0
              executeAfter := BitVec.ofNat 40 (msg.timestamp + MIN_RECOVERY_DELAY), kind
              executed := false } }
  | approved {id : U256} : msg.sender = s.recoveryApprover → (s.recoveryRequests id).proposer ≠ 0 →
      (s.recoveryRequests id).approver = 0 → (s.recoveryRequests id).executed = false →
      NoteEffect isVerified msg s (.approveRecovery id)
        { s with
          recoveryRequests := update s.recoveryRequests id
            { s.recoveryRequests id with approver := msg.sender } }
  | executed {id : U256} {token : ERC20} : (s.recoveryRequests id).proposer ≠ 0 →
      (s.recoveryRequests id).executed = false → (s.recoveryRequests id).approver ≠ 0 →
      (s.recoveryRequests id).executeAfter.toNat ≤ msg.timestamp →
      Moved (s.recoveryRequests id).from_ (s.recoveryRequests id).recipient
        (s.recoveryRequests id).amount s.token token → token.Conserved →
      ((s.recoveryRequests id).recipient ≠ 0 →
        isVerified (s.recoveryRequests id).recipient s.POLICY_ID = true) →
      NoteEffect isVerified msg s (.executeRecovery id)
        { s with
          token
          complianceBypass := false
          recoveryRequests := update s.recoveryRequests id
            { s.recoveryRequests id with executed := true } }

section
variable {isVerified : Address → U256 → Bool} {msg : Msg} {s s' : GatedRwaNote}

/-- The gate: a movement is between verified accounts, unless it is bypassed. -/
theorem update_ok {from_ to_ : Address} {value : U256} (hc : s.token.Conserved)
    (h : s.update_ isVerified from_ to_ value = .ok s') :
    ∃ token, s' = { s with token } ∧ Moved from_ to_ value s.token token ∧ token.Conserved ∧
      (s.complianceBypass = false → from_ ≠ 0 → isVerified from_ s.POLICY_ID = true) ∧
      (to_ ≠ 0 → isVerified to_ s.POLICY_ID = true) := by
  simp only [update_, bind_ok, revertIf_ok, mapError_ok, pure_ok] at h
  obtain ⟨_, hfrom, _, hto, token, ht, rfl⟩ := h
  obtain ⟨hm, hc'⟩ := update_moved hc ht
  refine ⟨token, rfl, hm, hc', fun hb h0 => ?_, fun h0 => ?_⟩
  · by_contra hv
    exact hfrom ⟨by simp [hb], h0, hv⟩
  · by_contra hv
    exact hto ⟨h0, hv⟩

/-- An ordinary movement has the effect of one. -/
theorem moved_of_update {c : Call} {t : ERC20} {from_ to_ : Address} {value : U256}
    (hord : c.ordinary = true) (hc : s.token.Conserved) (hb : s.complianceBypass = false)
    (hbal : t.balances = s.token.balances) (hsup : t.totalSupply = s.token.totalSupply)
    (h : update_ isVerified { s with token := t } from_ to_ value = .ok s') :
    NoteEffect isVerified msg s c s' := by
  obtain ⟨token, rfl, hm, hcons, hfrom, hto⟩ := update_ok (hc.congr hbal hsup) h
  have hmoved : Moved from_ to_ value s.token token :=
    ⟨fun a => by rw [hm.balances, hbal], by rw [hm.totalSupply, hsup]⟩
  exact .moved hord ⟨rfl, rfl, rfl, rfl, rfl, rfl⟩ hmoved hcons (hfrom hb) hto

/-- **All that a transaction to the note does.** -/
theorem call_effect {c : Call} (hc : s.token.Conserved) (hb : s.complianceBypass = false)
    (h : s.call isVerified msg c = .ok s') : NoteEffect isVerified msg s c s' := by
  cases c with
  | ownership c =>
    simp only [call, bind_ok, mapError_ok, pure_ok] at h
    obtain ⟨o, -, rfl⟩ := h
    exact .quiet rfl ⟨rfl, rfl, rfl, rfl, rfl, rfl⟩ rfl rfl
  | transfer to_ value =>
    simp only [call, transfer, transfer_, bind_ok, revertIf_ok] at h
    obtain ⟨_, -, _, -, h⟩ := h
    exact moved_of_update rfl hc hb rfl rfl h
  | approve spender value =>
    simp only [call, approve, ERC20.approve, bind_ok, mapError_ok, revertIf_ok, pure_ok] at h
    obtain ⟨token, ⟨_, -, rfl⟩, rfl⟩ := h
    exact .quiet rfl ⟨rfl, rfl, rfl, rfl, rfl, rfl⟩ rfl rfl
  | transferFrom from_ to_ value =>
    simp only [call, transferFrom, transfer_, bind_ok, mapError_ok, revertIf_ok] at h
    obtain ⟨token, hspend, _, -, _, -, h⟩ := h
    rw [spendAllowance] at hspend
    have hsame : token.balances = s.token.balances ∧ token.totalSupply = s.token.totalSupply := by
      split_ifs at hspend
      · simp only [bind_ok, pure_ok] at hspend
        obtain ⟨_, -, rfl⟩ := hspend
        exact ⟨rfl, rfl⟩
      · rw [pure_ok] at hspend
        exact hspend ▸ ⟨rfl, rfl⟩
    exact moved_of_update rfl hc hb hsame.1 hsame.2 h
  | mint to_ amount =>
    simp only [call, mint, mint_, bind_ok, revertIf_ok] at h
    obtain ⟨_, -, _, -, h⟩ := h
    exact moved_of_update rfl hc hb rfl rfl h
  | burn amount =>
    simp only [call, burn, burn_, bind_ok, revertIf_ok] at h
    obtain ⟨_, -, h⟩ := h
    exact moved_of_update rfl hc hb rfl rfl h
  | configureRecoveryGovernance proposer approver =>
    simp only [call, configureRecoveryGovernance, bind_ok, revertIf_ok, pure_ok, not_or, not_not] at h
    obtain ⟨_, -, _, h0, _, ⟨-, -, hne⟩, rfl⟩ := h
    exact .configured h0 hne
  | proposeRecovery kind from_ to_ amount reasonHash =>
    simp only [call, proposeRecovery, bind_ok, revertIf_ok, pure_ok, not_or, not_not] at h
    obtain ⟨_, hs, _, ⟨h0, -, -, -, hburn⟩, _, -, _, hmax, rfl⟩ := h
    exact .proposed hs h0 (fun hk => not_not.1 fun hto => hburn ⟨hk, hto⟩) hmax
  | approveRecovery id =>
    simp only [call, approveRecovery, bind_ok, revertIf_ok, pure_ok, not_or, not_not] at h
    obtain ⟨_, hs, _, ⟨hp, ha, he⟩, rfl⟩ := h
    exact .approved hs hp ha (Bool.not_eq_true _ ▸ he)
  | executeRecovery id =>
    simp only [call, executeRecovery, bind_ok, revertIf_ok, pure_ok, not_or, not_lt] at h
    obtain ⟨_, ⟨hp, he⟩, _, ha, _, ht, _, -, moved, hm, rfl⟩ := h
    have hupd : update_ isVerified
        { s with
          recoveryRequests := update s.recoveryRequests id
            { s.recoveryRequests id with executed := true }
          complianceBypass := true } (s.recoveryRequests id).from_ (s.recoveryRequests id).recipient
        (s.recoveryRequests id).amount = .ok moved := by
      rw [recover] at hm
      cases hk : (s.recoveryRequests id).kind with
      | transfer =>
        simp only [hk, transfer_, bind_ok, revertIf_ok] at hm
        obtain ⟨_, -, _, -, hm⟩ := hm
        simpa [RecoveryRequest.recipient, hk] using hm
      | burn =>
        simp only [hk, burn_, bind_ok, revertIf_ok] at hm
        obtain ⟨_, -, hm⟩ := hm
        simpa [RecoveryRequest.recipient, hk] using hm
    obtain ⟨token, rfl, hmv, hcons, -, hto⟩ := update_ok (by exact hc) hupd
    exact .executed hp (Bool.not_eq_true _ ▸ he) ha ht hmv hcons hto

end

end GatedRwaNote

end Proofmark
