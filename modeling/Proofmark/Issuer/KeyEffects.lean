/-
  What a successful call does to the issuer.

  `IssuerEffect` lists all that a call can do to the keys and the ownership, and
  `call_effect` is proved once over the external functions.  `sourceCall?` is the call of
  the source contract that a call makes.
-/
import Proofmark.Contract.RotatingIssuer

namespace Proofmark

open Revert Function

/-- The call of the source contract that a call makes when the key epoch is `keyEpoch`. -/
def IssuerCall.sourceCall? (keyEpoch : U64) : IssuerCall → Option SourceCall
  | .declareCompromise reasonHash lastTrustedBlock =>
    some (.declareIssuerKeyCompromise keyEpoch lastTrustedBlock reasonHash)
  | .issueOnce expectedEpoch requestId subject attrs claimsRoot evidenceHash =>
    some (.issueOnceWithKey requestId subject attrs claimsRoot evidenceHash expectedEpoch)
  | .revoke _ subject reasonCode epoch => some (.revoke subject reasonCode epoch)
  | .deny _ subject listVersion epoch => some (.deny subject listVersion epoch)
  | _ => none

/-- The epoch that an action of the operating key is for. -/
def IssuerCall.operating? : IssuerCall → Option U64
  | .issueOnce expectedEpoch .. | .revoke expectedEpoch .. | .deny expectedEpoch .. =>
    some expectedEpoch
  | _ => none

/-- The call suspends the issuer. -/
def IssuerCall.suspends : IssuerCall → Bool
  | .suspend .. | .declareCompromise .. => true
  | _ => false

namespace RotatingIssuer

/-- The state after the pending key is accepted. -/
def activated (s : RotatingIssuer) : RotatingIssuer :=
  { s with
    operatingKey := s.pendingKey
    pendingKey := 0
    usedKey := update s.usedKey s.pendingKey true
    suspended := false
    keyEpoch := s.keyEpoch + 1 }

/-- The state after the operating key is retired. -/
def retired (s : RotatingIssuer) : RotatingIssuer :=
  { s with operatingKey := 0, pendingKey := 0, suspended := true, keyEpoch := s.keyEpoch + 1 }

/-- All that a successful call can do. -/
inductive IssuerEffect (sender : Address) (s : RotatingIssuer) : IssuerCall → RotatingIssuer → Prop
  | proposed {next : Address} : sender = s.ownable.owner → next ≠ 0 → s.usedKey next = false →
      next ≠ s.ownable.owner → next ≠ s.ownable.pendingOwner →
      IssuerEffect sender s (.proposeKey next) { s with pendingKey := next }
  | cancelled : sender = s.ownable.owner →
      IssuerEffect sender s .cancelKeyProposal { s with pendingKey := 0 }
  | accepted : sender = s.pendingKey → s.pendingKey ≠ 0 → s.keyEpoch ≠ BitVec.allOnes 64 →
      IssuerEffect sender s (.acceptKey s.keyEpoch) s.activated
  | suspended {c : IssuerCall} : sender = s.ownable.owner → c.suspends = true →
      s.keyEpoch ≠ BitVec.allOnes 64 → IssuerEffect sender s c s.retired
  | offered {next : Address} : sender = s.ownable.owner →
      (next ≠ 0 → s.usedKey next = false ∧ next ≠ s.pendingKey) →
      IssuerEffect sender s (.transferOwnership next)
        { s with ownable := { s.ownable with pendingOwner := next } }
  | succeeded : sender = s.ownable.pendingOwner →
      IssuerEffect sender s .acceptOwnership { s with ownable := ⟨sender, 0⟩, pendingKey := 0 }
  | operated {c : IssuerCall} : s.suspended = false → sender = s.operatingKey →
      c.operating? = some s.keyEpoch → IssuerEffect sender s c s

variable {ρ : Type} {s s' : RotatingIssuer} {sender : Address}
  {source : SourceCall → Except SourceError ρ} {c : IssuerCall} {out : Option ρ}

@[simp] theorem onlyOwner_ok {u : Unit} :
    s.onlyOwner sender = .ok u ↔ sender = s.ownable.owner := by
  rw [onlyOwner, mapError_ok, Ownable.onlyOwner_ok, eq_comm]

@[simp] theorem currentKey_ok {expectedEpoch : U64} {u : Unit} :
    s.currentKey sender expectedEpoch = .ok u ↔
      s.suspended = false ∧ sender = s.operatingKey ∧ expectedEpoch = s.keyEpoch := by
  simp [currentKey, and_assoc]

theorem retire_ok {reasonHash : Bytes32} (h : s.retire reasonHash = .ok s') :
    s.keyEpoch ≠ BitVec.allOnes 64 ∧ s' = s.retired := by
  simp only [retire, bind_ok, revertIf_ok, pure_ok] at h
  obtain ⟨_, -, _, hm, rfl⟩ := h
  exact ⟨hm, rfl⟩

/-- **Each function has its effect.** -/
theorem call_effect (h : s.call sender source c = .ok (s', out)) : IssuerEffect sender s c s' := by
  cases c with
  | proposeKey next =>
    simp only [call, proposeKey, map_ok, bind_ok, onlyOwner_ok, revertIf_ok, pure_ok,
      Prod.mk.injEq, not_or] at h
    obtain ⟨_, ⟨_, hs, _, ⟨h0, hu, ho, hp⟩, rfl⟩, rfl, -⟩ := h
    exact .proposed hs h0 (Bool.eq_false_iff.2 hu) ho hp
  | cancelKeyProposal =>
    simp only [call, cancelKeyProposal, map_ok, bind_ok, onlyOwner_ok, pure_ok, Prod.mk.injEq] at h
    obtain ⟨_, ⟨_, hs, rfl⟩, rfl, -⟩ := h
    exact .cancelled hs
  | acceptKey expectedEpoch =>
    simp only [call, acceptKey, map_ok, bind_ok, revertIf_ok, pure_ok, Prod.mk.injEq, not_or,
      not_not] at h
    obtain ⟨_, ⟨_, ⟨hs, h0⟩, _, rfl, _, hm, rfl⟩, rfl, -⟩ := h
    exact .accepted hs h0 hm
  | suspend reasonHash =>
    simp only [call, suspend, map_ok, bind_ok, onlyOwner_ok, Prod.mk.injEq] at h
    obtain ⟨_, ⟨_, hs, hr⟩, rfl, -⟩ := h
    obtain ⟨hm, rfl⟩ := retire_ok hr
    exact .suspended hs rfl hm
  | declareCompromise reasonHash lastTrustedBlock =>
    simp only [call, declareCompromise, map_ok, bind_ok, onlyOwner_ok, pure_ok, Prod.mk.injEq] at h
    obtain ⟨_, ⟨_, hs, _, -, _, hr, rfl⟩, rfl, -⟩ := h
    obtain ⟨hm, rfl⟩ := retire_ok hr
    exact .suspended hs rfl hm
  | transferOwnership next =>
    simp only [call, transferOwnership, Ownable.call, map_ok, bind_ok, onlyOwner_ok, revertIf_ok,
      mapError_ok, pure_ok, Prod.mk.injEq] at h
    obtain ⟨_, ⟨_, hs, _, hn, _, ⟨_, -, rfl⟩, rfl⟩, rfl, -⟩ := h
    refine .offered hs fun h0 => ?_
    rw [not_and, not_or] at hn
    exact ⟨Bool.eq_false_iff.2 (hn h0).1, (hn h0).2⟩
  | acceptOwnership =>
    simp only [call, acceptOwnership, Ownable.call, map_ok, bind_ok, revertIf_ok, mapError_ok,
      pure_ok, Prod.mk.injEq, not_not] at h
    obtain ⟨_, ⟨_, ⟨_, hs, rfl⟩, rfl⟩, rfl, -⟩ := h
    exact .succeeded hs.symm
  | renounceOwnership =>
    simp only [call, renounceOwnership, map_ok, bind_ok] at h
    obtain ⟨_, ⟨_, -, h⟩, -⟩ := h
    cases h
  | issueOnce expectedEpoch requestId subject attrs claimsRoot evidenceHash =>
    simp only [call, issueOnce, map_ok, bind_ok, currentKey_ok, Prod.mk.injEq] at h
    obtain ⟨_, ⟨_, ⟨hs, hk, rfl⟩, -⟩, rfl, -⟩ := h
    exact .operated hs hk rfl
  | revoke expectedEpoch subject reasonCode epoch =>
    simp only [call, revoke, map_ok, bind_ok, currentKey_ok, Prod.mk.injEq] at h
    obtain ⟨_, ⟨_, ⟨hs, hk, rfl⟩, -⟩, rfl, -⟩ := h
    exact .operated hs hk rfl
  | deny expectedEpoch subject listVersion epoch =>
    simp only [call, deny, map_ok, bind_ok, currentKey_ok, Prod.mk.injEq] at h
    obtain ⟨_, ⟨_, ⟨hs, hk, rfl⟩, -⟩, rfl, -⟩ := h
    exact .operated hs hk rfl

/-- What the source contract gave is the outcome of the call made to it. -/
theorem call_source (h : s.call sender source c = .ok (s', out)) :
    match c.sourceCall? s.keyEpoch with
    | none => out = none
    | some sc => ∃ r, source sc = .ok r ∧ out = some r := by
  cases c <;> simp only [call, map_ok, Prod.mk.injEq] at h <;>
    simp only [IssuerCall.sourceCall?]
  case declareCompromise reasonHash lastTrustedBlock =>
    obtain ⟨r, hr, -, rfl⟩ := h
    simp only [declareCompromise, bind_ok, mapError_ok, pure_ok] at hr
    obtain ⟨_, -, r, hr, _, -, rfl⟩ := hr
    exact ⟨r, hr, rfl⟩
  case issueOnce =>
    obtain ⟨r, hr, -, rfl⟩ := h
    simp only [issueOnce, bind_ok, mapError_ok] at hr
    obtain ⟨_, -, hr⟩ := hr
    exact ⟨r, hr, rfl⟩
  case revoke =>
    obtain ⟨r, hr, -, rfl⟩ := h
    simp only [revoke, bind_ok, mapError_ok] at hr
    obtain ⟨_, -, hr⟩ := hr
    exact ⟨r, hr, rfl⟩
  case deny =>
    obtain ⟨r, hr, -, rfl⟩ := h
    simp only [deny, bind_ok, mapError_ok] at hr
    obtain ⟨_, -, hr⟩ := hr
    exact ⟨r, hr, rfl⟩
  all_goals
    obtain ⟨_, -, -, rfl⟩ := h
    rfl

end RotatingIssuer

end Proofmark
