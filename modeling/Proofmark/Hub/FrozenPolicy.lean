/-
  Frozen policies.

  `frozen_policy_kept`: once a policy is frozen, no transaction on the hub chain changes
  its content, its kind or the freeze.
-/
import Proofmark.Hub.Verification

namespace Proofmark

open Revert Function

/-- Policies that were not registered yet. -/
def PolicyInv (r : ProofmarkRegistry) : Prop :=
  ∀ id, r.nextPolicyId ≤ id → (r.policies id).exists = false ∧ r.policyFrozen id = false

/-- A frozen policy and what it became. -/
structure SamePolicy (r r' : ProofmarkRegistry) (policyId : U256) : Prop where
  policy : r'.policies policyId = r.policies policyId
  kind : r'.policyKind policyId = r.policyKind policyId
  frozen : r'.policyFrozen policyId = true

theorem PolicyInv.lt {r : ProofmarkRegistry} (h : PolicyInv r) {policyId : U256}
    (hx : (r.policies policyId).exists = true) : policyId < r.nextPolicyId := by
  refine BitVec.not_le.1 fun hle => ?_
  rw [(h policyId hle).1] at hx
  cases hx

theorem PolicyInv.lt_of_frozen {r : ProofmarkRegistry} (h : PolicyInv r) {policyId : U256}
    (hx : r.policyFrozen policyId = true) : policyId < r.nextPolicyId := by
  refine BitVec.not_le.1 fun hle => ?_
  rw [(h policyId hle).2] at hx
  cases hx

section
variable {keccak256 : Bytes → Bytes32} {asc : ProofmarkASC} {msg : Msg} {r r' : ProofmarkRegistry}

/-- Registering takes an id that no policy has. -/
theorem registerPolicyKind_keeps {sender : Address} {p : Policy} {kind : U8} (hi : PolicyInv r)
    (h : r.registerPolicyKind sender p kind = .ok r') :
    PolicyInv r' ∧ ∀ id, r.policyFrozen id = true → SamePolicy r r' id := by
  simp only [ProofmarkRegistry.registerPolicyKind, bind_ok, revertIf_ok, pure_ok] at h
  obtain ⟨_, -, _, -, _, hmax, rfl⟩ := h
  constructor
  · intro id hle
    have hlt : r.nextPolicyId < id := by
      have hle' : r.nextPolicyId + 1 ≤ id := hle
      rw [BitVec.le_def, bv_toNat_add_one hmax] at hle'
      exact BitVec.lt_def.2 hle'
    dsimp only
    rw [update_of_ne (BitVec.ne_of_lt hlt).symm]
    exact hi id (BitVec.le_of_lt hlt)
  · intro id hf
    have hne := BitVec.ne_of_lt (hi.lt_of_frozen hf)
    exact ⟨update_of_ne hne .., update_of_ne hne .., hf⟩

/-- **What a transaction to the registry leaves of a frozen policy.** -/
theorem registry_call_keeps {c : ProofmarkRegistry.Call} (hi : PolicyInv r)
    (h : r.call keccak256 asc msg c = .ok r') :
    PolicyInv r' ∧ ∀ id, r.policyFrozen id = true → SamePolicy r r' id := by
  cases c with
  | registerPolicy p => exact registerPolicyKind_keeps hi h
  | registerPolicyForKind p kind => exact registerPolicyKind_keeps hi h
  | updatePolicy policyId p =>
    simp only [ProofmarkRegistry.call, ProofmarkRegistry.updatePolicy, bind_ok, revertIf_ok,
      not_not, pure_ok] at h
    obtain ⟨_, hx, _, -, _, hfrozen, _, -, rfl⟩ := h
    refine ⟨fun id hle => ?_, fun id hf => ?_⟩
    · have hne : id ≠ policyId := fun he => BitVec.not_le.2 (hi.lt hx) (he ▸ hle)
      dsimp only
      rw [update_of_ne hne]
      exact hi id hle
    · have hne : id ≠ policyId := fun he => hfrozen (he ▸ hf)
      exact ⟨update_of_ne hne .., rfl, hf⟩
  | transferPolicyOwner policyId newOwner =>
    simp only [ProofmarkRegistry.call, ProofmarkRegistry.transferPolicyOwner, bind_ok, pure_ok] at h
    obtain ⟨_, -, _, -, rfl⟩ := h
    exact ⟨hi, fun id hf => ⟨rfl, rfl, hf⟩⟩
  | freezePolicy policyId =>
    simp only [ProofmarkRegistry.call, ProofmarkRegistry.freezePolicy, bind_ok, revertIf_ok,
      not_not, pure_ok] at h
    obtain ⟨_, hx, _, -, rfl⟩ := h
    refine ⟨fun id hle => ?_, fun id hf => ⟨rfl, rfl, ?_⟩⟩
    · have hne : id ≠ policyId := fun he => BitVec.not_le.2 (hi.lt hx) (he ▸ hle)
      dsimp only
      rw [update_of_ne hne]
      exact hi id hle
    · by_cases hid : id = policyId
      · simp [hid]
      · simp [update_of_ne hid, hf]
  | cacheRosterWitness subject mark inclusion =>
    simp only [ProofmarkRegistry.call, ProofmarkRegistry.cacheRosterWitness, bind_ok, pure_ok] at h
    obtain ⟨_, -, rfl⟩ := h
    exact ⟨hi, fun id hf => ⟨rfl, rfl, hf⟩⟩

end

section
variable {env : HubEnv} {owner : Address} {es es' : List HubChainEntry} {h h' : Hub}

theorem policyInv_step {e : HubChainEntry} (hi : PolicyInv e.pre.registry)
    (hs : (Hub.machine env).IsStep e) :
    PolicyInv e.post.registry ∧
      ∀ id, e.pre.registry.policyFrozen id = true → SamePolicy e.pre.registry e.post.registry id := by
  rcases Hub.step_cases hs with ⟨c, -, -, hr⟩ | ⟨c, -, hok, -⟩
  · rw [hr]
    exact ⟨hi, fun id hf => ⟨rfl, rfl, hf⟩⟩
  · exact registry_call_keeps hi hok

theorem policyInv_run (hrun : (Hub.machine env).Run (.deployed owner) es h) :
    PolicyInv h.registry := by
  refine hrun.invariant (I := fun h => PolicyInv h.registry) (fun id _ => ⟨rfl, rfl⟩) ?_
  exact fun e hi hs => (policyInv_step hi hs).1

/-- **A frozen policy never changes.** -/
theorem frozen_policy_kept {policyId : U256}
    (hrun : (Hub.machine env).Run (.deployed owner) es h) (hrun' : (Hub.machine env).Run h es' h')
    (hf : h.registry.policyFrozen policyId = true) : SamePolicy h.registry h'.registry policyId := by
  have hinv : PolicyInv h'.registry ∧ SamePolicy h.registry h'.registry policyId := by
    refine hrun'.invariant
      (I := fun s => PolicyInv s.registry ∧ SamePolicy h.registry s.registry policyId)
      ⟨policyInv_run hrun, rfl, rfl, hf⟩ ?_
    rintro e ⟨hi, hsame⟩ hs
    obtain ⟨hi', hkeep⟩ := policyInv_step hi hs
    obtain ⟨h1, h2, h3⟩ := hkeep policyId hsame.frozen
    exact ⟨hi', h1.trans hsame.policy, h2.trans hsame.kind, h3⟩
  exact hinv.2

end

end Proofmark
