/-
  `ZkKycPolicyGate` (src/zk/ZkKycPolicyGate.sol): the gate that consumes presentations of
  anchored credential roots.

  The verifier contract is not trusted: its answer is an argument of the call.
-/
import Proofmark.Evm.Types
import Proofmark.Lib.Machine
import Mathlib.Logic.Function.Basic

namespace Proofmark

open Revert Words Function

def SNARK_SCALAR_FIELD : ℕ :=
  21888242871839275222246405745257275088548364400416034343698204186575808495617

structure RootRecord where
  epoch : U64
  validUntil : U64
  anchored : Bool
  revoked : Bool
deriving DecidableEq

inductive ZkGateError where
  | InvalidVerifier
  | InvalidSourceRootAuthority
  | UnauthorizedRootAuthority
  | InvalidRoot
  | InvalidRootLifetime
  | EpochNotIncreasing
  | RootNotAnchored
  | RootRevoked
  | RootStale
  | EpochMismatch
  | PolicyMismatch
  | HolderMismatch
  | ApplicationMismatch
  | ProofExpired
  | DeadlineBeyondRootLifetime
  | NullifierAlreadyUsed
  | InvalidProof

/-- The chain and the address that the gate runs at. -/
structure ZkGateEnv where
  keccak256 : Bytes → Bytes32
  chainid : U256
  self : Address

structure ZkKycPolicyGate where
  verifier : Address
  sourceRootAuthority : Address
  policyId : U64
  allowedCountryA : U16
  allowedCountryB : U16
  maxBirthDay : U32
  actionDomain : Bytes32
  currentEpoch : U64
  roots : U256 → RootRecord
  nullifierUsed : U256 → Bool

/-- The ten public signals, by their index constants. -/
structure PublicSignals where
  nullifier : U256
  root : U256
  policyId : U256
  countryA : U256
  countryB : U256
  maxBirthDay : U256
  holder : U256
  applicationId : U256
  epoch : U256
  deadline : U256
deriving DecidableEq

/-- The points of a Groth16 proof. -/
structure Groth16Proof where
  a : U256 × U256
  b : (U256 × U256) × (U256 × U256)
  c : U256 × U256

namespace ZkKycPolicyGate

def construct (codeLength : ℕ) (verifier_ sourceRootAuthority_ : Address) (policyId_ : U64)
    (allowedCountryA_ allowedCountryB_ : U16) (maxBirthDay_ : U32) (actionDomain_ : Bytes32) :
    Except ZkGateError ZkKycPolicyGate := do
  revertIf (codeLength = 0) .InvalidVerifier
  revertIf (sourceRootAuthority_ = 0) .InvalidSourceRootAuthority
  pure {
    verifier := verifier_
    sourceRootAuthority := sourceRootAuthority_
    policyId := policyId_
    allowedCountryA := allowedCountryA_
    allowedCountryB := allowedCountryB_
    maxBirthDay := maxBirthDay_
    actionDomain := actionDomain_
    currentEpoch := 0
    roots := fun _ => ⟨0, 0, false, false⟩
    nullifierUsed := fun _ => false }

variable (env : ZkGateEnv) (g : ZkKycPolicyGate)

def anchorRoot (m : Msg) (root : U256) (epoch validUntil : U64) :
    Except ZkGateError ZkKycPolicyGate := do
  revertIf (m.sender ≠ g.sourceRootAuthority) .UnauthorizedRootAuthority
  revertIf (root = 0 ∨ SNARK_SCALAR_FIELD ≤ root.toNat) .InvalidRoot
  revertIf (epoch ≤ g.currentEpoch) .EpochNotIncreasing
  revertIf (validUntil.toNat ≤ m.timestamp) .InvalidRootLifetime
  pure { g with
    roots := update g.roots root ⟨epoch, validUntil, true, false⟩
    currentEpoch := epoch }

def revokeRoot (m : Msg) (root : U256) : Except ZkGateError ZkKycPolicyGate := do
  revertIf (m.sender ≠ g.sourceRootAuthority) .UnauthorizedRootAuthority
  revertIf (¬ (g.roots root).anchored) .RootNotAnchored
  pure { g with roots := update g.roots root { g.roots root with revoked := true } }

def expectedApplicationId : ℕ :=
  (env.keccak256 (abiEncode [env.chainid, toWord env.self, g.actionDomain])).toNat % SNARK_SCALAR_FIELD

/-- `verifyProof` is what the verifier contract answers to this call. -/
def verifyAndConsume (m : Msg) (verifyProof : Groth16Proof → PublicSignals → Bool)
    (proof : Groth16Proof) (publicSignals : PublicSignals) : Except ZkGateError ZkKycPolicyGate := do
  let record := g.roots publicSignals.root
  revertIf (¬ record.anchored) .RootNotAnchored
  revertIf (record.revoked = true) .RootRevoked
  revertIf (record.validUntil.toNat < m.timestamp) .RootStale
  revertIf (publicSignals.epoch ≠ toWord g.currentEpoch ∨ record.epoch ≠ g.currentEpoch) .EpochMismatch
  revertIf (publicSignals.policyId ≠ toWord g.policyId ∨
    publicSignals.countryA ≠ toWord g.allowedCountryA ∨
    publicSignals.countryB ≠ toWord g.allowedCountryB ∨
    publicSignals.maxBirthDay ≠ toWord g.maxBirthDay) .PolicyMismatch
  revertIf (publicSignals.holder ≠ toWord m.sender) .HolderMismatch
  revertIf (publicSignals.applicationId.toNat ≠ g.expectedApplicationId env) .ApplicationMismatch
  revertIf (publicSignals.deadline.toNat < m.timestamp) .ProofExpired
  revertIf (record.validUntil.toNat < publicSignals.deadline.toNat) .DeadlineBeyondRootLifetime
  revertIf (g.nullifierUsed publicSignals.nullifier = true) .NullifierAlreadyUsed
  revertIf (¬ verifyProof proof publicSignals) .InvalidProof
  pure { g with nullifierUsed := update g.nullifierUsed publicSignals.nullifier true }

end ZkKycPolicyGate

inductive ZkGateCall where
  | anchorRoot (root : U256) (epoch validUntil : U64)
  | revokeRoot (root : U256)
  | verifyAndConsume (verifyProof : Groth16Proof → PublicSignals → Bool) (proof : Groth16Proof)
      (publicSignals : PublicSignals)

def ZkKycPolicyGate.machine (env : ZkGateEnv) :
    Machine ZkKycPolicyGate (Msg × ZkGateCall) Unit ZkGateError where
  step g
    | (m, .anchorRoot root epoch validUntil) => do pure (← g.anchorRoot m root epoch validUntil, ())
    | (m, .revokeRoot root) => do pure (← g.revokeRoot m root, ())
    | (m, .verifyAndConsume verifyProof proof publicSignals) => do
      pure (← g.verifyAndConsume env m verifyProof proof publicSignals, ())

abbrev ZkGateEntry := Machine.Entry ZkKycPolicyGate (Msg × ZkGateCall) Unit

end Proofmark
