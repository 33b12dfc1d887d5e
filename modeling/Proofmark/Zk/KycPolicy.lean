/-
  The zk statement of the policy: the circuit (src/zk/circuits/kyc_policy.circom) and the
  verifier that was generated for it (src/zk/KycPolicyGroth16Verifier.sol).

  A template of circomlib is a relation: its constraints have a solution with these inputs and
  this output.  The precompiles that check the equation of a proof are a function of the proof
  and of the public signals, which they take as scalars.
-/
import Proofmark.Contract.ZkKycPolicyGate
import Mathlib.Data.ZMod.Basic

namespace Proofmark

/-- The field of the circuit. -/
abbrev Fr := ZMod SNARK_SCALAR_FIELD

/-- The templates of circomlib that the circuit includes. -/
structure Circomlib where
  Poseidon : List Fr → Fr
  IsEqual : Fr → Fr → Fr → Prop
  LessEqThan : ℕ → Fr → Fr → Fr → Prop
  Num2Bits : ℕ → Fr → Prop

/-- The public signals of the circuit, the output first. -/
structure KycPublic where
  nullifier : Fr
  root : Fr
  policyId : Fr
  allowedCountryA : Fr
  allowedCountryB : Fr
  maxBirthDay : Fr
  holder : Fr
  applicationId : Fr
  epoch : Fr
  deadline : Fr
deriving DecidableEq

/-- The opening of the credential and the path to the root. -/
structure KycPrivate where
  secret : Fr
  country : Fr
  birthDay : Fr
  credentialExpiry : Fr
  credentialId : Fr
  siblings : Fin 2 → Fr
  pathIndices : Fin 2 → Fr

/-- The other signals. -/
structure KycSignals where
  merkleNodes : Fin 3 → Fr
  left : Fin 2 → Fr
  right : Fin 2 → Fr
  countryA : Fr
  countryB : Fr
  ageCutoff : Fr
  credentialFresh : Fr
  contextHash : Fr

/-- The inputs of the hash of the leaf. -/
def KycPrivate.opening (w : KycPrivate) (x : KycPublic) : List Fr :=
  [w.secret, x.holder, w.country, w.birthDay, w.credentialExpiry, w.credentialId]

/-- The constraints of `KycPolicy()`. -/
structure KycPolicy (lib : Circomlib) (x : KycPublic) (w : KycPrivate) (g : KycSignals) : Prop where
  leafHash : g.merkleNodes 0 = lib.Poseidon (w.opening x)
  pathBit : ∀ i, w.pathIndices i * (w.pathIndices i - 1) = 0
  left : ∀ i : Fin 2, g.left i =
    g.merkleNodes i.castSucc + w.pathIndices i * (w.siblings i - g.merkleNodes i.castSucc)
  right : ∀ i : Fin 2, g.right i =
    w.siblings i + w.pathIndices i * (g.merkleNodes i.castSucc - w.siblings i)
  levelHash : ∀ i : Fin 2, g.merkleNodes i.succ = lib.Poseidon [g.left i, g.right i]
  root : g.merkleNodes 2 = x.root
  countryA : lib.IsEqual w.country x.allowedCountryA g.countryA
  countryB : lib.IsEqual w.country x.allowedCountryB g.countryB
  allowed : g.countryA + g.countryB - g.countryA * g.countryB = 1
  ageCutoff : lib.LessEqThan 32 w.birthDay x.maxBirthDay g.ageCutoff
  oldEnough : g.ageCutoff = 1
  credentialFresh : lib.LessEqThan 64 x.deadline w.credentialExpiry g.credentialFresh
  unexpired : g.credentialFresh = 1
  holderBits : lib.Num2Bits 160 x.holder
  policyBits : lib.Num2Bits 64 x.policyId
  countryABits : lib.Num2Bits 16 x.allowedCountryA
  countryBBits : lib.Num2Bits 16 x.allowedCountryB
  countryBits : lib.Num2Bits 16 w.country
  birthBits : lib.Num2Bits 32 w.birthDay
  cutoffBits : lib.Num2Bits 32 x.maxBirthDay
  credentialExpiryBits : lib.Num2Bits 64 w.credentialExpiry
  credentialIdBits : lib.Num2Bits 64 w.credentialId
  epochBits : lib.Num2Bits 64 x.epoch
  deadlineBits : lib.Num2Bits 64 x.deadline
  contextHash : g.contextHash =
    lib.Poseidon [x.holder, x.applicationId, x.policyId, x.epoch, x.deadline]
  nullifierHash : x.nullifier = lib.Poseidon [w.secret, g.contextHash]

/-! ## The verifier -/

namespace PublicSignals

def toList (s : PublicSignals) : List U256 :=
  [s.nullifier, s.root, s.policyId, s.countryA, s.countryB, s.maxBirthDay, s.holder,
    s.applicationId, s.epoch, s.deadline]

/-- The signals as scalars. -/
def scalars (s : PublicSignals) : KycPublic where
  nullifier := s.nullifier.toNat
  root := s.root.toNat
  policyId := s.policyId.toNat
  allowedCountryA := s.countryA.toNat
  allowedCountryB := s.countryB.toNat
  maxBirthDay := s.maxBirthDay.toNat
  holder := s.holder.toNat
  applicationId := s.applicationId.toNat
  epoch := s.epoch.toNat
  deadline := s.deadline.toNat

end PublicSignals

namespace KycPolicyGroth16Verifier

def checkField (v : U256) : Bool := decide (v.toNat < SNARK_SCALAR_FIELD)

def verifyProof (checkPairing : Groth16Proof → KycPublic → Bool) (proof : Groth16Proof)
    (pubSignals : PublicSignals) : Bool :=
  pubSignals.toList.all checkField && checkPairing proof pubSignals.scalars

end KycPolicyGroth16Verifier

end Proofmark
