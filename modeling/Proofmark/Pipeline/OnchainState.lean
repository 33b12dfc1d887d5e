/-
  The diagnosis of the hub state (src/pipeline/onchain-state.ts).

  `HubReads` are the answers of the provider to the reads of one observation, and
  `Hub.reads` the answers of one block.  Numbers are natural numbers, as they are up to
  `Number.MAX_SAFE_INTEGER`.
-/
import Proofmark.Contract.ProofmarkRegistry
import Proofmark.Pipeline.Attrs

namespace Proofmark

open Revert

/-! ## Reads -/

structure BlockHeader where
  number : ℕ
  hash : Bytes32
  timestamp : ℕ
deriving DecidableEq

/-- The version constants of the registry; a failed read is `none`. -/
structure RegistryVersions where
  ROSTER_FORMAT_VERSION : Option ℕ
  EPOCH_SCHEMA_VERSION : Option ℕ
  ROSTER_AUTH_VERSION : Option ℕ
  ISSUER_KEY_PROVENANCE_VERSION : Option ℕ
  ROSTER_WITNESS_VERSION : Option ℕ
  ATTRS_SCHEMA_VERSION : Option ℕ
  POLICY_SCHEMA_VERSION : Option ℕ
deriving DecidableEq

/-- The version constants of the hub contract. -/
structure AscVersions where
  EPOCH_SCHEMA_VERSION : Option ℕ
  ROSTER_AUTH_VERSION : Option ℕ
  ISSUER_KEY_PROVENANCE_VERSION : Option ℕ
  ATTRS_SCHEMA_VERSION : Option ℕ
  TRANSACTION_PROCESSING_VERSION : Option ℕ
deriving DecidableEq

/-- What the provider answers during one observation. -/
structure HubReads where
  chainId : ℕ
  getBlock : Option ℕ → Option BlockHeader
  /-- the second read of the block -/
  getBlockAgain : Option BlockHeader
  registryVersions : RegistryVersions
  ASC : Address
  policies : U256 → Policy
  policyFrozen : U256 → Bool
  policyKind : U256 → U8
  isVerified : Address → U256 → Bool
  getRosterWitness : Address → RosterWitness
  ascVersions : AscVersions
  expectedChainKey : U64
  tombstone : Address → Bool
  getMark : Address → Mark
  isMarkIssuerUsable : Address → Bool
  latestEpoch : U32
  isRosterFresh : Bool
  isEpochIssuerUsable : U32 → Address → Bool

/-- The constants of `ProofmarkRegistry`. -/
def registryVersions : RegistryVersions := ⟨some 2, some 2, some 1, some 1, some 1, some 0, some 2⟩

/-- The constants of `ProofmarkASC` and `ASCBaseX`. -/
def ascVersions : AscVersions := ⟨some 2, some 1, some 1, some 0, some 2⟩

/-- The reads of a hub at one block, with the hub contract at `asc`. -/
def Hub.reads (h : Hub) (asc : Address) (block : BlockHeader) : HubReads where
  chainId := 102031
  getBlock tag := if tag = none ∨ tag = some block.number then some block else none
  getBlockAgain := some block
  registryVersions := Proofmark.registryVersions
  ASC := asc
  policies := h.registry.policies
  policyFrozen := h.registry.policyFrozen
  policyKind := h.registry.policyKind
  isVerified subject policyId := h.registry.isVerified h.asc block.timestamp subject policyId
  getRosterWitness := h.registry.rosterWitnesses
  ascVersions := Proofmark.ascVersions
  expectedChainKey := h.asc.expectedChainKey
  tombstone subject := (h.asc.subjects subject).tombstone
  getMark subject := (h.asc.subjects subject).mark
  isMarkIssuerUsable := h.asc.isMarkIssuerUsable
  latestEpoch := h.asc.latestEpoch
  isRosterFresh := h.asc.isRosterFresh block.timestamp
  isEpochIssuerUsable := h.asc.isEpochIssuerUsable

/-! ## The observation -/

structure OnchainConfig where
  asc : Address
  registry : Address
  subject : Address

inductive OnchainError where
  | invalidObservationBlock
  | wrongHubChain
  | observationBlockUnavailable
  | observationBlockNumberMismatch
  | sourceBindingMismatch
  | attrs (e : AttrsError)
  | observationBlockChanged
deriving DecidableEq

inductive ReasonCode where
  | LEGACY_OR_UNCONFIRMED_SCHEMA
  | UNKNOWN_POLICY
  | SUBJECT_TOMBSTONED
  | WITNESS_CAPABILITY_UNAVAILABLE
  | AWAITING_ROSTER_WITNESS
  | STALE_ROSTER_WITNESS
  | ISSUER_ROOT_NOT_APPROVED
  | ROSTER_NOT_FRESH
  | NO_ACTIVE_DIRECT_MARK
  | ISSUER_KEY_COMPROMISE_CUTOFF
  | INVALID_CREDENTIAL_SCHEMA
  | WRONG_CREDENTIAL_KIND
  | MISSING_METHODS
  | LOW_ASSURANCE
  | WRONG_REGIME
  | WRONG_JURISDICTION
  | WRONG_ISSUER
  | CREDENTIAL_EXPIRED
  | FUTURE_ISSUANCE
  | CREDENTIAL_TOO_OLD
deriving DecidableEq

inductive Diagnosis where
  | unavailable
  | consistent
  | unexplained
deriving DecidableEq

/-- `Number` of the `uint8` of a status. -/
def MarkStatus.toNumber : MarkStatus → ℕ
  | .none => 0
  | .active => 1
  | .revoked => 2
  | .denied => 3
  | .suspended => 4

/-- `Number` of the `uint8` of an origin. -/
def MarkOrigin.toNumber : MarkOrigin → ℕ
  | .none => 0
  | .direct => 1
  | .roster => 2

structure DecisionMark where
  status : ℕ
  origin : ℕ
  attrs : MarkAttrsInput
  claimsRoot : Bytes32
  evidenceHash : Bytes32
  issuer : Address
deriving DecidableEq

def directMark (m : Mark) : DecisionMark where
  status := m.status.toNumber
  origin := m.origin.toNumber
  attrs := ⟨m.kind.toNat, m.assurance.toNat, m.regime.toNat, m.jurisdiction.toNat,
    m.methods.toNat, m.issuedAt.toNat, m.expiry.toNat, m.epoch.toNat⟩
  claimsRoot := m.claimsRoot
  evidenceHash := m.evidenceHash
  issuer := m.issuer

structure ObservedPolicy where
  id : U256
  requireAll : ℕ
  minAssurance : ℕ
  maxAge : ℕ
  requiredRegime : ℕ
  requiredJurisdiction : ℕ
  trustedIssuer : Address
  requireRoster : Bool
  «exists» : Bool
  frozen : Bool
  verified : Bool
deriving DecidableEq

def observedPolicy (reads : HubReads) (subject : Address) (id : U256) : ObservedPolicy :=
  let p := reads.policies id
  { id, requireAll := p.requireAll.toNat, minAssurance := p.minAssurance.toNat
    maxAge := p.maxAge.toNat, requiredRegime := p.requiredRegime.toNat
    requiredJurisdiction := p.requiredJurisdiction.toNat, trustedIssuer := p.trustedIssuer
    requireRoster := p.requireRoster, «exists» := p.exists, frozen := reads.policyFrozen id
    verified := reads.isVerified subject id }

structure ObservedWitness where
  epoch : ℕ
  mark : DecisionMark
  issuerApproved : Bool
deriving DecidableEq

def observedWitness (reads : HubReads) (subject : Address) : ObservedWitness :=
  let w := reads.getRosterWitness subject
  { epoch := w.epoch.toNat
    mark := ⟨1, 2, unpackAttrs w.mark.attrs, w.mark.claimsRoot, w.mark.evidenceHash, w.mark.issuer⟩
    issuerApproved := reads.ascVersions.ROSTER_AUTH_VERSION == some 1 &&
      reads.ascVersions.ISSUER_KEY_PROVENANCE_VERSION == some 1 && decide (0 < w.epoch.toNat) &&
      reads.isEpochIssuerUsable w.epoch w.mark.issuer }

structure PolicyDiagnosis where
  policy : ObservedPolicy
  kind : Option ℕ
  policySchemaVersion : Option ℕ
  decisionMark : Option DecisionMark
  reasonCodes : List ReasonCode
  diagnosis : Diagnosis
deriving DecidableEq

structure OnchainState where
  subject : Address
  block : BlockHeader
  compatible : Bool
  tombstone : Bool
  mark : DecisionMark
  issuerKeyUsable : Bool
  witness : Option ObservedWitness
  latestEpoch : ℕ
  fresh : Bool
  policies : List PolicyDiagnosis
deriving DecidableEq

/-! ## The diagnosis -/

/-- `if (c) reasonCodes.push(code)` -/
def pushIf (c : Prop) [Decidable c] (code : ReasonCode) : List ReasonCode := if c then [code] else []

/-- The reasons in the mark that decides. -/
def decisionReasons (timestamp : ℕ) (p : ObservedPolicy) (kind : Option ℕ) (d : DecisionMark) :
    Except AttrsError (List ReasonCode) := do
  let attrs ← packAttrs d.attrs
  let a := d.attrs
  pure (pushIf (¬ validCredentialAttrs attrs none) .INVALID_CREDENTIAL_SCHEMA ++
    pushIf (some a.kind ≠ kind) .WRONG_CREDENTIAL_KIND ++
    pushIf (bitAnd (toInt32 a.methods) (toInt32 p.requireAll) ≠ p.requireAll) .MISSING_METHODS ++
    pushIf (a.assurance < p.minAssurance) .LOW_ASSURANCE ++
    pushIf (p.requiredRegime ≠ 0 ∧ a.regime ≠ p.requiredRegime) .WRONG_REGIME ++
    pushIf (p.requiredJurisdiction ≠ 0 ∧ a.jurisdiction ≠ p.requiredJurisdiction)
      .WRONG_JURISDICTION ++
    pushIf (d.issuer = 0 ∨ p.trustedIssuer ≠ 0 ∧ d.issuer ≠ p.trustedIssuer) .WRONG_ISSUER ++
    pushIf (a.expiry ≤ timestamp) .CREDENTIAL_EXPIRED ++
    pushIf (a.issuedAt > timestamp) .FUTURE_ISSUANCE ++
    pushIf (p.maxAge ≠ 0 ∧ (timestamp : ℤ) - a.issuedAt > p.maxAge) .CREDENTIAL_TOO_OLD)

/-- The reasons around the mark that decides. -/
def stateReasons (s : OnchainState) (witnessVersion : Option ℕ) (p : ObservedPolicy) :
    List ReasonCode :=
  pushIf (p.exists = false) .UNKNOWN_POLICY ++ pushIf (s.tombstone = true) .SUBJECT_TOMBSTONED ++
    if p.requireRoster then
      (if witnessVersion ≠ some 1 then [.WITNESS_CAPABILITY_UNAVAILABLE]
        else match s.witness.filter (·.epoch ≠ 0) with
          | none => [.AWAITING_ROSTER_WITNESS]
          | some w => pushIf (w.epoch ≠ s.latestEpoch) .STALE_ROSTER_WITNESS ++
              pushIf (w.issuerApproved = false) .ISSUER_ROOT_NOT_APPROVED) ++
        pushIf (s.fresh = false) .ROSTER_NOT_FRESH
    else
      pushIf (s.mark.status ≠ 1) .NO_ACTIVE_DIRECT_MARK ++
        pushIf (s.issuerKeyUsable = false) .ISSUER_KEY_COMPROMISE_CUTOFF

def diagnose (s : OnchainState) (witnessVersion policySchema kind : Option ℕ) (p : ObservedPolicy) :
    Except AttrsError PolicyDiagnosis := do
  let decisionMark :=
    if p.requireRoster then
      if witnessVersion = some 1 then (s.witness.filter (·.epoch ≠ 0)).map (·.mark) else none
    else some s.mark
  let reasonCodes ←
    if ¬ s.compatible then pure [.LEGACY_OR_UNCONFIRMED_SCHEMA]
    else do
      let decision ←
        match decisionMark with
        | none => pure []
        | some d => decisionReasons s.block.timestamp p kind d
      pure (stateReasons s witnessVersion p ++ decision)
  let diagnosis :=
    if ¬ s.compatible then .unavailable
    else if p.verified = (reasonCodes.length == 0) then .consistent else .unexplained
  pure { policy := p, kind, policySchemaVersion := policySchema, decisionMark, reasonCodes, diagnosis }

/-- `policies.map` -/
def diagnoseAll (s : OnchainState) (witnessVersion policySchema : Option ℕ) :
    List (Option ℕ × ObservedPolicy) → Except AttrsError (List PolicyDiagnosis)
  | [] => pure []
  | (kind, p) :: l => do
    let d ← diagnose s witnessVersion policySchema kind p
    let ds ← diagnoseAll s witnessVersion policySchema l
    pure (d :: ds)

/-- `compatible` -/
def HubReads.compatible (reads : HubReads) : Bool :=
  let v := reads.registryVersions
  let ascV := reads.ascVersions
  v.ROSTER_FORMAT_VERSION == some 2 && v.EPOCH_SCHEMA_VERSION == some 2 &&
    v.ROSTER_AUTH_VERSION == some 1 && v.ISSUER_KEY_PROVENANCE_VERSION == some 1 &&
    v.ATTRS_SCHEMA_VERSION == some 0 && v.POLICY_SCHEMA_VERSION == some 2 &&
    ascV.EPOCH_SCHEMA_VERSION == some 2 && ascV.ROSTER_AUTH_VERSION == some 1 &&
    ascV.ISSUER_KEY_PROVENANCE_VERSION == some 1 && ascV.ATTRS_SCHEMA_VERSION == some 0 &&
    ascV.TRANSACTION_PROCESSING_VERSION == some 2

/-- An entry of `kinds`. -/
def HubReads.kind (reads : HubReads) (id : U256) : Option ℕ :=
  if reads.registryVersions.POLICY_SCHEMA_VERSION = some 2 then some (reads.policyKind id).toNat
  else none

/-- What is observed of a subject, before the policies are diagnosed. -/
def observe (reads : HubReads) (config : OnchainConfig) (block : BlockHeader) : OnchainState where
  subject := config.subject
  block
  compatible := reads.compatible
  tombstone := reads.tombstone config.subject
  mark := directMark (reads.getMark config.subject)
  issuerKeyUsable := reads.isMarkIssuerUsable config.subject
  witness :=
    if reads.registryVersions.ROSTER_WITNESS_VERSION = some 1 then
      some (observedWitness reads config.subject)
    else none
  latestEpoch := reads.latestEpoch.toNat
  fresh := reads.isRosterFresh
  policies := []

def readOnchainState (reads : HubReads) (config : OnchainConfig) (observationBlock : Option ℕ) :
    Except OnchainError OnchainState := do
  revertIf (observationBlock.any fun n => decide (MAX_SAFE_INTEGER < n)) .invalidObservationBlock
  revertIf (reads.chainId ≠ 102031) .wrongHubChain
  let block ← orRevert (reads.getBlock observationBlock) .observationBlockUnavailable
  revertIf (observationBlock.any fun n => decide (block.number ≠ n)) .observationBlockNumberMismatch
  revertIf (reads.ASC ≠ config.asc ∨ reads.expectedChainKey.toNat ≠ 1) .sourceBindingMismatch
  let s := observe reads config block
  let v := reads.registryVersions
  let policies ← (diagnoseAll s v.ROSTER_WITNESS_VERSION v.POLICY_SCHEMA_VERSION
    ([1, 2].map fun id => (reads.kind id, observedPolicy reads config.subject id))).mapError .attrs
  revertIf (reads.getBlockAgain.map (·.hash) ≠ some block.hash) .observationBlockChanged
  pure { s with policies }

end Proofmark
