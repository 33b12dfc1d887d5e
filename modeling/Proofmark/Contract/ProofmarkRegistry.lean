/-
  `ProofmarkRegistry` (src/ProofmarkRegistry.sol): policies, cached roster witnesses
  and the decision `isVerified`.

  The registry reads the hub contract and never writes it, so each function takes the
  hub contract `asc` as it stands.  The two together are the machine `Hub.machine`.
-/
import Proofmark.Contract.ProofmarkASC
import Proofmark.Contract.RosterProof

namespace Proofmark

open Words Revert Function

/-- The fields of a mark that a roster carries. -/
structure RosterMark where
  attrs : Bytes32
  claimsRoot : Bytes32
  evidenceHash : Bytes32
  issuer : Address
deriving DecidableEq

structure RosterWitness where
  epoch : U32
  mark : RosterMark
deriving DecidableEq

/-- A witness that was never cached. -/
def RosterWitness.empty : RosterWitness := ⟨0, ⟨0, 0, 0, 0⟩⟩

/-- The storage of the registry. -/
structure ProofmarkRegistry where
  policies : U256 → Policy
  policyOwner : U256 → Address
  policyFrozen : U256 → Bool
  policyKind : U256 → U8
  nextPolicyId : U256
  rosterWitnesses : Address → RosterWitness

inductive RegistryError where
  | unknownPolicy (policyId : U256)
  | notPolicyOwner (policyId : U256) (caller : Address)
  | frozenPolicy (policyId : U256)
  | invalidPolicy
  | invalidRosterWitness
  /-- `require(c, reason)` -/
  | require (reason : String)
  | arithmeticPanic
deriving DecidableEq

namespace ProofmarkRegistry

/-- The bytes of `"eip155"`. -/
def NAMESPACE : Bytes := [0x65, 0x69, 0x70, 0x31, 0x35, 0x35]

/-- The storage after the constructor. -/
def deployed : ProofmarkRegistry where
  policies _ := .empty
  policyOwner _ := 0
  policyFrozen _ := false
  policyKind _ := 0
  nextPolicyId := 1
  rosterWitnesses _ := .empty

variable (r : ProofmarkRegistry)

/-! ## Policies -/

/-- `_validatePolicy` -/
def validatePolicy (p : Policy) : Except RegistryError Unit :=
  revertIf (p.requireAll &&& ~~~MarkAttrs.SUPPORTED_METHODS ≠ 0 ∨ p.minAssurance > 5 ∨
    p.requiredRegime > 2 ∨ p.requiredJurisdiction > 999) .invalidPolicy

/-- `_registerPolicy` -/
def registerPolicyKind (sender : Address) (p : Policy) (kind : U8) :
    Except RegistryError ProofmarkRegistry := do
  revertIf (kind ≠ 1 ∧ kind ≠ 2) .invalidPolicy
  validatePolicy p
  revertIf (r.nextPolicyId = BitVec.allOnes 256) .arithmeticPanic
  let policyId := r.nextPolicyId
  pure { r with
    nextPolicyId := policyId + 1
    policies := update r.policies policyId { p with «exists» := true }
    policyOwner := update r.policyOwner policyId sender
    policyKind := update r.policyKind policyId kind }

/-- The legacy entry is individual-only. -/
def registerPolicy (sender : Address) (p : Policy) : Except RegistryError ProofmarkRegistry :=
  r.registerPolicyKind sender p 1

def registerPolicyForKind (sender : Address) (p : Policy) (kind : U8) :
    Except RegistryError ProofmarkRegistry :=
  r.registerPolicyKind sender p kind

def updatePolicy (sender : Address) (policyId : U256) (p : Policy) :
    Except RegistryError ProofmarkRegistry := do
  revertIf (¬ (r.policies policyId).exists) (.unknownPolicy policyId)
  revertIf (r.policyOwner policyId ≠ sender) (.notPolicyOwner policyId sender)
  revertIf (r.policyFrozen policyId) (.frozenPolicy policyId)
  validatePolicy p
  pure { r with policies := update r.policies policyId { p with «exists» := true } }

def transferPolicyOwner (sender : Address) (policyId : U256) (newOwner : Address) :
    Except RegistryError ProofmarkRegistry := do
  revertIf (r.policyOwner policyId ≠ sender) (.notPolicyOwner policyId sender)
  revertIf (newOwner = 0) (.require "zero owner")
  pure { r with policyOwner := update r.policyOwner policyId newOwner }

def freezePolicy (sender : Address) (policyId : U256) : Except RegistryError ProofmarkRegistry := do
  revertIf (¬ (r.policies policyId).exists) (.unknownPolicy policyId)
  revertIf (r.policyOwner policyId ≠ sender) (.notPolicyOwner policyId sender)
  pure { r with policyFrozen := update r.policyFrozen policyId true }

/-! ## Decision -/

def policyRequiresRoster (policyId : U256) : Bool :=
  (r.policies policyId).exists && (r.policies policyId).requireRoster

/-- `_policyHolds`: the policy applied to packed attributes, decoded in place. -/
def policyHolds (now : ℕ) (attrs : Bytes32) (issuer : Address) (p : Policy) (kind : U8) : Bool :=
  if ¬ MarkAttrs.validSchema attrs ∨ MarkAttrs.kind attrs ≠ kind ∨ issuer = 0 then false
  else
    let assurance : U8 := (attrs >>> 240).setWidth 8
    let regime : U16 := (attrs >>> 224).setWidth 16
    let jurisdiction : U16 := (attrs >>> 208).setWidth 16
    let methods : U32 := (attrs >>> 176).setWidth 32
    let issuedAt : U40 := (attrs >>> 136).setWidth 40
    let expiry : U40 := (attrs >>> 96).setWidth 40
    if methods &&& p.requireAll ≠ p.requireAll then false
    else if assurance < p.minAssurance then false
    else if p.requiredRegime ≠ 0 ∧ regime ≠ p.requiredRegime then false
    else if p.requiredJurisdiction ≠ 0 ∧ jurisdiction ≠ p.requiredJurisdiction then false
    else if p.trustedIssuer ≠ 0 ∧ issuer ≠ p.trustedIssuer then false
    else if expiry.toNat ≤ now then false
    else if issuedAt.toNat > now ∨ expiry ≤ issuedAt then false
    else if p.maxAge ≠ 0 ∧ now - issuedAt.toNat > p.maxAge.toNat then false
    else true

section
variable (keccak256 : Bytes → Bytes32) (asc : ProofmarkASC) (now : ℕ)

/-- `_rosterContains` -/
def rosterContains (subject : Address) (mark : RosterMark) (inclusion : RosterProof.Inclusion) : Bool :=
  if subject = 0 then false
  else if (asc.subjects subject).tombstone then false
  else if ¬ asc.isRosterFresh now then false
  else if ¬ asc.isEpochIssuerUsable asc.latestEpoch mark.issuer then false
  else
    let root := (asc.epochs asc.latestEpoch).root
    if root = 0 then false
    else
      let leaf := RosterProof.leafOf keccak256 (RosterProof.subjectKey keccak256 NAMESPACE subject)
        (RosterProof.markHash keccak256 mark.attrs mark.claimsRoot mark.evidenceHash mark.issuer)
      RosterProof.verifyInclusion keccak256 root leaf inclusion

def cacheRosterWitness (subject : Address) (mark : RosterMark) (inclusion : RosterProof.Inclusion) :
    Except RegistryError ProofmarkRegistry := do
  revertIf (¬ rosterContains keccak256 asc now subject mark inclusion) .invalidRosterWitness
  pure { r with rosterWitnesses := update r.rosterWitnesses subject ⟨asc.latestEpoch, mark⟩ }

/-- `_fresh` -/
def fresh (m : Mark) (p : Policy) : Bool :=
  if m.origin = .roster then
    if m.epoch ≠ asc.latestEpoch then false
    else if ¬ asc.isEpochIssuerUsable m.epoch m.issuer then false
    else asc.isRosterFresh now
  else m.origin == .direct && !p.requireRoster

def isVerified (subject : Address) (policyId : U256) : Bool :=
  let p := r.policies policyId
  if ¬ p.exists then false
  else if (asc.subjects subject).tombstone then false
  else if p.requireRoster then
    let w := r.rosterWitnesses subject
    if w.epoch = 0 ∨ w.epoch ≠ asc.latestEpoch ∨ ¬ asc.isRosterFresh now then false
    else if ¬ asc.isEpochIssuerUsable w.epoch w.mark.issuer then false
    else policyHolds now w.mark.attrs w.mark.issuer p (r.policyKind policyId)
  else
    let m := (asc.subjects subject).mark
    if m.status ≠ .active then false
    else if ¬ asc.isMarkIssuerUsable subject then false
    else
      let attrs := MarkAttrs.pack m.kind m.assurance m.regime m.jurisdiction m.methods m.issuedAt
        m.expiry m.epoch
      if ¬ policyHolds now attrs m.issuer p (r.policyKind policyId) then false
      else fresh asc now m p

def areVerified (subjects : List Address) (policyId : U256) : List Bool :=
  subjects.map fun subject => r.isVerified asc now subject policyId

def isDenied (subject : Address) : Bool :=
  (asc.subjects subject).tombstone && (asc.subjects subject).mark.status == .denied

def verifyWithRoster (subject : Address) (policyId : U256) (mark : RosterMark)
    (inclusion : RosterProof.Inclusion) : Bool :=
  let p := r.policies policyId
  if ¬ p.exists then false
  else rosterContains keccak256 asc now subject mark inclusion &&
    policyHolds now mark.attrs mark.issuer p (r.policyKind policyId)

def proveNotInRoster (subject : Address) (proof : RosterProof.NonInclusion) : Bool :=
  if ¬ asc.isRosterFresh now then false
  else
    let root := (asc.epochs asc.latestEpoch).root
    if root = 0 then false
    else RosterProof.verifyNonInclusion keccak256 root
      (RosterProof.subjectKey keccak256 NAMESPACE subject) proof

end

/-- The transactions to the registry. -/
inductive Call where
  | registerPolicy (p : Policy)
  | registerPolicyForKind (p : Policy) (kind : U8)
  | updatePolicy (policyId : U256) (p : Policy)
  | transferPolicyOwner (policyId : U256) (newOwner : Address)
  | freezePolicy (policyId : U256)
  | cacheRosterWitness (subject : Address) (mark : RosterMark) (inclusion : RosterProof.Inclusion)

def call (keccak256 : Bytes → Bytes32) (asc : ProofmarkASC) (msg : Msg) :
    Call → Except RegistryError ProofmarkRegistry
  | .registerPolicy p => r.registerPolicy msg.sender p
  | .registerPolicyForKind p kind => r.registerPolicyForKind msg.sender p kind
  | .updatePolicy policyId p => r.updatePolicy msg.sender policyId p
  | .transferPolicyOwner policyId newOwner => r.transferPolicyOwner msg.sender policyId newOwner
  | .freezePolicy policyId => r.freezePolicy msg.sender policyId
  | .cacheRosterWitness subject mark inclusion =>
    r.cacheRosterWitness keccak256 asc msg.timestamp subject mark inclusion

end ProofmarkRegistry

/-! ## The hub chain -/

/-- The two hub contracts. -/
structure Hub where
  asc : ProofmarkASC
  registry : ProofmarkRegistry

namespace Hub

def deployed (initialOwner : Address) : Hub := ⟨.deployed initialOwner, .deployed⟩

inductive Call where
  | asc (c : ProofmarkASC.Call)
  | registry (c : ProofmarkRegistry.Call)

inductive Error where
  | asc (e : ASCError)
  | registry (e : RegistryError)

/-- Transactions to either contract, by any sender at any time. -/
def machine (env : HubEnv) : Machine Hub (Msg × Call) Unit Error where
  step h a :=
    match a.2 with
    | .asc c => ((h.asc.call env a.1 c).mapError .asc).map fun asc => ({ h with asc }, ())
    | .registry c =>
      ((h.registry.call env.keccak256 h.asc a.1 c).mapError .registry).map fun registry =>
        ({ h with registry }, ())

end Hub

end Proofmark
