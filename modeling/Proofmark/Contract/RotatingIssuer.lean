/-
  `RotatingIssuer` (src/RotatingIssuer.sol): an issuer with a stable address whose
  operating keys can be replaced.

  A recovery owner proposes, suspends and retires operating keys, and the operating key
  forwards source actions and signs roster approvals.  A function that calls the source
  contract takes the outcome of that call as the argument `source` and returns what it
  gave; a revert of the source contract reverts the whole call.
-/
import Proofmark.Contract.ComplianceSource

namespace Proofmark

open Words Revert Function

/-- The address of the issuer, its EIP-712 domain, and the source contract it is bound
    to, `SOURCE`, with the library code the two share. -/
structure IssuerEnv where
  source : SourceEnv
  self : Address
  self_ne : self ≠ 0
  hashTypedDataV4 : Bytes32 → Bytes32

/-- The storage of the issuer. -/
structure RotatingIssuer where
  ownable : Ownable
  operatingKey : Address
  pendingKey : Address
  keyEpoch : U64
  suspended : Bool
  usedKey : Address → Bool

inductive IssuerError where
  | ownable (e : OwnableError)
  | source (e : SourceError)
  | invalidKey
  | inactiveKey
  | wrongKeyEpoch
  | invalidSource
  | renunciationDisabled
  | missingReason
  | arithmeticPanic
deriving DecidableEq

/-- The transactions to the issuer. -/
inductive IssuerCall where
  | proposeKey (next : Address)
  | cancelKeyProposal
  | acceptKey (expectedEpoch : U64)
  | suspend (reasonHash : Bytes32)
  | declareCompromise (reasonHash : Bytes32) (lastTrustedBlock : U64)
  | transferOwnership (next : Address)
  | acceptOwnership
  | renounceOwnership
  | issueOnce (expectedEpoch : U64) (requestId : Bytes32) (subject : Address)
      (attrs claimsRoot evidenceHash : Bytes32)
  | revoke (expectedEpoch : U64) (subject : Address) (reasonCode : U16) (epoch : U32)
  | deny (expectedEpoch : U64) (subject : Address) (listVersion epoch : U32)

/-- The answers of the account given as source to the constructor. -/
structure SourceVersions where
  attrsSchema : U256
  epochSchema : U256
  rosterAuth : U256
  issuerKeyProvenance : U256
deriving DecidableEq

namespace RotatingIssuer

/-- `keccak256` of the type string of `IssuerApproval`. -/
def APPROVAL_TYPEHASH : Bytes32 :=
  0xcebfdb991bf73c3bf19ed457a13313bab140678268a9e153092d40f37466d7a5

/-- `IERC1271.isValidSignature.selector` -/
def ERC1271_SELECTOR : U32 := 0x1626ba7e

def ERC1271_FAILURE : U32 := 0xffffffff

/-- The constructor. -/
def construct (recoveryOwner initialKey : Address) (codeLength : ℕ) (source : SourceVersions) :
    Except IssuerError RotatingIssuer := do
  let ownable ← (Ownable.deploy recoveryOwner).mapError .ownable
  revertIf (codeLength = 0) .invalidSource
  revertIf (source.attrsSchema ≠ 0 ∨ source.epochSchema ≠ 2 ∨ source.rosterAuth ≠ 1 ∨
    source.issuerKeyProvenance ≠ 1) .invalidSource
  revertIf (initialKey = 0 ∨ initialKey = recoveryOwner) .invalidKey
  pure
    { ownable
      operatingKey := initialKey
      pendingKey := 0
      keyEpoch := 1
      suspended := false
      usedKey := update (fun _ => false) initialKey true }

section
variable {ρ : Type} (s : RotatingIssuer) (sender : Address) (source : SourceCall → Except SourceError ρ)

def onlyOwner : Except IssuerError Unit := (s.ownable.onlyOwner sender).mapError .ownable

/-- The modifier `currentKey`. -/
def currentKey (expectedEpoch : U64) : Except IssuerError Unit := do
  revertIf (s.suspended ∨ sender ≠ s.operatingKey) .inactiveKey
  revertIf (expectedEpoch ≠ s.keyEpoch) .wrongKeyEpoch

/-! ### Keys -/

def proposeKey (next : Address) : Except IssuerError RotatingIssuer := do
  s.onlyOwner sender
  revertIf (next = 0 ∨ s.usedKey next ∨ next = s.ownable.owner ∨ next = s.ownable.pendingOwner)
    .invalidKey
  pure { s with pendingKey := next }

def cancelKeyProposal : Except IssuerError RotatingIssuer := do
  s.onlyOwner sender
  pure { s with pendingKey := 0 }

def acceptKey (expectedEpoch : U64) : Except IssuerError RotatingIssuer := do
  revertIf (sender ≠ s.pendingKey ∨ s.pendingKey = 0) .invalidKey
  revertIf (expectedEpoch ≠ s.keyEpoch) .wrongKeyEpoch
  revertIf (s.keyEpoch = BitVec.allOnes 64) .arithmeticPanic
  pure { s with
    operatingKey := s.pendingKey
    pendingKey := 0
    usedKey := update s.usedKey s.pendingKey true
    suspended := false
    keyEpoch := s.keyEpoch + 1 }

/-- `_suspend` -/
def retire (reasonHash : Bytes32) : Except IssuerError RotatingIssuer := do
  revertIf (reasonHash = 0) .missingReason
  revertIf (s.keyEpoch = BitVec.allOnes 64) .arithmeticPanic
  pure { s with operatingKey := 0, pendingKey := 0, suspended := true, keyEpoch := s.keyEpoch + 1 }

def suspend (reasonHash : Bytes32) : Except IssuerError RotatingIssuer := do
  s.onlyOwner sender
  s.retire reasonHash

def declareCompromise (reasonHash : Bytes32) (lastTrustedBlock : U64) :
    Except IssuerError (RotatingIssuer × ρ) := do
  s.onlyOwner sender
  let r ← (source (.declareIssuerKeyCompromise s.keyEpoch lastTrustedBlock reasonHash)).mapError .source
  let s' ← s.retire reasonHash
  pure (s', r)

/-! ### Ownership -/

def transferOwnership (next : Address) : Except IssuerError RotatingIssuer := do
  s.onlyOwner sender
  revertIf (next ≠ 0 ∧ (s.usedKey next ∨ next = s.pendingKey)) .invalidKey
  let ownable ← (s.ownable.call sender (.transferOwnership next)).mapError .ownable
  pure { s with ownable }

/-- `acceptOwnership`, whose `_transferOwnership` clears the key proposal. -/
def acceptOwnership : Except IssuerError RotatingIssuer := do
  let ownable ← (s.ownable.call sender .acceptOwnership).mapError .ownable
  pure { s with ownable, pendingKey := 0 }

def renounceOwnership : Except IssuerError RotatingIssuer := do
  s.onlyOwner sender
  .error .renunciationDisabled

/-! ### Operating actions -/

def issueOnce (expectedEpoch : U64) (requestId : Bytes32) (subject : Address)
    (attrs claimsRoot evidenceHash : Bytes32) : Except IssuerError ρ := do
  s.currentKey sender expectedEpoch
  (source (.issueOnceWithKey requestId subject attrs claimsRoot evidenceHash expectedEpoch)).mapError
    .source

def revoke (expectedEpoch : U64) (subject : Address) (reasonCode : U16) (epoch : U32) :
    Except IssuerError ρ := do
  s.currentKey sender expectedEpoch
  (source (.revoke subject reasonCode epoch)).mapError .source

def deny (expectedEpoch : U64) (subject : Address) (listVersion epoch : U32) :
    Except IssuerError ρ := do
  s.currentKey sender expectedEpoch
  (source (.deny subject listVersion epoch)).mapError .source

/-- A call, with what the source contract gave when it was called. -/
def call : IssuerCall → Except IssuerError (RotatingIssuer × Option ρ)
  | .proposeKey next => (s.proposeKey sender next).map (·, none)
  | .cancelKeyProposal => (s.cancelKeyProposal sender).map (·, none)
  | .acceptKey expectedEpoch => (s.acceptKey sender expectedEpoch).map (·, none)
  | .suspend reasonHash => (s.suspend sender reasonHash).map (·, none)
  | .declareCompromise reasonHash lastTrustedBlock =>
    (s.declareCompromise sender source reasonHash lastTrustedBlock).map fun r => (r.1, some r.2)
  | .transferOwnership next => (s.transferOwnership sender next).map (·, none)
  | .acceptOwnership => (s.acceptOwnership sender).map (·, none)
  | .renounceOwnership => (s.renounceOwnership sender).map (·, none)
  | .issueOnce expectedEpoch requestId subject attrs claimsRoot evidenceHash =>
    (s.issueOnce sender source expectedEpoch requestId subject attrs claimsRoot evidenceHash).map
      fun r => (s, some r)
  | .revoke expectedEpoch subject reasonCode epoch =>
    (s.revoke sender source expectedEpoch subject reasonCode epoch).map fun r => (s, some r)
  | .deny expectedEpoch subject listVersion epoch =>
    (s.deny sender source expectedEpoch subject listVersion epoch).map fun r => (s, some r)

end

/-! ### Signatures -/

section
variable (env : IssuerEnv) (s : RotatingIssuer)

def approvalDigest (sourceDigest : Bytes32) (epoch : U64) : Bytes32 :=
  env.hashTypedDataV4
    (env.source.keccak256 (abiEncode [APPROVAL_TYPEHASH, sourceDigest, toWord epoch]))

/-- `uint64(bytes8(signature[:8]))` -/
def signedEpoch (signature : Bytes) : U64 := BitVec.ofNat 64 (ofBytes (signature.take 8))

/-- The key that made a signature: the one recovered from the digest for its epoch. -/
def signer? (sourceDigest : Bytes32) (signature : Bytes) : Option Address :=
  env.source.tryRecover (approvalDigest env sourceDigest (signedEpoch signature)) (signature.drop 8)

/-- `isValidSignature`; `isIssuer` is the answer of `SOURCE.isIssuer(address(this))`. -/
def isValidSignature (isIssuer : Bool) (sourceDigest : Bytes32) (signature : Bytes) : U32 :=
  if s.suspended ∨ signature.length ≠ 73 ∨ ¬ isIssuer then ERC1271_FAILURE
  else if signedEpoch signature ≠ s.keyEpoch then ERC1271_FAILURE
  else if signer? env sourceDigest signature = some s.operatingKey then ERC1271_SELECTOR
  else ERC1271_FAILURE

/-- What the issuer answers to static calls. -/
def account (isIssuer : Bool) : Account where
  codeLength := 1
  issuerKeyVersion := some (abiEncode [1])
  keyEpoch := some (abiEncode [toWord s.keyEpoch])
  isValidSignature digest signature :=
    some (abiEncode [toWord (s.isValidSignature env isIssuer digest signature) <<< 224])

end

end RotatingIssuer

/-- A call with its sender and what the source contract gives to its calls. -/
structure IssuerAction (ρ : Type) where
  msg : Msg
  source : SourceCall → Except SourceError ρ
  call : IssuerCall

/-- The issuer as a machine that outputs what the source contract gave. -/
def RotatingIssuer.machine (ρ : Type) :
    Machine RotatingIssuer (IssuerAction ρ) (Option ρ) IssuerError where
  step s a := s.call a.msg.sender a.source a.call

abbrev IssuerEntry (ρ : Type) := Machine.Entry RotatingIssuer (IssuerAction ρ) (Option ρ)

end Proofmark
