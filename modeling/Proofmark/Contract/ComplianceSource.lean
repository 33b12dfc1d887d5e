/-
  `ComplianceSource` (src/ComplianceSource.sol): the contract on the source chain
  where marks are issued and revoked, sanctions denied and corrected, and roster
  epochs published.

  Each external function is a definition under its source name, from the message
  and the state to the new state and the events it emits.  What the contract asks
  of other accounts by static calls is the argument `accounts`; ECDSA recovery and
  the EIP-712 domain are those of the libraries it imports, in `SourceEnv`.
-/
import Proofmark.Contract.MarkAttrs
import Proofmark.Contract.SourceEvents
import Proofmark.Evm.Ownable
import Proofmark.Lib.Machine
import Mathlib.Logic.Function.Basic

namespace Proofmark

open Words Revert Function

/-- What static calls to an account answer: `none` when the call fails, else the
    returned data. -/
structure Account where
  codeLength : ℕ
  issuerKeyVersion : Option Bytes
  keyEpoch : Option Bytes
  isValidSignature : Bytes32 → Bytes → Option Bytes

/-- An account without code. -/
def Account.eoa : Account := ⟨0, none, none, fun _ _ => none⟩

/-- The address of the contract and the library code it calls: the hash,
    `_hashTypedDataV4` of its EIP-712 domain, and `ECDSA.tryRecover`, which gives
    the signer when it reports no error. -/
structure SourceEnv where
  self : Address
  keccak256 : Bytes → Bytes32
  hashTypedDataV4 : Bytes32 → Bytes32
  tryRecover : Bytes32 → Bytes → Option Address

structure DenialCorrection where
  subject : Address
  proposer : Address
  approver : Address
  attrs : Bytes32
  claimsRoot : Bytes32
  evidenceHash : Bytes32
  reasonHash : Bytes32
  denialRevision : U64
  executeAfter : U40
  executed : Bool
deriving DecidableEq

/-- An entry that was never written. -/
def DenialCorrection.empty : DenialCorrection := ⟨0, 0, 0, 0, 0, 0, 0, 0, 0, false⟩

structure Issuance where
  subject : Address
  attrs : Bytes32
  claimsRoot : Bytes32
  evidenceHash : Bytes32

structure RootApproval where
  issuer : Address
  signature : Bytes

/-- The storage of the source contract. -/
structure ComplianceSource where
  ownable : Ownable
  isIssuer : Address → Bool
  isEpochPublisher : Address → Bool
  isDenialCorrectionApprover : Address → Bool
  processedRequest : Bytes32 → Bool
  lastEpoch : U32
  sourceDenialActive : Address → Bool
  sourceDenialRevision : Address → U64
  denialCorrections : U256 → DenialCorrection
  nextDenialCorrectionId : U256

inductive SourceError where
  | ownable (e : OwnableError)
  | notIssuer (caller : Address)
  | notEpochPublisher (caller : Address)
  | lengthMismatch
  | epochNotMonotonic (given last : U32)
  | zeroSubject
  | requestAlreadyProcessed (requestId : Bytes32)
  | invalidAttrs
  | invalidEpoch
  | invalidRootApprovals
  | invalidIssuerKeyProvenance
  | invalidCompromiseCutoff
  | notDenialCorrectionApprover (caller : Address)
  | invalidDenialCorrection
  | denialCorrectionNotApproved (correctionId : U256)
  | denialCorrectionDelayActive (correctionId : U256) (executeAfter : U40)
  | arithmeticPanic
deriving DecidableEq

/-- The external functions of the source contract. -/
inductive SourceCall where
  | ownership (c : OwnableCall)
  | setIssuer (account : Address) (allowed : Bool)
  | setEpochPublisher (account : Address) (allowed : Bool)
  | setDenialCorrectionApprover (account : Address) (allowed : Bool)
  | issue (subject : Address) (attrs claimsRoot evidenceHash : Bytes32)
  | issueOnce (requestId : Bytes32) (subject : Address) (attrs claimsRoot evidenceHash : Bytes32)
  | issueOnceWithKey (requestId : Bytes32) (subject : Address)
      (attrs claimsRoot evidenceHash : Bytes32) (issuerKeyEpoch : U64)
  | declareIssuerKeyCompromise (issuerKeyEpoch lastTrustedBlock : U64) (reasonHash : Bytes32)
  | issueBatch (items : List Issuance)
  | revoke (subject : Address) (reasonCode : U16) (epoch : U32)
  | revokeBatch (subjects : List Address) (reasonCodes : List U16) (epoch : U32)
  | deny (subject : Address) (listVersion epoch : U32)
  | denyBatch (subjects : List Address) (listVersion epoch : U32)
  | proposeDenialCorrection (subject : Address)
      (attrs claimsRoot evidenceHash reasonHash : Bytes32)
  | approveDenialCorrection (correctionId : U256)
  | executeDenialCorrection (correctionId : U256)
  | publishEpoch (epoch : U32) (root : Bytes32) (listVersion : U32)
      (validUntil sourceCutoff : U40) (snapshotId : Bytes32)
  | publishEpochForIssuers (epoch : U32) (root : Bytes32) (listVersion : U32)
      (validUntil sourceCutoff : U40) (snapshotId : Bytes32) (approvals : List RootApproval)

/-- The outcome of a call: the new state and the emitted events. -/
abbrev SourceOutcome := Except SourceError (ComplianceSource × List SourceEvent)

namespace ComplianceSource

def MIN_DENIAL_CORRECTION_DELAY : ℕ := 3600

def MAX_ROSTER_ISSUERS : ℕ := 16

/-- `keccak256` of the type string of `RosterApproval`. -/
def ROSTER_APPROVAL_TYPEHASH : Bytes32 :=
  0x8edd54b2d5e46271f4778382dbc4c56d248241b6ce067ed9465644bb3a7795f8

/-- `bytes32(IERC1271.isValidSignature.selector)` -/
def ERC1271_MAGIC : Bytes32 := (0x1626ba7e : Bytes32) <<< 224

/-- The storage after the constructor. -/
def deployed (initialOwner : Address) : ComplianceSource where
  ownable := ⟨initialOwner, 0⟩
  isIssuer _ := false
  isEpochPublisher _ := false
  isDenialCorrectionApprover _ := false
  processedRequest _ := false
  lastEpoch := 0
  sourceDenialActive _ := false
  sourceDenialRevision _ := 0
  denialCorrections _ := .empty
  nextDenialCorrectionId := 1

section
variable (env : SourceEnv) (accounts : Address → Account) (msg : Msg) (s : ComplianceSource)

def onlyOwner : Except SourceError Unit := (s.ownable.onlyOwner msg.sender).mapError .ownable

def onlyIssuer : Except SourceError Unit :=
  revertIf (¬ s.isIssuer msg.sender) (.notIssuer msg.sender)

def onlyEpochPublisher : Except SourceError Unit :=
  revertIf (¬ s.isEpochPublisher msg.sender) (.notEpochPublisher msg.sender)

def ownershipEvents (s' : Ownable) : OwnableCall → List SourceEvent
  | .transferOwnership newOwner => [.ownershipTransferStarted s.ownable.owner newOwner]
  | .acceptOwnership | .renounceOwnership => [.ownershipTransferred s.ownable.owner s'.owner]

def ownership (c : OwnableCall) : SourceOutcome := do
  let ownable ← (s.ownable.call msg.sender c).mapError .ownable
  pure ({ s with ownable }, s.ownershipEvents ownable c)

def setIssuer (account : Address) (allowed : Bool) : SourceOutcome := do
  s.onlyOwner msg
  pure ({ s with isIssuer := update s.isIssuer account allowed }, [.issuerSet account allowed])

def setEpochPublisher (account : Address) (allowed : Bool) : SourceOutcome := do
  s.onlyOwner msg
  pure ({ s with isEpochPublisher := update s.isEpochPublisher account allowed },
    [.epochPublisherSet account allowed])

def setDenialCorrectionApprover (account : Address) (allowed : Bool) : SourceOutcome := do
  s.onlyOwner msg
  revertIf (account = 0) .invalidDenialCorrection
  pure ({ s with
      isDenialCorrectionApprover := update s.isDenialCorrectionApprover account allowed },
    [.denialCorrectionApproverSet account allowed])

/-! ### Issuance -/

def issue (subject : Address) (attrs claimsRoot evidenceHash : Bytes32) : SourceOutcome := do
  s.onlyIssuer msg
  revertIf (subject = 0) .zeroSubject
  revertIf (¬ MarkAttrs.validAtIssuance attrs msg.timestamp) .invalidAttrs
  pure (s, [.markIssued subject attrs msg.sender claimsRoot evidenceHash])

def issueOnce (requestId : Bytes32) (subject : Address) (attrs claimsRoot evidenceHash : Bytes32) :
    SourceOutcome := do
  s.onlyIssuer msg
  revertIf (subject = 0) .zeroSubject
  revertIf (s.processedRequest requestId) (.requestAlreadyProcessed requestId)
  revertIf (¬ MarkAttrs.validAtIssuance attrs msg.timestamp) .invalidAttrs
  pure ({ s with processedRequest := update s.processedRequest requestId true },
    [.markIssued subject attrs msg.sender claimsRoot evidenceHash])

/-- `_currentIssuerKeyEpoch`: zero is the legacy path; a version-1 contract exposes a
    nonzero `uint64`, or the call reverts. -/
def currentIssuerKeyEpoch (account : Account) : Except SourceError U64 :=
  if account.codeLength = 0 then pure 0
  else
    match account.issuerKeyVersion.bind (abiWords 1) with
    | some [version] =>
      if version ≠ 1 then pure 0
      else do
        let epochData ← orRevert (account.keyEpoch.bind (abiWords 1)) .invalidIssuerKeyProvenance
        let epoch := epochData.getD 0 0
        revertIf (epoch = 0 ∨ epoch.toNat > 2 ^ 64 - 1) .invalidIssuerKeyProvenance
        pure (epoch.setWidth 64)
    | _ => pure 0

def issueOnceWithKey (requestId : Bytes32) (subject : Address)
    (attrs claimsRoot evidenceHash : Bytes32) (issuerKeyEpoch : U64) : SourceOutcome := do
  s.onlyIssuer msg
  revertIf (subject = 0) .zeroSubject
  revertIf (s.processedRequest requestId) (.requestAlreadyProcessed requestId)
  revertIf (¬ MarkAttrs.validAtIssuance attrs msg.timestamp) .invalidAttrs
  revertIf (issuerKeyEpoch = 0) .invalidIssuerKeyProvenance
  let current ← currentIssuerKeyEpoch (accounts msg.sender)
  revertIf (current ≠ issuerKeyEpoch) .invalidIssuerKeyProvenance
  pure ({ s with processedRequest := update s.processedRequest requestId true },
    [.keyedMarkIssued subject attrs msg.sender issuerKeyEpoch claimsRoot evidenceHash])

def declareIssuerKeyCompromise (issuerKeyEpoch lastTrustedBlock : U64) (reasonHash : Bytes32) :
    SourceOutcome := do
  s.onlyIssuer msg
  revertIf (issuerKeyEpoch = 0) .invalidCompromiseCutoff
  let current ← currentIssuerKeyEpoch (accounts msg.sender)
  revertIf (current ≠ issuerKeyEpoch ∨ reasonHash = 0 ∨ lastTrustedBlock ≥ msg.number)
    .invalidCompromiseCutoff
  pure (s, [.issuerKeyCompromised msg.sender issuerKeyEpoch lastTrustedBlock reasonHash])

def issueBatchLoop : List Issuance → Except SourceError (List SourceEvent)
  | [] => pure []
  | item :: items => do
    revertIf (item.subject = 0) .zeroSubject
    revertIf (¬ MarkAttrs.validAtIssuance item.attrs msg.timestamp) .invalidAttrs
    let rest ← issueBatchLoop items
    pure (.markIssued item.subject item.attrs msg.sender item.claimsRoot item.evidenceHash :: rest)

def issueBatch (items : List Issuance) : SourceOutcome := do
  s.onlyIssuer msg
  let events ← issueBatchLoop msg items
  pure (s, events)

/-! ### Revocation and denial -/

def revoke (subject : Address) (reasonCode : U16) (epoch : U32) : SourceOutcome := do
  s.onlyIssuer msg
  revertIf (subject = 0) .zeroSubject
  pure (s, [.markRevoked subject reasonCode epoch])

def revokeBatchLoop (epoch : U32) : List (Address × U16) → Except SourceError (List SourceEvent)
  | [] => pure []
  | (subject, reasonCode) :: items => do
    revertIf (subject = 0) .zeroSubject
    let rest ← revokeBatchLoop epoch items
    pure (.markRevoked subject reasonCode epoch :: rest)

def revokeBatch (subjects : List Address) (reasonCodes : List U16) (epoch : U32) :
    SourceOutcome := do
  s.onlyIssuer msg
  revertIf (subjects.length ≠ reasonCodes.length) .lengthMismatch
  let events ← revokeBatchLoop epoch (subjects.zip reasonCodes)
  pure (s, events)

/-- `_recordDenial`; the revision is a checked `uint64` counter. -/
def recordDenial (subject : Address) : Except SourceError ComplianceSource := do
  revertIf (s.sourceDenialRevision subject = BitVec.allOnes 64) .arithmeticPanic
  pure { s with
    sourceDenialActive := update s.sourceDenialActive subject true
    sourceDenialRevision :=
      update s.sourceDenialRevision subject (s.sourceDenialRevision subject + 1) }

def deny (subject : Address) (listVersion epoch : U32) : SourceOutcome := do
  s.onlyIssuer msg
  revertIf (subject = 0) .zeroSubject
  let s' ← s.recordDenial subject
  pure (s', [.sanctionDenied subject listVersion epoch])

def denyBatchLoop (listVersion epoch : U32) (s : ComplianceSource) :
    List Address → Except SourceError (ComplianceSource × List SourceEvent)
  | [] => pure (s, [])
  | subject :: subjects => do
    revertIf (subject = 0) .zeroSubject
    let s' ← s.recordDenial subject
    let (s'', rest) ← denyBatchLoop listVersion epoch s' subjects
    pure (s'', .sanctionDenied subject listVersion epoch :: rest)

def denyBatch (subjects : List Address) (listVersion epoch : U32) : SourceOutcome := do
  s.onlyIssuer msg
  denyBatchLoop listVersion epoch s subjects

/-! ### Denial correction -/

def proposeDenialCorrection (subject : Address)
    (attrs claimsRoot evidenceHash reasonHash : Bytes32) : SourceOutcome := do
  s.onlyIssuer msg
  revertIf (subject = 0 ∨ ¬ s.sourceDenialActive subject ∨ reasonHash = 0 ∨
    ¬ MarkAttrs.validAtIssuance attrs msg.timestamp) .invalidDenialCorrection
  revertIf (s.nextDenialCorrectionId = BitVec.allOnes 256) .arithmeticPanic
  let correctionId := s.nextDenialCorrectionId
  let executeAfter := BitVec.ofNat 40 (msg.timestamp + MIN_DENIAL_CORRECTION_DELAY)
  let revision := s.sourceDenialRevision subject
  let correction : DenialCorrection :=
    { subject, proposer := msg.sender, approver := 0, attrs, claimsRoot, evidenceHash, reasonHash,
      denialRevision := revision, executeAfter, executed := false }
  pure ({ s with
      nextDenialCorrectionId := correctionId + 1
      denialCorrections := update s.denialCorrections correctionId correction },
    [.denialCorrectionProposed correctionId subject revision msg.sender reasonHash executeAfter])

def approveDenialCorrection (correctionId : U256) : SourceOutcome := do
  revertIf (¬ s.isDenialCorrectionApprover msg.sender) (.notDenialCorrectionApprover msg.sender)
  let correction := s.denialCorrections correctionId
  revertIf (correction.subject = 0 ∨ correction.executed ∨ correction.approver ≠ 0 ∨
    correction.proposer = msg.sender ∨ ¬ s.sourceDenialActive correction.subject ∨
    s.sourceDenialRevision correction.subject ≠ correction.denialRevision) .invalidDenialCorrection
  pure ({ s with
      denialCorrections :=
        update s.denialCorrections correctionId { correction with approver := msg.sender } },
    [.denialCorrectionApproved correctionId msg.sender correction.reasonHash])

def executeDenialCorrection (correctionId : U256) : SourceOutcome := do
  let correction := s.denialCorrections correctionId
  revertIf (correction.subject = 0 ∨ correction.executed ∨
    ¬ s.sourceDenialActive correction.subject ∨
    s.sourceDenialRevision correction.subject ≠ correction.denialRevision ∨
    ¬ s.isIssuer correction.proposer ∨
    ¬ MarkAttrs.validAtIssuance correction.attrs msg.timestamp) .invalidDenialCorrection
  revertIf (correction.approver = 0) (.denialCorrectionNotApproved correctionId)
  revertIf (msg.timestamp < correction.executeAfter.toNat)
    (.denialCorrectionDelayActive correctionId correction.executeAfter)
  pure ({ s with
      denialCorrections := update s.denialCorrections correctionId { correction with executed := true }
      sourceDenialActive := update s.sourceDenialActive correction.subject false },
    [.sanctionDenialCorrected correction.subject correction.denialRevision correctionId
        correction.reasonHash correction.proposer correction.approver,
      .markIssued correction.subject correction.attrs correction.proposer correction.claimsRoot
        correction.evidenceHash])

/-! ### Epoch publication -/

/-- `_checkEpoch` -/
def checkEpoch (epoch : U32) (root : Bytes32) (validUntil sourceCutoff : U40)
    (snapshotId : Bytes32) : Except SourceError Unit := do
  revertIf (epoch ≤ s.lastEpoch) (.epochNotMonotonic epoch s.lastEpoch)
  revertIf (msg.timestamp > 2 ^ 40 - 1 ∨
    ¬ EpochBounds.valid root sourceCutoff (BitVec.ofNat 40 msg.timestamp) validUntil snapshotId)
    .invalidEpoch

/-- `_finishEpoch`: the state with the new epoch, and the publication event. -/
def finishEpoch (epoch : U32) (root : Bytes32) (listVersion : U32) (validUntil sourceCutoff : U40)
    (snapshotId : Bytes32) : ComplianceSource × SourceEvent :=
  ({ s with lastEpoch := epoch },
    .rosterEpochPublished epoch root listVersion validUntil sourceCutoff
      (BitVec.ofNat 40 msg.timestamp) snapshotId)

def publishEpoch (epoch : U32) (root : Bytes32) (listVersion : U32) (validUntil sourceCutoff : U40)
    (snapshotId : Bytes32) : SourceOutcome := do
  s.onlyEpochPublisher msg
  s.onlyIssuer msg
  s.checkEpoch msg epoch root validUntil sourceCutoff snapshotId
  let (s', published) := s.finishEpoch msg epoch root listVersion validUntil sourceCutoff snapshotId
  pure (s', [.rosterIssuerAuthorized epoch root msg.sender, published])

def rosterApprovalDigest (epoch : U32) (root : Bytes32) (listVersion : U32)
    (validUntil sourceCutoff : U40) (snapshotId : Bytes32) (publisher : Address) : Bytes32 :=
  env.hashTypedDataV4 (env.keccak256 (abiEncode [ROSTER_APPROVAL_TYPEHASH, toWord epoch, root,
    toWord listVersion, toWord validUntil, toWord sourceCutoff, snapshotId, toWord publisher]))

/-- `_validRootSignature` -/
def validRootSignature (account : Account) (issuer : Address) (digest : Bytes32)
    (signature : Bytes) : Bool :=
  if account.codeLength = 0 then env.tryRecover digest signature == some issuer
  else (account.isValidSignature digest signature).bind (abiWords 1) == some [ERC1271_MAGIC]

/-- The loop over the approvals: issuers in increasing order, each with its signature. -/
def approvalsLoop (epoch : U32) (root digest : Bytes32) :
    Address → List RootApproval → Except SourceError (List SourceEvent)
  | _, [] => pure []
  | previous, approval :: approvals => do
    revertIf (approval.issuer ≤ previous ∨ ¬ s.isIssuer approval.issuer ∨
      approval.signature.length > 4096 ∨
      ¬ validRootSignature env (accounts approval.issuer) approval.issuer digest approval.signature)
      .invalidRootApprovals
    let issuerKeyEpoch ← currentIssuerKeyEpoch (accounts approval.issuer)
    let rest ← approvalsLoop epoch root digest approval.issuer approvals
    let keyed : List SourceEvent := if issuerKeyEpoch ≠ 0 then
      [.rosterIssuerKeyAuthorized epoch root approval.issuer issuerKeyEpoch] else []
    pure (.rosterIssuerAuthorized epoch root approval.issuer :: keyed ++ rest)

def publishEpochForIssuers (epoch : U32) (root : Bytes32) (listVersion : U32)
    (validUntil sourceCutoff : U40) (snapshotId : Bytes32) (approvals : List RootApproval) :
    SourceOutcome := do
  s.onlyEpochPublisher msg
  s.checkEpoch msg epoch root validUntil sourceCutoff snapshotId
  revertIf (approvals.length = 0 ∨ approvals.length > MAX_ROSTER_ISSUERS) .invalidRootApprovals
  let digest := rosterApprovalDigest env epoch root listVersion validUntil sourceCutoff snapshotId
    msg.sender
  let events ← approvalsLoop env accounts s epoch root digest 0 approvals
  let (s', published) := s.finishEpoch msg epoch root listVersion validUntil sourceCutoff snapshotId
  pure (s', events ++ [published])

/-- A call of an external function. -/
def call : SourceCall → SourceOutcome
  | .ownership c => s.ownership msg c
  | .setIssuer account allowed => s.setIssuer msg account allowed
  | .setEpochPublisher account allowed => s.setEpochPublisher msg account allowed
  | .setDenialCorrectionApprover account allowed =>
    s.setDenialCorrectionApprover msg account allowed
  | .issue subject attrs claimsRoot evidenceHash => s.issue msg subject attrs claimsRoot evidenceHash
  | .issueOnce requestId subject attrs claimsRoot evidenceHash =>
    s.issueOnce msg requestId subject attrs claimsRoot evidenceHash
  | .issueOnceWithKey requestId subject attrs claimsRoot evidenceHash issuerKeyEpoch =>
    s.issueOnceWithKey accounts msg requestId subject attrs claimsRoot evidenceHash issuerKeyEpoch
  | .declareIssuerKeyCompromise issuerKeyEpoch lastTrustedBlock reasonHash =>
    s.declareIssuerKeyCompromise accounts msg issuerKeyEpoch lastTrustedBlock reasonHash
  | .issueBatch items => s.issueBatch msg items
  | .revoke subject reasonCode epoch => s.revoke msg subject reasonCode epoch
  | .revokeBatch subjects reasonCodes epoch => s.revokeBatch msg subjects reasonCodes epoch
  | .deny subject listVersion epoch => s.deny msg subject listVersion epoch
  | .denyBatch subjects listVersion epoch => s.denyBatch msg subjects listVersion epoch
  | .proposeDenialCorrection subject attrs claimsRoot evidenceHash reasonHash =>
    s.proposeDenialCorrection msg subject attrs claimsRoot evidenceHash reasonHash
  | .approveDenialCorrection correctionId => s.approveDenialCorrection msg correctionId
  | .executeDenialCorrection correctionId => s.executeDenialCorrection msg correctionId
  | .publishEpoch epoch root listVersion validUntil sourceCutoff snapshotId =>
    s.publishEpoch msg epoch root listVersion validUntil sourceCutoff snapshotId
  | .publishEpochForIssuers epoch root listVersion validUntil sourceCutoff snapshotId approvals =>
    s.publishEpochForIssuers env accounts msg epoch root listVersion validUntil sourceCutoff
      snapshotId approvals

end

end ComplianceSource

/-- A call with its message, and what the accounts it queries answer. -/
structure SourceAction where
  accounts : Address → Account
  msg : Msg
  call : SourceCall

abbrev SourceEntry := Machine.Entry ComplianceSource SourceAction (List SourceEvent)

/-- The source contract as a machine that outputs its events. -/
def ComplianceSource.machine (env : SourceEnv) :
    Machine ComplianceSource SourceAction (List SourceEvent) SourceError where
  step s a := s.call env a.accounts a.msg a.call

end Proofmark
