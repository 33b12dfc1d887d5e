/-
  `ProofmarkASC` (src/ProofmarkASC.sol) over `ASCBaseX` (src/ASCBaseX.sol): the
  hub contract that verifies source receipts and applies their lifecycle logs.

  The mappings keyed by a subject are one record `SubjectState`, those keyed by an
  epoch one record `EpochState`, and those keyed by an issuer and its key epoch one
  record `KeyCutoff`.  A handler decodes a log and hands its fields to an update of
  one such record.

  The block prover precompile and the `EvmV1Decoder` library are not part of the
  repository; they are the arguments `BlockProver` and `EvmV1Decoder`.
-/
import Proofmark.Contract.ProofmarkTypes
import Proofmark.Contract.SourceEvents
import Proofmark.Evm.Ownable
import Proofmark.Lib.Machine
import Mathlib.Logic.Function.Basic

namespace Proofmark

open Words Revert Function

/-! ## The code the contract calls -/

structure MerkleProofEntry where
  hash : Bytes32
  isLeft : Bool

structure MerkleProof where
  root : Bytes32
  siblings : List MerkleProofEntry

structure ContinuityProof where
  lowerEndpointDigest : Bytes32
  roots : List Bytes32

/-- The answers of the precompile at `0x…0FD2` during one call. -/
structure BlockProver where
  verifyAndEmit : U64 → U64 → Bytes → MerkleProof → ContinuityProof → Bool
  calculateTxIndex : MerkleProof → U64

structure ReceiptFields where
  receiptStatus : U8
  receiptLogs : List LogEntry
deriving DecidableEq

/-- The linked decoder library: `none` when decoding reverts. -/
structure EvmV1Decoder where
  getTransactionType : Bytes → Option U8
  isValidTransactionType : U8 → Bool
  decodeReceiptFields : Bytes → Option ReceiptFields

/-- The hash and the decoder the contract is linked with. -/
structure HubEnv where
  keccak256 : Bytes → Bytes32
  decoder : EvmV1Decoder

/-! ## State -/

/-- The mappings keyed by a subject. -/
structure SubjectState where
  mark : Mark
  tombstone : Bool
  permanentDenial : Bool
  /-- `lastAppliedHeight`, `lastAppliedTxIndex`, `lastAppliedLogIndex` -/
  lastApplied : Coord
  markIssuerKeyEpoch : U64
  /-- `lastDenialDecisionHeight`, `lastDenialDecisionTxIndex`, `lastDenialDecisionLogIndex` -/
  lastDenialDecision : Coord
  latestOrdinaryStatus : MarkStatus
  latestOrdinaryIsIssuance : Bool
  lastCorrectedDenialRevision : U64
  lastDenialCorrectionId : U256
  lastDenialCorrectionReasonHash : Bytes32
  lastDenialCorrectionProposer : Address
  lastDenialCorrectionApprover : Address

def SubjectState.empty : SubjectState where
  mark := .empty
  tombstone := false
  permanentDenial := false
  lastApplied := ⊥
  markIssuerKeyEpoch := 0
  lastDenialDecision := ⊥
  latestOrdinaryStatus := .none
  latestOrdinaryIsIssuance := false
  lastCorrectedDenialRevision := 0
  lastDenialCorrectionId := 0
  lastDenialCorrectionReasonHash := 0
  lastDenialCorrectionProposer := 0
  lastDenialCorrectionApprover := 0

/-- The mappings keyed by an epoch. -/
structure EpochState where
  root : Bytes32
  issuerApproved : Address → Bool
  issuerKeyEpoch : Address → U64
  issuerApprovalHeight : Address → U64

def EpochState.empty : EpochState := ⟨0, fun _ => false, fun _ => 0, fun _ => 0⟩

/-- The mappings keyed by an issuer and its key epoch. -/
structure KeyCutoff where
  compromised : Bool
  lastTrustedBlock : U64
deriving DecidableEq

/-- The storage of the hub contract. -/
structure ProofmarkASC where
  ownable : Ownable
  expectedChainKey : U64
  sourceContract : Address
  processedQueries : Bytes32 → Bool
  subjects : Address → SubjectState
  epochs : U32 → EpochState
  issuerKeys : Address × U64 → KeyCutoff
  latestEpoch : U32
  epochValidUntil : U40
  epochSourceCutoff : U40
  epochPublishedAt : U40
  epochListVersion : U32
  epochSnapshotId : Bytes32

inductive ASCError where
  | ownable (e : OwnableError)
  /-- a revert inside the decoder library or of `abi.decode` -/
  | decoding
  /-- `require(c, reason)` -/
  | require (reason : String)
  | invalidAction (action : U8)
  | sourceNotConfigured
  | unexpectedChainKey (got want : U64)
  | untrustedEmitter (got want : Address)
  | sourceTxFailed
  | noMatchingEvent
  | badTopics
  | sourceAlreadyConfigured
  | invalidEpoch
  | invalidEpochAuthorization
  | invalidIssuerKeyProvenance
  | invalidDenialCorrection
deriving DecidableEq

/-! ## Updates of a subject -/

namespace SubjectState

variable (st : SubjectState) (c : Coord)

/-- `_isNewer` -/
def isNewer : Bool :=
  decide (c.height > st.lastApplied.height) ||
    (c.height == st.lastApplied.height && (decide (c.txIndex > st.lastApplied.txIndex) ||
      (c.txIndex == st.lastApplied.txIndex && decide (c.logIndex > st.lastApplied.logIndex))))

/-- `_advance`: moves the cursor; `none` when the event is stale. -/
def advance : Option SubjectState :=
  if st.isNewer c then some { st with lastApplied := c } else none

/-- `_advanceDenialDecision` -/
def advanceDenialDecision : Option SubjectState :=
  if decide (c.height > st.lastDenialDecision.height) ||
      (c.height == st.lastDenialDecision.height &&
        (decide (c.txIndex > st.lastDenialDecision.txIndex) ||
          (c.txIndex == st.lastDenialDecision.txIndex &&
            decide (c.logIndex > st.lastDenialDecision.logIndex))))
  then some { st with lastDenialDecision := c } else none

def setStatus (status : MarkStatus) : SubjectState :=
  { st with mark := { st.mark with status } }

/-- `_storeMark` -/
def storeMark (attrs : Bytes32) (issuer : Address) (claimsRoot evidenceHash : Bytes32) :
    SubjectState :=
  { st with
    mark :=
      { status := .active
        origin := .direct
        kind := MarkAttrs.kind attrs
        assurance := MarkAttrs.assurance attrs
        regime := MarkAttrs.regime attrs
        jurisdiction := MarkAttrs.jurisdiction attrs
        methods := MarkAttrs.methods attrs
        issuedAt := MarkAttrs.issuedAt attrs
        expiry := MarkAttrs.expiry attrs
        epoch := MarkAttrs.epoch attrs
        claimsRoot
        evidenceHash
        issuer } }

/-- The state updates of `_onIssued` (key epoch zero) and of `_onKeyedIssued`. -/
def onIssued (attrs : Bytes32) (issuer : Address) (keyEpoch : U64)
    (claimsRoot evidenceHash : Bytes32) : SubjectState :=
  match st.advance c with
  | none => st
  | some st =>
    if st.permanentDenial then
      let st :=
        if MarkAttrs.validSchema attrs then
          { (st.storeMark attrs issuer claimsRoot evidenceHash).setStatus .denied with
            markIssuerKeyEpoch := keyEpoch
            latestOrdinaryStatus := .active
            latestOrdinaryIsIssuance := true }
        else { st with latestOrdinaryStatus := .suspended, latestOrdinaryIsIssuance := false }
      { st with tombstone := true }
    else if ¬ MarkAttrs.validSchema attrs then
      { st.setStatus .suspended with
        tombstone := true
        latestOrdinaryStatus := .suspended
        latestOrdinaryIsIssuance := false }
    else
      { st.storeMark attrs issuer claimsRoot evidenceHash with
        tombstone := false
        markIssuerKeyEpoch := keyEpoch
        latestOrdinaryStatus := .active
        latestOrdinaryIsIssuance := true }

/-- The state updates of `_onTombstone` for a denial. -/
def onDenied : SubjectState :=
  match st.advanceDenialDecision c with
  | none => st
  | some st =>
    let st := { st with permanentDenial := true }
    let st := (st.advance c).getD st
    { st.setStatus .denied with tombstone := true }

/-- The state updates of `_onTombstone` for a revocation. -/
def onRevoked : SubjectState :=
  match st.advance c with
  | none => st
  | some st =>
    { st.setStatus (if st.permanentDenial then .denied else .revoked) with
      latestOrdinaryStatus := .revoked
      latestOrdinaryIsIssuance := false
      tombstone := true }

/-- The state updates of `_onDenialCorrected`. -/
def onDenialCorrected (denialRevision : U64) (correctionId : U256) (reasonHash : Bytes32)
    (proposer approver : Address) : SubjectState :=
  match st.advanceDenialDecision c with
  | none => st
  | some st =>
    let st :=
      { st with
        permanentDenial := false
        lastCorrectedDenialRevision := denialRevision
        lastDenialCorrectionId := correctionId
        lastDenialCorrectionReasonHash := reasonHash
        lastDenialCorrectionProposer := proposer
        lastDenialCorrectionApprover := approver }
    match st.advance c with
    | none =>
      -- a later ordinary event was delivered before this correction
      if st.latestOrdinaryStatus = .active then
        { st.setStatus st.latestOrdinaryStatus with tombstone := false }
      else
        { st.setStatus (if st.latestOrdinaryStatus = .revoked then .revoked else .suspended) with
          tombstone := true }
    | some st => { st.setStatus .suspended with tombstone := true }

end SubjectState

/-! ## Handlers -/

namespace ProofmarkASC

/-- The storage after the constructor. -/
def deployed (initialOwner : Address) : ProofmarkASC where
  ownable := ⟨initialOwner, 0⟩
  expectedChainKey := 0
  sourceContract := 0
  processedQueries _ := false
  subjects _ := .empty
  epochs _ := .empty
  issuerKeys _ := ⟨false, 0⟩
  latestEpoch := 0
  epochValidUntil := 0
  epochSourceCutoff := 0
  epochPublishedAt := 0
  epochListVersion := 0
  epochSnapshotId := 0

variable (asc : ProofmarkASC)

def configureSource (sender : Address) (chainKey : U64) (source : Address) :
    Except ASCError ProofmarkASC := do
  (asc.ownable.onlyOwner sender).mapError .ownable
  revertIf (asc.sourceContract ≠ 0) .sourceAlreadyConfigured
  revertIf (source = 0) (.require "zero source")
  revertIf (chainKey = 0) (.require "zero chainKey")
  pure { asc with expectedChainKey := chainKey, sourceContract := source }

def updateSubject (subject : Address) (f : SubjectState → SubjectState) : ProofmarkASC :=
  { asc with subjects := update asc.subjects subject (f (asc.subjects subject)) }

/-- `_requireTrusted` -/
def requireTrusted (L : LogEntry) (expectedTopics : ℕ) : Except ASCError Unit := do
  revertIf (L.address_ ≠ asc.sourceContract) (.untrustedEmitter L.address_ asc.sourceContract)
  revertIf (L.topics.length ≠ expectedTopics) .badTopics

/-- `_onIssued` -/
def onIssued (c : Coord) (L : LogEntry) : Except ASCError ProofmarkASC := do
  asc.requireTrusted L 4
  let subject := toAddress (L.topic 1)
  let attrs := L.topic 2
  let issuer := toAddress (L.topic 3)
  let data ← orRevert (abiWords 2 L.data) .decoding
  pure (asc.updateSubject subject fun st =>
    st.onIssued c attrs issuer 0 (data.getD 0 0) (data.getD 1 0))

/-- `_onKeyedIssued` -/
def onKeyedIssued (c : Coord) (L : LogEntry) : Except ASCError ProofmarkASC := do
  asc.requireTrusted L 4
  revertIf (L.data.length ≠ 96) .invalidIssuerKeyProvenance
  let subject := toAddress (L.topic 1)
  let attrs := L.topic 2
  let issuer := toAddress (L.topic 3)
  let data ← orRevert (abiWords 3 L.data) .decoding
  let issuerKeyEpoch ← orRevert (toUInt? 64 (data.getD 0 0)) .decoding
  revertIf (issuerKeyEpoch = 0) .invalidIssuerKeyProvenance
  pure (asc.updateSubject subject fun st =>
    st.onIssued c attrs issuer issuerKeyEpoch (data.getD 1 0) (data.getD 2 0))

/-- `_onTombstone` -/
def onTombstone (c : Coord) (L : LogEntry) (newStatus : MarkStatus) :
    Except ASCError ProofmarkASC := do
  asc.requireTrusted L 4
  let subject := toAddress (L.topic 1)
  pure (asc.updateSubject subject fun st =>
    if newStatus = .denied then st.onDenied c else st.onRevoked c)

/-- `_onDenialCorrected` -/
def onDenialCorrected (c : Coord) (L : LogEntry) : Except ASCError ProofmarkASC := do
  asc.requireTrusted L 4
  revertIf (L.data.length ≠ 96 ∨ (L.topic 1).toNat > 2 ^ 160 - 1 ∨ L.topic 2 = 0 ∨
    (L.topic 2).toNat > 2 ^ 64 - 1 ∨ L.topic 3 = 0) .invalidDenialCorrection
  let subject := toAddress (L.topic 1)
  let denialRevision : U64 := (L.topic 2).setWidth 64
  let correctionId := L.topic 3
  let data ← orRevert (abiWords 3 L.data) .decoding
  let reasonHash := data.getD 0 0
  let proposer ← orRevert (toUInt? 160 (data.getD 1 0)) .decoding
  let approver ← orRevert (toUInt? 160 (data.getD 2 0)) .decoding
  revertIf (subject = 0 ∨ reasonHash = 0 ∨ proposer = 0 ∨ approver = 0 ∨ proposer = approver)
    .invalidDenialCorrection
  pure (asc.updateSubject subject fun st =>
    st.onDenialCorrected c denialRevision correctionId reasonHash proposer approver)

/-- The inner loop of `_onEpoch`: the key epoch under which `issuer` approved. -/
def keyEpochLoop (epoch : U32) (root : Bytes32) (issuer : Address) :
    List LogEntry → U64 → Except ASCError U64
  | [], issuerKeyEpoch => pure issuerKeyEpoch
  | keyed :: logs, issuerKeyEpoch =>
    if keyed.address_ ≠ asc.sourceContract ∨ keyed.topics.length = 0 ∨
        keyed.topic 0 ≠ Sig.KEYED_EPOCH_AUTH then
      keyEpochLoop epoch root issuer logs issuerKeyEpoch
    else if keyed.topics.length ≠ 4 ∨ keyed.data.length ≠ 32 then
      .error .invalidEpochAuthorization
    else if keyed.topic 1 ≠ toWord epoch ∨ keyed.topic 2 ≠ root then
      keyEpochLoop epoch root issuer logs issuerKeyEpoch
    else if toAddress (keyed.topic 3) ≠ issuer then
      keyEpochLoop epoch root issuer logs issuerKeyEpoch
    else do
      let data ← orRevert (abiWords 1 keyed.data) .decoding
      let decodedEpoch := data.getD 0 0
      revertIf (issuerKeyEpoch ≠ 0 ∨ decodedEpoch = 0 ∨ decodedEpoch.toNat > 2 ^ 64 - 1)
        .invalidEpochAuthorization
      keyEpochLoop epoch root issuer logs (decodedEpoch.setWidth 64)

/-- The outer loop of `_onEpoch`: the approvals of the epoch in the receipt. -/
def approvalLoop (height : U64) (epoch : U32) (root : Bytes32) (receiptLogs : List LogEntry) :
    List LogEntry → EpochState → ℕ → Except ASCError (EpochState × ℕ)
  | [], st, approved => pure (st, approved)
  | a :: logs, st, approved =>
    if a.address_ ≠ asc.sourceContract ∨ a.topics.length = 0 ∨ a.topic 0 ≠ Sig.EPOCH_AUTH then
      approvalLoop height epoch root receiptLogs logs st approved
    else if a.topics.length ≠ 4 ∨ a.data.length ≠ 0 ∨ (a.topic 1).toNat > 2 ^ 32 - 1 ∨
        (a.topic 3).toNat > 2 ^ 160 - 1 then
      .error .invalidEpochAuthorization
    else if a.topic 1 ≠ toWord epoch ∨ a.topic 2 ≠ root then
      approvalLoop height epoch root receiptLogs logs st approved
    else do
      let issuer := toAddress (a.topic 3)
      revertIf (issuer = 0 ∨ st.issuerApproved issuer ∨ approved + 1 > 16)
        .invalidEpochAuthorization
      let issuerKeyEpoch ← asc.keyEpochLoop epoch root issuer receiptLogs 0
      approvalLoop height epoch root receiptLogs logs
        { st with
          issuerApproved := update st.issuerApproved issuer true
          issuerApprovalHeight := update st.issuerApprovalHeight issuer height
          issuerKeyEpoch := update st.issuerKeyEpoch issuer issuerKeyEpoch }
        (approved + 1)

/-- `_onEpoch`; `now` is the block timestamp of the hub. -/
def onEpoch (now : ℕ) (height : U64) (L : LogEntry) (receiptLogs : List LogEntry) :
    Except ASCError ProofmarkASC := do
  asc.requireTrusted L 4
  revertIf ((L.topic 1).toNat > 2 ^ 32 - 1 ∨ (L.topic 3).toNat > 2 ^ 32 - 1 ∨ L.data.length ≠ 128)
    .invalidEpoch
  let epoch : U32 := (L.topic 1).setWidth 32
  let root := L.topic 2
  let data ← orRevert (abiWords 4 L.data) .decoding
  let validUntil ← orRevert (toUInt? 40 (data.getD 0 0)) .decoding
  let cutoff ← orRevert (toUInt? 40 (data.getD 1 0)) .decoding
  let publishedAt ← orRevert (toUInt? 40 (data.getD 2 0)) .decoding
  let snapshotId := data.getD 3 0
  revertIf (¬ EpochBounds.valid root cutoff publishedAt validUntil snapshotId ∨
    publishedAt.toNat > now) .invalidEpoch
  if epoch ≤ asc.latestEpoch then pure asc
  else do
    let (st, approved) ←
      asc.approvalLoop height epoch root receiptLogs receiptLogs (asc.epochs epoch) 0
    revertIf (approved = 0) .invalidEpochAuthorization
    pure { asc with
      epochs := update asc.epochs epoch { st with root }
      latestEpoch := epoch
      epochValidUntil := validUntil
      epochSourceCutoff := cutoff
      epochPublishedAt := publishedAt
      epochListVersion := (L.topic 3).setWidth 32
      epochSnapshotId := snapshotId }

/-- `_onKeyCompromised` -/
def onKeyCompromised (declarationHeight : U64) (L : LogEntry) : Except ASCError ProofmarkASC := do
  asc.requireTrusted L 3
  revertIf (L.data.length ≠ 64 ∨ (L.topic 1).toNat > 2 ^ 160 - 1 ∨ (L.topic 2).toNat > 2 ^ 64 - 1)
    .invalidIssuerKeyProvenance
  let issuer := toAddress (L.topic 1)
  let issuerKeyEpoch : U64 := (L.topic 2).setWidth 64
  let data ← orRevert (abiWords 2 L.data) .decoding
  let lastTrustedBlock ← orRevert (toUInt? 64 (data.getD 0 0)) .decoding
  let reasonHash := data.getD 1 0
  revertIf (issuer = 0 ∨ issuerKeyEpoch = 0 ∨ reasonHash = 0 ∨
    lastTrustedBlock ≥ declarationHeight) .invalidIssuerKeyProvenance
  let previous := asc.issuerKeys (issuer, issuerKeyEpoch)
  if ¬ previous.compromised ∨ lastTrustedBlock < previous.lastTrustedBlock then
    pure { asc with
      issuerKeys := update asc.issuerKeys (issuer, issuerKeyEpoch) ⟨true, lastTrustedBlock⟩ }
  else pure asc

/-! ## Receipts -/

/-- One turn of the loop of `_processAndEmitEvent`. -/
def applyLog (now : ℕ) (c : Coord) (receiptLogs : List LogEntry) (L : LogEntry) :
    Except ASCError ProofmarkASC :=
  if L.address_ ≠ asc.sourceContract ∨ L.topics.length = 0 then pure asc
  else if L.topic 0 = Sig.ISSUED then asc.onIssued c L
  else if L.topic 0 = Sig.KEYED_ISSUED then asc.onKeyedIssued c L
  else if L.topic 0 = Sig.REVOKED then asc.onTombstone c L .revoked
  else if L.topic 0 = Sig.DENIED then asc.onTombstone c L .denied
  else if L.topic 0 = Sig.EPOCH then asc.onEpoch now c.height L receiptLogs
  else if L.topic 0 = Sig.KEY_COMPROMISED then asc.onKeyCompromised c.height L
  else if L.topic 0 = Sig.DENIAL_CORRECTED then asc.onDenialCorrected c L
  else pure asc

/-- The loop of `_processAndEmitEvent`, from position `i` of the receipt. -/
def applyLogs (now : ℕ) (height txIndex : U64) (receiptLogs : List LogEntry) :
    ProofmarkASC → ℕ → List LogEntry → Except ASCError ProofmarkASC
  | asc, _, [] => pure asc
  | asc, i, L :: logs => do
    let asc ← asc.applyLog now ⟨height, txIndex, i⟩ receiptLogs L
    applyLogs now height txIndex receiptLogs asc (i + 1) logs

/-- The event signature an action asks for. -/
def requestedSig (action : U8) : Bytes32 :=
  if action = 0 then Sig.ISSUED
  else if action = 1 then Sig.REVOKED
  else if action = 2 then Sig.DENIED
  else if action = 3 then Sig.EPOCH
  else if action = 4 then Sig.KEY_COMPROMISED
  else Sig.DENIAL_CORRECTED

/-- The log matches the action of the caller. -/
def matchesAction (source : Address) (action : U8) (L : LogEntry) : Bool :=
  L.address_ == source && L.topics.length != 0 &&
    (L.topic 0 == requestedSig action || (action == 0 && L.topic 0 == Sig.KEYED_ISSUED))

/-- `_processAndEmitEvent` -/
def processAndEmitEvent (decoder : EvmV1Decoder) (now : ℕ) (action : U8)
    (chainKey blockHeight txIndex : U64) (encodedTx : Bytes) : Except ASCError ProofmarkASC := do
  revertIf (asc.sourceContract = 0) .sourceNotConfigured
  revertIf (chainKey ≠ asc.expectedChainKey) (.unexpectedChainKey chainKey asc.expectedChainKey)
  revertIf (action > 5) (.invalidAction action)
  let t ← orRevert (decoder.getTransactionType encodedTx) .decoding
  revertIf (¬ decoder.isValidTransactionType t) (.require "bad tx type")
  let r ← orRevert (decoder.decodeReceiptFields encodedTx) .decoding
  revertIf (r.receiptStatus ≠ 1) .sourceTxFailed
  let asc' ← applyLogs now blockHeight txIndex r.receiptLogs asc 0 r.receiptLogs
  revertIf (¬ r.receiptLogs.any (matchesAction asc.sourceContract action)) .noMatchingEvent
  pure asc'

/-! ## ASCBaseX -/

/-- `mstore(p, w)` -/
def mstore (m : ℕ → Byte) (p : ℕ) (w : U256) : ℕ → Byte :=
  fun k => if p ≤ k ∧ k < p + 32 then (toBytes 32 w.toNat).getD (k - p) 0 else m k

/-- The memory that `_queryCoordinates` assembles at its free pointer. -/
def queryMemory (chainKey blockHeight txIndex : U64) : ℕ → Byte :=
  mstore (mstore (mstore (fun _ => 0) 0 (toWord chainKey)) 32 (toWord blockHeight <<< 192)) 40
    (toWord txIndex)

/-- `_computeQueryId` -/
def computeQueryId (keccak256 : Bytes → Bytes32) (chainKey blockHeight txIndex : U64) : Bytes32 :=
  keccak256 ((List.range 72).map (queryMemory chainKey blockHeight txIndex))

end ProofmarkASC

/-- The arguments of `execute`, with the answers of the precompile during the call. -/
structure ExecuteCall where
  prover : BlockProver
  action : U8
  chainKey : U64
  blockHeight : U64
  encodedTransaction : Bytes
  merkleRoot : Bytes32
  siblings : List MerkleProofEntry
  lowerEndpointDigest : Bytes32
  continuityRoots : List Bytes32

namespace ExecuteCall

variable (x : ExecuteCall)

/-- `_txIndex` -/
def txIndex : U64 := x.prover.calculateTxIndex ⟨x.merkleRoot, x.siblings⟩

/-- `_verifyProof` -/
def verifyProof : Bool :=
  x.prover.verifyAndEmit x.chainKey x.blockHeight x.encodedTransaction ⟨x.merkleRoot, x.siblings⟩
    ⟨x.lowerEndpointDigest, x.continuityRoots⟩

end ExecuteCall

namespace ProofmarkASC

variable (env : HubEnv) (asc : ProofmarkASC)

def execute (now : ℕ) (x : ExecuteCall) : Except ASCError ProofmarkASC := do
  let queryId := computeQueryId env.keccak256 x.chainKey x.blockHeight x.txIndex
  revertIf (asc.processedQueries queryId) (.require "Query already processed")
  revertIf (¬ x.verifyProof) (.require "Proof of inclusion verification failed")
  let asc := { asc with processedQueries := update asc.processedQueries queryId true }
  asc.processAndEmitEvent env.decoder now x.action x.chainKey x.blockHeight x.txIndex
    x.encodedTransaction

/-! ## Views -/

def isMarkIssuerUsable (subject : Address) : Bool :=
  let st := asc.subjects subject
  let key := asc.issuerKeys (st.mark.issuer, st.markIssuerKeyEpoch)
  st.markIssuerKeyEpoch == 0 || !key.compromised ||
    decide (st.lastApplied.height ≤ key.lastTrustedBlock)

def isEpochIssuerUsable (epoch : U32) (issuer : Address) : Bool :=
  let st := asc.epochs epoch
  if ¬ st.issuerApproved issuer then false
  else
    let key := asc.issuerKeys (issuer, st.issuerKeyEpoch issuer)
    st.issuerKeyEpoch issuer == 0 || !key.compromised ||
      decide (st.issuerApprovalHeight issuer ≤ key.lastTrustedBlock)

def isRosterFresh (now : ℕ) : Bool :=
  EpochBounds.valid (asc.epochs asc.latestEpoch).root asc.epochSourceCutoff asc.epochPublishedAt
      asc.epochValidUntil asc.epochSnapshotId &&
    decide (asc.epochPublishedAt.toNat ≤ now) && decide (now < asc.epochValidUntil.toNat)

/-! ## Transactions -/

/-- The transactions to the hub contract. -/
inductive Call where
  | ownership (c : OwnableCall)
  | configureSource (chainKey : U64) (source : Address)
  | execute (x : ExecuteCall)

def call (msg : Msg) : Call → Except ASCError ProofmarkASC
  | .ownership c => do
    let ownable ← (asc.ownable.call msg.sender c).mapError .ownable
    pure { asc with ownable }
  | .configureSource chainKey source => asc.configureSource msg.sender chainKey source
  | .execute x => asc.execute env msg.timestamp x

/-- The hub contract as a machine: a message and a call, no output. -/
def machine : Machine ProofmarkASC (Msg × Call) Unit ASCError where
  step asc a := (asc.call env a.1 a.2).map (·, ())

end ProofmarkASC

end Proofmark
