/-
  The replay of the source chain that builds a roster (`buildSourceRoster` of
  src/pipeline/roster-source.ts).

  The two readers answer from one finalized chain, so the comparisons between their answers,
  of receipts with the receipts root and of receipts with `getLogs` are left out, and so are
  the work budgets.  Numbers of events fit into safe integers or are refused.  `hash` is the
  hash of the JSON text of a value; `localeCompare` orders addresses and decimal numbers by
  their characters.
-/
import Proofmark.Contract.SourceEvents
import Proofmark.Lib.InsertionMap
import Proofmark.Pipeline.Evidence
import Proofmark.Pipeline.Roster

namespace Proofmark

open Words Revert

namespace RosterSource

/-! ## The chain -/

structure SnapshotTx where
  hash : Bytes32
  status : ℕ
  logs : List LogEntry

structure SnapshotBlock where
  hash : Bytes32
  parentHash : Bytes32
  receiptsRoot : Bytes32
  timestamp : ℕ
  transactions : List SnapshotTx

/-- The receipt of the deployment. -/
structure Creation where
  blockNumber : ℕ
  blockHash : Bytes32
  index : ℕ

/-- What the readers answer, and the settings of the snapshot. -/
structure View where
  source : Address
  chainId : ℕ
  deploymentTx : Bytes32
  confirmations : ℕ
  /-- the highest block that is final and confirmed -/
  ceiling : ℕ
  creation : Creation
  block : ℕ → SnapshotBlock

/-- A log with its coordinates (`normalizedLog`). -/
structure SnapshotLog where
  log : LogEntry
  blockNumber : ℕ
  blockHash : Bytes32
  transactionHash : Bytes32
  transactionIndex : ℕ
  index : ℕ

def hexBytes (bs : Bytes) : String :=
  String.ofList ('0' :: 'x' :: bs.flatMap fun b =>
    [Json.hexDigit (b.toNat / 16), Json.hexDigit (b.toNat % 16)])

def hexAddress (a : Address) : String := hexBytes (toBytes 20 a.toNat)

def SnapshotLog.toJson (l : SnapshotLog) : Json :=
  .obj [("address", .str (hexAddress l.log.address_)), ("blockNumber", .num l.blockNumber),
    ("blockHash", .str (hex32 l.blockHash)), ("transactionHash", .str (hex32 l.transactionHash)),
    ("transactionIndex", .num l.transactionIndex), ("index", .num l.index),
    ("topics", .strings (l.log.topics.map hex32)), ("data", .str (hexBytes l.log.data))]

/-! ## Lifecycle events -/

inductive RosterSourceError where
  | cutoffNotFinal
  | deploymentReceiptRequired
  | invalidBlock
  | invalidCheckpoint
  | checkpointAnchorChanged
  | blockChainChanged
  | invalidLifecycleLog
  | invalidCompromise
  | zeroSubject
  | invalidCorrection
  | invalidIssuance
  | invalidKeyEpoch
  | deploymentTxMissing
  | roster (e : RosterError)
deriving DecidableEq

/-- The signatures of `ROSTER_LIFECYCLE_ABI` -/
def watched : List Bytes32 :=
  [Sig.ISSUED, Sig.KEYED_ISSUED, Sig.REVOKED, Sig.DENIED, Sig.DENIAL_CORRECTED, Sig.KEY_COMPROMISED]

/-- `iface.parseLog(log)` -/
def parseLog (L : LogEntry) : Option SourceEvent :=
  match L.topics with
  | [sig, a, b, c] =>
    if sig = Sig.ISSUED then
      (abiWords 2 L.data).map fun ws =>
        .markIssued (toAddress a) b (toAddress c) (ws.getD 0 0) (ws.getD 1 0)
    else if sig = Sig.KEYED_ISSUED then
      (abiWords 3 L.data).map fun ws =>
        .keyedMarkIssued (toAddress a) b (toAddress c) ((ws.getD 0 0).setWidth 64) (ws.getD 1 0)
          (ws.getD 2 0)
    else if sig = Sig.REVOKED then some (.markRevoked (toAddress a) (b.setWidth 16) (c.setWidth 32))
    else if sig = Sig.DENIED then
      some (.sanctionDenied (toAddress a) (b.setWidth 32) (c.setWidth 32))
    else if sig = Sig.DENIAL_CORRECTED then
      (abiWords 3 L.data).map fun ws =>
        .sanctionDenialCorrected (toAddress a) (b.setWidth 64) c (ws.getD 0 0)
          (toAddress (ws.getD 1 0)) (toAddress (ws.getD 2 0))
    else none
  | [sig, a, b] =>
    if sig = Sig.KEY_COMPROMISED then
      (abiWords 2 L.data).map fun ws =>
        .issuerKeyCompromised (toAddress a) (b.setWidth 64) ((ws.getD 0 0).setWidth 64)
          (ws.getD 1 0)
    else none
  | _ => none

/-- The event of a log of the source, which must encode back to the log. -/
def lifecycleOf (source : Address) (L : LogEntry) : Except RosterSourceError (Option SourceEvent) :=
  if L.topics.head?.all fun t => !watched.contains t then pure none
  else
    match parseLog L with
    | some e => do
      revertIf (e.log source ≠ L) .invalidLifecycleLog
      pure (some e)
    | none => .error .invalidLifecycleLog

structure LifecycleState where
  denied : Bool
  revoked : Bool
  entry : Option RosterEntry
  issuerKeyEpoch : Option ℕ
  issueBlock : Option ℕ
deriving DecidableEq

/-- The maps `states` and `compromiseCutoffs`. -/
structure Lifecycle where
  states : List (Address × LifecycleState)
  cutoffs : List ((Address × ℕ) × ℕ)
deriving DecidableEq

namespace Lifecycle

def empty : Lifecycle := ⟨[], []⟩

/-- The state of a subject, or a new one. -/
def stateOf (m : Lifecycle) (subject : Address) : LifecycleState :=
  (InsertionMap.get subject m.states).getD ⟨false, false, none, none, none⟩

/-- A change of the state of a subject. -/
def update (m : Lifecycle) (subject : Address) (f : LifecycleState → LifecycleState) :
    Except RosterSourceError Lifecycle := do
  revertIf (subject = 0) .zeroSubject
  pure { m with states := InsertionMap.set subject (f (m.stateOf subject)) m.states }

/-- Both issuances. -/
def issue (m : Lifecycle) (height timestamp : ℕ) (entry : RosterEntry) (issuerKeyEpoch : ℕ) :
    Except RosterSourceError Lifecycle := do
  revertIf (validCredentialAttrs entry.attrs (some timestamp) = false ∨ entry.issuer = 0)
    .invalidIssuance
  m.update entry.subject fun s =>
    { s with entry := some entry, issuerKeyEpoch := some issuerKeyEpoch, issueBlock := some height
             revoked := false }

/-- One event of the source, in a block of the given height and time. -/
def apply (m : Lifecycle) (height timestamp : ℕ) : SourceEvent → Except RosterSourceError Lifecycle
  | .issuerKeyCompromised issuer issuerKeyEpoch lastTrustedBlock reasonHash => do
    revertIf (issuer = 0 ∨ issuerKeyEpoch = 0 ∨ MAX_SAFE_INTEGER < issuerKeyEpoch.toNat ∨
      MAX_SAFE_INTEGER < lastTrustedBlock.toNat ∨ height ≤ lastTrustedBlock.toNat ∨
      reasonHash = 0) .invalidCompromise
    let key := (issuer, issuerKeyEpoch.toNat)
    let lastTrusted := ((InsertionMap.get key m.cutoffs).map
      (min · lastTrustedBlock.toNat)).getD lastTrustedBlock.toNat
    pure { m with cutoffs := InsertionMap.set key lastTrusted m.cutoffs }
  | .sanctionDenied subject .. => m.update subject fun s => { s with denied := true }
  | .sanctionDenialCorrected subject denialRevision correctionId reasonHash proposer approver => do
    revertIf (subject = 0) .zeroSubject
    revertIf (denialRevision = 0 ∨ MAX_SAFE_INTEGER < denialRevision.toNat ∨ correctionId = 0 ∨
      reasonHash = 0 ∨ proposer = 0 ∨ approver = 0 ∨ proposer = approver) .invalidCorrection
    m.update subject fun _ => ⟨false, true, none, none, none⟩
  | .markRevoked subject .. => m.update subject fun s => { s with revoked := true }
  | .markIssued subject attrs issuer claimsRoot evidenceHash => do
    revertIf (subject = 0) .zeroSubject
    m.issue height timestamp ⟨subject, attrs, claimsRoot, evidenceHash, issuer⟩ 0
  | .keyedMarkIssued subject attrs issuer issuerKeyEpoch claimsRoot evidenceHash => do
    revertIf (subject = 0) .zeroSubject
    let m ← m.issue height timestamp ⟨subject, attrs, claimsRoot, evidenceHash, issuer⟩
      issuerKeyEpoch.toNat
    revertIf (issuerKeyEpoch = 0 ∨ MAX_SAFE_INTEGER < issuerKeyEpoch.toNat) .invalidKeyEpoch
    pure m
  | _ => pure m

end Lifecycle

/-! ## The replay -/

/-- The variables of the scan. -/
structure Replay where
  lifecycle : Lifecycle
  receipts : ℕ
  sourceLogs : ℕ
  headersDigest : Bytes32
  blocksDigest : Bytes32
  logsDigest : Bytes32
  parentHash : Bytes32
  previousTimestamp : ℕ

section
variable (hash : Json → Bytes32) (view : View)

def hexJson (w : Bytes32) : Json := .str (hex32 w)

/-- A log of a receipt. -/
def replayLog (height timestamp : ℕ) (s : Replay) (l : SnapshotLog) :
    Except RosterSourceError Replay :=
  if l.log.address_ ≠ view.source then pure s
  else do
    let e ← lifecycleOf view.source l.log
    let lifecycle ← e.elim (pure s.lifecycle) (s.lifecycle.apply height timestamp)
    pure { s with
      lifecycle
      sourceLogs := s.sourceLogs + 1
      logsDigest := hash (.arr [hexJson s.logsDigest, l.toJson]) }

/-- The logs of a receipt, with their coordinates. -/
def txLogs (height : ℕ) (b : SnapshotBlock) (transactionIndex nextLogIndex : ℕ) (t : SnapshotTx) :
    List SnapshotLog :=
  (t.logs.zipIdx nextLogIndex).map fun l =>
    ⟨l.1, height, b.hash, t.hash, transactionIndex, l.2⟩

/-- The receipts of a block from a transaction on. -/
def blockLogs (height : ℕ) (b : SnapshotBlock) : ℕ → ℕ → List SnapshotTx → List (List SnapshotLog)
  | _, _, [] => []
  | transactionIndex, nextLogIndex, t :: l =>
    txLogs height b transactionIndex nextLogIndex t ::
      blockLogs height b (transactionIndex + 1) (nextLogIndex + t.logs.length) l

def receiptDigest (t : SnapshotTx) (logs : List SnapshotLog) : Json :=
  hexJson (hash (.arr [hexJson t.hash, .num t.status, .arr (logs.map SnapshotLog.toJson)]))

def headerFields (height : ℕ) (b : SnapshotBlock) : List Json :=
  [.num height, hexJson b.hash, hexJson b.parentHash, .num b.timestamp, hexJson b.receiptsRoot]

def validBlock (b : SnapshotBlock) : Bool :=
  decide (1 ≤ b.timestamp) && decide (b.transactions.map SnapshotTx.hash).Nodup

/-- One block of the scan, under the time of the cutoff. -/
def replayBlock (cutoffTimestamp : ℕ) (s : Replay) (height : ℕ) :
    Except RosterSourceError Replay := do
  let b := view.block height
  revertIf (validBlock b = false) .invalidBlock
  revertIf (b.parentHash ≠ s.parentHash ∨ b.timestamp < s.previousTimestamp ∨
    cutoffTimestamp < b.timestamp ∨
    (height = view.creation.blockNumber ∧ b.hash ≠ view.creation.blockHash)) .blockChainChanged
  let logs := blockLogs height b 0 0 b.transactions
  let s ← logs.flatten.foldlM (replayLog hash view height b.timestamp) s
  revertIf (height = view.creation.blockNumber ∧
    (b.transactions[view.creation.index]?).map SnapshotTx.hash ≠ some view.deploymentTx)
    .deploymentTxMissing
  pure { s with
    receipts := s.receipts + b.transactions.length
    headersDigest := hash (.arr (hexJson s.headersDigest :: headerFields height b))
    blocksDigest := hash (.arr (hexJson s.blocksDigest :: headerFields height b ++
      [.arr (List.zipWith (receiptDigest hash) b.transactions logs)]))
    parentHash := b.hash
    previousTimestamp := b.timestamp }

end

/-! ## Checkpoints -/

/-- `SourceReplayCheckpoint`; an absent field and `undefined` are one in JSON. -/
structure Checkpoint where
  chainId : ℕ
  source : Address
  deploymentTx : Bytes32
  deploymentBlock : ℕ
  blockNumber : ℕ
  blockHash : Bytes32
  blockTimestamp : ℕ
  receiptsRoot : Bytes32
  receipts : ℕ
  sourceLogs : ℕ
  headersDigest : Bytes32
  blocksDigest : Bytes32
  logsDigest : Bytes32
  states : List (Address × LifecycleState)
  compromiseCutoffs : List ((Address × ℕ) × ℕ)
deriving DecidableEq

/-- `localeCompare` of two addresses -/
def addressLE (a b : Address) : Prop := a.toNat ≤ b.toNat

/-- `localeCompare` of two keys `issuer|epoch` -/
def cutoffKeyLE (a b : Address × ℕ) : Prop :=
  a.1.toNat < b.1.toNat ∨
    a.1 = b.1 ∧ Json.charsLE (Nat.repr a.2).toList (Nat.repr b.2).toList = true

instance : DecidableRel addressLE := fun a b => inferInstanceAs (Decidable (a.toNat ≤ b.toNat))

instance : DecidableRel cutoffKeyLE := fun a b => inferInstanceAs
  (Decidable (a.1.toNat < b.1.toNat ∨
    a.1 = b.1 ∧ Json.charsLE (Nat.repr a.2).toList (Nat.repr b.2).toList = true))

section
variable (view : View)

/-- `stateOk` -/
def stateOk (p : Address × LifecycleState) : Bool :=
  (p.2.entry.all fun e => e.subject == p.1) &&
    p.2.issuerKeyEpoch.all (fun n => decide (n ≤ MAX_SAFE_INTEGER)) &&
    p.2.issueBlock.all fun n => decide (view.creation.blockNumber ≤ n) &&
      decide (n ≤ MAX_SAFE_INTEGER)

/-- `checkedCheckpoint` -/
def checkpointOk (cutoffHeight : ℕ) (c : Checkpoint) : Bool :=
  c.chainId == view.chainId && c.source == view.source && c.deploymentTx == view.deploymentTx &&
    c.deploymentBlock == view.creation.blockNumber &&
    decide (view.creation.blockNumber ≤ c.blockNumber) && decide (c.blockNumber ≤ cutoffHeight) &&
    decide (1 ≤ c.blockTimestamp) && c.states.all (stateOk view) &&
    decide (c.states.map Prod.fst).Nodup &&
    (c.compromiseCutoffs.all fun p => decide (1 ≤ p.1.2) && decide (p.2 ≤ MAX_SAFE_INTEGER)) &&
    decide (c.compromiseCutoffs.map Prod.fst).Nodup

/-- The checkpoint at the end of a replay. -/
def nextCheckpoint (cutoffHeight : ℕ) (s : Replay) : Checkpoint where
  chainId := view.chainId
  source := view.source
  deploymentTx := view.deploymentTx
  deploymentBlock := view.creation.blockNumber
  blockNumber := cutoffHeight
  blockHash := (view.block cutoffHeight).hash
  blockTimestamp := (view.block cutoffHeight).timestamp
  receiptsRoot := (view.block cutoffHeight).receiptsRoot
  receipts := s.receipts
  sourceLogs := s.sourceLogs
  headersDigest := s.headersDigest
  blocksDigest := s.blocksDigest
  logsDigest := s.logsDigest
  states := InsertionMap.sorted addressLE s.lifecycle.states
  compromiseCutoffs := InsertionMap.sorted cutoffKeyLE s.lifecycle.cutoffs

end

/-! ## The roster -/

/-- The reasons of `excluded` -/
def exclusion (cutoffs : List ((Address × ℕ) × ℕ)) (cutoffTimestamp : ℕ) (s : LifecycleState) :
    Option String :=
  let compromiseCutoff := s.entry.bind fun e => s.issuerKeyEpoch.bind fun n =>
    if n = 0 then none else InsertionMap.get (e.issuer, n) cutoffs
  if s.denied then some "permanent source denial at/before cutoff"
  else if s.revoked then some "latest ordinary source event is revoke"
  else
    match s.entry with
    | none => some "no issuance at/before cutoff"
    | some e =>
      if compromiseCutoff.any fun c => s.issueBlock.any fun n => decide (c < n) then
        some "issuance is after approved issuer-key compromise cutoff"
      else if validCredentialAttrs e.attrs (some cutoffTimestamp) = false then
        some "credential expired at source cutoff"
      else none

/-- `SourceSnapshotManifest` -/
structure Manifest where
  chainId : ℕ
  source : Address
  deploymentTx : Bytes32
  deploymentBlock : ℕ
  deploymentBlockHash : Bytes32
  cutoffBlock : ℕ
  cutoffBlockHash : Bytes32
  cutoffTimestamp : ℕ
  confirmations : ℕ
  blocks : ℕ
  receipts : ℕ
  sourceLogs : ℕ
  headersDigest : Bytes32
  blocksDigest : Bytes32
  logsDigest : Bytes32
  entriesDigest : Bytes32
  root : Bytes32
deriving DecidableEq

/-- `SourceRosterSnapshot`, with the checkpoint that goes to the sink. -/
structure Snapshot where
  tree : RosterTree
  excluded : List (Address × String)
  manifest : Manifest
  checkpoint : Checkpoint
deriving DecidableEq

def entryJson (e : RosterEntry) : Json :=
  .obj [("subject", .str (hexAddress e.subject)), ("attrs", hexJson e.attrs),
    ("claimsRoot", hexJson e.claimsRoot), ("evidenceHash", hexJson e.evidenceHash),
    ("issuer", .str (hexAddress e.issuer))]

section
variable (keccak256 : Bytes → Bytes32) (hash : Json → Bytes32) (ns : Bytes) (view : View)

/-- The entries of the roster, from the states in order. -/
def entriesOf (cutoffs : List ((Address × ℕ) × ℕ)) (cutoffTimestamp : ℕ)
    (states : List (Address × LifecycleState)) : List RosterEntry :=
  states.filterMap fun p =>
    if (exclusion cutoffs cutoffTimestamp p.2).isSome then none else p.2.entry

def excludedOf (cutoffs : List ((Address × ℕ) × ℕ)) (cutoffTimestamp : ℕ)
    (states : List (Address × LifecycleState)) : List (Address × String) :=
  states.filterMap fun p => (exclusion cutoffs cutoffTimestamp p.2).map fun r => (p.1, r)

/-- The end of the run. -/
def finish (cutoffHeight : ℕ) (s : Replay) : Except RosterSourceError Snapshot := do
  let cutoff := view.block cutoffHeight
  let states := InsertionMap.sorted addressLE s.lifecycle.states
  let tree ← (Roster.buildRoster keccak256 ns
    (entriesOf s.lifecycle.cutoffs cutoff.timestamp states)).mapError .roster
  pure
    { tree
      excluded := excludedOf s.lifecycle.cutoffs cutoff.timestamp states
      manifest :=
        { chainId := view.chainId
          source := view.source
          deploymentTx := view.deploymentTx
          deploymentBlock := view.creation.blockNumber
          deploymentBlockHash := view.creation.blockHash
          cutoffBlock := cutoffHeight
          cutoffBlockHash := cutoff.hash
          cutoffTimestamp := cutoff.timestamp
          confirmations := view.confirmations
          blocks := cutoffHeight - view.creation.blockNumber + 1
          receipts := s.receipts
          sourceLogs := s.sourceLogs
          headersDigest := s.headersDigest
          blocksDigest := s.blocksDigest
          logsDigest := s.logsDigest
          entriesDigest := hash (.arr (tree.entries.map entryJson))
          root := tree.root }
      checkpoint := nextCheckpoint view cutoffHeight s }

/-- The variables at the start of the scan. -/
def start (anchor : SnapshotBlock) (checkpoint : Option Checkpoint) : Replay where
  lifecycle := ⟨(checkpoint.map Checkpoint.states).getD [],
    (checkpoint.map Checkpoint.compromiseCutoffs).getD []⟩
  receipts := (checkpoint.map Checkpoint.receipts).getD 0
  sourceLogs := (checkpoint.map Checkpoint.sourceLogs).getD 0
  headersDigest := (checkpoint.map Checkpoint.headersDigest).getD
    (hash (.arr [.str "source-headers-v2", .num view.chainId,
      .num (view.creation.blockNumber - 1), hexJson anchor.hash, hexJson anchor.receiptsRoot]))
  blocksDigest := (checkpoint.map Checkpoint.blocksDigest).getD
    (hash (.arr [.str "source-snapshot-v2", .num view.chainId, .str (hexAddress view.source),
      hexJson view.deploymentTx, hexJson anchor.hash]))
  logsDigest := (checkpoint.map Checkpoint.logsDigest).getD (hash (.arr [.str "source-logs-v2"]))
  parentHash := anchor.hash
  previousTimestamp := anchor.timestamp

/-- The anchor of a checkpoint is the block that the readers show. -/
def anchorOk (anchor : SnapshotBlock) (c : Checkpoint) : Bool :=
  anchor.hash == c.blockHash && anchor.timestamp == c.blockTimestamp &&
    anchor.receiptsRoot == c.receiptsRoot

def buildSourceRoster (checkpoint : Option Checkpoint) (cutoffHeight : ℕ) :
    Except RosterSourceError Snapshot := do
  revertIf (cutoffHeight < 1 ∨ MAX_SAFE_INTEGER < cutoffHeight ∨ view.ceiling < cutoffHeight)
    .cutoffNotFinal
  revertIf (view.creation.blockNumber < 1 ∨ cutoffHeight < view.creation.blockNumber)
    .deploymentReceiptRequired
  revertIf (validBlock (view.block cutoffHeight) = false) .invalidBlock
  revertIf (checkpoint.any fun c => !checkpointOk view cutoffHeight c) .invalidCheckpoint
  let anchorHeight := (checkpoint.map Checkpoint.blockNumber).getD (view.creation.blockNumber - 1)
  let anchor := view.block anchorHeight
  revertIf (validBlock anchor = false) .invalidBlock
  revertIf (checkpoint.any fun c => !anchorOk anchor c) .checkpointAnchorChanged
  let s ← (List.range' (anchorHeight + 1) (cutoffHeight - anchorHeight)).foldlM
    (replayBlock hash view (view.block cutoffHeight).timestamp) (start hash view anchor checkpoint)
  finish keccak256 hash ns view cutoffHeight s

end

end RosterSource

end Proofmark
