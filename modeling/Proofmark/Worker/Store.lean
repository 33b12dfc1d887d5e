/-
  The state file of the worker (src/worker/store.ts).

  The operations compute the next contents; `commit` writes them to a temporary file and
  renames it.  A failed commit reloads the file, so what the process holds is what the file
  holds, whether or not the rename happened.
-/
import Proofmark.Evm.Types
import Proofmark.Lib.Keyed
import Proofmark.Lib.Revert

namespace Proofmark

open Revert

abbrev TxHash := Bytes32
abbrev BlockHash := Bytes32

inductive JobState where
  | discovered
  | attested
  | submitted
  | done
  | skipped
  | dead
deriving DecidableEq

def JobState.terminal : JobState → Bool
  | .done | .dead | .skipped => true
  | _ => false

structure SkipObservation where
  blockNumber : ℕ
  blockHash : BlockHash
  confirmations : ℕ
  observedAt : ℕ
deriving DecidableEq

inductive RelayStatus where
  | success
  | reverted
deriving DecidableEq

/-- A receipt that is not pending. -/
structure RelayReceipt where
  status : RelayStatus
  blockNumber : ℕ
  blockHash : BlockHash
deriving DecidableEq

structure RelayHistory where
  hash : TxHash
  nonce : ℕ
  receipt : RelayReceipt
deriving DecidableEq

structure Job where
  txHash : TxHash
  blockNumber : ℕ
  blockHash : BlockHash
  transactionIndex : ℕ
  state : JobState
  attempts : ℕ
  lastError : Option String
  ascTxHash : Option TxHash
  queryId : Option Bytes32
  skipObservation : Option SkipObservation
  relayHistory : List RelayHistory
deriving DecidableEq

structure RelayEnvelope where
  sourceTxHash : TxHash
  queryId : Bytes32
  hash : TxHash
  raw : Bytes
  nonce : ℕ
  chainId : ℕ
  to_ : Address
  signer : Address
  data : Bytes
deriving DecidableEq

structure SourceCheckpoint where
  height : ℕ
  hash : BlockHash
deriving DecidableEq

structure SourceRewind where
  from_ : ℕ
  to_ : ℕ
  orphanedTxs : List TxHash
deriving DecidableEq

/-- The contents of the file. -/
structure StoreData where
  cursor : ℕ
  jobs : List Job
  relay : Option RelayEnvelope
  sourceCheckpoints : List SourceCheckpoint
  sourceHold : Option String
  hubStartNonce : Option ℕ
  hubHold : Option String
  sourceRewinds : List SourceRewind

/-- `StoreWriteError`, the safety errors and the plain ones. -/
inductive StoreError where
  | write
  | source (code : String)
  | hub (code : String)
  | error (code : String)

/-- How a commit ends. -/
inductive CommitEnd where
  | committed
  | beforeRename
  | afterRename
deriving DecidableEq

/-- The patches that the worker makes. -/
inductive JobPatch where
  | attested
  | reconciling
  | failed (attempts : ℕ) (lastError : String)
  | dead (attempts : ℕ) (lastError : String)
  | lastError (lastError : String)
  | skipped (queryId : Bytes32) (observation : SkipObservation)

def JobPatch.state : JobPatch → Option JobState
  | .attested => some .attested
  | .reconciling => some .submitted
  | .failed _ _ | .lastError _ => none
  | .dead _ _ => some .dead
  | .skipped _ _ => some .skipped

def JobPatch.apply (j : Job) : JobPatch → Job
  | .attested => { j with state := .attested }
  | .reconciling => { j with state := .submitted, lastError := some "RELAY_RECONCILIATION_PENDING" }
  | .failed n e => { j with attempts := n, lastError := some e }
  | .dead n e => { j with state := .dead, attempts := n, lastError := some e }
  | .lastError e => { j with lastError := some e }
  | .skipped q o => { j with state := .skipped, queryId := some q, skipObservation := some o }

/-- Whether a rewind may not drop the job. -/
def Job.relayed (j : Job) : Bool :=
  j.ascTxHash.isSome || j.queryId.isSome || !j.relayHistory.isEmpty ||
    decide (j.state = .submitted) || decide (j.state = .done) || decide (j.state = .skipped)

namespace StoreData

variable (d : StoreData)

def empty : StoreData := ⟨0, [], none, [], none, none, none, []⟩

def get (tx : TxHash) : Option Job := Keyed.find Job.txHash tx d.jobs

def setJob (tx : TxHash) (f : Job → Job) : StoreData :=
  { d with jobs := Keyed.change Job.txHash tx f d.jobs }

def assertSourceReady : Except StoreError Unit :=
  match d.sourceHold with
  | some code => .error (.source code)
  | none => .ok ()

def assertHubReady : Except StoreError Unit :=
  match d.hubHold with
  | some code => .error (.hub code)
  | none => .ok ()

/-- The data after a commit; the commit throws unless it ends well. -/
def commit (next : StoreData) : CommitEnd → StoreData
  | .beforeRename => d
  | .committed | .afterRename => next

def initializeHubSigner (startNonce : ℕ) : Except StoreError StoreData := do
  d.assertHubReady
  match d.hubStartNonce with
  | some n => if n = startNonce then .ok d else .error (.hub "HUB_SIGNER_BASELINE_MISMATCH")
  | none => .ok { d with hubStartNonce := some startNonce }

def initializeSource (checkpoint : SourceCheckpoint) : Except StoreError StoreData := do
  d.assertSourceReady
  if d.sourceCheckpoints ≠ [] then .ok d
  else do
    revertIf (d.jobs ≠ [] ∨ d.cursor ≠ 0 ∧ d.cursor ≠ checkpoint.height)
      (.source "UNHASHED_SOURCE_STATE_REQUIRES_RECONCILIATION")
    pure { d with cursor := checkpoint.height, sourceCheckpoints := [checkpoint] }

/-- One turn of the loop of `commitSourceRange`. -/
def addSourceJob (from_ : ℕ) (end_ : SourceCheckpoint) (jobs : List Job) (job : Job) :
    Except StoreError (List Job) := do
  revertIf (job.blockNumber < from_ ∨ end_.height < job.blockNumber)
    (.source "INVALID_SOURCE_JOB_COORDINATES")
  match Keyed.find Job.txHash job.txHash jobs with
  | none => .ok (jobs ++ [job])
  | some existing =>
    if existing.blockHash ≠ job.blockHash ∨ existing.blockNumber ≠ job.blockNumber then
      .error (.source "SOURCE_TX_RELOCATION_NOT_RECONCILED")
    else .ok jobs

/-- The first checkpoint and the 128 most recent ones. -/
def compact (checkpoints : List SourceCheckpoint) : List SourceCheckpoint :=
  if 129 < checkpoints.length then checkpoints.take 1 ++ checkpoints.drop (checkpoints.length - 128)
  else checkpoints

def commitSourceRange (from_ : ℕ) (end_ : SourceCheckpoint) (jobs : List Job) :
    Except StoreError StoreData := do
  d.assertSourceReady
  d.assertHubReady
  revertIf (from_ ≠ d.cursor + 1 ∨ end_.height < from_) (.source "SOURCE_SCAN_CURSOR_CONFLICT")
  let next ← jobs.foldlM (addSourceJob from_ end_) d.jobs
  pure { d with
    jobs := next
    sourceCheckpoints := compact (d.sourceCheckpoints ++ [end_])
    cursor := end_.height }

/-- `rewindUnsignedSource`; a relayed job among the affected ones holds the source instead. -/
def rewindUnsignedSource (ancestor : SourceCheckpoint) : Except StoreError StoreData := do
  d.assertSourceReady
  revertIf (ancestor ∉ d.sourceCheckpoints) (.source "UNKNOWN_SOURCE_ANCESTOR")
  let affected := d.jobs.filter fun j => ancestor.height < j.blockNumber
  if affected.any Job.relayed then
    pure { d with sourceHold := some "SOURCE_REORG_TOUCHES_RELAYED_JOB" }
  else
    pure { d with
      jobs := d.jobs.filter fun j => j.blockNumber ≤ ancestor.height
      sourceRewinds := d.sourceRewinds ++ [⟨d.cursor, ancestor.height, affected.map Job.txHash⟩]
      cursor := ancestor.height
      sourceCheckpoints := d.sourceCheckpoints.filter fun c => c.height ≤ ancestor.height }

def reserveRelay (relay : RelayEnvelope) : Except StoreError StoreData := do
  d.assertSourceReady
  d.assertHubReady
  revertIf (d.relay.isSome = true) (.error "RELAY_NONCE_UNRESOLVED")
  let job ← orRevert (d.get relay.sourceTxHash) (.error "RELAY_JOB_NOT_PENDING")
  revertIf (job.state.terminal = true) (.error "RELAY_JOB_NOT_PENDING")
  pure { d.setJob job.txHash fun j =>
      { j with state := .submitted, ascTxHash := some relay.hash, queryId := some relay.queryId } with
    relay := some relay }

/-- What `finishRelay` makes of the job. -/
def finished (relay : RelayEnvelope) (receipt : RelayReceipt) (j : Job) : Job :=
  { j with
    relayHistory := j.relayHistory ++ [⟨relay.hash, relay.nonce, receipt⟩]
    state := match receipt.status with
      | .success => .done
      | .reverted => .dead
    lastError := match receipt.status with
      | .success => none
      | .reverted => some "ASC_TRANSACTION_REVERTED_REVIEW_REQUIRED" }

def finishRelay (hash : TxHash) (receipt : RelayReceipt) : Except StoreError StoreData := do
  d.assertHubReady
  let relay ← orRevert d.relay (.error "RELAY_STATE_CONFLICT")
  revertIf (relay.hash ≠ hash) (.error "RELAY_STATE_CONFLICT")
  pure { d.setJob relay.sourceTxHash (finished relay receipt) with relay := none }

def update (tx : TxHash) (patch : JobPatch) : Except StoreError StoreData := do
  revertIf (d.relay.map RelayEnvelope.sourceTxHash = some tx ∧
    ∃ s ∈ patch.state, s ≠ .submitted) (.error "UNRESOLVED_RELAY_CANNOT_BE_DROPPED")
  pure (d.setJob tx fun j => patch.apply j)

end StoreData

end Proofmark
