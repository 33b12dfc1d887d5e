/-
  The relay sender (src/worker/relay.ts), and the machine of a worker process: calls of
  `step` on its store, between whose awaits the rest of the worker writes to the store too.

  Between two awaits a call runs without interruption.  How an await settles is an input of
  the machine; a stopped worker is an await that fails.
-/
import Proofmark.Worker.Store
import Proofmark.Lib.Machine

namespace Proofmark

open Revert

/-- `ethers.Transaction.from(raw)` -/
structure RelayTransaction where
  signed : Bool
  hash : TxHash
  nonce : ℕ
  chainId : ℕ
  to_ : Option Address
  from_ : Address
  data : Bytes
  value : ℕ
deriving DecidableEq

structure RelayEnv where
  parseTransaction : Bytes → Option RelayTransaction
  asc : Address
  signer : Address
  maxAttempts : ℕ

def hubChainId : ℕ := 102031

/-- `validateRelay` -/
def RelayEnv.validateRelay (env : RelayEnv) (relay : RelayEnvelope) : Except StoreError Unit := do
  let tx ← orRevert (env.parseTransaction relay.raw) (.error "INVALID_TRANSACTION")
  revertIf (¬ tx.signed ∨ tx.hash ≠ relay.hash ∨ tx.nonce ≠ relay.nonce ∨ tx.chainId ≠ hubChainId ∨
    relay.chainId ≠ hubChainId ∨ tx.to_ ≠ some env.asc ∨ relay.to_ ≠ env.asc ∨
    tx.from_ ≠ env.signer ∨ relay.signer ≠ env.signer ∨ tx.data ≠ relay.data ∨ tx.value ≠ 0)
    (.error "RELAY_SIGNATURE_TARGET_MISMATCH")

inductive QueryStatus where
  | unprocessed
  | pending
  | confirmed
deriving DecidableEq

structure QueryObservation where
  status : QueryStatus
  blockNumber : ℕ
  blockHash : BlockHash
  confirmations : ℕ
  observedAt : ℕ
deriving DecidableEq

structure RelayPreparation where
  queryId : Bytes32
  data : Bytes
  gasLimit : ℕ
deriving DecidableEq

/-- The awaits of `step`, each with what the call holds. -/
inductive SenderAwait where
  | guardHub (p : RelayPreparation)
  | observe (p : RelayPreparation)
  | guardSkip (p : RelayPreparation) (query : QueryObservation)
  | observeFinal (p : RelayPreparation) (query : QueryObservation)
  | guardPrepare (p : RelayPreparation)
  | prepare (p : RelayPreparation)
  | guardReserve (relay : RelayEnvelope)
  | receipt (relay : RelayEnvelope)
  | guardBroadcast (relay : RelayEnvelope)
  | broadcast (relay : RelayEnvelope)
  | receiptAgain (relay : RelayEnvelope)
  | guardFinal (relay : RelayEnvelope) (receipt : RelayReceipt)
  | processed (relay : RelayEnvelope) (receipt : RelayReceipt)
  | finalReceipt (relay : RelayEnvelope) (receipt : RelayReceipt)
deriving DecidableEq

/-- How an await settles; a receipt is `none` while it is pending. -/
inductive SenderReply where
  | ready
  | observed (query : QueryObservation)
  | prepared (relay : RelayEnvelope)
  | receipt (receipt : Option RelayReceipt)
  | sent
  | processed (value : Bool)
  | failed
deriving DecidableEq

/-- How a call goes on. -/
inductive SenderStep where
  | await (a : SenderAwait)
  | broadcast (relay : RelayEnvelope)
  | returned
  | threw (e : StoreError)

namespace StoreData

variable (env : RelayEnv) (d : StoreData)

/-- A write to the store, and the error it throws. -/
def save (r : Except StoreError StoreData) (w : CommitEnd) : StoreData × Option StoreError :=
  match r with
  | .error e => (d, some e)
  | .ok next => (d.commit next w, if w = .committed then none else some .write)

/-- A write after which the call goes on as `k` says, unless it throws. -/
def saveThen (r : Except StoreError StoreData) (w : CommitEnd) (k : SenderStep) :
    StoreData × SenderStep :=
  match d.save r w with
  | (d', none) => (d', k)
  | (d', some e) => (d', .threw e)

/-- The start of `step`, to its first await. -/
def startStep (tx : TxHash) (preparation : Option RelayPreparation) :
    Except StoreError SenderAwait := do
  d.assertSourceReady
  d.assertHubReady
  let job ← orRevert (d.get tx) (.error "RELAY_JOB_NOT_PENDING")
  revertIf (job.state.terminal = true) (.error "RELAY_JOB_NOT_PENDING")
  match d.relay with
  | some relay => pure (.receipt relay)
  | none => do
    let p ← orRevert preparation (.error "RELAY_PREPARATION_REQUIRED")
    pure (.guardHub p)

/-- The part of `step` after the second observation of a processed query. -/
def skipJob (tx : TxHash) (p : RelayPreparation) (query final : QueryObservation) (w : CommitEnd) :
    StoreData × SenderStep :=
  if final.status ≠ .confirmed ∨ final.blockNumber ≠ query.blockNumber ∨
      final.blockHash ≠ query.blockHash then (d, .returned)
  else match d.assertSourceReady with
    | .error e => (d, .threw e)
    | .ok _ =>
      d.saveThen (d.update tx (.skipped p.queryId
        ⟨final.blockNumber, final.blockHash, final.confirmations, final.observedAt⟩)) w .returned

/-- The part of `step` after `prepare`, which has validated its envelope. -/
def acceptPrepared (tx : TxHash) (p : RelayPreparation) (relay : RelayEnvelope) : SenderStep :=
  match env.validateRelay relay with
  | .error e => .threw e
  | .ok _ =>
    if relay.sourceTxHash ≠ tx ∨ relay.queryId ≠ p.queryId ∨ relay.data ≠ p.data then
      .threw (.error "RELAY_PREPARATION_CONFLICT")
    else .await (.guardReserve relay)

/-- The part of `step` after the last receipt. -/
def finalize (relay : RelayEnvelope) (receipt : RelayReceipt) (final : Option RelayReceipt)
    (w : CommitEnd) : StoreData × SenderStep :=
  if final ≠ some receipt then (d, .returned)
  else match d.assertSourceReady, d.assertHubReady with
    | .error e, _ => (d, .threw e)
    | .ok _, .error e => (d, .threw e)
    | .ok _, .ok _ => d.saveThen (d.finishRelay relay.hash receipt) w .returned

/-- The part of `step` between the await that settled and the next one. -/
def resumeStep (tx : TxHash) (a : SenderAwait) (reply : SenderReply) (w : CommitEnd) :
    Option (StoreData × SenderStep) :=
  match a, reply with
  | .broadcast relay, .sent => some (d, .await (.receiptAgain relay))
  | .broadcast relay, .failed =>
    some (d.saveThen (d.update tx (.lastError "ASC_BROADCAST_UNCONFIRMED")) w
      (.await (.receiptAgain relay)))
  | _, .failed => some (d, .threw (.error "AWAIT_FAILED"))
  | .guardHub p, .ready =>
    match d.assertHubReady with
    | .error e => some (d, .threw e)
    | .ok _ => some (d, .await (.observe p))
  | .observe p, .observed query =>
    match query.status with
    | .pending => some (d, .returned)
    | .confirmed => some (d, .await (.guardSkip p query))
    | .unprocessed => some (d, .await (.guardPrepare p))
  | .guardSkip p query, .ready => some (d, .await (.observeFinal p query))
  | .observeFinal p query, .observed final => some (d.skipJob tx p query final w)
  | .guardPrepare p, .ready => some (d, .await (.prepare p))
  | .prepare p, .prepared relay => some (d, acceptPrepared env tx p relay)
  | .guardReserve relay, .ready =>
    some (d.saveThen (d.reserveRelay relay) w (.await (.receipt relay)))
  | .receipt relay, .receipt none => some (d, .await (.guardBroadcast relay))
  | .guardBroadcast relay, .ready =>
    match d.assertSourceReady with
    | .error e => some (d, .threw e)
    | .ok _ => some (d, .broadcast relay)
  | .receiptAgain _, .receipt none => some (d, .returned)
  | .receipt relay, .receipt (some r) => some (d, .await (.guardFinal relay r))
  | .receiptAgain relay, .receipt (some r) => some (d, .await (.guardFinal relay r))
  | .guardFinal relay r, .ready =>
    match r.status with
    | .success => some (d, .await (.processed relay r))
    | .reverted => some (d, .await (.finalReceipt relay r))
  | .processed relay r, .processed true => some (d, .await (.finalReceipt relay r))
  | .processed _ _, .processed false => some (d, .threw (.error "ASC_QUERY_NOT_CONFIRMED"))
  | .finalReceipt relay r, .receipt final => some (d.finalize relay r final w)
  | _, _ => none

end StoreData

/-! ## The rest of the worker -/

/-- A transaction that a scan has found. -/
structure SourceJob where
  txHash : TxHash
  blockNumber : ℕ
  blockHash : BlockHash
  transactionIndex : ℕ
deriving DecidableEq

/-- The job of a scanned transaction. -/
def SourceJob.discovered (j : SourceJob) : Job where
  txHash := j.txHash
  blockNumber := j.blockNumber
  blockHash := j.blockHash
  transactionIndex := j.transactionIndex
  state := .discovered
  attempts := 0
  lastError := none
  ascTxHash := none
  queryId := none
  skipObservation := none
  relayHistory := []

/-- The other writes of the worker. -/
inductive StoreOp where
  | initializeHubSigner (startNonce : ℕ)
  | initializeSource (checkpoint : SourceCheckpoint)
  | commitSourceRange (from_ : ℕ) (end_ : SourceCheckpoint) (jobs : List SourceJob)
  | rewindUnsignedSource (ancestor : SourceCheckpoint)
  | holdSource (reason : String)
  | holdHub (reason : String)
  | attested (tx : TxHash)
  | processFailed (tx : TxHash) (message : String)
deriving DecidableEq

namespace StoreData

variable (env : RelayEnv) (d : StoreData)

/-- The catch block of `processReserved`. -/
def processFailed (tx : TxHash) (message : String) : Except StoreError StoreData :=
  if d.relay.map RelayEnvelope.sourceTxHash = some tx then d.update tx .reconciling
  else
    let attempts := ((d.get tx).map Job.attempts).getD 0 + 1
    if env.maxAttempts ≤ attempts then d.update tx (.dead attempts message)
    else d.update tx (.failed attempts message)

/-- A job is processed by one task at a time, which starts while the job is not terminal. -/
def pendingJob (tx : TxHash) : Except StoreError Unit := do
  let job ← orRevert (d.get tx) (.error "JOB_NOT_PENDING")
  revertIf (job.state.terminal = true) (.error "JOB_NOT_PENDING")

def operate : StoreOp → Except StoreError StoreData
  | .initializeHubSigner n => d.initializeHubSigner n
  | .initializeSource c => d.initializeSource c
  | .commitSourceRange from_ end_ jobs =>
    d.commitSourceRange from_ end_ (jobs.map SourceJob.discovered)
  | .rewindUnsignedSource ancestor => d.rewindUnsignedSource ancestor
  | .holdSource reason => .ok { d with sourceHold := some reason }
  | .holdHub reason => .ok { d with hubHold := some reason }
  | .attested tx => do
    d.pendingJob tx
    d.update tx .attested
  | .processFailed tx message => do
    d.pendingJob tx
    d.processFailed env tx message

end StoreData

/-! ## The machine -/

structure RelayHost where
  data : StoreData
  sender : Option (TxHash × SenderAwait)

def RelayHost.initial : RelayHost := ⟨.empty, none⟩

/-- A crash loses the call of `step` that runs. -/
inductive RelayAction where
  | step (tx : TxHash) (preparation : Option RelayPreparation)
  | settle (reply : SenderReply) (w : CommitEnd)
  | store (op : StoreOp) (w : CommitEnd)
  | crash

inductive RelayOutput where
  | done
  | awaiting
  | broadcast (relay : RelayEnvelope)
  | returned
  | threw (e : StoreError)

/-- Where a call of `step` leaves the host. -/
def RelayHost.settle (tx : TxHash) : StoreData × SenderStep → RelayHost × RelayOutput
  | (d, .await a) => (⟨d, some (tx, a)⟩, .awaiting)
  | (d, .broadcast relay) => (⟨d, some (tx, .broadcast relay)⟩, .broadcast relay)
  | (d, .returned) => (⟨d, none⟩, .returned)
  | (d, .threw e) => (⟨d, none⟩, .threw e)

def RelayHost.machine (env : RelayEnv) : Machine RelayHost RelayAction RelayOutput StoreError where
  step h
    | .step tx preparation => do
      revertIf (h.sender.isSome = true ∨
        h.data.relay.any (fun relay => decide (relay.sourceTxHash ≠ tx)) = true)
        (.error "RELAY_NONCE_UNRESOLVED")
      let a ← h.data.startStep tx preparation
      pure ({ h with sender := some (tx, a) }, .awaiting)
    | .settle reply w => do
      let (tx, a) ← orRevert h.sender (.error "NO_CALL")
      let r ← orRevert (h.data.resumeStep env tx a reply w) (.error "NO_CALL")
      pure (RelayHost.settle tx r)
    | .store op w => do
      let next ← h.data.operate env op
      pure ({ h with data := h.data.commit next w }, .done)
    | .crash => pure ({ h with sender := none }, .done)

abbrev RelayEntry := Machine.Entry RelayHost RelayAction RelayOutput

end Proofmark
