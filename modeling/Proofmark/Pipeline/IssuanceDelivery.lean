/-
  The delivery of issuances (src/pipeline/issuance-delivery.ts, `advanceIssuance`).

  Any number of runs work on the journal at once.  A run is not interrupted between two
  awaits; it awaits either a call of the journal or a service whose answer is an input of
  the machine.  What the transport makes of a receipt is that of
  src/pipeline/issuance-evm.ts.
-/
import Proofmark.Pipeline.IssuanceJournal
import Proofmark.Lib.Machine

namespace Proofmark

open Revert

inductive IssuanceReceipt where
  | pending
  | reverted (confirmation : SourceConfirmation)
  | success (confirmation : SourceConfirmation)

/-- A receipt as the source provider returns it. -/
structure ProviderReceipt where
  hash : Bytes32
  from_ : Address
  to_ : Option Address
  status : ℕ
  blockNumber : ℕ
  blockHash : Bytes32
  index : ℕ
  gasUsed : ℕ

/-- The reads of one `receipt` call; `issued` says that the one issuance event is there and
    the request is consumed. -/
structure ReceiptReads where
  receipt : Option ProviderReceipt
  confirmations : ℕ
  block : Option Bytes32
  issued : Bool

/-- The confirmations that the transport requires, and its check of signed bytes. -/
structure IssuanceEnv where
  confirmations : ℕ
  validSigned : IssuanceEntry → SignedIssuance → Bool

namespace ReceiptReads

variable (env : IssuanceEnv) (reads : ReceiptReads)

/-- `receipt`: `none` where it throws. -/
def receiptOf (entry : IssuanceEntry) (now : ℕ) : Option IssuanceReceipt := do
  let signed ← entry.transaction
  if env.validSigned entry signed = false then none
  else match reads.receipt with
    | none => some .pending
    | some r =>
      if reads.confirmations < env.confirmations then some .pending
      else if reads.block ≠ some r.blockHash then some .pending
      else if r.from_ ≠ entry.target.sender ∨ r.to_ ≠ some entry.target.recipient then none
      else if r.hash ≠ signed.hash then none
      else
        let confirmation : SourceConfirmation := ⟨r.blockNumber, r.blockHash, r.index, now, some r.gasUsed⟩
        if r.status ≠ 1 then some (.reverted confirmation)
        else if reads.issued = false then none
        else some (.success confirmation)

/-- The transaction's receipt is a revert with the required confirmations, in a block that
    the provider still reports at its height. -/
def Reverted (t : SignedIssuance) : Prop :=
  ∃ r ∈ reads.receipt, r.hash = t.hash ∧ r.status ≠ 1 ∧ env.confirmations ≤ reads.confirmations ∧
    reads.block = some r.blockHash

instance (t : SignedIssuance) : Decidable (reads.Reverted env t) :=
  inferInstanceAs (Decidable (∃ _ ∈ _, _))

end ReceiptReads

structure AdvanceOptions where
  retryFailed : Bool
  budget : Bool

/-- Where a run goes on after a save. -/
inductive AfterSave where
  | return_
  | evidenceStored
  | retried
  | signed
  | submitted
  | broadcast
  | confirmed (confirmation : SourceConfirmation)

inductive AdvanceAwait where
  | put
  | assertTarget
  | processed
  | mayPrepare
  | prepare
  | reserve (transaction : Option SignedIssuance)
  | receipt
  | maySubmit
  | maySend
  | broadcast
  | receiptAgain
  | reconcile (receipt : IssuanceReceipt)
  | sourceConfirmed (confirmation : SourceConfirmation)
  | materialized (confirmation : SourceConfirmation)
  | activate (acknowledged : Bool)
  | save (then_ : AfterSave)
  /-- The `catch`. -/
  | reload
  | saveReloaded (current : JournalSnapshot)
  /-- The `finally`. -/
  | release

/-- How an await settles; a rejection with a journal or budget error is not caught. -/
inductive AdvanceReply where
  | journal (d : CallEnd)
  | done
  | answer (b : Bool)
  | signed (transaction : SignedIssuance)
  | receipt (reads : ReceiptReads)
  | failed
  | rejected

/-- The locals of a run that holds a snapshot; `entry` is the working copy. -/
structure AdvanceWork where
  revision : ℕ
  entry : IssuanceEntry
  budgetReserved : Bool
  await : AdvanceAwait

namespace AdvanceWork

variable (o : AdvanceOptions) (now : ℕ) (w : AdvanceWork)

def goto (a : AdvanceAwait) : AdvanceWork := { w with await := a }

def saveAs (e : IssuanceEntry) (k : AfterSave) : AdvanceWork := { w with entry := e, await := .save k }

def failWith (fault : IssuanceFault) : AdvanceWork :=
  w.saveAs { w.entry with phase := .failed, lastError := some fault } .return_

def toReceipt : AdvanceWork :=
  if o.budget = true ∧ w.entry.transaction.isSome = true ∧ w.budgetReserved = false then
    w.goto (.reserve none)
  else w.goto .receipt

/-- Too late to sign. -/
def expired (e : IssuanceEntry) : Prop :=
  e.prepareUntil ≤ now ∨ ∃ expiry ∈ e.outcome.expiry, expiry * 1000 ≤ now

instance (e : IssuanceEntry) : Decidable (expired now e) := inferInstanceAs (Decidable (_ ∨ _))

def toTransaction : AdvanceWork :=
  if w.entry.transaction.isNone then
    if expired now w.entry then w.failWith .preparationExpired else w.goto .processed
  else w.toReceipt o

def toTarget : AdvanceWork :=
  if w.entry.outcome.isIssued then w.goto .assertTarget else w.failWith .notApproved

/-- The phase is failed and no retry applies. -/
def settledFailure : Prop :=
  w.entry.phase = .failed ∧ (o.retryFailed = false ∨ w.entry.lastError ≠ some .sourceReverted)

instance : Decidable (w.settledFailure o) := inferInstanceAs (Decidable (_ ∧ _))

/-- From the acquired snapshot to the first await. -/
def begin_ : AdvanceWork :=
  if w.settledFailure o then w.goto .release
  else if w.entry.phase = .prepared ∧ w.entry.transaction.isNone = true ∧
      w.entry.outcome.isIssued = true ∧ w.entry.prepareUntil ≤ now then
    w.failWith .preparationExpired
  else if w.entry.evidenceStored = false then w.goto .put
  else w.toTarget

def retried (e : IssuanceEntry) : IssuanceEntry :=
  { e with
    revertedTransactions :=
      e.revertedTransactions ++ e.transaction.toList.map fun t => ⟨t.hash, t.nonce, now⟩
    transaction := none
    sourceConfirmation := none
    broadcastAcceptedAt := none
    phase := .prepared
    lastError := none }

def afterTarget : AdvanceWork :=
  if w.settledFailure o then w.goto .release
  else if w.entry.phase = .failed then w.saveAs (retried now w.entry) .retried
  else w.toTransaction o now

def prepared (t : SignedIssuance) : AdvanceWork :=
  if t.chainId ≠ w.entry.target.chainId ∨ t.source ≠ w.entry.target.source ∨
      t.issuer ≠ w.entry.target.issuer then w.goto .release
  else if o.budget then w.goto (.reserve (some t))
  else w.saveAs { w.entry with transaction := some t } .signed

def conclude : IssuanceReceipt → AdvanceWork
  | .pending => w.goto .release
  | .reverted c =>
    w.saveAs { w.entry with
      phase := .failed
      lastError := some .sourceReverted
      sourceConfirmation := some c } .return_
  | .success c => w.goto (.sourceConfirmed c)

def afterReceipt (r : IssuanceReceipt) : AdvanceWork :=
  match r with
  | .pending => w.goto .release
  | .reverted c | .success c =>
    if o.budget then if c.gasUsed.isNone then w.goto .release else w.goto (.reconcile r)
    else w.conclude r

def onReceipt (pending : AdvanceWork) : Option IssuanceReceipt → AdvanceWork
  | none => w.goto .reload
  | some .pending => pending
  | some r => w.afterReceipt o r

def afterSourceConfirmed (c : SourceConfirmation) : AdvanceWork :=
  if w.entry.phase = .materialized then w.goto (.activate true)
  else w.saveAs { w.entry with
    phase := .sourceConfirmed
    sourceConfirmation := some c
    lastError := none } (.confirmed c)

/-- After a save whose response arrived. -/
def afterSave : AfterSave → AdvanceWork
  | .return_ => w.goto .release
  | .evidenceStored => w.toTarget
  | .retried => w.toTransaction o now
  | .signed => w.toReceipt o
  | .submitted => w.goto .maySend
  | .broadcast => w.goto .receiptAgain
  | .confirmed c => w.goto (.materialized c)

/-- From a service's answer to the next await. -/
def receive (env : IssuanceEnv) (reply : AdvanceReply) : Option AdvanceWork :=
  match w.await, reply with
  | .put, .done => some (w.saveAs { w.entry with evidenceStored := true } .evidenceStored)
  | .assertTarget, .done => some (w.afterTarget o now)
  | .processed, .answer true => some (w.failWith .requestAlreadyUsedUnreconciled)
  | .processed, .answer false => some (w.goto .mayPrepare)
  | .mayPrepare, .done => some (w.goto .prepare)
  | .prepare, .signed t => some (w.prepared o t)
  | .reserve (some t), .done =>
    some ({ w with budgetReserved := true }.saveAs { w.entry with transaction := some t } .signed)
  | .reserve none, .done => some (w.goto .receipt)
  | .receipt, .receipt reads =>
    some (w.onReceipt o (w.goto .maySubmit) (reads.receiptOf env w.entry now))
  | .maySubmit, .done =>
    some (w.saveAs { w.entry with phase := .submitted, sourceConfirmation := none } .submitted)
  | .maySend, .done => some (w.goto .broadcast)
  | .broadcast, .done =>
    some (w.saveAs { w.entry with
      broadcastAcceptedAt := w.entry.broadcastAcceptedAt.or (some now)
      lastError := none } .broadcast)
  | .broadcast, .failed | .broadcast, .rejected =>
    some (w.saveAs { w.entry with lastError := some .broadcastUnconfirmed } .broadcast)
  | .receiptAgain, .receipt reads =>
    some (w.onReceipt o (w.goto .release) (reads.receiptOf env w.entry now))
  | .reconcile r, .done => some (w.conclude r)
  | .sourceConfirmed c, .done => some (w.afterSourceConfirmed c)
  | .materialized _, .answer true => some (w.goto (.activate false))
  | .materialized _, .answer false => some (w.goto .release)
  | .activate true, .done => some (w.goto .release)
  | .activate false, .done =>
    some (w.saveAs { w.entry with
      phase := .materialized
      materializedAt := w.entry.materializedAt.or (some now)
      lastError := none } .return_)
  | _, .failed => some (w.goto .reload)
  | _, .rejected => some (w.goto .release)
  | _, _ => none

/-- The journal call that a run awaits. -/
def call (owner : ℕ) : Option IssuanceCall :=
  match w.await with
  | .save _ => some (.save owner ⟨w.revision, w.entry⟩)
  | .reload => some .get
  | .saveReloaded current => some (.save owner current)
  | .release => some (.release owner)
  | _ => none

/-- From the journal's response to the next await. -/
def onResponse (r : Except IssuanceJournalError (Option JournalSnapshot)) : AdvanceWork :=
  match w.await, r with
  | .save k, .ok (some snapshot) =>
    { w with revision := snapshot.revision, entry := snapshot.entry }.afterSave o now k
  | .reload, .ok (some current) =>
    if current.revision = w.revision ∧ current.entry.phase ≠ .failed then
      w.goto (.saveReloaded
        { current with entry := { current.entry with lastError := some .dependencyUnavailable } })
    else w.goto .release
  | _, _ => w.goto .release

end AdvanceWork

inductive AdvanceStage where
  | lookup
  | acquire (signer : SignerKey)
  | advance (w : AdvanceWork)

/-- A call of `advanceIssuance`. -/
structure AdvanceRun where
  requestId : RequestId
  options : AdvanceOptions
  stage : AdvanceStage

/-- A run after the response of its journal call. -/
def AdvanceRun.respond (now : ℕ) (run : AdvanceRun)
    (r : Except IssuanceJournalError (Option JournalSnapshot)) : Option AdvanceRun :=
  match run.stage, r with
  | .lookup, .ok (some snapshot) => some { run with stage := .acquire snapshot.entry.signerKey }
  | .acquire _, .ok (some snapshot) =>
    some { run with stage := .advance (AdvanceWork.begin_ run.options now
      ⟨snapshot.revision, snapshot.entry, false, .release⟩) }
  | .advance w, r =>
    match w.await with
    | .release => none
    | _ => some { run with stage := .advance (w.onResponse run.options now r) }
  | _, _ => none

/-- The journal and the runs by their owner ids, which are never used twice. -/
structure IssuanceHost where
  redis : IssuanceRedis
  runs : ℕ → Option AdvanceRun
  nextOwner : ℕ

inductive IssuanceAction where
  | tick (ms : ℕ)
  | create (entry : IssuanceEntry)
  | expire (id : RequestId)
  | start (id : RequestId) (options : AdvanceOptions)
  | settle (owner now : ℕ) (reply : AdvanceReply)
  | crash (owner : ℕ)

inductive IssuanceOutput where
  | done
  | broadcast (id : RequestId) (transaction : SignedIssuance)

inductive IssuanceHostError where
  | notPrepared
  | notExpired
  | notAwaited

/-- An entry as the issue route creates it. -/
def IssuanceEntry.fresh (e : IssuanceEntry) : Prop :=
  e.phase = .prepared ∧ e.transaction.isNone = true ∧ e.evidenceStored = false

instance (e : IssuanceEntry) : Decidable e.fresh := inferInstanceAs (Decidable (_ ∧ _))

namespace IssuanceHost

def initial : IssuanceHost := ⟨.initial, fun _ => none, 0⟩

variable (env : IssuanceEnv) (s : IssuanceHost)

def setRun (owner : ℕ) (run : Option AdvanceRun) : IssuanceHost :=
  { s with runs := Function.update s.runs owner run }

/-- A run whose journal call ends. -/
def answered (owner now : ℕ) (run : AdvanceRun) (c : IssuanceCall) (d : CallEnd) : IssuanceHost :=
  let r := s.redis.call run.requestId c d
  { s with redis := r.1 }.setRun owner (run.respond now r.2)

/-- The journal call that a run awaits. -/
def callOf (owner : ℕ) : AdvanceStage → Option IssuanceCall
  | .lookup => some .get
  | .acquire signer => some (.acquire owner signer)
  | .advance w => w.call owner

/-- What leaves the process when a run goes on. -/
def sends (id : RequestId) (w : AdvanceWork) (reply : AdvanceReply) : IssuanceOutput :=
  match w.await, reply, w.entry.transaction with
  | .maySend, .done, some t => .broadcast id t
  | _, _, _ => .done

def resume (owner now : ℕ) (run : AdvanceRun) (reply : AdvanceReply) :
    Option (IssuanceHost × IssuanceOutput) :=
  match callOf owner run.stage, run.stage, reply with
  | some c, _, .journal d => some (s.answered owner now run c d, .done)
  | none, .advance w, reply =>
    (w.receive run.options now env reply).map fun w' =>
      (s.setRun owner (some { run with stage := .advance w' }), sends run.requestId w reply)
  | _, _, _ => none

def machine : Machine IssuanceHost IssuanceAction IssuanceOutput IssuanceHostError where
  step s
    | .tick ms => pure ({ s with redis := { s.redis with now := s.redis.now + ms } }, .done)
    | .create entry => do
      revertIf (¬ entry.fresh) .notPrepared
      pure ({ s with redis := s.redis.create entry }, .done)
    | .expire id => do
      revertIf (¬ ∃ h ∈ s.redis.requests id, ∃ u ∈ h.terminalExpiresAt, u ≤ s.redis.now) .notExpired
      pure ({ s with redis :=
        { s.redis with requests := Function.update s.redis.requests id none } }, .done)
    | .start id options =>
      pure ({ s with
        runs := Function.update s.runs s.nextOwner (some ⟨id, options, .lookup⟩)
        nextOwner := s.nextOwner + 1 }, .done)
    | .settle owner now reply => do
      let run ← orRevert (s.runs owner) .notAwaited
      orRevert (s.resume env owner now run reply) .notAwaited
    | .crash owner => pure (s.setRun owner none, .done)

end IssuanceHost

abbrev IssuanceStep := Machine.Entry IssuanceHost IssuanceAction IssuanceOutput

end Proofmark
