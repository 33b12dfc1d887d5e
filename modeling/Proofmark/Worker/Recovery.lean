/-
  The recovery audit (src/worker/recovery.ts) against the hub chain, and the machine of a
  worker that runs it beside its relay sender.

  The hub chain only grows, its RPC answers say what it holds when they are given, and the
  signer's transactions come from this worker alone.
-/
import Proofmark.Worker.Relay
import Mathlib.Data.List.Sort
import Mathlib.Logic.Function.Basic

namespace Proofmark

open Revert Function

/-! ## The hub chain -/

/-- A transaction of the signer that is in a block. -/
structure MinedRelay where
  relay : RelayEnvelope
  receipt : RelayReceipt
deriving DecidableEq

/-- `blocks` lists the hashes by height, `mined` the signer's transactions by nonce, and
    `processed` the queries with the block from which on they are processed. -/
structure HubChain where
  blocks : List BlockHash
  mined : List MinedRelay
  processed : List (Bytes32 × ℕ)
  sent : List RelayEnvelope

/-- The receipt of `HubRecoveryReader`. -/
structure HubReceipt where
  hash : TxHash
  from_ : Address
  to_ : Address
  status : RelayStatus
  blockNumber : ℕ
  blockHash : BlockHash
deriving DecidableEq

namespace HubChain

variable (hub : HubChain)

def head : ℕ := hub.blocks.length - 1

def find (hash : TxHash) : Option MinedRelay := hub.mined.find? fun m => m.relay.hash = hash

def receipt (hash : TxHash) : Option HubReceipt :=
  (hub.find hash).map fun m =>
    ⟨m.relay.hash, m.relay.signer, m.relay.to_, m.receipt.status, m.receipt.blockNumber,
      m.receipt.blockHash⟩

def processedAt (queryId : Bytes32) (blockNumber : ℕ) : Bool :=
  hub.processed.any fun p => p.1 = queryId && p.2 ≤ blockNumber

/-- A pending transaction count: a sent envelope for each nonce that is not in a block. -/
def Pending (n : ℕ) : Prop :=
  hub.mined.length ≤ n ∧
    ∀ i ∈ List.range (n - hub.mined.length), ∃ r ∈ hub.sent, r.nonce = hub.mined.length + i

instance (n : ℕ) : Decidable (hub.Pending n) :=
  inferInstanceAs (Decidable (_ ∧ ∀ i ∈ List.range (n - hub.mined.length), _))

/-- At least `confirmations` blocks deep. -/
def Deep (confirmations blockNumber : ℕ) : Prop :=
  blockNumber ≤ hub.head ∧ confirmations ≤ hub.head - blockNumber + 1

instance (confirmations blockNumber : ℕ) : Decidable (hub.Deep confirmations blockNumber) :=
  inferInstanceAs (Decidable (_ ∧ _))

/-- A new block with the next transactions of the signer, and the queries it processes. -/
def block (hash : BlockHash) (included : List (RelayEnvelope × RelayStatus)) (queries : List Bytes32) :
    Except StoreError HubChain := do
  revertIf (included.map (fun m => m.1.nonce) ≠ List.range' hub.mined.length included.length ∨
    ∃ m ∈ included, m.1 ∉ hub.sent) (.error "NOT_INCLUDED")
  pure { hub with
    blocks := hub.blocks ++ [hash]
    mined := hub.mined ++ included.map fun m => ⟨m.1, ⟨m.2, hub.blocks.length, hash⟩⟩
    processed := hub.processed ++ queries.map fun q => (q, hub.blocks.length) }

end HubChain

/-! ## The audit -/

structure WorkerEnv extends RelayEnv where
  hubConfirmations : ℕ

/-- The awaits of `reconcileHubRecovery`, with the jobs that it still has to read. -/
inductive AuditAwait where
  | head
  | receipt (head : ℕ) (job : Job) (history : RelayHistory) (rest : List (Job × RelayHistory))
  | block (head : ℕ) (job : Job) (history : RelayHistory) (rest : List (Job × RelayHistory))
      (receipt : HubReceipt)
  | processed (head : ℕ) (job : Job) (history : RelayHistory) (rest : List (Job × RelayHistory))
      (receipt : HubReceipt)
  | again (head : ℕ) (job : Job) (history : RelayHistory) (rest : List (Job × RelayHistory))
      (receipt : HubReceipt)
  | skipBlock (head : ℕ) (queryId : Bytes32) (observation : SkipObservation) (rest : List Job)
  | skipProcessed (head : ℕ) (queryId : Bytes32) (observation : SkipObservation) (rest : List Job)
  | skipAgain (head : ℕ) (queryId : Bytes32) (observation : SkipObservation) (rest : List Job)
  | counts (latest pending : Option ℕ)

inductive AuditReply where
  | number (n : ℕ)
  | receipt (r : Option HubReceipt)
  | block (hash : Option BlockHash)
  | processed (value : Bool)
  | latest (n : ℕ)
  | pending (n : ℕ)
  | failed
deriving DecidableEq

/-- How an audit goes on: to an await, to a durable hold, or to its end. -/
inductive AuditStep where
  | await (a : AuditAwait)
  | hold (reason : String)
  | returned
  | threw (e : StoreError)

structure AuditTask where
  snapshot : StoreData
  pc : AuditAwait

/-- The identity of a terminal job's evidence. -/
structure TerminalEvidence where
  txHash : TxHash
  state : JobState
  ascTxHash : Option TxHash
  queryId : Option Bytes32
  relayHistory : List RelayHistory
  skipObservation : Option SkipObservation
deriving DecidableEq

structure EvidenceIdentity where
  hubStartNonce : Option ℕ
  hubHold : Option String
  relay : Option RelayEnvelope
  terminal : List TerminalEvidence
deriving DecidableEq

def Job.evidence (j : Job) : TerminalEvidence :=
  ⟨j.txHash, j.state, j.ascTxHash, j.queryId, j.relayHistory, j.skipObservation⟩

/-- `done` or `dead`. -/
def JobState.settled : JobState → Bool
  | .done | .dead => true
  | _ => false

namespace StoreData

variable (d : StoreData)

def evidenceIdentity : EvidenceIdentity where
  hubStartNonce := d.hubStartNonce
  hubHold := d.hubHold
  relay := d.relay
  terminal := ((d.jobs.filter fun j => j.state.terminal).map Job.evidence).insertionSort
    fun a b => a.txHash.toNat ≤ b.txHash.toNat

/-- The terminal jobs with their histories, unless one has not exactly one. -/
def terminalJobs : List Job → Option (List (Job × RelayHistory))
  | [] => some []
  | j :: jobs =>
    if j.state.settled then
      match j.relayHistory with
      | [h] =>
        if j.queryId.isNone ∨ j.ascTxHash.isNone then none
        else (terminalJobs jobs).map ((j, h) :: ·)
      | _ => none
    else if j.relayHistory ≠ [] then none
    else terminalJobs jobs

def byNonce (terminal : List (Job × RelayHistory)) : List (Job × RelayHistory) :=
  terminal.insertionSort fun a b => a.2.nonce ≤ b.2.nonce

end StoreData

namespace AuditTask

variable (env : WorkerEnv) (d : StoreData)

/-- The start of `reconcileHubRecovery`, to its first await. -/
def start : AuditStep :=
  match d.assertHubReady with
  | .error e => .threw e
  | .ok _ =>
    if env.hubConfirmations < 1 then .threw (.hub "HUB_RECOVERY_SETTINGS_INVALID")
    else match d.hubStartNonce with
      | none => .hold "HUB_SIGNER_BASELINE_REQUIRES_RECONCILIATION"
      | some baseline =>
        match StoreData.terminalJobs d.jobs with
        | none => .hold "HUB_TERMINAL_HISTORY_REQUIRES_RECONCILIATION"
        | some terminal =>
          if (StoreData.byNonce terminal).map (fun t => t.2.nonce) ≠
              List.range' baseline terminal.length then .hold "HUB_NONCE_HISTORY_REQUIRES_RECONCILIATION"
          else .await .head

/-- The loop over the skipped jobs, to its next await. -/
def nextSkipped (head : ℕ) : List Job → AuditStep
  | [] => .await (.counts none none)
  | j :: jobs =>
    if j.state ≠ .skipped then nextSkipped head jobs
    else match j.skipObservation, j.queryId with
      | some o, some q =>
        if head < o.blockNumber ∨ head - o.blockNumber + 1 < env.hubConfirmations then
          .hold "HUB_SKIP_OBSERVATION_NOT_CANONICAL"
        else .await (.skipBlock head q o jobs)
      | _, _ => .hold "HUB_SKIP_OBSERVATION_NOT_CANONICAL"

/-- The loop over the terminal jobs, to its next await. -/
def nextTerminal (snapshot : StoreData) (head : ℕ) : List (Job × RelayHistory) → AuditStep
  | [] => nextSkipped env head snapshot.jobs
  | (j, h) :: rest => .await (.receipt head j h rest)

/-- The end of the audit: the counts against what the snapshot expects, unless the evidence
    has changed meanwhile. -/
def finish (snapshot : StoreData) (latest pending : ℕ) : AuditStep :=
  if pending < latest then .threw (.hub "HUB_RECOVERY_OBSERVATION_UNAVAILABLE")
  else if d.evidenceIdentity ≠ snapshot.evidenceIdentity then .returned
  else
    let expected := snapshot.hubStartNonce.getD 0 +
      (snapshot.jobs.filter fun j => j.state.settled).length
    match snapshot.relay with
    | some relay =>
      if relay.nonce ≠ expected ∨ (latest ≠ expected ∧ latest ≠ expected + 1) ∨
          (pending ≠ expected ∧ pending ≠ expected + 1) then .hold "HUB_SIGNER_NONCE_DIVERGED"
      else .returned
    | none =>
      if latest ≠ expected ∨ pending ≠ expected then .hold "HUB_SIGNER_NONCE_DIVERGED"
      else .returned

/-- The part of the audit between the await that settled and the next one. -/
def resume (t : AuditTask) (reply : AuditReply) : Option AuditStep :=
  match t.pc, reply with
  | _, .failed => some (.threw (.hub "HUB_RECOVERY_OBSERVATION_UNAVAILABLE"))
  | .head, .number n =>
    some (nextTerminal env t.snapshot n
      (StoreData.byNonce ((StoreData.terminalJobs t.snapshot.jobs).getD [])))
  | .receipt head j h rest, .receipt o =>
    match o with
    | none => some (.hold "HUB_TERMINAL_HISTORY_NOT_CANONICAL")
    | some r =>
      if r.hash ≠ h.hash ∨ r.from_ ≠ env.signer ∨ r.to_ ≠ env.asc ∨ r.status ≠ h.receipt.status ∨
          r.blockNumber ≠ h.receipt.blockNumber ∨ r.blockHash ≠ h.receipt.blockHash ∨
          head < r.blockNumber ∨ head - r.blockNumber + 1 < env.hubConfirmations then
        some (.hold "HUB_TERMINAL_HISTORY_NOT_CANONICAL")
      else some (.await (.block head j h rest r))
  | .block head j h rest r, .block o =>
    if o ≠ some r.blockHash then some (.hold "HUB_TERMINAL_HISTORY_NOT_CANONICAL")
    else match h.receipt.status with
      | .success => some (.await (.processed head j h rest r))
      | .reverted => some (.await (.again head j h rest r))
  | .processed head j h rest r, .processed value =>
    if value then some (.await (.again head j h rest r))
    else some (.hold "HUB_TERMINAL_QUERY_NOT_CANONICAL")
  | .again head _ _ rest r, .block o =>
    if o ≠ some r.blockHash then some (.hold "HUB_TERMINAL_HISTORY_NOT_CANONICAL")
    else some (nextTerminal env t.snapshot head rest)
  | .skipBlock head q o rest, .block hash =>
    if hash ≠ some o.blockHash then some (.hold "HUB_SKIP_OBSERVATION_NOT_CANONICAL")
    else some (.await (.skipProcessed head q o rest))
  | .skipProcessed head q o rest, .processed value =>
    if value then some (.await (.skipAgain head q o rest))
    else some (.hold "HUB_SKIP_OBSERVATION_NOT_CANONICAL")
  | .skipAgain head _ o rest, .block hash =>
    if hash ≠ some o.blockHash then some (.hold "HUB_SKIP_OBSERVATION_NOT_CANONICAL")
    else some (nextSkipped env head rest)
  | .counts none none, .latest n => some (.await (.counts (some n) none))
  | .counts none none, .pending n => some (.await (.counts none (some n)))
  | .counts (some latest) none, .pending n => some (finish d t.snapshot latest n)
  | .counts none (some pending), .latest n => some (finish d t.snapshot n pending)
  | _, _ => none

/-- The reply is what the chain holds. -/
def truthful (hub : HubChain) (a : AuditAwait) (reply : AuditReply) : Bool :=
  match a, reply with
  | .head, .number n => decide (n = hub.head)
  | .receipt _ _ h _, .receipt o => decide (o = hub.receipt h.hash)
  | .block _ _ _ _ r, .block o => decide (o = hub.blocks[r.blockNumber]?)
  | .again _ _ _ _ r, .block o => decide (o = hub.blocks[r.blockNumber]?)
  | .processed _ j _ _ r, .processed value =>
    decide (value = j.queryId.any fun q => hub.processedAt q r.blockNumber)
  | .skipBlock _ _ o _, .block hash => decide (hash = hub.blocks[o.blockNumber]?)
  | .skipAgain _ _ o _, .block hash => decide (hash = hub.blocks[o.blockNumber]?)
  | .skipProcessed _ q o _, .processed value => decide (value = hub.processedAt q o.blockNumber)
  | .counts _ _, .latest n => decide (n = hub.mined.length)
  | .counts _ _, .pending n => decide (hub.Pending n)
  | _, _ => true

end AuditTask

/-! ## The machine -/

/-- A query is processed at a block that is deep enough. -/
def HubChain.Confirms (env : WorkerEnv) (hub : HubChain) (queryId : Bytes32) (blockNumber : ℕ)
    (blockHash : BlockHash) : Prop :=
  hub.blocks[blockNumber]? = some blockHash ∧ hub.processedAt queryId blockNumber = true ∧
    hub.Deep env.hubConfirmations blockNumber

instance (env : WorkerEnv) (hub : HubChain) (queryId : Bytes32) (blockNumber : ℕ)
    (blockHash : BlockHash) : Decidable (hub.Confirms env queryId blockNumber blockHash) :=
  inferInstanceAs (Decidable (_ ∧ _ ∧ _))

/-- The receipt of an envelope is deep enough. -/
def HubChain.Receives (env : WorkerEnv) (hub : HubChain) (relay : RelayEnvelope)
    (r : RelayReceipt) : Prop :=
  (hub.find relay.hash).map MinedRelay.receipt = some r ∧ hub.Deep env.hubConfirmations r.blockNumber

instance (env : WorkerEnv) (hub : HubChain) (relay : RelayEnvelope) (r : RelayReceipt) :
    Decidable (hub.Receives env relay r) :=
  inferInstanceAs (Decidable (_ ∧ _))

/-- What the transport tells the sender is what the chain holds. -/
def HubChain.tellsSender (env : WorkerEnv) (hub : HubChain) (a : SenderAwait) (reply : SenderReply) :
    Bool :=
  match a, reply with
  | .prepare _, .prepared relay => decide (hub.Pending relay.nonce)
  | .observe p, .observed q =>
    decide (q.status = .confirmed → hub.Confirms env p.queryId q.blockNumber q.blockHash)
  | .observeFinal p _, .observed q =>
    decide (q.status = .confirmed → hub.Confirms env p.queryId q.blockNumber q.blockHash)
  | .receipt relay, .receipt (some r) => decide (hub.Receives env relay r)
  | .receiptAgain relay, .receipt (some r) => decide (hub.Receives env relay r)
  | .finalReceipt relay _, .receipt (some r) => decide (hub.Receives env relay r)
  | .processed relay r, .processed value =>
    decide (value = hub.processedAt relay.queryId r.blockNumber)
  | _, _ => true

structure WorkerHost where
  relay : RelayHost
  hub : HubChain
  audits : ℕ → Option AuditTask

/-- A worker with a fresh signer, after the bootstrap of its state. -/
def WorkerHost.initial (genesis : BlockHash) : WorkerHost where
  relay := ⟨{ StoreData.empty with hubStartNonce := some 0 }, none⟩
  hub := ⟨[genesis], [], [], []⟩
  audits := fun _ => none

inductive WorkerAction where
  | relay (a : RelayAction)
  | audit (task : ℕ) (w : CommitEnd)
  | auditReply (task : ℕ) (reply : AuditReply) (w : CommitEnd)
  | block (hash : BlockHash) (included : List (RelayEnvelope × RelayStatus)) (queries : List Bytes32)

inductive WorkerOutput where
  | done
  | relayed (out : RelayOutput)
  | auditing
  | held (reason : String)
  | audited
  | threw (e : StoreError)

namespace WorkerHost

variable (env : WorkerEnv) (h : WorkerHost)

/-- Where an audit leaves the worker. -/
def settleAudit (task : ℕ) (snapshot : StoreData) (w : CommitEnd) :
    AuditStep → WorkerHost × WorkerOutput
  | .await a => ({ h with audits := update h.audits task (some ⟨snapshot, a⟩) }, .auditing)
  | .hold reason =>
    ({ h with
        relay := { h.relay with
          data := h.relay.data.commit { h.relay.data with hubHold := some reason } w }
        audits := update h.audits task none }, .held reason)
  | .returned => ({ h with audits := update h.audits task none }, .audited)
  | .threw e => ({ h with audits := update h.audits task none }, .threw e)

/-- The hub is held by audits alone, and its baseline was set before the worker ran. -/
def allowed : RelayAction → Bool
  | .settle reply _ => h.relay.sender.all fun c => h.hub.tellsSender env c.2 reply
  | .store (.holdHub _) _ | .store (.initializeHubSigner _) _ => false
  | _ => true

def machine : Machine WorkerHost WorkerAction WorkerOutput StoreError where
  step h
    | .relay a => do
      revertIf (h.allowed env a = false) (.error "NOT_TRUTHFUL")
      let (relay, out) ← (RelayHost.machine env.toRelayEnv).step h.relay a
      let hub := match out with
        | .broadcast r => { h.hub with sent := h.hub.sent ++ [r] }
        | _ => h.hub
      let audits := match a with
        | .crash => fun _ => none
        | _ => h.audits
      pure (⟨relay, hub, audits⟩, .relayed out)
    | .audit task w => do
      revertIf ((h.audits task).isSome = true) (.error "AUDIT_RUNNING")
      pure (h.settleAudit task h.relay.data w (AuditTask.start env h.relay.data))
    | .auditReply task reply w => do
      let t ← orRevert (h.audits task) (.error "NO_AUDIT")
      revertIf (AuditTask.truthful h.hub t.pc reply = false) (.error "NOT_TRUTHFUL")
      let step ← orRevert (t.resume env h.relay.data reply) (.error "NO_AUDIT")
      pure (h.settleAudit task t.snapshot w step)
    | .block hash included queries => do
      let hub ← h.hub.block hash included queries
      pure ({ h with hub := hub }, .done)

end WorkerHost

abbrev WorkerEntry := Machine.Entry WorkerHost WorkerAction WorkerOutput

end Proofmark
