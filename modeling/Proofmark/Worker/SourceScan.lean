/-
  The source scan (src/worker/source-scan.ts, src/worker/source-events.ts), and the machine of a
  worker that scans between the steps of its relay sender.

  `resumeScan` is what a call of `scanSourceStep` does between two RPC reads.  What the RPC
  answers is an input of the machine; a number is `none` where it is no safe integer.
-/
import Proofmark.Worker.Relay
import Mathlib.Data.List.Sort

namespace Proofmark

open Revert

structure RpcBlock where
  number : Option ℕ
  hash : Option BlockHash
deriving DecidableEq

/-- A log of `getLogs`. -/
structure RpcLog where
  log : LogEntry
  removed : Bool
  blockNumber : ℕ
  blockHash : BlockHash
  transactionHash : TxHash
  transactionIndex : Option ℕ
  index : ℕ
deriving DecidableEq

/-- The settings of a scan; `parseLog` gives the name of the event of a log. -/
structure ScanEnv where
  parseLog : LogEntry → Option String
  address : Address
  startBlock : ℕ
  confirmations : ℕ
  chunk : ℕ

/-! ## Source events -/

def EVENT_TO_ACTION : List (String × ℕ) := [
  ("MarkIssued", 0), ("KeyedMarkIssued", 0), ("MarkRevoked", 1), ("SanctionDenied", 2),
  ("RosterEpochPublished", 3), ("IssuerKeyCompromised", 4), ("SanctionDenialCorrected", 5)]

/-- The transactions of `groupSourceEvents`. -/
structure SourceGroup where
  txHash : TxHash
  blockNumber : ℕ
  action : ℕ
  names : List String
  logCount : ℕ
deriving DecidableEq

def SourceGroup.eventName (g : SourceGroup) : String := "+".intercalate g.names

def SourceGroup.add (name : String) (g : SourceGroup) : SourceGroup :=
  { g with names := if name ∈ g.names then g.names else g.names ++ [name], logCount := g.logCount + 1 }

namespace ScanEnv

variable (env : ScanEnv)

/-- The watched event of a log: its name and its action. -/
def watched (l : LogEntry) : Option (String × ℕ) :=
  if l.address_ ≠ env.address then none
  else (env.parseLog l).bind fun name => EVENT_TO_ACTION.find? fun p => p.1 = name

/-- One turn of the loop of `groupSourceEvents`. -/
def addSourceLog (groups : List SourceGroup) (l : RpcLog) : Except StoreError (List SourceGroup) :=
  match env.watched l.log with
  | none => .ok groups
  | some (name, action) =>
    match Keyed.find SourceGroup.txHash l.transactionHash groups with
    | none => .ok (groups ++ [⟨l.transactionHash, l.blockNumber, action, [name], 1⟩])
    | some g =>
      if g.blockNumber ≠ l.blockNumber then .error (.error "inconsistent source transaction block")
      else .ok (Keyed.change SourceGroup.txHash l.transactionHash (SourceGroup.add name) groups)

def groupSourceEvents (raw : List RpcLog) : Except StoreError (List SourceGroup) :=
  (raw.insertionSort fun a b => a.blockNumber < b.blockNumber ∨
    a.blockNumber = b.blockNumber ∧ a.index ≤ b.index).foldlM env.addSourceLog []

end ScanEnv

/-! ## The parts of a call -/

/-- `validBlock` -/
def validBlock (block : Option RpcBlock) (height : Option ℕ) : Option SourceCheckpoint := do
  let b ← block
  let number ← b.number
  let hash ← b.hash
  if ∀ h ∈ height, number = h then some ⟨number, hash⟩ else none

inductive SourceRead where
  | head
  | finalized
  | block (height : ℕ)
  | logs (from_ to_ : ℕ)
deriving DecidableEq

inductive SourceAnswer where
  | head (n : Option ℕ)
  | block (b : Option RpcBlock)
  | logs (ls : List RpcLog)
  | failed
deriving DecidableEq

/-- Where a transaction is, in `locations`. -/
structure TxLocation where
  txHash : TxHash
  blockHash : BlockHash
  transactionIndex : ℕ
deriving DecidableEq

/-- The range of a call, from the block after the cursor. -/
structure SourceRange where
  rewound : ℕ
  from_ : ℕ
  to_ : ℕ
deriving DecidableEq

/-- The reads after the logs, each with its answer. -/
structure Recheck where
  endAgain : Option (Option RpcBlock)
  startAgain : Option (Option RpcBlock)
  finalAgain : Option (Option RpcBlock)
  headAgain : Option (Option ℕ)
deriving DecidableEq

/-- The awaits of a call, each with what the call holds. -/
inductive ScanAwait where
  | tip (head : Option (Option ℕ)) (finalized : Option (Option RpcBlock))
  | anchor (safeHead : ℤ)
  | current (safeHead : ℤ) (last : SourceCheckpoint) (checkpoints : List SourceCheckpoint)
  | ancestor (safeHead : ℤ) (checkpoint : SourceCheckpoint) (rest : List SourceCheckpoint)
  | rangeEnd (range : SourceRange)
  | logs (range : SourceRange) (endHash : BlockHash)
  | logBlock (range : SourceRange) (endHash : BlockHash) (logs : List RpcLog) (entry : RpcLog)
      (rest : List RpcLog) (blocks : List (ℕ × BlockHash)) (locations : List TxLocation)
  | recheck (range : SourceRange) (endHash : BlockHash) (logs : List RpcLog)
      (locations : List TxLocation) (start : SourceCheckpoint) (got : Recheck)
deriving DecidableEq

/-- How a call goes on. -/
inductive ScanStep where
  | await (a : ScanAwait)
  | returned (scanned : Bool) (jobs rewound : ℕ)
  | threw (e : StoreError)

/-- The check of a log in the loop, once the block at its height is known. -/
def noteLog (entry : RpcLog) (index : ℕ) (hash : BlockHash) (locations : List TxLocation) :
    Except StoreError (List TxLocation) :=
  if hash ≠ entry.blockHash then .error (.source "SOURCE_LOG_HASH_MISMATCH")
  else
    match Keyed.find TxLocation.txHash entry.transactionHash locations with
    | none => .ok (locations ++ [⟨entry.transactionHash, entry.blockHash, index⟩])
    | some previous =>
      if previous.blockHash ≠ entry.blockHash ∨ previous.transactionIndex ≠ index then
        .error (.source "SOURCE_TRANSACTION_COORDINATE_MISMATCH")
      else .ok locations

/-- The transaction index of a log whose coordinates are in the range. -/
def ScanEnv.checkLog (env : ScanEnv) (range : SourceRange) (entry : RpcLog) : Except StoreError ℕ := do
  revertIf (entry.removed = true ∨ entry.log.address_ ≠ env.address ∨ entry.blockNumber < range.from_ ∨
    range.to_ < entry.blockNumber) (.source "SOURCE_LOG_COORDINATE_MISMATCH")
  orRevert entry.transactionIndex (.source "SOURCE_LOG_COORDINATE_MISMATCH")

/-- The job of a group, at the location of its transaction. -/
def sourceJobAt (locations : List TxLocation) (g : SourceGroup) : Except StoreError SourceJob := do
  let l ← orRevert (Keyed.find TxLocation.txHash g.txHash locations)
    (.source "INVALID_SOURCE_JOB_COORDINATES")
  pure ⟨g.txHash, g.blockNumber, l.blockHash, l.transactionIndex⟩

/-- An answer to one of the reads after the logs. -/
def Recheck.fill (got : Recheck) (range : SourceRange) (start : SourceCheckpoint) :
    SourceRead → SourceAnswer → Option Recheck
  | .block n, .block b =>
    if n = range.to_ ∧ got.endAgain = none then some { got with endAgain := some b }
    else if n = start.height ∧ got.startAgain = none then some { got with startAgain := some b }
    else none
  | .finalized, .block b =>
    if got.finalAgain = none then some { got with finalAgain := some b } else none
  | .head, .head n => if got.headAgain = none then some { got with headAgain := some n } else none
  | _, _ => none

/-- The range did not change during the scan. -/
def ScanEnv.unchanged (env : ScanEnv) (range : SourceRange) (endHash : BlockHash)
    (start : SourceCheckpoint) (endAgain startAgain finalAgain : Option RpcBlock)
    (headAgain : Option ℕ) : Prop :=
  validBlock endAgain (some range.to_) = some ⟨range.to_, endHash⟩ ∧
    validBlock startAgain (some start.height) = some start ∧
    ∃ final ∈ validBlock finalAgain none, ∃ head ∈ headAgain,
      final.height ≤ head ∧ range.to_ ≤ final.height ∧ range.to_ + env.confirmations ≤ head

instance (env : ScanEnv) (range : SourceRange) (endHash : BlockHash) (start : SourceCheckpoint)
    (endAgain startAgain finalAgain : Option RpcBlock) (headAgain : Option ℕ) :
    Decidable (env.unchanged range endHash start endAgain startAgain finalAgain headAgain) :=
  inferInstanceAs (Decidable (_ ∧ _ ∧ _))

namespace StoreData

variable (env : ScanEnv) (d : StoreData)

/-- A write after which the call goes on as `k` says, unless it throws. -/
def saveScan (r : Except StoreError StoreData) (w : CommitEnd) (k : StoreData → ScanStep) :
    StoreData × ScanStep :=
  match d.save r w with
  | (d', none) => (d', k d')
  | (d', some e) => (d', .threw e)

/-- The start of `scanSourceStep`, to its first reads. -/
def startScan : Except StoreError ScanAwait := do
  d.assertSourceReady
  d.assertHubReady
  revertIf (env.startBlock < 1 ∨ env.confirmations < 1 ∨ env.chunk < 1)
    (.source "INVALID_SOURCE_SCAN_SETTINGS")
  pure (.tip none none)

/-- The part of a call before the read at the last checkpoint. -/
def checkCursor (safeHead : ℤ) : ScanStep :=
  match d.sourceCheckpoints.getLast? with
  | none => .threw (.error "NO_CHECKPOINT")
  | some last =>
    if last.height ≠ d.cursor then .threw (.source "SOURCE_CHECKPOINT_CURSOR_MISMATCH")
    else .await (.current safeHead last d.sourceCheckpoints)

/-- The part of a call after its first two reads. -/
def afterTip (head : Option ℕ) (finalized : Option RpcBlock) : ScanStep :=
  match head, validBlock finalized none with
  | some head, some final =>
    if head < final.height then .threw (.source "SOURCE_FINALITY_UNCONFIRMED")
    else
      let safeHead : ℤ := min final.height (head - env.confirmations)
      if d.sourceCheckpoints = [] then
        if safeHead < (env.startBlock - 1 : ℤ) then .returned false 0 0 else .await (.anchor safeHead)
      else d.checkCursor safeHead
  | _, _ => .threw (.source "SOURCE_FINALITY_UNCONFIRMED")

/-- The part of a call before the read of the end of its range. -/
def nextRange (safeHead : ℤ) (rewound : ℕ) : ScanStep :=
  if safeHead < d.cursor + 1 then .returned false 0 rewound
  else .await (.rangeEnd ⟨rewound, d.cursor + 1, (min (d.cursor + env.chunk) safeHead : ℤ).toNat⟩)

/-- The search for the ancestor among the checkpoints, the last of them first. -/
def searchAncestor (w : CommitEnd) (safeHead : ℤ) : List SourceCheckpoint → StoreData × ScanStep
  | [] => d.saveScan (.ok { d with sourceHold := some "SOURCE_REORG_BEYOND_VERIFIED_ANCHOR" }) w
      fun _ => .threw (.source "SOURCE_REORG_BEYOND_VERIFIED_ANCHOR")
  | checkpoint :: rest => (d, .await (.ancestor safeHead checkpoint rest))

/-- The number of jobs that a rewind drops. -/
def affected (ancestor : SourceCheckpoint) : ℕ :=
  (d.jobs.filter fun j => ancestor.height < j.blockNumber).length

/-- The part of a call after a rewind, which throws when it holds the source. -/
def afterRewind (safeHead : ℤ) (rewound : ℕ) : ScanStep :=
  match d.sourceHold with
  | some code => .threw (.source code)
  | none => d.nextRange env safeHead rewound

/-- The rewind of a call. -/
def rewindScan (w : CommitEnd) (safeHead : ℤ) (ancestor : SourceCheckpoint) : StoreData × ScanStep :=
  d.saveScan (d.rewindUnsignedSource ancestor) w fun d' =>
    d'.afterRewind env safeHead (d.affected ancestor)

/-- The loop over the logs, to the next block that it has to read. -/
def scanLogs (range : SourceRange) (endHash : BlockHash) (logs : List RpcLog) :
    List RpcLog → List (ℕ × BlockHash) → List TxLocation → ScanStep
  | [], _, locations =>
    match d.sourceCheckpoints.getLast? with
    | none => .threw (.error "NO_CHECKPOINT")
    | some start => .await (.recheck range endHash logs locations start ⟨none, none, none, none⟩)
  | entry :: rest, blocks, locations =>
    match env.checkLog range entry with
    | .error e => .threw e
    | .ok index =>
      match Keyed.find Prod.fst entry.blockNumber blocks with
      | none => .await (.logBlock range endHash logs entry rest blocks locations)
      | some (_, hash) =>
        match noteLog entry index hash locations with
        | .error e => .threw e
        | .ok locations => scanLogs range endHash logs rest blocks locations

/-- The part of a call after its last reads. -/
def commitScan (w : CommitEnd) (range : SourceRange) (endHash : BlockHash) (logs : List RpcLog)
    (locations : List TxLocation) (start : SourceCheckpoint)
    (endAgain startAgain finalAgain : Option RpcBlock) (headAgain : Option ℕ) :
    StoreData × ScanStep :=
  if ¬ env.unchanged range endHash start endAgain startAgain finalAgain headAgain then
    (d, .threw (.source "SOURCE_RANGE_CHANGED_DURING_SCAN"))
  else
    match (do (← env.groupSourceEvents logs).mapM (sourceJobAt locations)) with
    | .error e => (d, .threw e)
    | .ok jobs =>
      d.saveScan (d.commitSourceRange range.from_ ⟨range.to_, endHash⟩ (jobs.map SourceJob.discovered)) w
        fun _ => .returned true jobs.length range.rewound

/-- The part of `scanSourceStep` between the read that is answered and the next one.  The worker
    is `busy` while its pool has tasks. -/
def resumeScan (busy : Bool) (w : CommitEnd) (a : ScanAwait) (read : SourceRead)
    (answer : SourceAnswer) : Option (StoreData × ScanStep) :=
  match a, read, answer with
  | _, _, .failed => some (d, .threw (.error "SOURCE_READ_FAILED"))
  | .tip none finalized, .head, .head n =>
    match finalized with
    | none => some (d, .await (.tip (some n) none))
    | some b => some (d, d.afterTip env n b)
  | .tip head none, .finalized, .block b =>
    match head with
    | none => some (d, .await (.tip none (some b)))
    | some n => some (d, d.afterTip env n b)
  | .anchor safeHead, .block n, .block b =>
    if n ≠ env.startBlock - 1 then none
    else match validBlock b (some n) with
      | none => some (d, .threw (.source "SOURCE_ANCHOR_UNAVAILABLE"))
      | some anchor => some (d.saveScan (d.initializeSource anchor) w fun d' => d'.checkCursor safeHead)
  | .current safeHead last checkpoints, .block n, .block b =>
    if n ≠ last.height then none
    else match validBlock b (some n) with
      | none => some (d, .threw (.source "SOURCE_CHECKPOINT_UNAVAILABLE"))
      | some current =>
        if current.hash = last.hash then some (d, d.nextRange env safeHead 0)
        else if busy then some (d, .threw (.source "SOURCE_REORG_DRAIN_AND_RESTART_REQUIRED"))
        else some (d.searchAncestor w safeHead checkpoints.reverse)
  | .ancestor safeHead checkpoint rest, .block n, .block b =>
    if n ≠ checkpoint.height then none
    else if validBlock b (some n) = some checkpoint ∧ checkpoint.height ≤ safeHead then
      some (d.rewindScan env w safeHead checkpoint)
    else some (d.searchAncestor w safeHead rest)
  | .rangeEnd range, .block n, .block b =>
    if n ≠ range.to_ then none
    else match validBlock b (some n) with
      | none => some (d, .threw (.source "SOURCE_RANGE_END_UNAVAILABLE"))
      | some end_ => some (d, .await (.logs range end_.hash))
  | .logs range endHash, .logs from_ to_, .logs ls =>
    if from_ ≠ range.from_ ∨ to_ ≠ range.to_ then none
    else some (d, d.scanLogs env range endHash ls ls [] [])
  | .logBlock range endHash logs entry rest blocks locations, .block n, .block b =>
    if n ≠ entry.blockNumber then none
    else match validBlock b (some n), env.checkLog range entry with
      | none, _ => some (d, .threw (.source "SOURCE_LOG_BLOCK_UNAVAILABLE"))
      | _, .error e => some (d, .threw e)
      | some block, .ok index =>
        match noteLog entry index block.hash locations with
        | .error e => some (d, .threw e)
        | .ok locations =>
          some (d, d.scanLogs env range endHash logs rest (blocks ++ [(n, block.hash)]) locations)
  | .recheck range endHash logs locations start got, read, answer =>
    match got.fill range start read answer with
    | none => none
    | some ⟨some endAgain, some startAgain, some finalAgain, some headAgain⟩ =>
      some (d.commitScan env w range endHash logs locations start endAgain startAgain finalAgain
        headAgain)
    | some got => some (d, .await (.recheck range endHash logs locations start got))
  | _, _, _ => none

end StoreData

/-! ## The machine -/

/-- The writes that only a scan makes. -/
def StoreOp.scans : StoreOp → Bool
  | .initializeSource _ | .commitSourceRange _ _ _ | .rewindUnsignedSource _ => true
  | _ => false

/-- A worker, with its running call of `scanSourceStep`. -/
structure ScanHost where
  relay : RelayHost
  scan : Option ScanAwait

def ScanHost.initial : ScanHost := ⟨.initial, none⟩

/-- `branch` is the tip of the branch that the node answers from. -/
inductive ScanAction where
  | relay (a : RelayAction)
  | scan
  | answer (branch : BlockHash) (read : SourceRead) (answer : SourceAnswer) (busy : Bool)
      (w : CommitEnd)

inductive ScanOutput where
  | relay (out : RelayOutput)
  | awaiting
  | returned (scanned : Bool) (jobs rewound : ℕ)
  | threw (e : StoreError)

def ScanHost.settle (h : RelayHost) : StoreData × ScanStep → ScanHost × ScanOutput
  | (d, .await a) => (⟨{ h with data := d }, some a⟩, .awaiting)
  | (d, .returned scanned jobs rewound) => (⟨{ h with data := d }, none⟩, .returned scanned jobs rewound)
  | (d, .threw e) => (⟨{ h with data := d }, none⟩, .threw e)

/-- A crash loses the scan and the call of the sender. -/
def ScanHost.machine (relayEnv : RelayEnv) (env : ScanEnv) :
    Machine ScanHost ScanAction ScanOutput StoreError where
  step h
    | .relay .crash => pure (⟨{ h.relay with sender := none }, none⟩, .relay .done)
    | .relay (.store op w) => do
      revertIf (op.scans = true) (.error "NOT_A_SCAN")
      let (relay, out) ← (RelayHost.machine relayEnv).step h.relay (.store op w)
      pure ({ h with relay := relay }, .relay out)
    | .relay a => do
      let (relay, out) ← (RelayHost.machine relayEnv).step h.relay a
      pure ({ h with relay := relay }, .relay out)
    | .scan => do
      revertIf (h.scan.isSome = true) (.error "SCANNING")
      let a ← h.relay.data.startScan env
      pure ({ h with scan := some a }, .awaiting)
    | .answer _ read answer busy w => do
      revertIf (h.relay.sender.isSome = true ∧ busy = false) (.error "BUSY")
      let a ← orRevert h.scan (.error "NO_SCAN")
      let r ← orRevert (h.relay.data.resumeScan env busy w a read answer) (.error "NO_SCAN")
      pure (ScanHost.settle h.relay r)

abbrev ScanEntry := Machine.Entry ScanHost ScanAction ScanOutput

end Proofmark
