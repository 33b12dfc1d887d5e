/-
  The delivery of revocations (src/pipeline/rescreen.ts, `deliverRevocations`), on the
  outbox of the vault.

  One runner holds the lease and works through the pending jobs; other processes operate
  on the same file.  Between two awaits the runner is not interrupted.  The transport is
  not trusted: its answers are inputs of the machine, and so are the ends of the writes.
-/
import Proofmark.Pipeline.Vault

namespace Proofmark

open Revert

inductive RevocationReceipt where
  | success
  | reverted
deriving DecidableEq

inductive DeliveryAwait where
  | prepare
  | receipt
  | broadcast
  | wait
deriving DecidableEq

/-- How an awaited transport call settles. -/
inductive DeliveryReply where
  | signed (transaction : RevocationTransaction)
  | receipt (receipt : Option RevocationReceipt)
  | sent
  | failed

/-- A call of `deliverRevocations` at an await. -/
structure DeliveryRun where
  job : RevocationJob
  await : DeliveryAwait
  rest : List RevocationJob

/-- The vault file with its lock, and the process of the runner. -/
structure OutboxHost where
  data : VaultData
  locked : Bool
  writeUnconfirmed : Bool
  run : Option DeliveryRun

inductive DeliveryError where
  | writeUnconfirmed
  | busy
  | vault (e : VaultError)
  | leaseHeld
  | notAwaited
  | notOperator

inductive DeliveryOutput where
  | done
  | broadcast (transaction : RevocationTransaction)

/-- The transport's check of a job and its transaction, and the digests of the vault. -/
structure DeliveryEnv where
  vault : VaultEnv
  assertJob : RevocationJob → RevocationTransaction → Bool

namespace OutboxHost

def initial : OutboxHost := ⟨.empty, false, false, none⟩

variable (env : DeliveryEnv) (h : OutboxHost)

/-- `mutate`, by the runner. -/
def mutate (op : VaultOp) (w : EnvelopeWrite) : OutboxHost × Except DeliveryError Unit :=
  if h.writeUnconfirmed then (h, .error .writeUnconfirmed)
  else if h.locked then (h, .error .busy)
  else match h.data.apply env.vault op with
    | .error e => (h, .error (.vault e))
    | .ok d =>
      match w with
      | .acknowledged => ({ h with data := d }, .ok ())
      | .beforeRename =>
        ({ h with locked := true, writeUnconfirmed := true }, .error .writeUnconfirmed)
      | .afterRename =>
        ({ h with data := d, locked := true, writeUnconfirmed := true }, .error .writeUnconfirmed)

/-- The outer `catch`: the job is failed and the pass ends. -/
def giveUp (job : RevocationJob) (w : EnvelopeWrite) : OutboxHost :=
  { (h.mutate env (.failRevocation job.id
      "transport or persistence failure; reconcile by stored transaction hash" false) w).1 with
    run := none }

/-- The next turn of the loop, to its first await. -/
def next (jobs : List RevocationJob) (w : EnvelopeWrite) : OutboxHost :=
  match jobs with
  | [] => { h with run := none }
  | job :: rest =>
    match job.transaction with
    | none => { h with run := some ⟨job, .prepare, rest⟩ }
    | some t =>
      if env.assertJob job t then { h with run := some ⟨job, .receipt, rest⟩ }
      else h.giveUp env job w

def listPendingRevocations : List RevocationJob :=
  h.data.revocations.filter fun job => job.state ≠ .confirmed

/-- What the runner writes for a receipt. -/
def settlement (id : RevocationJobId) (now : ℤ) : Option RevocationReceipt → VaultOp
  | some .success => .finishRevocation id now
  | some .reverted => .failRevocation id "source transaction reverted" true
  | none => .failRevocation id "source confirmation pending" false

def settle (run : DeliveryRun) (receipt : Option RevocationReceipt) (now : ℤ)
    (w w' : EnvelopeWrite) : OutboxHost :=
  match h.mutate env (settlement run.job.id now receipt) w with
  | (h', .error _) => h'.giveUp env run.job w'
  | (h', .ok _) => if receipt.isNone then { h' with run := none } else h'.next env run.rest w'

/-- The part of a pass between the await that settled and the next one. -/
def receive (run : DeliveryRun) (reply : DeliveryReply) (now : ℤ) (w w' : EnvelopeWrite) :
    Option (OutboxHost × DeliveryOutput) :=
  match run.await, reply with
  | .prepare, .signed t =>
    match h.mutate env (.prepareRevocation run.job.id t) w with
    | (h', .error _) => some (h'.giveUp env run.job w', .done)
    | (h', .ok _) =>
      let job := (h'.data.job run.job.id).getD run.job
      if env.assertJob job t then
        some ({ h' with run := some { run with job := job, await := .receipt } }, .done)
      else some (h'.giveUp env job w', .done)
  | .receipt, .receipt none =>
    match run.job.transaction with
    | none => none
    | some t =>
      if h.locked ∨ h.writeUnconfirmed then some (h.giveUp env run.job w', .done)
      else some ({ h with run := some { run with await := .broadcast } }, .broadcast t)
  | .receipt, .receipt (some r) => some (h.settle env run (some r) now w w', .done)
  | .broadcast, .sent => some ({ h with run := some { run with await := .wait } }, .done)
  | .broadcast, .failed => some ({ h with run := some { run with await := .wait } }, .done)
  | .wait, .receipt r => some (h.settle env run r now w w', .done)
  | .prepare, .failed => some (h.giveUp env run.job w', .done)
  | .receipt, .failed => some (h.giveUp env run.job w', .done)
  | .wait, .failed => some (h.giveUp env run.job w', .done)
  | _, _ => none

end OutboxHost

/-- The operations of the delivery itself; the other processes make the others. -/
def VaultOp.delivers : VaultOp → Bool
  | .prepareRevocation _ _ | .finishRevocation _ _ | .failRevocation _ _ _ => true
  | _ => false

/-- A crash restarts the runner's process; an operator removes a lock whose owner is gone. -/
inductive OutboxAction where
  | begin_ (w : EnvelopeWrite)
  | reply (r : DeliveryReply) (now : ℤ) (w w' : EnvelopeWrite)
  | operate (op : VaultOp) (w : EnvelopeWrite)
  | crash
  | unlock

/-- A pass begins. -/
def OutboxAction.begins : OutboxAction → Bool
  | .begin_ _ => true
  | _ => false

def OutboxHost.machine (env : DeliveryEnv) :
    Machine OutboxHost OutboxAction DeliveryOutput DeliveryError where
  step h
    | .begin_ w => do
      revertIf h.run.isSome .leaseHeld
      revertIf (h.locked ∨ h.writeUnconfirmed) .writeUnconfirmed
      pure (h.next env h.listPendingRevocations w, .done)
    | .reply r now w w' => do
      let run ← orRevert h.run .notAwaited
      orRevert (h.receive env run r now w w') .notAwaited
    | .operate op w => do
      revertIf op.delivers .notOperator
      revertIf h.locked .busy
      let d ← (h.data.apply env.vault op).mapError .vault
      pure (match w with
        | .acknowledged => { h with data := d }
        | .beforeRename => { h with locked := true }
        | .afterRename => { h with data := d, locked := true }, .done)
    | .crash => pure ({ h with writeUnconfirmed := false, run := none }, .done)
    | .unlock => do
      revertIf h.run.isSome .leaseHeld
      pure ({ h with locked := false }, .done)

abbrev OutboxStep := Machine.Entry OutboxHost OutboxAction DeliveryOutput

end Proofmark
