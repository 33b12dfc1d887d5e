/-
  The delivery of a publication (src/pipeline/epoch-publication-delivery.ts), and the
  machine of a journal with the calls of `advancePublication` that run on it.

  Between two awaits a call runs without interruption.  The transport is not trusted: its
  answers are inputs of the machine.
-/
import Proofmark.Pipeline.PublicationJournal
import Mathlib.Logic.Function.Basic

namespace Proofmark

open Revert Function

inductive PublicationObservation where
  | absent
  | confirming
  | confirmed (confirmation : PublicationConfirmation)
deriving DecidableEq

/-- How an awaited transport call settles. -/
inductive TransportReply where
  | observed (observation : PublicationObservation)
  | ready
  | signed (raw : String)
  | sent
  | failed

/-- How a call goes on: to its next await, after handing bytes to the network or not, or to
    its end. -/
inductive AdvanceStep where
  | await (task : AdvanceTask)
  | broadcast (task : AdvanceTask)
  | returned (observation : PublicationObservation)
  | threw (e : PublicationError)

namespace PublicationHost

variable (env : PublicationEnv) (h : PublicationHost)

/-- The start of `advancePublication`, to its first await. -/
def advance (i : ℕ) (id : String) : Except PublicationError AdvanceTask := do
  let j ← h.assertOpen i
  let entry ← orRevert (PublicationEntry.find id j.entries) .notFound
  revertIf entry.abandonment.isSome .abandoned
  pure ⟨i, entry, .observing⟩

/-- `finish` -/
def finish (t : AdvanceTask) (o : PublicationObservation) (w : EnvelopeWrite) :
    PublicationHost × AdvanceStep :=
  match t.entry.confirmation, o with
  | some c, .confirmed c' =>
    if c'.transactionHash ≠ c.transactionHash ∨ c'.blockHash ≠ c.blockHash ∨
        c'.blockNumber ≠ c.blockNumber ∨ c'.status ≠ c.status then (h, .threw .confirmationChanged)
    else (h, .returned o)
  | some _, _ => (h, .threw .confirmationChanged)
  | none, .confirmed c =>
    match h.call env t.journal (.confirm t.entry.id c) w with
    | (h', .ok _) => (h', .returned o)
    | (h', .error e) => (h', .threw e)
  | none, _ => (h, .returned o)

/-- The part of a call between the await that settled and the next one. -/
def resume (t : AdvanceTask) (reply : TransportReply) (w : EnvelopeWrite) :
    Option (PublicationHost × AdvanceStep) :=
  match t.pc, reply with
  | .broadcasting, .sent => some (h, .await { t with pc := .settling })
  | .broadcasting, .failed => some (h, .await { t with pc := .settling })
  | _, .failed => some (h, .threw .transport)
  | .observing, .observed o =>
    if t.entry.confirmation.isSome ∨ o ≠ .absent then some (h.finish env t o w)
    else some (h, .await { t with pc := .checking })
  | .checking, .ready =>
    match h.assertOpen t.journal with
    | .error e => some (h, .threw e)
    | .ok _ =>
      some (h, .await { t with pc := if t.entry.transaction.isNone then .preparing else .rechecking })
  | .preparing, .signed raw =>
    match h.call env t.journal (.prepare t.entry.id raw) w with
    | (h', .ok entry) => some (h', .await { t with entry := entry, pc := .rechecking })
    | (h', .error e) => some (h', .threw e)
  | .rechecking, .ready => some (h, .await { t with pc := .reobserving })
  | .reobserving, .observed o =>
    if o ≠ .absent then some (h.finish env t o w)
    else match h.assertOpen t.journal with
      | .error e => some (h, .threw e)
      | .ok _ => some (h, .broadcast { t with pc := .broadcasting })
  | .settling, .observed o => some (h.finish env t o w)
  | _, _ => none

end PublicationHost

/-- The operator removes the lock of a process that is gone. -/
inductive PublicationAction where
  | open_
  | close (unlinked : Bool)
  | crash
  | unlock
  | call (c : JournalCall) (w : EnvelopeWrite)
  | advance (task : ℕ) (id : String)
  | resume (task : ℕ) (reply : TransportReply) (w : EnvelopeWrite)

inductive PublicationOutput where
  | done
  | called (result : Except PublicationError PublicationEntry)
  | awaiting
  | broadcast (entry : PublicationEntry)
  | returned (observation : PublicationObservation)
  | threw (e : PublicationError)

/-- Where a call of `advancePublication` leaves the host. -/
def PublicationHost.settle (task : ℕ) : PublicationHost × AdvanceStep →
    PublicationHost × PublicationOutput
  | (h, .await t) => ({ h with tasks := update h.tasks task (some t) }, .awaiting)
  | (h, .broadcast t) => ({ h with tasks := update h.tasks task (some t) }, .broadcast t.entry)
  | (h, .returned o) => ({ h with tasks := update h.tasks task none }, .returned o)
  | (h, .threw e) => ({ h with tasks := update h.tasks task none }, .threw e)

def PublicationHost.machine (env : PublicationEnv) :
    Machine PublicationHost PublicationAction PublicationOutput PublicationError where
  step h
    | .open_ => do
      let h' ← h.open_ env
      pure (h', .done)
    | .close unlinked => pure (h.close unlinked, .done)
    | .crash => pure ({ h with journal := none, tasks := fun _ => none }, .done)
    | .unlock => do
      revertIf h.journal.isSome .journalBusy
      pure ({ h with lock := false }, .done)
    | .call c w =>
      let (h', r) := h.call env h.opened c w
      pure (h', .called r)
    | .advance task id => do
      revertIf (h.tasks task).isSome .transport
      let t ← h.advance h.opened id
      pure ({ h with tasks := update h.tasks task (some t) }, .awaiting)
    | .resume task reply w => do
      let t ← orRevert (h.tasks task) .transport
      let r ← orRevert (h.resume env t reply w) .transport
      pure (PublicationHost.settle task r)

abbrev PublicationStep := Machine.Entry PublicationHost PublicationAction PublicationOutput

end Proofmark
