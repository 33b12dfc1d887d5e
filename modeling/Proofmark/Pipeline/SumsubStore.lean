/-
  The Redis store of Sumsub sessions (src/pipeline/providers/sumsub-redis.ts) with the
  lifetimes of its keys.

  The three keys of a session are those of SumsubSession; here each may be missing.  The record
  lives as long as it was created for, the hash is renewed by every accepted callback.  Redis
  removes a key at some moment from its deadline on.
-/
import Proofmark.Pipeline.SumsubSession

namespace Proofmark

open Revert

/-- The hash at `KEYS[3]`; a `save` that finds none makes one without a lifetime. -/
structure SumsubLatest where
  revision : ℕ
  eventAt : Option ℕ
  applicant : Option Bytes32
  deadline : Option ℕ
deriving DecidableEq

/-- The keys of one session: the record with its deadline, the events with theirs, the hash. -/
structure SumsubRedis where
  now : ℕ
  record : Option (SumsubRecord × ℕ)
  events : List (String × ℕ)
  latest : Option SumsubLatest

inductive SumsubOp where
  | create
  | get
  | save (evidence : SumsubEvidence) (expectedRevision : ℕ)
  | webhook (webhook : SumsubWebhook) (applicant : Bytes32) (evidence : SumsubEvidence)
      (expectedRevision : ℕ)

inductive SumsubReply where
  | fresh
  | existing (record : SumsubRecord)
  | ok
  | record (record : SumsubRecord)
  | missing
  | revisionConflict
  | fenced
  | conflict
  | duplicate
  | stale

namespace SumsubRedis

def empty : SumsubRedis := ⟨0, none, [], none⟩

variable (ttl : ℕ) (s : SumsubRedis)

/-- `HGET revision`, or zero. -/
def revision : ℕ := s.latest.elim 0 SumsubLatest.revision

/-- `HGET eventAt`, or zero. -/
def eventAt : ℕ := (s.latest.bind SumsubLatest.eventAt).getD 0

/-- `HINCRBY revision 1`, on the hash that is there. -/
def incremented : SumsubLatest :=
  { s.latest.getD ⟨0, none, none, none⟩ with revision := s.revision + 1 }

/-- `SET KEEPTTL` -/
def setRecord (record : SumsubRecord) : Option (SumsubRecord × ℕ) :=
  s.record.map fun r => (record, r.2)

def create : SumsubRedis × SumsubReply :=
  match s.record with
  | some old => (s, .existing old.1)
  | none =>
    ({ s with
      record := some (⟨1, none⟩, s.now + ttl)
      latest := some { s.latest.getD ⟨0, none, none, none⟩ with
        revision := 1, deadline := some (s.now + ttl) } }, .fresh)

def save (evidence : SumsubEvidence) (expectedRevision : ℕ) : SumsubRedis × SumsubReply :=
  let reviewedAt := evidence.providerReviewedAt.getD 0
  let carriedFence := (evidence.webhookFence.map WebhookFence.eventAt).getD 0
  if s.record.isNone then (s, .missing)
  else if s.revision ≠ expectedRevision then (s, .revisionConflict)
  else if reviewedAt < s.eventAt ∧ carriedFence < s.eventAt then (s, .fenced)
  else ({ s with
    record := s.setRecord ⟨expectedRevision + 1, some evidence⟩
    latest := some s.incremented }, .ok)

def webhook (w : SumsubWebhook) (applicant : Bytes32) (evidence : SumsubEvidence)
    (expectedRevision : ℕ) : SumsubRedis × SumsubReply :=
  if s.record.isNone then (s, .conflict)
  else if s.events.any (fun e => e.1 = w.digest) then (s, .duplicate)
  else if s.revision ≠ expectedRevision then (s, .revisionConflict)
  else if (s.latest.bind SumsubLatest.applicant).any (fun a => a ≠ applicant) then (s, .conflict)
  else if w.createdAtMs ≤ s.eventAt then (s, .stale)
  else ({ s with
    record := s.setRecord ⟨expectedRevision + 1, some evidence⟩
    events := (w.digest, s.now + ttl) :: s.events
    latest := some { s.incremented with
      eventAt := some w.createdAtMs, applicant := some applicant, deadline := some (s.now + ttl) } },
    .fresh)

/-- The script. -/
def script : SumsubOp → SumsubRedis × SumsubReply
  | .create => s.create ttl
  | .get => (s, match s.record with
    | some r => .record r.1
    | none => .missing)
  | .save evidence expectedRevision => s.save evidence expectedRevision
  | .webhook w applicant evidence expectedRevision => s.webhook ttl w applicant evidence expectedRevision

end SumsubRedis

/-- A run of the script at a time, or the removal of a key whose deadline has come. -/
inductive SumsubRedisAction where
  | eval (now : ℕ) (op : SumsubOp)
  | expireRecord (now : ℕ)
  | expireEvent (now : ℕ) (digest : String)
  | expireLatest (now : ℕ)

inductive SumsubRedisError where
  | clockBackwards
  | notDue

/-- The store of one session, with keys that live for `ttl`. -/
def SumsubRedis.machine (ttl : ℕ) :
    Machine SumsubRedis SumsubRedisAction (Option SumsubReply) SumsubRedisError where
  step s
    | .eval now op => do
      revertIf (now < s.now) .clockBackwards
      let (s', reply) := { s with now := now }.script ttl op
      pure (s', some reply)
    | .expireRecord now => do
      revertIf (now < s.now) .clockBackwards
      revertIf (s.record.all fun r => now < r.2) .notDue
      pure ({ s with now := now, record := none }, none)
    | .expireEvent now digest => do
      revertIf (now < s.now) .clockBackwards
      revertIf (s.events.any fun e => e.1 = digest ∧ now < e.2) .notDue
      pure ({ s with now := now, events := s.events.filter fun e => e.1 ≠ digest }, none)
    | .expireLatest now => do
      revertIf (now < s.now) .clockBackwards
      revertIf ((s.latest.bind SumsubLatest.deadline).all fun d => now < d) .notDue
      pure ({ s with now := now, latest := none }, none)

abbrev SumsubRedisStep := Machine.Entry SumsubRedis SumsubRedisAction (Option SumsubReply)

end Proofmark
