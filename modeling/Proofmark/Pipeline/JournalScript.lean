/-
  The script `ISSUANCE_JOURNAL_LUA` (src/pipeline/issuance-journal.ts) over all of its keys.

  Beside the hash of a request and the gate of a signer, which IssuanceJournal has, the script
  keeps the expiry time of the hash, the sorted set of pending requests and the set of those
  that hold a gate.  Redis removes a hash at some moment from its expiry time on, which is the
  action `expire` of the machine.
-/
import Proofmark.Pipeline.IssuanceJournal
import Proofmark.Lib.Machine

namespace Proofmark

open Revert Function

/-- The hash at `KEYS[1]`, with the time that `PEXPIRETIME` gives. -/
structure JournalHash extends IssuanceHash where
  expiry : Option ℕ

structure JournalRedis where
  now : ℕ
  requests : RequestId → Option JournalHash
  signers : SignerKey → Option RequestId
  pending : List (RequestId × ℕ)
  activeSigners : List RequestId

/-- The operations, with the arguments that the client of the journal gives them. -/
inductive JournalOp where
  | create (entry : IssuanceEntry)
  | get (id : RequestId)
  | acquire (id : RequestId) (owner : ℕ) (signer : SignerKey)
  | save (owner : ℕ) (snapshot : JournalSnapshot)
  | release (id : RequestId) (owner : ℕ)
  | pending

/-- The request of `KEYS[1]`. -/
def JournalOp.id : JournalOp → RequestId
  | .create entry => entry.requestId
  | .get id | .acquire id _ _ | .release id _ => id
  | .save _ snapshot => snapshot.entry.requestId
  | .pending => 0

/-- Whether the operation may write a deadline: `ARGV[8] == '1'` of a `create` or a `save`. -/
def JournalOp.retains : JournalOp → Bool
  | .create entry => entry.terminal
  | .save _ snapshot => snapshot.entry.terminal
  | _ => false

inductive JournalReply where
  | snapshot (snapshot : JournalSnapshot)
  | released
  | ids (ids : List RequestId)

def maxSafeInteger : ℕ := 9007199254740991

namespace JournalRedis

def initial : JournalRedis := ⟨0, fun _ => none, fun _ => none, [], []⟩

variable (s : JournalRedis) (id : RequestId)

/-- What the script checks before any operation; `capable` is the answer of `acl_check_cmd`. -/
def prelude (capable : Bool) (op : JournalOp) : Except IssuanceJournalError Unit := do
  revertIf (op.retains = true ∧ capable = false) .journalUnavailable
  let saved := (s.requests op.id).bind fun h => h.terminalExpiresAt
  revertIf (∃ u ∈ saved, u = 0 ∨ maxSafeInteger < u) .retentionStateInvalid
  revertIf (∃ u ∈ saved, u ≤ s.now) .retentionDeadlinePassed

/-- The deadline of a completion: the saved one, or the expiry of the key if it is earlier. -/
def terminalDeadline (h : JournalHash) : ℕ :=
  match h.terminalExpiresAt, h.expiry with
  | some saved, some current => min current saved
  | some saved, none => saved
  | none, some current => current
  | none, none => s.now + terminalRetention

/-- `ZREM` -/
def zrem : JournalRedis := { s with pending := s.pending.filter fun p => p.1 ≠ id }

/-- `ZADD NX now` -/
def zadd : JournalRedis :=
  if s.pending.any fun p => p.1 = id then s else { s with pending := s.pending ++ [(id, s.now)] }

/-- `retain` -/
def retain (h : JournalHash) (terminalUntil : ℕ) : JournalRedis :=
  if h.payload.terminal then
    let h := { h with terminalExpiresAt := some terminalUntil, expiry := some terminalUntil }
    { s with requests := update s.requests id (some h) }.zrem id
  else
    let h := { h with terminalExpiresAt := none, expiry := none }
    { s with requests := update s.requests id (some h) }.zadd id

/-- `SET` of the gate and `SADD` -/
def hold (signer : SignerKey) : JournalRedis :=
  { s with
    signers := update s.signers signer (some id)
    activeSigners := s.activeSigners.insert id }

/-- `DEL` of the gate, if it is that of the request, and `SREM` -/
def giveBack (signer : SignerKey) : JournalRedis :=
  { s with
    signers := if s.signers signer = some id then update s.signers signer none else s.signers
    activeSigners := s.activeSigners.filter (· ≠ id) }

/-- Another request holds the signer. -/
def signerBusy (signer : SignerKey) : Prop := ∃ current ∈ s.signers signer, current ≠ id

-- not the instance for words, which searches them all
instance (signer : SignerKey) : Decidable (s.signerBusy id signer) :=
  Option.decidableExistsMem (s.signers signer)

/-- The holders of the gates, then the first thousand of the sorted set. -/
def pendingIds : List RequestId :=
  let ranked := s.pending.mergeSort fun p q => p.2 < q.2 || (p.2 = q.2 && p.1 ≤ q.1)
  s.activeSigners ++ ((ranked.take 1000).map Prod.fst).filter fun id => id ∉ s.activeSigners

def create (entry : IssuanceEntry) : Except IssuanceJournalError (JournalRedis × JournalReply) :=
  match s.requests entry.requestId with
  | some h => .ok (s, .snapshot h.snapshot)
  | none => do
    revertIf (entry.terminal = true ∧ entry.needsSigner = true) .retentionStateInvalid
    let h : JournalHash :=
      { revision := 1
        payload := entry
        signer := entry.signerKey
        needsSigner := entry.needsSigner
        lease := none
        terminalExpiresAt := none
        expiry := none }
    pure (s.retain entry.requestId h (s.now + terminalRetention), .snapshot h.snapshot)

def acquire (owner : ℕ) (signer : SignerKey) :
    Except IssuanceJournalError (JournalRedis × JournalReply) := do
  let h ← orRevert (s.requests id) .notFound
  revertIf (h.signer ≠ signer) .targetConflict
  revertIf (∃ l ∈ h.lease, s.now < l.2) .requestBusy
  revertIf (h.needsSigner = true ∧ s.signerBusy id signer) .signerBusy
  let h' := { h with lease := some (owner, s.now + requestLease) }
  let s' := if h.needsSigner then s.hold id signer else s
  pure ({ s' with requests := update s.requests id (some h') }, .snapshot h.snapshot)

def save (owner : ℕ) (snapshot : JournalSnapshot) :
    Except IssuanceJournalError (JournalRedis × JournalReply) := do
  let entry := snapshot.entry
  let h ← orRevert (s.requests entry.requestId) .notFound
  revertIf (h.signer ≠ entry.signerKey) .targetConflict
  revertIf (¬ ∃ l ∈ h.lease, l.1 = owner ∧ s.now < l.2) .leaseLost
  revertIf (h.revision ≠ snapshot.revision) .revisionConflict
  revertIf (entry.terminal = true ∧ entry.needsSigner = true) .retentionStateInvalid
  revertIf (entry.needsSigner = true ∧ s.signerBusy entry.requestId h.signer) .signerBusy
  let s' := if entry.needsSigner then s.hold entry.requestId h.signer
    else s.giveBack entry.requestId h.signer
  let h' := { h with
    payload := entry
    needsSigner := entry.needsSigner
    lease := some (owner, s.now + requestLease)
    revision := h.revision + 1 }
  pure (s'.retain entry.requestId h' (s.terminalDeadline h), .snapshot h'.snapshot)

def release (owner : ℕ) : Except IssuanceJournalError (JournalRedis × JournalReply) := do
  let h ← orRevert (s.requests id) .notFound
  let s' := if h.lease.map Prod.fst = some owner then
    { s with requests := update s.requests id (some { h with lease := none }) } else s
  pure (s', .released)

/-- The operation after the checks. -/
def perform : JournalOp → Except IssuanceJournalError (JournalRedis × JournalReply)
  | .create entry => s.create entry
  | .get id => (orRevert (s.requests id) .notFound).map fun h => (s, .snapshot h.snapshot)
  | .acquire id owner signer => s.acquire id owner signer
  | .save owner snapshot => s.save owner snapshot
  | .release id owner => s.release id owner
  | .pending => .ok (s, .ids s.pendingIds)

/-- The script. -/
def script (capable : Bool) (op : JournalOp) :
    Except IssuanceJournalError (JournalRedis × JournalReply) := do
  s.prelude capable op
  s.perform op

end JournalRedis

/-- A run of the script at a time, or the removal of a hash whose expiry has come. -/
inductive JournalAction where
  | eval (now : ℕ) (capable : Bool) (op : JournalOp)
  | expire (now : ℕ) (id : RequestId)

inductive JournalRefusal where
  | clockBackwards
  | notDue
  | rejected (e : IssuanceJournalError)

/-- The journal as a machine; a rejected operation writes nothing. -/
def JournalRedis.machine :
    Machine JournalRedis JournalAction (Option JournalReply) JournalRefusal where
  step s
    | .eval now capable op => do
      revertIf (now < s.now) .clockBackwards
      let (s', reply) ← ({ s with now := now }.script capable op).mapError .rejected
      pure (s', some reply)
    | .expire now id => do
      revertIf (now < s.now) .clockBackwards
      revertIf (((s.requests id).bind JournalHash.expiry).all fun u => now < u) .notDue
      pure ({ s with now := now, requests := update s.requests id none }, none)

abbrev JournalStep := Machine.Entry JournalRedis JournalAction (Option JournalReply)

end Proofmark
