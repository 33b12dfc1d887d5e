/-
  The issuance journal (src/pipeline/issuance-journal.ts).

  Redis executes the script atomically: one hash per request, with a lease that its owner
  may lose by time, and one gate per signer that only a save gives back.  A call of the
  journal can be lost before it is executed, or its response after it.
-/
import Proofmark.Pipeline.Vault
import Mathlib.Logic.Function.Basic

namespace Proofmark

open Revert

abbrev RequestId := Bytes32

inductive IssuancePhase where
  | prepared
  | submitted
  | sourceConfirmed
  | materialized
  | failed
deriving DecidableEq

/-- `lastError` -/
inductive IssuanceFault where
  | preparationExpired
  | notApproved
  | requestAlreadyUsedUnreconciled
  | sourceReverted
  | broadcastUnconfirmed
  | dependencyUnavailable
deriving DecidableEq

structure SignedIssuance where
  hash : Bytes32
  raw : Bytes
  nonce : ℕ
  chainId : ℕ
  source : Address
  issuer : Address
  gasLimit : Option ℕ
deriving DecidableEq

structure SourceConfirmation where
  blockNumber : ℕ
  blockHash : Bytes32
  transactionIndex : ℕ
  confirmedAt : ℕ
  gasUsed : Option ℕ

structure RevertedTransaction where
  hash : Bytes32
  nonce : ℕ
  at_ : ℕ

/-- The target of an issuance; `operatingKey` is present for a rotating issuer. -/
structure IssuanceTarget where
  chainId : ℕ
  source : Address
  issuer : Address
  operatingKey : Option Address

/-- Who signs, and whom the transaction calls. -/
def IssuanceTarget.sender (t : IssuanceTarget) : Address := t.operatingKey.getD t.issuer

def IssuanceTarget.recipient (t : IssuanceTarget) : Address :=
  if t.operatingKey.isSome then t.issuer else t.source

inductive IssueOutcome where
  | issued (expiry : ℕ)
  | denied
  | review
  | rejected
deriving DecidableEq

def IssueOutcome.isIssued : IssueOutcome → Bool
  | .issued _ => true
  | _ => false

def IssueOutcome.expiry : IssueOutcome → Option ℕ
  | .issued expiry => some expiry
  | _ => none

structure IssuanceEntry where
  requestId : RequestId
  prepareUntil : ℕ
  phase : IssuancePhase
  target : IssuanceTarget
  outcome : IssueOutcome
  evidenceRecord : Option VaultRecord
  evidenceStored : Bool
  transaction : Option SignedIssuance
  revertedTransactions : List RevertedTransaction
  sourceConfirmation : Option SourceConfirmation
  broadcastAcceptedAt : Option ℕ
  materializedAt : Option ℕ
  lastError : Option IssuanceFault

structure JournalSnapshot where
  revision : ℕ
  entry : IssuanceEntry

/-- What `signerKey` hashes. -/
structure SignerKey where
  chainId : ℕ
  issuer : Address
deriving DecidableEq

namespace IssuanceEntry

variable (e : IssuanceEntry)

def needsSigner : Bool :=
  e.outcome.isIssued && (decide (e.phase = .prepared) || decide (e.phase = .submitted))

def terminal : Bool := decide (e.phase = .failed) || decide (e.phase = .materialized)

def signerKey : SignerKey := ⟨e.target.chainId, e.target.issuer⟩

end IssuanceEntry

inductive IssuanceJournalError where
  | journalUnavailable
  | retentionDeadlinePassed
  | retentionStateInvalid
  | notFound
  | targetConflict
  | requestBusy
  | signerBusy
  | leaseLost
  | revisionConflict
deriving DecidableEq

/-- The hash of a request; `owner` and `leaseUntil` are set and deleted together. -/
structure IssuanceHash where
  revision : ℕ
  payload : IssuanceEntry
  signer : SignerKey
  needsSigner : Bool
  lease : Option (ℕ × ℕ)
  terminalExpiresAt : Option ℕ

def IssuanceHash.snapshot (h : IssuanceHash) : JournalSnapshot := ⟨h.revision, h.payload⟩

structure IssuanceRedis where
  now : ℕ
  requests : RequestId → Option IssuanceHash
  signers : SignerKey → Option RequestId

def requestLease : ℕ := 30000
def terminalRetention : ℕ := 86400000

/-- The calls that `advanceIssuance` makes. -/
inductive IssuanceCall where
  | get
  | acquire (owner : ℕ) (signer : SignerKey)
  | save (owner : ℕ) (snapshot : JournalSnapshot)
  | release (owner : ℕ)

/-- How a call over the network ends. -/
inductive CallEnd where
  | answered
  | requestLost
  | responseLost
deriving DecidableEq

namespace IssuanceRedis

variable (s : IssuanceRedis) (id : RequestId)

def initial : IssuanceRedis := ⟨0, fun _ => none, fun _ => none⟩

/-- The hash that an operation other than `create` finds. -/
def existing : Except IssuanceJournalError IssuanceHash := do
  let h ← orRevert (s.requests id) .notFound
  revertIf (∃ u ∈ h.terminalExpiresAt, u ≤ s.now) .retentionDeadlinePassed
  pure h

/-- Another request holds the signer. -/
def signerBusy (signer : SignerKey) : Prop := ∃ current ∈ s.signers signer, current ≠ id

-- not the instance for words, which searches them all
instance (signer : SignerKey) : Decidable (s.signerBusy id signer) :=
  Option.decidableExistsMem (s.signers signer)

def acquire (owner : ℕ) (signer : SignerKey) :
    Except IssuanceJournalError (IssuanceRedis × JournalSnapshot) := do
  let h ← s.existing id
  revertIf (h.signer ≠ signer) .targetConflict
  revertIf (∃ l ∈ h.lease, s.now < l.2) .requestBusy
  revertIf (h.needsSigner = true ∧ s.signerBusy id signer) .signerBusy
  pure ({ s with
    requests := Function.update s.requests id
      (some { h with lease := some (owner, s.now + requestLease) })
    signers := if h.needsSigner then Function.update s.signers signer (some id) else s.signers },
    h.snapshot)

def save (owner : ℕ) (snapshot : JournalSnapshot) :
    Except IssuanceJournalError (IssuanceRedis × JournalSnapshot) := do
  let h ← s.existing id
  let entry := snapshot.entry
  revertIf (h.signer ≠ entry.signerKey) .targetConflict
  revertIf (¬ ∃ l ∈ h.lease, l.1 = owner ∧ s.now < l.2) .leaseLost
  revertIf (h.revision ≠ snapshot.revision) .revisionConflict
  revertIf (entry.terminal = true ∧ entry.needsSigner = true) .retentionStateInvalid
  revertIf (entry.needsSigner = true ∧ s.signerBusy id h.signer) .signerBusy
  let saved : IssuanceHash :=
    { h with
      payload := entry
      needsSigner := entry.needsSigner
      lease := some (owner, s.now + requestLease)
      revision := h.revision + 1
      terminalExpiresAt :=
        if entry.terminal then some (h.terminalExpiresAt.getD (s.now + terminalRetention)) else none }
  pure ({ s with
    requests := Function.update s.requests id (some saved)
    signers :=
      if entry.needsSigner then Function.update s.signers h.signer (some id)
      else if s.signers h.signer = some id then Function.update s.signers h.signer none
      else s.signers },
    saved.snapshot)

def release (owner : ℕ) : Except IssuanceJournalError IssuanceRedis := do
  let h ← s.existing id
  pure (if h.lease.map Prod.fst = some owner then
    { s with requests := Function.update s.requests id (some { h with lease := none }) } else s)

/-- `create` by the issue route: an entry that exists stays. -/
def create (entry : IssuanceEntry) : IssuanceRedis :=
  if (s.requests entry.requestId).isSome then s
  else if entry.terminal = true ∧ entry.needsSigner = true then s
  else { s with
    requests := Function.update s.requests entry.requestId (some
      { revision := 1
        payload := entry
        signer := entry.signerKey
        needsSigner := entry.needsSigner
        lease := none
        terminalExpiresAt := if entry.terminal then some (s.now + terminalRetention) else none }) }

/-- One execution of the script. -/
def eval : IssuanceCall → Except IssuanceJournalError (IssuanceRedis × Option JournalSnapshot)
  | .get =>
    match s.existing id with
    | .ok h => .ok (s, some h.snapshot)
    | .error .notFound => .ok (s, none)
    | .error e => .error e
  | .acquire owner signer => (s.acquire id owner signer).map fun r => (r.1, some r.2)
  | .save owner snapshot => (s.save id owner snapshot).map fun r => (r.1, some r.2)
  | .release owner => (s.release id owner).map fun s' => (s', none)

/-- A call, as its caller sees it. -/
def call (c : IssuanceCall) (d : CallEnd) :
    IssuanceRedis × Except IssuanceJournalError (Option JournalSnapshot) :=
  match d, s.eval id c with
  | .requestLost, _ => (s, .error .journalUnavailable)
  | _, .error e => (s, .error e)
  | .answered, .ok (s', r) => (s', .ok r)
  | .responseLost, .ok (s', _) => (s', .error .journalUnavailable)

end IssuanceRedis

end Proofmark
