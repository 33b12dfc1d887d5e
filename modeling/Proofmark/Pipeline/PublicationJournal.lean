/-
  The epoch publication journal (src/pipeline/epoch-publication-journal.ts), on its
  durable file (src/pipeline/vault-atomic.ts).

  The file holds the entries; its envelope and its encryption are round trips, and only
  its size matters.  What the journal takes from its libraries is the environment: the
  hash of an intent, the ABI check of the calldata and the parser of signed transactions.
-/
import Proofmark.Evm.Types
import Proofmark.Lib.Keyed
import Proofmark.Lib.Machine

namespace Proofmark

open Revert

/-- How `writeVaultEnvelope` ends: acknowledged, or thrown before or after its rename. -/
inductive EnvelopeWrite where
  | acknowledged
  | beforeRename
  | afterRename
deriving DecidableEq

/-- `Number.isSafeInteger(n) && n >= min` -/
def safeInteger (n : ℤ) (min : ℤ) : Prop := n.natAbs < 2 ^ 53 ∧ min ≤ n

instance (n min : ℤ) : Decidable (safeInteger n min) := inferInstanceAs (Decidable (_ ∧ _))

def lowerHex (c : Char) : Bool := c.isDigit || ('a' ≤ c && c ≤ 'f')

/-- `/^0x[0-9a-f]{64}$/` -/
def isHash (s : String) : Bool :=
  match s.toList with
  | '0' :: 'x' :: digits => digits.length == 64 && digits.all lowerHex
  | _ => false

/-- `/^0x(?:[0-9a-f]{2})+$/` -/
def isHexBytes (s : String) : Bool :=
  match s.toList with
  | '0' :: 'x' :: digits => digits ≠ [] && digits.length % 2 == 0 && digits.all lowerHex
  | _ => false

inductive PublicationError where
  | intentInvalid
  | transactionMismatch
  | journalUnavailable
  | abandonmentInvalid
  | confirmationInvalid
  | journalClosed
  | writeUnconfirmed
  | journalCapacity
  | journalBusy
  | pending
  | notFound
  | abandoned
  | replacementForbidden
  | nonceReused
  | confirmationConflict
  | signedCannotAbandon
  | confirmationChanged
  | transport
deriving DecidableEq

structure PublicationScope where
  chainId : ℕ
  source : Address
  publisher : Address

structure SourceCutoff where
  blockNumber : ℤ
  blockHash : String
deriving DecidableEq

structure PublicationAvailability where
  version : ℤ
  seedHash : String
  replicaCount : ℤ
deriving DecidableEq

structure PublicationIntent where
  calldata : String
  sourceCutoff : SourceCutoff
  availability : Option PublicationAvailability
  createdAt : ℤ
deriving DecidableEq

structure PublicationTransaction where
  raw : String
  hash : String
  nonce : ℤ
deriving DecidableEq

structure PublicationConfirmation where
  transactionHash : String
  blockNumber : ℤ
  blockHash : String
  status : ℤ
  confirmations : ℤ
  observedAt : ℤ
deriving DecidableEq

/-- The reason of an abandonment is always `UNSIGNED_PLAN_CANCELLED`. -/
structure PublicationAbandonment where
  at_ : ℤ
deriving DecidableEq

structure PublicationEntry where
  id : String
  intent : PublicationIntent
  transaction : Option PublicationTransaction
  confirmation : Option PublicationConfirmation
  abandonment : Option PublicationAbandonment
deriving DecidableEq

/-- What `ethers.Transaction.from` reads off raw bytes. -/
structure EthersTransaction where
  serialized : String
  isSigned : Bool
  hash : Option String
  from_ : Option Address
  chainId : ℕ
  to_ : Option Address
  value : ℕ
  data : String
  nonce : ℤ

/-- The journal's scope and what it takes from its libraries. -/
structure PublicationEnv where
  scope : PublicationScope
  id : PublicationIntent → String
  isPublishCall : String → Bool
  parseTransaction : String → Option EthersTransaction
  envelopeBytes : List PublicationEntry → ℕ

def publicationMaxBytes : ℕ := 8 * 1024 * 1024

namespace PublicationEnv

variable (env : PublicationEnv)

def intentValue (value : PublicationIntent) : Except PublicationError Unit := do
  revertIf (¬ isHexBytes value.calldata) .intentInvalid
  revertIf (value.calldata.length > 512 * 1024 + 2) .intentInvalid
  revertIf (¬ safeInteger value.createdAt 0) .intentInvalid
  revertIf (¬ safeInteger value.sourceCutoff.blockNumber 1) .intentInvalid
  revertIf (¬ isHash value.sourceCutoff.blockHash) .intentInvalid
  revertIf (value.availability.any fun a => a.version ≠ 1 ∨ a.seedHash.length ≠ 64 ∨
    ¬ a.seedHash.toList.all lowerHex ∨ ¬ safeInteger a.replicaCount 2) .intentInvalid
  revertIf (¬ env.isPublishCall value.calldata) .intentInvalid

def boundTransaction (raw : String) (intent : PublicationIntent) :
    Except PublicationError PublicationTransaction := do
  revertIf (raw.length > 520 * 1024) .transactionMismatch
  let tx ← orRevert (env.parseTransaction raw) .transactionMismatch
  let hash ← orRevert tx.hash .transactionMismatch
  revertIf (¬ tx.isSigned ∨ tx.chainId ≠ env.scope.chainId ∨
    tx.from_ ≠ some env.scope.publisher ∨ tx.to_ ≠ some env.scope.source ∨ tx.value ≠ 0 ∨
    tx.data ≠ intent.calldata ∨ ¬ safeInteger tx.nonce 0) .transactionMismatch
  pure { raw := tx.serialized, hash := hash, nonce := tx.nonce }

def validateTransaction (entry : PublicationEntry) : Except PublicationError Unit :=
  match entry.transaction with
  | none => .ok ()
  | some t => do
    let bound ← env.boundTransaction t.raw entry.intent
    revertIf (t ≠ bound) .transactionMismatch

/-- The checks of a confirmation; `last` says that no entry follows. -/
def validateConfirmation (entry : PublicationEntry) (last : Bool) : Except PublicationError Unit :=
  match entry.confirmation with
  | none => revertIf (¬ last) .journalUnavailable
  | some c => do
    let t ← orRevert entry.transaction .confirmationInvalid
    revertIf (c.transactionHash ≠ t.hash ∨ ¬ safeInteger c.blockNumber 1 ∨
      ¬ isHash c.blockHash ∨ ¬ (c.status = 0 ∨ c.status = 1) ∨ ¬ safeInteger c.confirmations 1 ∨
      ¬ safeInteger c.observedAt entry.intent.createdAt) .confirmationInvalid

/-- The checks of one entry after its id. -/
def validateEntry (entry : PublicationEntry) (last : Bool) : Except PublicationError Unit :=
  match entry.abandonment with
  | some a =>
    revertIf (entry.transaction.isSome ∨ entry.confirmation.isSome ∨
      ¬ safeInteger a.at_ entry.intent.createdAt) .abandonmentInvalid
  | none => do
    env.validateTransaction entry
    validateConfirmation entry last

/-- The loop of `validate`, after entries with the given ids. -/
def validateEntries : List String → List PublicationEntry → Except PublicationError Unit
  | _, [] => .ok ()
  | ids, entry :: rest => do
    env.intentValue entry.intent
    revertIf (entry.id ≠ env.id entry.intent ∨ entry.id ∈ ids) .journalUnavailable
    env.validateEntry entry rest.isEmpty
    validateEntries (entry.id :: ids) rest

def validate (entries : List PublicationEntry) : Except PublicationError Unit := do
  revertIf (entries.length > 1000) .journalUnavailable
  env.validateEntries [] entries

end PublicationEnv

namespace PublicationEntry

/-- `entries.find(e => e.id === id)` -/
def find (id : String) (entries : List PublicationEntry) : Option PublicationEntry :=
  Keyed.find PublicationEntry.id id entries

/-- The entries with the found entry changed. -/
def change (id : String) (f : PublicationEntry → PublicationEntry)
    (entries : List PublicationEntry) : List PublicationEntry :=
  Keyed.change PublicationEntry.id id f entries

/-- Neither confirmed nor abandoned. -/
def unresolved (e : PublicationEntry) : Bool := e.confirmation.isNone && e.abandonment.isNone

/-- The nonces of the signed entries. -/
def nonces (entries : List PublicationEntry) : List ℤ :=
  entries.filterMap fun e => e.transaction.map PublicationTransaction.nonce

end PublicationEntry

inductive JournalCall where
  | begin_ (value : PublicationIntent)
  | prepare (id raw : String)
  | confirm (id : String) (value : PublicationConfirmation)
  | abandonUnsigned (id : String) (at_ : ℤ)

namespace PublicationEnv

open PublicationEntry

variable (env : PublicationEnv) (entries : List PublicationEntry)

/-- An operation on the entries returns its entry and, when it writes, the entries to save. -/
abbrev JournalPlan := Except PublicationError (PublicationEntry × Option (List PublicationEntry))

def begin_ (value : PublicationIntent) : JournalPlan := do
  env.intentValue value
  match find (env.id value) entries with
  | some same => pure (same, none)
  | none =>
    revertIf (entries.any unresolved) .pending
    revertIf (entries.length ≥ 1000) .journalCapacity
    let entry : PublicationEntry := ⟨env.id value, value, none, none, none⟩
    pure (entry, some (entries ++ [entry]))

def prepare (id raw : String) : JournalPlan := do
  let entry ← orRevert (find id entries) .notFound
  revertIf entry.abandonment.isSome .abandoned
  let transaction ← env.boundTransaction raw entry.intent
  match entry.transaction with
  | some t =>
    revertIf (t.raw ≠ transaction.raw) .replacementForbidden
    pure (entry, none)
  | none =>
    revertIf (transaction.nonce ∈ nonces entries) .nonceReused
    let signed : PublicationEntry := { entry with transaction := some transaction }
    pure (signed, some (change id (fun _ => signed) entries))

def confirm (id : String) (confirmation : PublicationConfirmation) : JournalPlan := do
  let entry ← orRevert (find id entries) .notFound
  match entry.confirmation with
  | some c =>
    revertIf (c ≠ confirmation) .confirmationConflict
    pure (entry, none)
  | none =>
    let confirmed : PublicationEntry := { entry with confirmation := some confirmation }
    pure (confirmed, some (change id (fun _ => confirmed) entries))

def abandonUnsigned (id : String) (at_ : ℤ) : JournalPlan := do
  let entry ← orRevert (find id entries) .notFound
  revertIf (entry.transaction.isSome ∨ entry.confirmation.isSome) .signedCannotAbandon
  match entry.abandonment with
  | some _ => pure (entry, none)
  | none =>
    let abandoned : PublicationEntry := { entry with abandonment := some ⟨at_⟩ }
    pure (abandoned, some (change id (fun _ => abandoned) entries))

def plan : JournalCall → JournalPlan
  | .begin_ value => env.begin_ entries value
  | .prepare id raw => env.prepare entries id raw
  | .confirm id value => confirm entries id value
  | .abandonUnsigned id at_ => abandonUnsigned entries id at_

end PublicationEnv

/-- An open journal; `instance_` tells the objects opened on one path apart. -/
structure PublicationJournal where
  instance_ : ℕ
  entries : List PublicationEntry
  poisoned : Bool

inductive AdvancePc where
  | observing
  | checking
  | preparing
  | rechecking
  | reobserving
  | broadcasting
  | settling
deriving DecidableEq

/-- A call of `advancePublication`, between two of its awaits. -/
structure AdvanceTask where
  journal : ℕ
  entry : PublicationEntry
  pc : AdvancePc

/-- The path of a journal, its lock file, and the process that uses it. -/
structure PublicationHost where
  file : Option (List PublicationEntry)
  lock : Bool
  opened : ℕ
  journal : Option PublicationJournal
  tasks : ℕ → Option AdvanceTask

namespace PublicationHost

variable (env : PublicationEnv) (h : PublicationHost)

def initial : PublicationHost := ⟨none, false, 0, none, fun _ => none⟩

/-- `assertOpen`, of the journal object `i`. -/
def assertOpen (i : ℕ) : Except PublicationError PublicationJournal := do
  let j ← orRevert h.journal .journalClosed
  revertIf (j.instance_ ≠ i) .journalClosed
  revertIf j.poisoned .writeUnconfirmed
  pure j

/-- `save` of an open journal. -/
def save (j : PublicationJournal) (next : List PublicationEntry) (w : EnvelopeWrite) :
    PublicationHost × Except PublicationError Unit :=
  match env.validate next with
  | .error e => (h, .error e)
  | .ok _ =>
    if env.envelopeBytes next > publicationMaxBytes then (h, .error .journalCapacity)
    else match w with
      | .acknowledged =>
        ({ h with file := some next, journal := some { j with entries := next } }, .ok ())
      | .beforeRename =>
        ({ h with journal := some { j with poisoned := true } }, .error .writeUnconfirmed)
      | .afterRename =>
        ({ h with file := some next, journal := some { j with poisoned := true } },
          .error .writeUnconfirmed)

/-- An operation of the journal object `i`. -/
def call (i : ℕ) (c : JournalCall) (w : EnvelopeWrite) :
    PublicationHost × Except PublicationError PublicationEntry :=
  match h.assertOpen i with
  | .error e => (h, .error e)
  | .ok j =>
    match env.plan j.entries c with
    | .error e => (h, .error e)
    | .ok (entry, none) => (h, .ok entry)
    | .ok (entry, some next) =>
      let (h', r) := h.save env j next w
      (h', r.map fun _ => entry)

/-- The entries that the constructor reads. -/
def load : Except PublicationError (List PublicationEntry) :=
  match h.file with
  | none => .ok []
  | some entries => do
    revertIf (env.envelopeBytes entries > publicationMaxBytes) .journalUnavailable
    (env.validate entries).mapError fun _ => .journalUnavailable
    pure entries

/-- The constructor. -/
def open_ : Except PublicationError PublicationHost := do
  revertIf h.lock .journalBusy
  let entries ← h.load env
  pure { h with lock := true, opened := h.opened + 1, journal := some ⟨h.opened + 1, entries, false⟩ }

/-- `close`, where removing the lock may fail. -/
def close (unlinked : Bool) : PublicationHost :=
  match h.journal with
  | none => h
  | some j => { h with journal := none, lock := j.poisoned || !unlinked }

end PublicationHost

end Proofmark
