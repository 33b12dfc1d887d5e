/-
  The writer of the evidence vault (`load`, `mutate`, `acquireLock` and `flush` of
  src/pipeline/vault.ts, src/pipeline/vault-atomic.ts).

  Instances in any number of processes interleave by single file-system calls, each of which
  is done or fails.  A failed `existsSync` answers that there is no file.  The envelope on
  disk is a key and the data; the keys of instances and of the file may differ.
-/
import Mathlib.Logic.Function.Basic
import Proofmark.Lib.Machine

namespace Proofmark

open Function

namespace VaultWriter

/-- `VaultData`: the revision, and the content that the operations change. -/
structure Data (δ : Type) where
  revision : ℕ
  content : δ
deriving DecidableEq

/-- What `operation()` leaves in memory. -/
inductive Effect (δ : Type) where
  | returned (content : δ)
  | threw (content : δ)
deriving DecidableEq

inductive Command (κ δ : Type) where
  /-- `mutate(operation, writeKey)`; a new key is taken over at the end -/
  | mutate (operation : δ → Effect δ) (newKey : Option κ)
  /-- the methods that load and read -/
  | read
  | createBackup

/-- How a command ends. -/
inductive Outcome (δ : Type) where
  | returned
  | viewed (data : Data δ)
  /-- `VAULT_WRITE_UNCONFIRMED` -/
  | unconfirmed
  | threw
deriving DecidableEq

/-- `retainLock` -/
def Outcome.retainLock {δ : Type} : Outcome δ → Bool
  | .unconfirmed => true
  | _ => false

/-- The file-system call that a command is about to make. -/
inductive Call where
  | mkdir
  | openLock
  | writeLock
  | exists_
  | readFile
  /-- encryption, no call -/
  | encrypt
  /-- the private temporary file: open, write, fsync and close -/
  | writeTemp
  | rename
  | syncDirectory
  /-- `load()` in the catch clause -/
  | existsAgain
  | readAgain
  | writeBackup
  | closeLock
  | unlinkLock
  | existsToRead
  | readToRead
deriving DecidableEq

/-- The calls between the creation of the lock file and its removal. -/
def Call.holdsLock : Call → Bool
  | .mkdir | .openLock | .existsToRead | .readToRead => false
  | _ => true

/-- A command under way, with the outcome that its `finally` clause is to report. -/
structure Task (κ δ : Type) where
  id : ℕ
  command : Command κ δ
  call : Call
  outcome : Outcome δ

/-- `EvidenceVault` -/
structure Vault (κ δ : Type) where
  key : κ
  data : Data δ
  writeUnconfirmed : Bool
  task : Option (Task κ δ)

/-- The envelope in the file. -/
structure Envelope (κ δ : Type) where
  key : κ
  data : Data δ
deriving DecidableEq

/-- A rename over the file, with the data that it replaced. -/
structure Commit (δ : Type) where
  id : ℕ
  operation : δ → Effect δ
  pre : Data δ
  post : Data δ

structure World (κ δ : Type) where
  file : Option (Envelope κ δ)
  /-- the instance that created the lock file -/
  lock : Option ℕ
  vaults : ℕ → Option (Vault κ δ)
  nextId : ℕ
  commits : List (Commit δ)
  outcomes : List (ℕ × Outcome δ)

variable {κ δ : Type} [DecidableEq κ] (empty : δ)

/-- The data of the file; a missing file is an empty vault. -/
def World.committed (w : World κ δ) : Data δ := (w.file.map Envelope.data).getD ⟨0, empty⟩

/-- The data that the key opens. -/
def World.decrypt (w : World κ δ) (key : κ) : Option (Data δ) :=
  w.file.bind fun e => if e.key = key then some e.data else none

section
variable (w : World κ δ) (i : ℕ) (v : Vault κ δ) (t : Task κ δ)

def World.set (v : Option (Vault κ δ)) : World κ δ := { w with vaults := update w.vaults i v }

/-- The command goes on to another call. -/
def World.goto (call : Call) (outcome : Outcome δ) : World κ δ :=
  w.set i (some { v with task := some { t with call, outcome } })

/-- The command ends. -/
def World.finish (outcome : Outcome δ) : World κ δ :=
  { w.set i (some { v with task := none }) with outcomes := w.outcomes ++ [(t.id, outcome)] }

/-- `this.data = this.load()` is done, and `operation()` runs. -/
def World.operate (data : Data δ) : World κ δ :=
  match t.command with
  | .mutate operation _ =>
    match operation data.content with
    | .returned content =>
      w.goto i { v with data := ⟨data.revision + 1, content⟩ } t .encrypt t.outcome
    | .threw content => w.goto i { v with data := { data with content } } t .existsAgain .threw
  | .createBackup => w.goto i { v with data } t .writeBackup t.outcome
  | .read => w.finish i { v with data } t (.viewed data)

/-- A `VaultWriteError` in the body of `mutate`. -/
def World.unconfirmed : World κ δ :=
  w.goto i { v with writeUnconfirmed := true } t .existsAgain .unconfirmed

/-- The key that `flush` encrypts with. -/
def Command.writeKey (c : Command κ δ) (key : κ) : κ :=
  match c with
  | .mutate _ newKey => newKey.getD key
  | _ => key

/-- `unlinkSync(lockPath)` is done; `rotateKey` takes the new key over. -/
def World.release : World κ δ :=
  { w with lock := none }.finish i
    (match t.outcome with
      | .returned => { v with key := t.command.writeKey v.key }
      | _ => v) t t.outcome

/-- The next call of a command, done or failed. -/
def World.call (ok : Bool) : World κ δ :=
  match t.call with
  | .mkdir => if ok then w.goto i v t .openLock t.outcome else w.finish i v t .threw
  | .openLock =>
    -- a lock that stays until the deadline is a failure as well
    if ok = false then w.finish i v t .threw
    else if w.lock.isSome then w
    else { w with lock := some i }.goto i v t .writeLock t.outcome
  | .writeLock =>
    match t.command, ok with
    | .createBackup, true => w.goto i v t .readFile t.outcome
    | .createBackup, false =>
      w.goto i { v with writeUnconfirmed := true } t .closeLock .unconfirmed
    | _, true => w.goto i v t .exists_ t.outcome
    | _, false => w.unconfirmed i v t
  | .exists_ =>
    if ok = true ∧ w.file.isSome = true then w.goto i v t .readFile t.outcome
    else w.operate i v t ⟨0, empty⟩
  | .readFile =>
    match (if ok then w.decrypt v.key else none), t.command with
    | some data, _ => w.operate i v t data
    | none, .createBackup => w.goto i v t .closeLock .threw
    | none, _ => w.goto i v t .existsAgain .threw
  | .encrypt =>
    if ok then w.goto i v t .writeTemp t.outcome else w.goto i v t .existsAgain .threw
  | .writeTemp => if ok then w.goto i v t .rename t.outcome else w.unconfirmed i v t
  | .rename =>
    match t.command, ok with
    | .mutate operation _, true =>
      ({ w with
        file := some ⟨t.command.writeKey v.key, v.data⟩
        commits := w.commits ++ [⟨t.id, operation, w.committed empty, v.data⟩] } :
          World κ δ).goto i v t .syncDirectory t.outcome
    | _, _ => w.unconfirmed i v t
  | .syncDirectory =>
    if ok then w.goto i v t .closeLock .returned else w.unconfirmed i v t
  | .existsAgain =>
    if ok = true ∧ w.file.isSome = true then w.goto i v t .readAgain t.outcome
    else w.goto i { v with data := ⟨0, empty⟩ } t .closeLock t.outcome
  | .readAgain =>
    match (if ok then w.decrypt v.key else none) with
    | some data => w.goto i { v with data } t .closeLock t.outcome
    | none => w.goto i v t .closeLock t.outcome
  | .writeBackup => w.goto i v t .closeLock (if ok then .viewed v.data else .threw)
  | .closeLock =>
    if ok = false then w.finish i { v with writeUnconfirmed := true } t .unconfirmed
    else if t.outcome.retainLock then w.finish i v t .unconfirmed
    else w.goto i v t .unlinkLock t.outcome
  | .unlinkLock =>
    if ok then w.release i v t
    else w.finish i { v with writeUnconfirmed := true } t .unconfirmed
  | .existsToRead =>
    if ok = true ∧ w.file.isSome = true then w.goto i v t .readToRead t.outcome
    else w.operate i v t ⟨0, empty⟩
  | .readToRead =>
    match (if ok then w.decrypt v.key else none) with
    | some data => w.operate i v t data
    | none => w.finish i v t .threw

end

inductive Action (κ δ : Type) where
  /-- the constructor, which loads -/
  | create (i : ℕ) (key : κ) (existsOk readOk : Bool)
  | start (i : ℕ) (command : Command κ δ)
  | call (i : ℕ) (ok : Bool)
  | crash (i : ℕ)
  /-- the operator removes the lock file of an owner that is dead or done -/
  | removeLock

/-- The instance is between the creation of the lock file and its removal. -/
def World.holds (w : World κ δ) (i : ℕ) : Bool :=
  (w.vaults i).any fun v => v.task.any fun t => t.call.holdsLock

/-- `load()` in the constructor -/
def World.load (w : World κ δ) (key : κ) (existsOk readOk : Bool) : Option (Data δ) :=
  if existsOk = true ∧ w.file.isSome = true then if readOk then w.decrypt key else none
  else some ⟨0, empty⟩

/-- A command of an idle instance. -/
def World.start (w : World κ δ) (i : ℕ) (v : Vault κ δ) (command : Command κ δ) : World κ δ :=
  let w' := { w with nextId := w.nextId + 1 }
  match command, v.writeUnconfirmed with
  | .mutate .., true => { w' with outcomes := w.outcomes ++ [(w.nextId, .unconfirmed)] }
  | .read, _ => w'.goto i v ⟨w.nextId, command, .existsToRead, .threw⟩ .existsToRead .threw
  | _, _ => w'.goto i v ⟨w.nextId, command, .mkdir, .threw⟩ .mkdir .threw

/-- One step of a process, or of the operator. -/
def step (w : World κ δ) : Action κ δ → Option (World κ δ)
  | .create i key existsOk readOk => do
    guard (w.vaults i).isNone
    let data ← w.load empty key existsOk readOk
    pure (w.set i (some ⟨key, data, false, none⟩))
  | .start i command => do
    let v ← w.vaults i
    guard v.task.isNone
    pure (w.start i v command)
  | .call i ok => do
    let v ← w.vaults i
    let t ← v.task
    pure (w.call empty i v t ok)
  | .crash i => pure (w.set i none)
  | .removeLock => do
    guard (w.lock.all fun i => !w.holds i)
    pure { w with lock := none }

def machine : Machine (World κ δ) (Action κ δ) Unit Unit where
  step w a := ((step empty w a).map fun w' => (w', ())).elim (.error ()) .ok

/-- Only a file, and no process. -/
def initial (file : Option (Envelope κ δ)) : World κ δ := ⟨file, none, fun _ => none, 0, [], []⟩

end VaultWriter

end Proofmark
