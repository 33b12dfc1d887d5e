/-
  The daily issuance budget (src/pipeline/issuance-budget.ts): the Lua script
  `ISSUANCE_BUDGET_LUA` over one ledger per issuer and one mark per transaction.

  The script runs as one atomic operation at the time that Redis gives it.  A key is removed
  by Redis at some moment from its deadline on, which is the action `expireLedger` or
  `expireMark` of the machine below.  Issuers and transactions are the keyed digests of the
  source, of any types `I` and `T`.
-/
import Proofmark.Lib.Machine
import Mathlib.Logic.Function.Basic

namespace Proofmark

open Revert Function

def dayMs : ℕ := 86400000

/-- How long a reconciled mark is kept. -/
def markRetentionMs : ℕ := 172800000

/-- The hash at `KEYS[1]`, with its expiry time. -/
structure BudgetLedger where
  day : ℕ
  gas : ℕ
  tx : ℕ
  deadline : ℕ
deriving DecidableEq

/-- The hash at `KEYS[2]`; `used` is present once it is reconciled, and so is its expiry. -/
structure BudgetMark (I : Type) where
  issuer : I
  day : ℕ
  reserved : ℕ
  used : Option ℕ
  ledgerGas : ℕ
  ledgerTx : ℕ
  deadline : Option ℕ

/-- The arguments of a call; the limits are those of the caller's configuration. -/
structure BudgetCall (I T : Type) where
  issuer : I
  request : T
  amount : ℕ
  maxGas : ℕ
  maxTx : ℕ

inductive BudgetOp (I T : Type) where
  | status (c : BudgetCall I T)
  | reserve (c : BudgetCall I T)
  | reconcile (c : BudgetCall I T)

/-- What the script returns. -/
inductive BudgetReply where
  | ok
  | totals (gas tx : ℕ)
  | requestConflict
  | dailyGasBudgetExceeded
  | dailyTransactionBudgetExceeded
  | reservationMissing
  | actualExceedsReservation
  | stateInvalid
deriving DecidableEq

structure BudgetRedis (I T : Type) where
  time : ℕ
  ledgers : I → Option BudgetLedger
  marks : T → Option (BudgetMark I)

namespace BudgetRedis

variable {I T : Type}

def empty : BudgetRedis I T := ⟨0, fun _ => none, fun _ => none⟩

variable (now : ℕ) (s : BudgetRedis I T)

/-- `savedDay` is the day of the clock. -/
def todays (issuer : I) : Option BudgetLedger := (s.ledgers issuer).filter fun l => l.day = now / dayMs

def totalGas (issuer : I) : ℕ := (s.todays now issuer).elim 0 BudgetLedger.gas

def totalTx (issuer : I) : ℕ := (s.todays now issuer).elim 0 BudgetLedger.tx

variable [DecidableEq I] [DecidableEq T]

/-- The guards of a reservation that finds no mark. -/
def admission (c : BudgetCall I T) : Except BudgetReply Unit := do
  revertIf (c.amount = 0 ∨ c.maxGas < c.amount) .dailyGasBudgetExceeded
  revertIf (c.maxGas < s.totalGas now c.issuer + c.amount) .dailyGasBudgetExceeded
  revertIf (c.maxTx < s.totalTx now c.issuer + 1) .dailyTransactionBudgetExceeded

/-- The two writes of a reservation. -/
def charge (c : BudgetCall I T) : BudgetRedis I T :=
  let day := now / dayMs
  let gas := s.totalGas now c.issuer + c.amount
  let tx := s.totalTx now c.issuer + 1
  { s with
    ledgers := update s.ledgers c.issuer (some ⟨day, gas, tx, (day + 3) * dayMs⟩)
    marks := update s.marks c.request (some ⟨c.issuer, day, c.amount, none, gas, tx, none⟩) }

def reserve (c : BudgetCall I T) : BudgetRedis I T × BudgetReply :=
  match s.marks c.request with
  | some m =>
    if m.issuer ≠ c.issuer ∨ m.reserved ≠ c.amount then (s, .requestConflict)
    else (s, .totals m.ledgerGas m.ledgerTx)
  | none =>
    match s.admission now c with
    | .error e => (s, e)
    | .ok _ =>
      (s.charge now c, .totals (s.totalGas now c.issuer + c.amount) (s.totalTx now c.issuer + 1))

/-- The ledger that a reconciliation changes: that of the day of the reservation, if it is the
    day of the clock. -/
def credited (c : BudgetCall I T) (m : BudgetMark I) : Option BudgetLedger :=
  if m.day = now / dayMs then s.todays now c.issuer else none

/-- The writes of a reconciliation. -/
def settle (c : BudgetCall I T) (m : BudgetMark I) : BudgetRedis I T :=
  { s with
    ledgers := match s.credited now c m with
      | some l => update s.ledgers c.issuer (some { l with gas := l.gas + c.amount - m.reserved })
      | none => s.ledgers
    marks := update s.marks c.request
      (some { m with used := some c.amount, deadline := some (now + markRetentionMs) }) }

def reconcile (c : BudgetCall I T) : BudgetRedis I T × BudgetReply :=
  match s.marks c.request with
  | none => (s, .reservationMissing)
  | some m =>
    if m.issuer ≠ c.issuer then (s, .requestConflict)
    else if m.reserved < c.amount then (s, .actualExceedsReservation)
    else match m.used with
      | some used => (s, if used ≠ c.amount then .requestConflict else .ok)
      | none =>
        if (s.credited now c m).any fun l => l.gas + c.amount < m.reserved then (s, .stateInvalid)
        else (s.settle now c m, .ok)

/-- The script. -/
def script : BudgetOp I T → BudgetRedis I T × BudgetReply
  | .status c => (s, .totals (s.totalGas now c.issuer) (s.totalTx now c.issuer))
  | .reserve c => s.reserve now c
  | .reconcile c => s.reconcile now c

end BudgetRedis

/-- A run of the script at a time, or the removal of a key whose deadline has come. -/
inductive BudgetAction (I T : Type) where
  | eval (now : ℕ) (op : BudgetOp I T)
  | expireLedger (now : ℕ) (issuer : I)
  | expireMark (now : ℕ) (request : T)

inductive BudgetRefusal where
  | clockBackwards
  | notDue

/-- The budget as a machine that outputs the answers of the script. -/
def BudgetRedis.machine (I T : Type) [DecidableEq I] [DecidableEq T] :
    Machine (BudgetRedis I T) (BudgetAction I T) (Option BudgetReply) BudgetRefusal where
  step s
    | .eval now op => do
      revertIf (now < s.time) .clockBackwards
      let (s', reply) := { s with time := now }.script now op
      pure (s', some reply)
    | .expireLedger now issuer => do
      revertIf (now < s.time) .clockBackwards
      revertIf ((s.ledgers issuer).all fun l => now < l.deadline) .notDue
      pure ({ s with time := now, ledgers := update s.ledgers issuer none }, none)
    | .expireMark now request => do
      revertIf (now < s.time) .clockBackwards
      revertIf ((s.marks request).all fun m => m.deadline.all fun d => now < d) .notDue
      pure ({ s with time := now, marks := update s.marks request none }, none)

abbrev BudgetEntry (I T : Type) :=
  Machine.Entry (BudgetRedis I T) (BudgetAction I T) (Option BudgetReply)

end Proofmark
