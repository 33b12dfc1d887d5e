/-
  The bank challenge store (src/pipeline/bank-state.ts): the Lua script
  `BANK_STATE_LUA` over the request hashes and the budget counters.

  The script runs as one atomic operation at the time that Redis gives it.  A key is
  removed by Redis at some moment from its deadline on, which is the action `expire` of
  the machine below; the keys are opaque identifiers of any type `K`.
-/
import Proofmark.Lib.Machine
import Mathlib.Logic.Function.Basic

namespace Proofmark

open Revert Function

namespace BankLimits

def attempts : ℕ := 5
def flowStarts : ℕ := 3
def accountStarts : ℕ := 3
def walletStarts : ℕ := 5
def globalStarts : ℕ := 1000
def lifetimeMs : ℕ := 600000
def budgetMs : ℕ := 86400000

end BankLimits

inductive ChallengeState where
  | pending
  | ready
  | locked
  | consumed
deriving DecidableEq

/-- The hash at `KEYS[1]`, with its expiry time. -/
structure BankRequest (K : Type) where
  state : ChallengeState
  id : K
  fingerprint : K
  expires : ℕ
  attempts : ℕ
  response : Option K
  deadline : ℕ

/-- The keys `KEYS[2]` to `KEYS[5]`. -/
inductive BudgetKey (K : Type) where
  | flow (key : K)
  | account (key : K)
  | wallet (key : K)
  | global
deriving DecidableEq

def BudgetKey.limit {K : Type} : BudgetKey K → ℕ
  | flow _ => BankLimits.flowStarts
  | account _ => BankLimits.accountStarts
  | wallet _ => BankLimits.walletStarts
  | global => BankLimits.globalStarts

/-- The hash at a budget key; only a flow has a current challenge. -/
structure BankBudget (K : Type) where
  count : ℕ
  current : Option K
  deadline : ℕ

structure BankReservation (K : Type) where
  requestKey : K
  flowKey : K
  accountKey : K
  walletKey : K
  fingerprint : K
  challengeId : K

/-- The challenge that an answer is for. -/
structure ChallengeRef (K : Type) where
  requestKey : K
  flowKey : K
  challengeId : K

inductive BankOp (K : Type) where
  | reserve (r : BankReservation K)
  | activate (c : ChallengeRef K) (response : K)
  | verify (c : ChallengeRef K) (matches_ : Bool)

/-- What the script returns. -/
inductive BankReply (K : Type) where
  | conflict
  | cached (response : Option K)
  | startPending
  | challengeUnavailable
  | startBudgetExceeded
  | reserved (expiresAt : ℕ)
  | challengeExpired
  | activated
  | tooManyAttempts
  | verified
  | mismatch (remaining : ℕ)
deriving DecidableEq

structure BankState (K : Type) where
  time : ℕ
  requests : K → Option (BankRequest K)
  budgets : BudgetKey K → Option (BankBudget K)

namespace BankState

variable {K : Type} [DecidableEq K]

def empty : BankState K := ⟨0, fun _ => none, fun _ => none⟩

section
omit [DecidableEq K]
variable (s : BankState K)

/-- `HGET key count`, or zero. -/
def count (b : BudgetKey K) : ℕ := (s.budgets b).elim 0 BankBudget.count

/-- `HGET flow current` -/
def current (flowKey : K) : Option K := (s.budgets (.flow flowKey)).bind BankBudget.current

end

variable (now : ℕ) (s : BankState K)

/-- The budgets that a reservation counts against. -/
def reservationBudgets (r : BankReservation K) : List (BudgetKey K) :=
  [.flow r.flowKey, .account r.accountKey, .wallet r.walletKey, .global]

/-- `HINCRBY key count 1`, with `PEXPIRE` when the counter is new. -/
def increment (b : BudgetKey K) : BankState K :=
  let c := (s.budgets b).getD ⟨0, none, 0⟩
  let c := { c with count := c.count + 1 }
  { s with
    budgets := update s.budgets b
      (some (if c.count = 1 then { c with deadline := now + BankLimits.budgetMs } else c)) }

def setRequest (key : K) (q : BankRequest K) : BankState K :=
  { s with requests := update s.requests key (some q) }

/-- `HSET flow current id` -/
def setCurrent (flowKey id : K) : BankState K :=
  { s with
    budgets := update s.budgets (.flow flowKey)
      ((s.budgets (.flow flowKey)).map fun c => { c with current := some id }) }

def reserve (r : BankReservation K) : BankState K × BankReply K :=
  match s.requests r.requestKey with
  | some q =>
    if q.fingerprint ≠ r.fingerprint then (s, .conflict)
    else if q.state = .ready ∧ s.current r.flowKey = some q.id ∧ q.expires > now then
      (s, .cached q.response)
    else (s, if q.state = .pending then .startPending else .challengeUnavailable)
  | none =>
    if (reservationBudgets r).any fun b => s.count b ≥ b.limit then (s, .startBudgetExceeded)
    else
      let counted := (reservationBudgets r).foldl (increment now) s
      (((counted.setCurrent r.flowKey r.challengeId).setRequest r.requestKey
          { state := .pending
            id := r.challengeId
            fingerprint := r.fingerprint
            expires := now + BankLimits.lifetimeMs
            attempts := 0
            response := none
            deadline := now + BankLimits.budgetMs }),
        .reserved (now + BankLimits.lifetimeMs))

/-- The request of a current challenge that has not expired. -/
def challenge (c : ChallengeRef K) : Except (BankReply K) (BankRequest K) := do
  let q ← orRevert (s.requests c.requestKey) .challengeUnavailable
  revertIf (q.id ≠ c.challengeId ∨ s.current c.flowKey ≠ some c.challengeId) .challengeUnavailable
  revertIf (q.expires ≤ now) .challengeExpired
  pure q

def activate (c : ChallengeRef K) (response : K) : BankState K × BankReply K :=
  match s.challenge now c with
  | .error e => (s, e)
  | .ok q =>
    if q.state ≠ .pending then (s, .challengeUnavailable)
    else (s.setRequest c.requestKey { q with state := .ready, response := some response }, .activated)

def verify (c : ChallengeRef K) (matches_ : Bool) : BankState K × BankReply K :=
  match s.challenge now c with
  | .error e => (s, e)
  | .ok q =>
    if q.state = .locked then (s, .tooManyAttempts)
    else if q.state ≠ .ready then (s, .challengeUnavailable)
    else if matches_ then
      (s.setRequest c.requestKey { q with state := .consumed, response := none }, .verified)
    else if q.attempts + 1 ≥ BankLimits.attempts then
      (s.setRequest c.requestKey
          { q with attempts := q.attempts + 1, state := .locked, response := none },
        .tooManyAttempts)
    else
      (s.setRequest c.requestKey { q with attempts := q.attempts + 1 },
        .mismatch (BankLimits.attempts - (q.attempts + 1)))

/-- The script. -/
def script : BankOp K → BankState K × BankReply K
  | .reserve r => s.reserve now r
  | .activate c response => s.activate now c response
  | .verify c matches_ => s.verify now c matches_

end BankState

/-- A run of the script at a time, or the removal of a key whose deadline has come. -/
inductive BankAction (K : Type) where
  | eval (now : ℕ) (op : BankOp K)
  | expireRequest (now : ℕ) (key : K)
  | expireBudget (now : ℕ) (b : BudgetKey K)

inductive RedisError where
  | clockBackwards
  | notDue

/-- The store as a machine that outputs the answers of the script. -/
def BankState.machine (K : Type) [DecidableEq K] :
    Machine (BankState K) (BankAction K) (Option (BankReply K)) RedisError where
  step s
    | .eval now op => do
      revertIf (now < s.time) .clockBackwards
      let (s', reply) := { s with time := now }.script now op
      pure (s', some reply)
    | .expireRequest now key => do
      revertIf (now < s.time) .clockBackwards
      revertIf ((s.requests key).all fun q => now < q.deadline) .notDue
      pure ({ s with time := now, requests := update s.requests key none }, none)
    | .expireBudget now b => do
      revertIf (now < s.time) .clockBackwards
      revertIf ((s.budgets b).all fun c => now < c.deadline) .notDue
      pure ({ s with time := now, budgets := update s.budgets b none }, none)

abbrev BankEntry (K : Type) := Machine.Entry (BankState K) (BankAction K) (Option (BankReply K))

end Proofmark
