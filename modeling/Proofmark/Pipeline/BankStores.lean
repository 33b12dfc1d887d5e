/-
  The two bank challenge stores (src/pipeline/bank-state.ts): `RedisBankStateStore` over the
  script, and `DemoBankStateStore` with its own maps.

  Redis hides a key that has expired.  Whether it does so at the millisecond of the deadline
  or at the next one is the parameter `expired`.  The length of an encrypted response is the
  parameter `size`.
-/
import Proofmark.Pipeline.BankState

namespace Proofmark

open Revert Function

/-- The codes of `BankStateError`; the statuses of the script are codes too. -/
inductive BankCode where
  | conflict
  | startPending
  | challengeUnavailable
  | startBudgetExceeded
  | challengeExpired
  | tooManyAttempts
  | statePayloadTooLarge
  | stateUnavailable
  | reserved
  | cached
deriving DecidableEq

/-- What the operations return; `response` is missing for `undefined`. -/
inductive BankResult (K : Type) where
  | reserved (expiresAt : ℕ)
  | cached (response : Option K)
  | activated
  | verified
  | mismatch (remaining : ℕ)
deriving DecidableEq

abbrev BankAnswer (K : Type) := Except BankCode (BankResult K)

def maxResponseLength : ℕ := 32768

/-- `Number.MAX_SAFE_INTEGER` -/
def maxSafeMs : ℕ := 9007199254740991

/-! ## The Redis store -/

/-- When a key with a deadline is hidden: before the deadline it is not, after it it is. -/
structure RedisExpiry where
  expired : ℕ → ℕ → Bool
  early : ∀ now deadline, now < deadline → expired now deadline = false
  late : ∀ now deadline, deadline < now → expired now deadline = true

variable {K : Type} [DecidableEq K]

/-- The keys that the script finds. -/
def BankState.visible (x : RedisExpiry) (now : ℕ) (s : BankState K) : BankState K where
  time := now
  requests key := (s.requests key).filter fun q => !x.expired now q.deadline
  budgets b := (s.budgets b).filter fun c => !x.expired now c.deadline

/-- What the store makes of an answer of the script. -/
def bankAnswer (size : K → ℕ) : BankReply K → BankAnswer K
  | .reserved t => if t ≤ maxSafeMs then .ok (.reserved t) else .error .reserved
  | .cached (some response) => if size response = 0 then .error .cached else .ok (.cached (some response))
  | .cached none => .error .stateUnavailable
  | .activated => .ok .activated
  | .verified => .ok .verified
  | .mismatch remaining => .ok (.mismatch remaining)
  | .conflict => .error .conflict
  | .startPending => .error .startPending
  | .challengeUnavailable => .error .challengeUnavailable
  | .startBudgetExceeded => .error .startBudgetExceeded
  | .challengeExpired => .error .challengeExpired
  | .tooManyAttempts => .error .tooManyAttempts

/-- The payload of an operation is too long. -/
def BankOp.tooLarge (size : K → ℕ) : BankOp K → Bool
  | .activate _ response => maxResponseLength < size response
  | _ => false

/-- An operation of `RedisBankStateStore`. -/
def redisOp (x : RedisExpiry) (size : K → ℕ) (now : ℕ) (s : BankState K) (op : BankOp K) :
    BankState K × BankAnswer K :=
  if op.tooLarge size then ({ s with time := now }, .error .statePayloadTooLarge)
  else
    let (s', reply) := (s.visible x now).script now op
    (s', bankAnswer size reply)

/-! ## The demo store -/

structure DemoRecord (K : Type) where
  input : BankReservation K
  state : ChallengeState
  expiresAt : ℕ
  deleteAt : ℕ
  attempts : ℕ
  response : Option K

structure DemoBudget (K : Type) where
  count : ℕ
  expiresAt : ℕ
  current : Option K

structure DemoBankState (K : Type) where
  records : K → Option (DemoRecord K)
  budgets : BudgetKey K → Option (DemoBudget K)

namespace DemoBankState

def empty : DemoBankState K := ⟨fun _ => none, fun _ => none⟩

variable (now : ℕ) (d : DemoBankState K)

/-- The two loops at the start of `reserve`. -/
def purge : DemoBankState K where
  records key := (d.records key).filter fun r => now < r.deleteAt
  budgets b := (d.budgets b).filter fun c => now < c.expiresAt

/-- `budgets.get(key)?.count ?? 0` -/
def count (b : BudgetKey K) : ℕ := (d.budgets b).elim 0 DemoBudget.count

/-- `budgets.get("f:" + flowKey)?.current` -/
def flowCurrent (flowKey : K) : Option K := (d.budgets (.flow flowKey)).bind DemoBudget.current

def increment (b : BudgetKey K) : DemoBankState K :=
  let prior := (d.budgets b).getD ⟨0, now + BankLimits.budgetMs, none⟩
  { d with budgets := update d.budgets b (some { prior with count := prior.count + 1 }) }

/-- `budgets.get(keys[0])!.current = challengeId` -/
def setCurrent (flowKey id : K) : DemoBankState K :=
  { d with
    budgets := update d.budgets (.flow flowKey)
      ((d.budgets (.flow flowKey)).map fun c => { c with current := some id }) }

def setRecord (key : K) (r : DemoRecord K) : DemoBankState K :=
  { d with records := update d.records key (some r) }

def reserve (r : BankReservation K) : DemoBankState K × BankAnswer K :=
  let d := d.purge now
  match d.records r.requestKey with
  | some old =>
    if old.input.fingerprint ≠ r.fingerprint then (d, .error .conflict)
    else if old.state = .ready ∧ old.expiresAt > now ∧
        d.flowCurrent r.flowKey = some old.input.challengeId then (d, .ok (.cached old.response))
    else (d, .error (if old.state = .pending then .startPending else .challengeUnavailable))
  | none =>
    let keys := BankState.reservationBudgets r
    if keys.any fun b => d.count b ≥ b.limit then (d, .error .startBudgetExceeded)
    else
      let counted := keys.foldl (increment now) d
      ((counted.setCurrent r.flowKey r.challengeId).setRecord r.requestKey
        { input := r
          state := .pending
          attempts := 0
          expiresAt := now + BankLimits.lifetimeMs
          deleteAt := now + BankLimits.budgetMs
          response := none },
        .ok (.reserved (now + BankLimits.lifetimeMs)))

/-- `current` -/
def current (c : ChallengeRef K) : Except BankCode (DemoRecord K) := do
  let record ← orRevert (d.records c.requestKey) .challengeUnavailable
  revertIf (record.input.challengeId ≠ c.challengeId ∨ d.flowCurrent c.flowKey ≠ some c.challengeId)
    .challengeUnavailable
  revertIf (record.expiresAt ≤ now) .challengeExpired
  pure record

def activate (c : ChallengeRef K) (response : K) : DemoBankState K × BankAnswer K :=
  match d.current now c with
  | .error e => (d, .error e)
  | .ok record =>
    if record.state ≠ .pending then (d, .error .challengeUnavailable)
    else (d.setRecord c.requestKey { record with state := .ready, response := some response },
      .ok .activated)

def verify (c : ChallengeRef K) (matches_ : Bool) : DemoBankState K × BankAnswer K :=
  match d.current now c with
  | .error e => (d, .error e)
  | .ok record =>
    if record.state = .locked then (d, .error .tooManyAttempts)
    else if record.state ≠ .ready then (d, .error .challengeUnavailable)
    else if matches_ then
      (d.setRecord c.requestKey { record with state := .consumed, response := none }, .ok .verified)
    else
      let record := { record with attempts := record.attempts + 1 }
      if record.attempts ≥ BankLimits.attempts then
        (d.setRecord c.requestKey { record with state := .locked, response := none },
          .error .tooManyAttempts)
      else (d.setRecord c.requestKey record, .ok (.mismatch (BankLimits.attempts - record.attempts)))

/-- An operation of `DemoBankStateStore`. -/
def op : BankOp K → DemoBankState K × BankAnswer K
  | .reserve r => d.reserve now r
  | .activate c response => d.activate now c response
  | .verify c matches_ => d.verify now c matches_

end DemoBankState

/-! ## Both stores -/

structure BankStores (K : Type) where
  time : ℕ
  redis : BankState K
  demo : DemoBankState K

/-- The same operations at the same times on both stores, with both answers. -/
def BankStores.machine (x : RedisExpiry) (size : K → ℕ) :
    Machine (BankStores K) (ℕ × BankOp K) (BankAnswer K × BankAnswer K) RedisError where
  step s a := do
    revertIf (a.1 < s.time) .clockBackwards
    let (redis, r) := redisOp x size a.1 s.redis a.2
    let (demo, r') := s.demo.op a.1 a.2
    pure (⟨a.1, redis, demo⟩, (r, r'))

def BankStores.empty : BankStores K := ⟨0, .empty, .empty⟩

abbrev BankStoresStep (K : Type) := Machine.Entry (BankStores K) (ℕ × BankOp K) (BankAnswer K × BankAnswer K)

end Proofmark
