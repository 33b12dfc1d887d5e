/-
  When the two bank challenge stores agree.

  An operation of the demo store is the script on the view of its maps (`op_view`), and the
  script depends only on the keys that it reads (`script_congr`, `script_requests`,
  `script_budgets`).  `Sim` says that both stores hold the same keys, up to those whose
  deadline has come.
-/
import Proofmark.Pipeline.BankSafety
import Proofmark.Pipeline.BankStores

namespace Proofmark

open Revert Function

variable {K : Type} [DecidableEq K]

/-! ## The keys of an operation -/

def BankOp.key : BankOp K → K
  | .reserve r => r.requestKey
  | .activate c _ | .verify c _ => c.requestKey

def BankOp.flowKey : BankOp K → K
  | .reserve r => r.flowKey
  | .activate c _ | .verify c _ => c.flowKey

/-- The challenge id that a reservation brings. -/
def BankOp.reserved : BankOp K → Option K
  | .reserve r => some r.challengeId
  | .activate .. | .verify .. => none

def BankOp.budgets : BankOp K → List (BudgetKey K)
  | .reserve r => BankState.reservationBudgets r
  | .activate c _ | .verify c _ => [.flow c.flowKey]

namespace BankState

variable {now : ℕ} {s s' : BankState K} {op : BankOp K}

/-- The counter after `HINCRBY`. -/
def bumped (now : ℕ) (o : Option (BankBudget K)) : BankBudget K :=
  let c := o.getD ⟨0, none, 0⟩
  let c := { c with count := c.count + 1 }
  if c.count = 1 then { c with deadline := now + BankLimits.budgetMs } else c

theorem budgets_increments (now : ℕ) {l : List (BudgetKey K)} (hl : l.Nodup) (s : BankState K)
    (b : BudgetKey K) : (l.foldl (increment now) s).budgets b =
      if b ∈ l then some (bumped now (s.budgets b)) else s.budgets b := by
  induction l generalizing s with
  | nil => simp
  | cons a l ih =>
    rw [List.nodup_cons] at hl
    rw [List.foldl_cons, ih hl.2]
    rcases eq_or_ne b a with rfl | hb
    · simp [hl.1, increment, bumped]
    · simp [hb, increment]

/-- The script changes no request but its own. -/
theorem script_requests {k : K} (hk : k ≠ op.key) : (s.script now op).1.requests k = s.requests k := by
  cases op with
  | reserve r =>
    simp only [script, reserve]
    split
    · split_ifs <;> rfl
    · split_ifs
      · rfl
      · simp only [setRequest, setCurrent, update_of_ne (show k ≠ r.requestKey from hk), requests_increments]
  | activate c response =>
    simp only [script, activate]
    split
    · rfl
    · split_ifs
      · rfl
      · exact update_of_ne hk _ _
  | verify c m =>
    simp only [script, verify]
    split
    · rfl
    · split_ifs
      · rfl
      · rfl
      · exact update_of_ne hk _ _
      · exact update_of_ne hk _ _
      · exact update_of_ne hk _ _

/-- The script changes no budget but those of a reservation. -/
theorem script_budgets {b : BudgetKey K} (hb : b ∉ op.budgets) :
    (s.script now op).1.budgets b = s.budgets b := by
  cases op with
  | reserve r =>
    simp only [script, reserve]
    split
    · split_ifs <;> rfl
    · split_ifs
      · rfl
      · have hflow : b ≠ .flow r.flowKey := by
          rintro rfl
          simp [BankOp.budgets, reservationBudgets] at hb
        simp only [setRequest, setCurrent, update_of_ne hflow, budgets_increments now (nodup_reservationBudgets r)]
        exact if_neg hb
  | activate c response =>
    simp only [script, activate]
    split
    · rfl
    · split_ifs <;> rfl
  | verify c m =>
    simp only [script, verify]
    split
    · rfl
    · split_ifs <;> rfl

theorem challenge_congr {c : ChallengeRef K} (hr : s.requests c.requestKey = s'.requests c.requestKey)
    (hb : s.budgets (.flow c.flowKey) = s'.budgets (.flow c.flowKey)) :
    s.challenge now c = s'.challenge now c := by
  unfold challenge current
  rw [hr, hb]

/-- **The script depends only on the keys that it reads.** -/
theorem script_congr (now : ℕ) (hr : s.requests op.key = s'.requests op.key)
    (hb : ∀ b ∈ op.budgets, s.budgets b = s'.budgets b) :
    (s.script now op).2 = (s'.script now op).2 ∧
      (s.script now op).1.requests op.key = (s'.script now op).1.requests op.key ∧
      ∀ b ∈ op.budgets, (s.script now op).1.budgets b = (s'.script now op).1.budgets b := by
  cases op with
  | reserve r =>
    have hcount : ∀ b ∈ reservationBudgets r, s.count b = s'.count b := by
      intro b hmem
      unfold count
      rw [hb b hmem]
    have hcurrent : s.current r.flowKey = s'.current r.flowKey := by
      unfold current
      rw [hb _ (by simp [BankOp.budgets, reservationBudgets])]
    have hany : ((reservationBudgets r).any fun b => s.count b ≥ b.limit) =
        (reservationBudgets r).any fun b => s'.count b ≥ b.limit := by
      rw [Bool.eq_iff_iff]
      simp only [List.any_eq_true]
      exact exists_congr fun b => and_congr_right fun hmem => by rw [hcount b hmem]
    have hr' : s.requests r.requestKey = s'.requests r.requestKey := hr
    simp only [script, reserve, hr', hcurrent, hany]
    split
    · split_ifs
      · exact ⟨rfl, hr, hb⟩
      · exact ⟨rfl, hr, hb⟩
      · exact ⟨rfl, hr, hb⟩
      · exact ⟨rfl, hr, hb⟩
    · split_ifs
      · exact ⟨rfl, hr, hb⟩
      · refine ⟨rfl, by simp [setRequest, BankOp.key], ?_⟩
        intro b hmem
        have hflow := hb (.flow r.flowKey) (by simp [BankOp.budgets, reservationBudgets])
        rcases eq_or_ne b (.flow r.flowKey) with rfl | hne
        · simp only [setRequest, setCurrent, update_self, budgets_increments now (nodup_reservationBudgets r), hflow]
        · simp only [setRequest, setCurrent, update_of_ne hne,
            budgets_increments now (nodup_reservationBudgets r), hb b hmem]
  | activate c response =>
    have hc : s.challenge now c = s'.challenge now c := challenge_congr hr (hb _ (by simp [BankOp.budgets]))
    simp only [script, activate, hc]
    split
    · exact ⟨rfl, hr, hb⟩
    · split_ifs
      · exact ⟨rfl, hr, hb⟩
      · exact ⟨rfl, by simp [setRequest, BankOp.key], hb⟩
  | verify c m =>
    have hc : s.challenge now c = s'.challenge now c := challenge_congr hr (hb _ (by simp [BankOp.budgets]))
    simp only [script, verify, hc]
    split
    · exact ⟨rfl, hr, hb⟩
    · split_ifs
      · exact ⟨rfl, hr, hb⟩
      · exact ⟨rfl, hr, hb⟩
      · exact ⟨rfl, by simp [setRequest, BankOp.key], hb⟩
      · exact ⟨rfl, by simp [setRequest, BankOp.key], hb⟩
      · exact ⟨rfl, by simp [setRequest, BankOp.key], hb⟩

end BankState

/-! ## The demo store is the script on its maps -/

def DemoRecord.request (r : DemoRecord K) : BankRequest K :=
  ⟨r.state, r.input.challengeId, r.input.fingerprint, r.expiresAt, r.attempts, r.response, r.deleteAt⟩

def DemoBudget.budget (c : DemoBudget K) : BankBudget K := ⟨c.count, c.current, c.expiresAt⟩

/-- The answers, without the checks of the Redis store. -/
def demoAnswer : BankReply K → BankAnswer K
  | .reserved t => .ok (.reserved t)
  | .cached response => .ok (.cached response)
  | .activated => .ok .activated
  | .verified => .ok .verified
  | .mismatch remaining => .ok (.mismatch remaining)
  | .conflict => .error .conflict
  | .startPending => .error .startPending
  | .challengeUnavailable => .error .challengeUnavailable
  | .startBudgetExceeded => .error .startBudgetExceeded
  | .challengeExpired => .error .challengeExpired
  | .tooManyAttempts => .error .tooManyAttempts

namespace DemoBankState

variable {now : ℕ} {d : DemoBankState K}

omit [DecidableEq K] in
def view (now : ℕ) (d : DemoBankState K) : BankState K :=
  ⟨now, fun key => (d.records key).map DemoRecord.request, fun b => (d.budgets b).map DemoBudget.budget⟩

/-- The maps that an operation finds. -/
def opened (now : ℕ) (d : DemoBankState K) : BankOp K → DemoBankState K
  | .reserve _ => d.purge now
  | _ => d

/-- A counter that is there was counted. -/
def Counted (d : DemoBankState K) : Prop := ∀ b c, d.budgets b = some c → 0 < c.count

/-- A challenge that is ready has its response. -/
def Answered (d : DemoBankState K) : Prop :=
  ∀ k r, d.records k = some r → r.state = .ready → r.response.isSome = true

theorem view_setRecord (key : K) (r : DemoRecord K) :
    (d.setRecord key r).view now = (d.view now).setRequest key r.request := by
  simp only [view, setRecord, BankState.setRequest, BankState.mk.injEq, true_and, and_true]
  ext1 k
  rcases eq_or_ne k key with rfl | hk
  · simp
  · simp [hk]

theorem view_setCurrent (f id : K) :
    (d.setCurrent f id).view now = (d.view now).setCurrent f id := by
  simp only [view, setCurrent, BankState.setCurrent, BankState.mk.injEq, true_and]
  ext1 b
  rcases eq_or_ne b (.flow f) with rfl | hb
  · cases d.budgets (.flow f) <;> simp [DemoBudget.budget]
  · simp [hb]

theorem view_increment (hc : d.Counted) (b : BudgetKey K) :
    (d.increment now b).view now = BankState.increment now (d.view now) b := by
  simp only [view, increment, BankState.increment, BankState.mk.injEq, true_and]
  ext1 b'
  rcases eq_or_ne b' b with rfl | hb
  · rcases Option.eq_none_or_eq_some (d.budgets b') with h | ⟨c, h⟩
    · simp [h, DemoBudget.budget]
    · have hpos := hc b' c h
      simp [h, DemoBudget.budget, Nat.pos_iff_ne_zero.1 hpos]
  · simp [hb]

theorem Counted.increment (hc : d.Counted) (b : BudgetKey K) : (d.increment now b).Counted := by
  intro b' c h
  simp only [DemoBankState.increment] at h
  rcases eq_or_ne b' b with rfl | hb
  · simp only [update_self, Option.some.injEq] at h
    subst h
    exact Nat.succ_pos _
  · exact hc b' c (by simpa [hb] using h)

theorem view_increments (now : ℕ) (hc : d.Counted) (l : List (BudgetKey K)) :
    (l.foldl (increment now) d).Counted ∧
      (l.foldl (increment now) d).view now = l.foldl (BankState.increment now) (d.view now) := by
  induction l generalizing d with
  | nil => exact ⟨hc, rfl⟩
  | cons b l ih =>
    rw [List.foldl_cons, List.foldl_cons, ← view_increment hc]
    exact ih (hc.increment b)

omit [DecidableEq K] in
theorem count_view (b : BudgetKey K) : (d.view now).count b = d.count b := by
  simp only [BankState.count, count, view]
  cases d.budgets b <;> rfl

omit [DecidableEq K] in
theorem current_view (f : K) : (d.view now).current f = d.flowCurrent f := by
  simp only [BankState.current, flowCurrent, view]
  cases d.budgets (.flow f) <;> rfl

/-- The challenge that the demo store finds is that of the script. -/
theorem current_cases (now : ℕ) (d : DemoBankState K) (c : ChallengeRef K) :
    (∃ record, d.current now c = .ok record ∧ (d.view now).challenge now c = .ok record.request) ∨
    ∃ reply code, (d.view now).challenge now c = .error reply ∧ d.current now c = .error code ∧
      demoAnswer reply = .error code := by
  unfold BankState.challenge DemoBankState.current
  rw [current_view]
  cases h : d.records c.requestKey with
  | none => exact .inr ⟨.challengeUnavailable, .challengeUnavailable, by simp [view, h, orRevert], rfl, rfl⟩
  | some record =>
    simp only [view, h, Option.map_some, orRevert, ok_bind, DemoRecord.request]
    by_cases hid : record.input.challengeId ≠ c.challengeId ∨ d.flowCurrent c.flowKey ≠ some c.challengeId
    · exact .inr ⟨.challengeUnavailable, .challengeUnavailable, by simp [revertIf, hid],
        by simp [revertIf, hid], rfl⟩
    · by_cases hexp : record.expiresAt ≤ now
      · exact .inr ⟨.challengeExpired, .challengeExpired, by simp [revertIf, hid, hexp],
          by simp [revertIf, hid, hexp], rfl⟩
      · refine .inl ⟨record, ?_, ?_⟩
        · simp [revertIf, hid, hexp, pure, Except.pure]
        · simp [revertIf, hid, hexp, pure, Except.pure]

/-- **An operation of the demo store** is the script on the keys that it finds. -/
theorem op_view (now : ℕ) (hc : d.Counted) (op : BankOp K) :
    (d.op now op).1.view now = (((d.opened now op).view now).script now op).1 ∧
      (d.op now op).2 = demoAnswer (((d.opened now op).view now).script now op).2 := by
  cases op with
  | reserve r =>
    have hpurged : (d.purge now).Counted := by
      intro b c h
      simp only [purge, Option.filter_eq_some_iff] at h
      exact hc b c h.1
    simp only [DemoBankState.op, reserve, opened, BankState.script, BankState.reserve, count_view,
      current_view]
    cases h : (d.purge now).records r.requestKey with
    | some old =>
      have hview : ((d.purge now).view now).requests r.requestKey = some old.request := by
        simp [view, h]
      simp only [hview, DemoRecord.request]
      split_ifs <;> simp_all [demoAnswer]
    | none =>
      have hview : ((d.purge now).view now).requests r.requestKey = none := by simp [view, h]
      simp only [hview]
      split_ifs
      · exact ⟨rfl, rfl⟩
      · obtain ⟨-, hfold⟩ := view_increments now hpurged (BankState.reservationBudgets r)
        refine ⟨?_, rfl⟩
        rw [view_setRecord, view_setCurrent, hfold]
        rfl
  | activate c response =>
    simp only [DemoBankState.op, activate, opened, BankState.script, BankState.activate]
    rcases current_cases now d c with ⟨record, hd, hs⟩ | ⟨reply, code, hs, hd, hcode⟩
    · rw [hd, hs]
      dsimp only
      have hstate : record.request.state = record.state := rfl
      rw [hstate]
      split_ifs
      · exact ⟨rfl, rfl⟩
      · exact ⟨view_setRecord _ _, rfl⟩
    · rw [hd, hs]
      exact ⟨rfl, hcode.symm⟩
  | verify c m =>
    simp only [DemoBankState.op, verify, opened, BankState.script, BankState.verify]
    rcases current_cases now d c with ⟨record, hd, hs⟩ | ⟨reply, code, hs, hd, hcode⟩
    · rw [hd, hs]
      dsimp only
      have hstate : record.request.state = record.state := rfl
      have hattempts : record.request.attempts = record.attempts := rfl
      rw [hstate, hattempts]
      split_ifs
      · exact ⟨rfl, rfl⟩
      · exact ⟨rfl, rfl⟩
      · exact ⟨view_setRecord _ _, rfl⟩
      · exact ⟨view_setRecord _ _, rfl⟩
      · exact ⟨view_setRecord _ _, rfl⟩
    · rw [hd, hs]
      exact ⟨rfl, hcode.symm⟩

end DemoBankState

/-! ## The simulation -/

/-- The keys whose deadline is still to come. -/
def BankState.live (now : ℕ) (s : BankState K) : BankState K where
  time := now
  requests key := (s.requests key).filter fun q => now < q.deadline
  budgets b := (s.budgets b).filter fun c => now < c.deadline

/-- Both stores hold the same live keys. -/
structure Sim (now : ℕ) (s : BankState K) (d : DemoBankState K) : Prop where
  live : s.live now = (d.view now).live now
  counted : d.Counted
  answered : d.Answered

omit [DecidableEq K] in
theorem filter_filter_of_imp {α : Type} {p q : α → Bool} (h : ∀ a, p a = true → q a = true)
    (o : Option α) : (o.filter q).filter p = o.filter p := by
  cases o with
  | none => rfl
  | some a =>
    cases hp : p a
    · cases hq : q a <;> simp [Option.filter_some, hp, hq]
    · simp [Option.filter_some, hp, h a hp]

namespace BankState

variable {now : ℕ} {s s' : BankState K}

omit [DecidableEq K] in
theorem live_live {t : ℕ} (ht : t ≤ now) : (s.live t).live now = s.live now := by
  simp only [live, mk.injEq, true_and]
  constructor
  · ext1 k
    exact filter_filter_of_imp (by simp only [decide_eq_true_eq]; omega) _
  · ext1 b
    exact filter_filter_of_imp (by simp only [decide_eq_true_eq]; omega) _

omit [DecidableEq K] in
theorem live_visible (x : RedisExpiry) : (s.visible x now).live now = s.live now := by
  simp only [live, visible, mk.injEq, true_and]
  constructor
  · ext1 k
    refine filter_filter_of_imp ?_ _
    intro q hq
    simp [x.early now q.deadline (by simpa using hq)]
  · ext1 b
    refine filter_filter_of_imp ?_ _
    intro c hc
    simp [x.early now c.deadline (by simpa using hc)]

omit [DecidableEq K] in
theorem view_purge (d : DemoBankState K) : (d.purge now).view now = (d.view now).live now := by
  simp only [live, DemoBankState.view, DemoBankState.purge, mk.injEq, true_and]
  constructor
  · ext1 k
    cases h : d.records k with
    | none => rfl
    | some r => by_cases hr : now < r.deleteAt <;> simp [Option.filter_some, hr, DemoRecord.request]
  · ext1 b
    cases h : d.budgets b with
    | none => rfl
    | some c => by_cases hc : now < c.expiresAt <;> simp [Option.filter_some, hc, DemoBudget.budget]

omit [DecidableEq K] in
theorem live_opened (d : DemoBankState K) (op : BankOp K) :
    ((d.opened now op).view now).live now = (d.view now).live now := by
  cases op with
  | reserve r => rw [DemoBankState.opened, view_purge, live_live (Nat.le_refl now)]
  | activate c response => rfl
  | verify c m => rfl

/-- An operation on two states that agree on its keys leaves the same live keys. -/
theorem live_script {op : BankOp K} (hlive : s.live now = s'.live now)
    (hr : s.requests op.key = s'.requests op.key) (hb : ∀ b ∈ op.budgets, s.budgets b = s'.budgets b) :
    (s.script now op).1.live now = (s'.script now op).1.live now := by
  obtain ⟨-, hr', hb'⟩ := script_congr now hr hb
  simp only [live, mk.injEq, true_and] at hlive ⊢
  constructor
  · ext1 k
    rcases eq_or_ne k op.key with rfl | hk
    · rw [hr']
    · rw [script_requests hk, script_requests hk]
      exact congrFun hlive.1 k
  · ext1 b
    by_cases hmem : b ∈ op.budgets
    · rw [hb' b hmem]
    · rw [script_budgets hmem, script_budgets hmem]
      exact congrFun hlive.2 b

omit [DecidableEq K] in
/-- What a script finds is live, unless a key is found at its very deadline. -/
theorem visible_requests (x : RedisExpiry) {k : K}
    (h : x.expired now now = true ∨ ∀ q ∈ s.requests k, q.deadline ≠ now) :
    (s.visible x now).requests k = (s.live now).requests k := by
  simp only [visible, live]
  cases hk : s.requests k with
  | none => rfl
  | some q =>
    rcases Nat.lt_trichotomy now q.deadline with hlt | heq | hgt
    · simp [Option.filter_some, x.early now q.deadline hlt, hlt]
    · have hx : x.expired now now = true := by
        rcases h with h | h
        · exact h
        · exact absurd heq.symm (h q hk)
      simp [Option.filter_some, ← heq, hx]
    · simp [Option.filter_some, x.late now q.deadline hgt, Nat.le_of_lt hgt]

omit [DecidableEq K] in
theorem visible_budgets (x : RedisExpiry) {b : BudgetKey K}
    (h : x.expired now now = true ∨ ∀ c ∈ s.budgets b, c.deadline ≠ now) :
    (s.visible x now).budgets b = (s.live now).budgets b := by
  simp only [visible, live]
  cases hb : s.budgets b with
  | none => rfl
  | some c =>
    rcases Nat.lt_trichotomy now c.deadline with hlt | heq | hgt
    · simp [Option.filter_some, x.early now c.deadline hlt, hlt]
    · have hx : x.expired now now = true := by
        rcases h with h | h
        · exact h
        · exact absurd heq.symm (h c hb)
      simp [Option.filter_some, ← heq, hx]
    · simp [Option.filter_some, x.late now c.deadline hgt, Nat.le_of_lt hgt]

/-- The request and the flow that a challenge needs are there. -/
def Matches (s : BankState K) (c : ChallengeRef K) : Prop :=
  ∃ q b, s.requests c.requestKey = some q ∧ q.id = c.challengeId ∧
    s.budgets (.flow c.flowKey) = some b ∧ b.current = some c.challengeId

omit [DecidableEq K] in
theorem challenge_unmatched [DecidableEq K] {c : ChallengeRef K} (h : ¬ s.Matches c) :
    s.challenge now c = .error .challengeUnavailable := by
  unfold challenge
  cases hr : s.requests c.requestKey with
  | none => rfl
  | some q =>
    have hid : q.id ≠ c.challengeId ∨ s.current c.flowKey ≠ some c.challengeId := by
      rw [or_iff_not_imp_left, not_not]
      intro hq hcur
      obtain ⟨b, hb, hbc⟩ := Option.bind_eq_some_iff.1 hcur
      exact h ⟨q, b, hr, hq, hb, hbc⟩
    simp [orRevert, revertIf, hid]

end BankState

def BankOp.challenge : BankOp K → Option (ChallengeRef K)
  | .reserve _ => none
  | .activate c _ | .verify c _ => some c

theorem BankState.script_unmatched {now : ℕ} {s : BankState K} {op : BankOp K} {c : ChallengeRef K}
    (hop : op.challenge = some c) (h : ¬ s.Matches c) : s.script now op = (s, .challengeUnavailable) := by
  cases op with
  | reserve r => cases hop
  | activate c' response =>
    obtain rfl : c' = c := by simpa [BankOp.challenge] using hop
    simp only [script, activate, challenge_unmatched h]
  | verify c' m =>
    obtain rfl : c' = c := by simpa [BankOp.challenge] using hop
    simp only [script, verify, challenge_unmatched h]

namespace DemoBankState

variable {now : ℕ} {d : DemoBankState K}

omit [DecidableEq K] in
theorem Counted.purge (hc : d.Counted) : (d.purge now).Counted := by
  intro b c h
  simp only [DemoBankState.purge, Option.filter_eq_some_iff] at h
  exact hc b c h.1

theorem Counted.setCurrent (hc : d.Counted) (f id : K) : (d.setCurrent f id).Counted := by
  intro b c h
  simp only [DemoBankState.setCurrent] at h
  rcases eq_or_ne b (.flow f) with rfl | hb
  · simp only [update_self, Option.map_eq_some_iff] at h
    obtain ⟨c₀, h₀, rfl⟩ := h
    exact hc _ c₀ h₀
  · exact hc b c (by simpa [hb] using h)

theorem Counted.op (hc : d.Counted) (op : BankOp K) : (d.op now op).1.Counted := by
  cases op with
  | reserve r =>
    simp only [DemoBankState.op, reserve]
    split
    · split_ifs <;> exact hc.purge
    · split_ifs
      · exact hc.purge
      · exact ((view_increments now hc.purge _).1.setCurrent _ _ :)
  | activate c response =>
    simp only [DemoBankState.op, activate]
    split
    · exact hc
    · split_ifs <;> exact hc
  | verify c m =>
    simp only [DemoBankState.op, verify]
    split
    · exact hc
    · split_ifs <;> exact hc

theorem Answered.setRecord (ha : d.Answered) (key : K) {r : DemoRecord K}
    (hr : r.state = .ready → r.response.isSome = true) : (d.setRecord key r).Answered := by
  intro k r' h
  simp only [DemoBankState.setRecord] at h
  rcases eq_or_ne k key with rfl | hk
  · simp only [update_self, Option.some.injEq] at h
    subst h
    exact hr
  · exact ha k r' (by simpa [hk] using h)

theorem records_increments (l : List (BudgetKey K)) : (l.foldl (increment now) d).records = d.records := by
  induction l generalizing d with
  | nil => rfl
  | cons b l ih => rw [List.foldl_cons, ih, increment]

/-- The record of a challenge that is found. -/
theorem current_ok {c : ChallengeRef K} {r : DemoRecord K} (h : d.current now c = .ok r) :
    d.records c.requestKey = some r := by
  simp only [DemoBankState.current, bind_ok, orRevert_ok, revertIf_ok, pure_ok] at h
  obtain ⟨r', hr, _, -, _, -, rfl⟩ := h
  exact hr

theorem Answered.op (ha : d.Answered) (op : BankOp K) : (d.op now op).1.Answered := by
  cases op with
  | reserve r =>
    have hpurged : (d.purge now).Answered := by
      intro k r h
      simp only [DemoBankState.purge, Option.filter_eq_some_iff] at h
      exact ha k r h.1
    simp only [DemoBankState.op, reserve]
    split
    · split_ifs <;> exact hpurged
    · split_ifs
      · exact hpurged
      · refine Answered.setRecord ?_ _ (by simp)
        intro k r' h
        simp only [setCurrent, records_increments] at h
        exact hpurged k r' h
  | activate c response =>
    simp only [DemoBankState.op, activate]
    split
    · exact ha
    · split_ifs
      · exact ha
      · exact ha.setRecord _ (by simp)
  | verify c m =>
    simp only [DemoBankState.op, verify]
    split
    · exact ha
    · next r hr =>
      split_ifs
      · exact ha
      · exact ha
      · exact ha.setRecord _ (by simp)
      · exact ha.setRecord _ (by simp)
      · exact ha.setRecord _ (ha _ r (current_ok hr))

end DemoBankState

/-! ## When an operation is fair -/

/-- No key that the operation reads is found at its very deadline. -/
def Punctual (x : RedisExpiry) (now : ℕ) (s : BankState K) (op : BankOp K) : Prop :=
  x.expired now now = true ∨ (∀ q ∈ s.requests op.key, q.deadline ≠ now) ∧
    ∀ b ∈ op.budgets, ∀ c ∈ s.budgets b, c.deadline ≠ now

/-- The demo store does not hold the challenge beyond the deadline of its record or its flow. -/
def Fresh (now : ℕ) (d : DemoBankState K) (c : ChallengeRef K) : Prop :=
  ∀ r ∈ d.records c.requestKey, ∀ b ∈ d.budgets (.flow c.flowKey),
    r.input.challengeId = c.challengeId → b.current = some c.challengeId →
    now < r.deleteAt ∧ now < b.expiresAt

/-- The operations on which the stores agree. -/
def Fair (x : RedisExpiry) (size : K → ℕ) (now : ℕ) (s : BankState K) (d : DemoBankState K)
    (op : BankOp K) : Prop :=
  Punctual x now s op ∧ match op with
    | .reserve r => now + BankLimits.lifetimeMs ≤ maxSafeMs ∧
        ∀ old ∈ d.records r.requestKey, old.input.fingerprint = r.fingerprint → old.state = .ready →
          now < old.expiresAt → ∀ response ∈ old.response, size response ≠ 0
    | .activate c response => size response ≤ maxResponseLength ∧ Fresh now d c
    | .verify c _ => Fresh now d c

instance (x : RedisExpiry) (now : ℕ) (s : BankState K) (op : BankOp K) :
    Decidable (Punctual x now s op) :=
  inferInstanceAs (Decidable (_ ∨ (∀ q ∈ s.requests op.key, q.deadline ≠ now) ∧
    ∀ b ∈ op.budgets, ∀ c ∈ s.budgets b, c.deadline ≠ now))

instance Fresh.decidable (now : ℕ) (d : DemoBankState K) (c : ChallengeRef K) : Decidable (Fresh now d c) :=
  inferInstanceAs (Decidable (∀ r ∈ d.records c.requestKey, ∀ b ∈ d.budgets (.flow c.flowKey), _))

instance (x : RedisExpiry) (size : K → ℕ) (now : ℕ) (s : BankState K) (d : DemoBankState K) :
    (op : BankOp K) → Decidable (Fair x size now s d op)
  | .reserve r => inferInstanceAs (Decidable (Punctual x now s (.reserve r) ∧ _ ∧
      ∀ old ∈ d.records r.requestKey, _ → _ → _ → ∀ response ∈ old.response, size response ≠ 0))
  | .activate c response => inferInstanceAs (Decidable (Punctual x now s (.activate c response) ∧ _ ∧ Fresh now d c))
  | .verify c m => inferInstanceAs (Decidable (Punctual x now s (.verify c m) ∧ Fresh now d c))

section

variable {t now : ℕ} {s : BankState K} {d : DemoBankState K} {x : RedisExpiry} {size : K → ℕ}
  {op : BankOp K}

omit [DecidableEq K] in
theorem Sim.later (h : Sim t s d) (ht : t ≤ now) : Sim now s d := by
  refine ⟨?_, h.counted, h.answered⟩
  have hlive := congrArg (BankState.live now) h.live
  rw [BankState.live_live ht, BankState.live_live ht] at hlive
  exact hlive

/-- The keys that both stores read are the same. -/
def SameKeys (x : RedisExpiry) (now : ℕ) (s : BankState K) (d : DemoBankState K) (op : BankOp K) : Prop :=
  (s.visible x now).requests op.key = ((d.opened now op).view now).requests op.key ∧
    ∀ b ∈ op.budgets, (s.visible x now).budgets b = ((d.opened now op).view now).budgets b

omit [DecidableEq K] in
theorem sameKeys_reserve (h : Sim now s d) {r : BankReservation K} (hp : Punctual x now s (.reserve r)) :
    SameKeys x now s d (.reserve r) := by
  have hview : (d.opened now (.reserve r)).view now = s.live now := by
    rw [h.live, ← BankState.view_purge]
    rfl
  constructor
  · rw [hview]
    exact BankState.visible_requests x (hp.imp_right And.left)
  · intro b hb
    rw [hview]
    exact BankState.visible_budgets x (hp.imp_right fun hp => hp.2 b hb)

omit [DecidableEq K] in
/-- A challenge that both stores may find is held by both, and else by none of them. -/
theorem sameKeys_or_unmatched (h : Sim now s d) {c : ChallengeRef K} (hop : op.challenge = some c)
    (hp : Punctual x now s op) (hf : Fresh now d c) :
    SameKeys x now s d op ∨ ¬ (s.visible x now).Matches c ∧ ¬ ((d.opened now op).view now).Matches c := by
  have hkey : op.key = c.requestKey ∧ op.budgets = [.flow c.flowKey] ∧ d.opened now op = d := by
    cases op with
    | reserve r => cases hop
    | activate c' response => cases hop; exact ⟨rfl, rfl, rfl⟩
    | verify c' m => cases hop; exact ⟨rfl, rfl, rfl⟩
  obtain ⟨hkey, hbudgets, hopened⟩ := hkey
  have hrequests := BankState.visible_requests x (hp.imp_right And.left)
  have hflow := BankState.visible_budgets x (b := .flow c.flowKey)
    (hp.imp_right fun hp => hp.2 _ (by rw [hbudgets]; exact List.mem_singleton_self _))
  have hlive := h.live
  unfold SameKeys
  rw [hopened, hbudgets, hrequests, hkey]
  by_cases hm : (d.view now).Matches c
  · refine .inl ?_
    obtain ⟨q, b, hq, hid, hb, hcur⟩ := hm
    simp only [DemoBankState.view, Option.map_eq_some_iff] at hq hb
    obtain ⟨r, hr, rfl⟩ := hq
    obtain ⟨b, hb, rfl⟩ := hb
    obtain ⟨hlr, hlb⟩ := hf r hr b hb hid hcur
    rw [hlive]
    constructor
    · simp [BankState.live, DemoBankState.view, DemoRecord.request, hr, hlr]
    · intro b' hb'
      obtain rfl := List.mem_singleton.1 hb'
      rw [hflow, hlive]
      simp [BankState.live, DemoBankState.view, DemoBudget.budget, hb, hlb]
  · refine .inr ⟨?_, hm⟩
    rintro ⟨q, b, hq, hid, hb, hcur⟩
    rw [hkey] at hrequests
    rw [hrequests, hlive] at hq
    rw [hflow, hlive] at hb
    simp only [BankState.live, Option.filter_eq_some_iff] at hq hb
    exact hm ⟨q, b, hq.1, hid, hb.1, hcur⟩

/-- Both stores run the script with the same answer, and hold the same live keys after it. -/
theorem script_agrees (h : Sim now s d) (hf : Fair x size now s d op) :
    ((s.visible x now).script now op).2 = (((d.opened now op).view now).script now op).2 ∧
      ((s.visible x now).script now op).1.live now =
        (((d.opened now op).view now).script now op).1.live now := by
  have hlive : (s.visible x now).live now = ((d.opened now op).view now).live now := by
    rw [BankState.live_visible, h.live, BankState.live_opened]
  obtain ⟨hp, hf⟩ := hf
  have hsame : SameKeys x now s d op →
      ((s.visible x now).script now op).2 = (((d.opened now op).view now).script now op).2 ∧
      ((s.visible x now).script now op).1.live now =
        (((d.opened now op).view now).script now op).1.live now := by
    rintro ⟨hr, hb⟩
    exact ⟨(BankState.script_congr _ hr hb).1, BankState.live_script hlive hr hb⟩
  have hchallenge : ∀ c, op.challenge = some c → Fresh now d c →
      ((s.visible x now).script now op).2 = (((d.opened now op).view now).script now op).2 ∧
      ((s.visible x now).script now op).1.live now =
        (((d.opened now op).view now).script now op).1.live now := by
    intro c hop hfresh
    rcases sameKeys_or_unmatched h hop hp hfresh with hkeys | ⟨hs, hd⟩
    · exact hsame hkeys
    · rw [BankState.script_unmatched hop hs, BankState.script_unmatched hop hd]
      exact ⟨rfl, hlive⟩
  cases op with
  | reserve r => exact hsame (sameKeys_reserve h hp)
  | activate c response => exact hchallenge c rfl hf.2
  | verify c m => exact hchallenge c rfl hf

/-- The answer that the demo store gives back was stored with the request. -/
theorem cached_response {s : BankState K} {response : Option K}
    (h : (s.script now op).2 = .cached response) : ∃ r q, op = .reserve r ∧
      s.requests r.requestKey = some q ∧ q.fingerprint = r.fingerprint ∧ q.state = .ready ∧
      now < q.expires ∧ q.response = response := by
  cases op with
  | reserve r =>
    simp only [BankState.script, BankState.reserve] at h
    split at h
    · next q hq =>
      split_ifs at h with hfp hready
      cases h
      exact ⟨r, q, rfl, hq, not_not.1 hfp, hready.1, hready.2.2, rfl⟩
    · split_ifs at h
  | activate c v =>
    simp only [BankState.script, BankState.activate] at h
    split at h
    · next e he => rcases BankState.challenge_error he with rfl | rfl <;> cases h
    · split_ifs at h
  | verify c m =>
    simp only [BankState.script, BankState.verify] at h
    split at h
    · next e he => rcases BankState.challenge_error he with rfl | rfl <;> cases h
    · split_ifs at h

theorem reserved_at {s : BankState K} {e : ℕ} (h : (s.script now op).2 = .reserved e) :
    ∃ r, op = .reserve r ∧ e = now + BankLimits.lifetimeMs := by
  cases op with
  | reserve r =>
    simp only [BankState.script, BankState.reserve] at h
    split at h
    · split_ifs at h
    · split_ifs at h
      cases h
      exact ⟨r, rfl, rfl⟩
  | activate c v =>
    simp only [BankState.script, BankState.activate] at h
    split at h
    · next e he => rcases BankState.challenge_error he with rfl | rfl <;> cases h
    · split_ifs at h
  | verify c m =>
    simp only [BankState.script, BankState.verify] at h
    split at h
    · next e he => rcases BankState.challenge_error he with rfl | rfl <;> cases h
    · split_ifs at h

/-- The Redis store makes of an answer what the demo store does. -/
theorem bankAnswer_eq (ha : d.Answered) (hf : Fair x size now s d op) {reply : BankReply K}
    (hreply : (((d.opened now op).view now).script now op).2 = reply) :
    bankAnswer size reply = demoAnswer reply := by
  cases reply with
  | reserved e =>
    obtain ⟨r, rfl, rfl⟩ := reserved_at hreply
    simp [bankAnswer, demoAnswer, hf.2.1]
  | cached response =>
    obtain ⟨r, q, rfl, hq, hfp, hready, hexp, rfl⟩ := cached_response hreply
    simp only [DemoBankState.opened, DemoBankState.view, DemoBankState.purge, Option.map_eq_some_iff,
      Option.filter_eq_some_iff] at hq
    obtain ⟨old, ⟨hold, -⟩, rfl⟩ := hq
    obtain ⟨response, hresponse⟩ := Option.isSome_iff_exists.1 (ha _ old hold hready)
    have hsize := hf.2.2 old hold hfp hready hexp response hresponse
    simp [bankAnswer, demoAnswer, DemoRecord.request, hresponse, hsize]
  | _ => rfl

/-- **A fair operation** gets the same answer from both stores. -/
theorem Sim.step (h : Sim t s d) (ht : t ≤ now) (hf : Fair x size now s d op) :
    (redisOp x size now s op).2 = (d.op now op).2 ∧
      Sim now (redisOp x size now s op).1 (d.op now op).1 := by
  have hnow := h.later ht
  obtain ⟨hreply, hlive⟩ := script_agrees hnow hf
  obtain ⟨hview, hanswer⟩ := DemoBankState.op_view now h.counted op
  have hsmall : op.tooLarge size = false := by
    cases op with
    | activate c response => simpa [BankOp.tooLarge] using hf.2.1
    | reserve r => rfl
    | verify c m => rfl
  unfold redisOp
  rw [hsmall]
  refine ⟨?_, ?_, h.counted.op op, h.answered.op op⟩
  · rw [hanswer, ← bankAnswer_eq h.answered hf rfl]
    simp [hreply]
  · rw [hview]
    simpa using hlive

end

/-! ## Runs -/

/-- The operation of an entry is fair in the state before it. -/
def FairStep (x : RedisExpiry) (size : K → ℕ) (e : BankStoresStep K) : Prop :=
  Fair x size e.act.1 e.pre.redis e.pre.demo e.act.2

/-- Redis hides a key from the millisecond after its deadline on. -/
def hiddenAfter : RedisExpiry where
  expired now deadline := deadline < now
  early _ _ h := by simpa using Nat.le_of_lt h
  late _ _ h := by simpa using h

/-- What the callers of the stores see to: a request key is that of one flow, and no two
    reservations have one challenge id. -/
def BankOp.WellFormed (ops : List (BankOp K)) : Prop :=
  (∀ op ∈ ops, ∀ op' ∈ ops, op.key = op'.key → op.flowKey = op'.flowKey) ∧
    (ops.filterMap BankOp.reserved).Nodup

instance (ops : List (BankOp K)) : Decidable (BankOp.WellFormed ops) :=
  inferInstanceAs (Decidable (_ ∧ _))

/-- A start and its answer, and another start of the flow just before its budget ends. -/
def secondStart : List (ℕ × BankOp ℕ) :=
  [(0, .reserve ⟨1, 2, 3, 4, 5, 6⟩), (1, .activate ⟨1, 2, 6⟩ 9), (2, .verify ⟨1, 2, 6⟩ false),
    (3, .reserve ⟨1, 2, 3, 4, 5, 10⟩), (86399000, .reserve ⟨7, 2, 3, 4, 5, 8⟩),
    (86399001, .activate ⟨7, 2, 8⟩ 9)]

end Proofmark
