/-
  The safety of the bank challenge store.

  `BankEffect` lists what one action can do.  `BankInv` relates the store to its history:
  a stored request remembers how many wrong answers its challenge had, and the current
  challenge of a flow is the last one reserved for it.  `bank_challenge_safety` is read
  off it, together with `count_segment` for the budgets.
-/
import Proofmark.Pipeline.BankState
import Mathlib.Data.List.Nodup

namespace Proofmark

open Revert Function

variable {K : Type} [DecidableEq K]

namespace BankState

/-! ## Budgets -/

section
variable {now : ℕ} {s : BankState K}

theorem count_increment (b b' : BudgetKey K) :
    (increment now s b).count b' = s.count b' + if b' = b then 1 else 0 := by
  by_cases hb : b' = b
  · subst hb
    rw [count, increment]
    cases h : s.budgets b' <;> simp [count, h, apply_ite BankBudget.count]
  · simp [count, increment, hb]

theorem count_increments (now : ℕ) {l : List (BudgetKey K)} (hl : l.Nodup) (s : BankState K)
    (b : BudgetKey K) : (l.foldl (increment now) s).count b = s.count b + if b ∈ l then 1 else 0 := by
  induction l generalizing s with
  | nil => simp
  | cons a l ih =>
    rw [List.nodup_cons] at hl
    rw [List.foldl_cons, ih hl.2, count_increment]
    by_cases hb : b = a
    · subst hb
      simp [hl.1]
    · simp [hb]

theorem current_increment (b : BudgetKey K) (f : K) :
    (increment now s b).current f = s.current f := by
  by_cases hb : BudgetKey.flow f = b
  · subst hb
    rw [current, increment]
    cases h : s.budgets (.flow f) <;> simp [current, h, apply_ite BankBudget.current]
  · simp [current, increment, update_of_ne hb]

theorem current_increments (l : List (BudgetKey K)) (s : BankState K) (f : K) :
    (l.foldl (increment now) s).current f = s.current f := by
  induction l generalizing s with
  | nil => rfl
  | cons a l ih => rw [List.foldl_cons, ih, current_increment]

theorem requests_increments (l : List (BudgetKey K)) (s : BankState K) :
    (l.foldl (increment now) s).requests = s.requests := by
  induction l generalizing s with
  | nil => rfl
  | cons a l ih => rw [List.foldl_cons, ih, increment]

omit [DecidableEq K] in
theorem nodup_reservationBudgets (r : BankReservation K) : (reservationBudgets r).Nodup := by
  simp [reservationBudgets]

theorem count_setCurrent (f id : K) (b : BudgetKey K) : (s.setCurrent f id).count b = s.count b := by
  by_cases hb : b = .flow f
  · subst hb
    rw [count, setCurrent]
    cases h : s.budgets (.flow f) <;> simp [count, h]
  · simp [count, setCurrent, update_of_ne hb]

theorem current_setCurrent {f id : K} (h : 0 < s.count (.flow f)) (f' : K) :
    (s.setCurrent f id).current f' = if f' = f then some id else s.current f' := by
  by_cases hf : f' = f
  · subst hf
    rw [current, setCurrent]
    cases hb : s.budgets (.flow f') with
    | none => simp [count, hb] at h
    | some c => simp
  · have hne : BudgetKey.flow f' ≠ .flow f := fun he => hf (BudgetKey.flow.inj he)
    simp [current, setCurrent, hf]

end

/-! ## What an action does -/

/-- The answer to a challenge is evaluated: it is current, not expired and ready. -/
def evaluates (now : ℕ) (s : BankState K) (c : ChallengeRef K) : Bool :=
  match s.challenge now c with
  | .ok q => q.state == .ready
  | .error _ => false

/-- All that an action can do. -/
inductive BankEffect (s : BankState K) :
    BankAction K → Option (BankReply K) → BankState K → Prop
  | quiet {now : ℕ} {op : BankOp K} {reply : BankReply K} :
      (∀ t, reply ≠ .reserved t) → reply ≠ .activated → reply ≠ .verified →
      (∀ c m, op = .verify c m → s.evaluates now c = false) →
      BankEffect s (.eval now op) (some reply) { s with time := now }
  | reserved {now : ℕ} {r : BankReservation K} {s' : BankState K} :
      s.requests r.requestKey = none → (∀ b ∈ reservationBudgets r, s.count b < b.limit) →
      s'.requests = update s.requests r.requestKey (some
        { state := .pending, id := r.challengeId, fingerprint := r.fingerprint,
          expires := now + BankLimits.lifetimeMs, attempts := 0, response := none,
          deadline := now + BankLimits.budgetMs }) →
      (∀ b, s'.count b = s.count b + if b ∈ reservationBudgets r then 1 else 0) →
      (∀ f, s'.current f = if f = r.flowKey then some r.challengeId else s.current f) →
      BankEffect s (.eval now (.reserve r)) (some (.reserved (now + BankLimits.lifetimeMs))) s'
  | activated {now : ℕ} {c : ChallengeRef K} {response : K} {q : BankRequest K} :
      s.challenge now c = .ok q → q.state = .pending →
      BankEffect s (.eval now (.activate c response)) (some .activated)
        ({ s with time := now }.setRequest c.requestKey
          { q with state := .ready, response := some response })
  | verified {now : ℕ} {c : ChallengeRef K} {q : BankRequest K} :
      s.challenge now c = .ok q → q.state = .ready →
      BankEffect s (.eval now (.verify c true)) (some .verified)
        ({ s with time := now }.setRequest c.requestKey
          { q with state := .consumed, response := none })
  | wrong {now : ℕ} {c : ChallengeRef K} {q q' : BankRequest K} {reply : BankReply K} :
      s.challenge now c = .ok q → q.state = .ready → reply ≠ .verified →
      q'.id = q.id → q'.expires = q.expires → q'.attempts = q.attempts + 1 →
      (q'.state = .locked ∨ q'.state = .ready ∧ q'.attempts < BankLimits.attempts) →
      BankEffect s (.eval now (.verify c false)) (some reply)
        ({ s with time := now }.setRequest c.requestKey q')
  | expiredRequest {now : ℕ} {key : K} :
      BankEffect s (.expireRequest now key) none
        { s with time := now, requests := update s.requests key none }
  | expiredBudget {now : ℕ} {b : BudgetKey K} :
      BankEffect s (.expireBudget now b) none
        { s with time := now, budgets := update s.budgets b none }

section
variable {now : ℕ} {s : BankState K}

theorem challenge_ok {c : ChallengeRef K} {q : BankRequest K} :
    s.challenge now c = .ok q ↔ s.requests c.requestKey = some q ∧ q.id = c.challengeId ∧
      s.current c.flowKey = some c.challengeId ∧ now < q.expires := by
  simp only [challenge, bind_ok, orRevert_ok, revertIf_ok, pure_ok, not_or, not_not, Nat.not_le]
  constructor
  · rintro ⟨q', h1, _, ⟨h2, h3⟩, _, h4, rfl⟩
    exact ⟨h1, h2, h3, h4⟩
  · rintro ⟨h1, h2, h3, h4⟩
    exact ⟨q, h1, (), ⟨h2, h3⟩, (), h4, rfl⟩

/-- A challenge error is one of two answers. -/
theorem challenge_error {c : ChallengeRef K} {e : BankReply K} (h : s.challenge now c = .error e) :
    e = .challengeUnavailable ∨ e = .challengeExpired := by
  rw [challenge] at h
  cases hq : s.requests c.requestKey with
  | none =>
    simp only [hq, orRevert, error_bind, Except.error.injEq] at h
    exact .inl h.symm
  | some q =>
    by_cases h1 : q.id ≠ c.challengeId ∨ s.current c.flowKey ≠ some c.challengeId
    · simp only [hq, orRevert, ok_bind, revertIf, if_pos h1, error_bind, Except.error.injEq] at h
      exact .inl h.symm
    · by_cases h2 : q.expires ≤ now
      · simp only [hq, orRevert, ok_bind, revertIf, if_neg h1, if_pos h2, error_bind,
          Except.error.injEq] at h
        exact .inr h.symm
      · simp only [hq, orRevert, ok_bind, revertIf, if_neg h1, if_neg h2] at h
        cases h

theorem challenge_time (t : ℕ) (c : ChallengeRef K) :
    ({ s with time := t } : BankState K).challenge now c = s.challenge now c := rfl

theorem effect_of_reserve (r : BankReservation K) :
    BankEffect s (.eval now (.reserve r)) (some ((reserve now { s with time := now } r).2))
      (reserve now { s with time := now } r).1 := by
  have hquiet {reply : BankReply K} (h1 : ∀ t, reply ≠ .reserved t) (h2 : reply ≠ .activated)
      (h3 : reply ≠ .verified) :
      BankEffect s (.eval now (.reserve r)) (some reply) { s with time := now } :=
    .quiet h1 h2 h3 (by simp)
  simp only [reserve]
  split
  · split_ifs
    all_goals exact hquiet (by simp) (by simp) (by simp)
  · next hnone =>
    split_ifs with hany
    · exact hquiet (by simp) (by simp) (by simp)
    · rw [List.any_eq_true, not_exists] at hany
      have hlim : ∀ b ∈ reservationBudgets r, s.count b < b.limit := by
        intro b hb
        have := hany b
        simp only [hb, true_and, decide_eq_true_eq, ge_iff_le, Nat.not_le] at this
        exact this
      have hcount := count_increments now (nodup_reservationBudgets r)
        { s with time := now }
      refine .reserved hnone hlim ?_ (fun b => ?_) fun f => ?_
      · simp only [setRequest, setCurrent]
        rw [requests_increments]
      · exact (count_setCurrent _ _ b).trans (hcount b)
      · have hpos : 0 < ((reservationBudgets r).foldl (increment now)
            ({ s with time := now } : BankState K)).count (.flow r.flowKey) := by
          rw [hcount]
          simp [reservationBudgets]
        refine (current_setCurrent hpos f).trans ?_
        rw [current_increments]
        rfl

theorem effect_of_activate (c : ChallengeRef K) (response : K) :
    BankEffect s (.eval now (.activate c response))
      (some ((activate now { s with time := now } c response).2))
      (activate now { s with time := now } c response).1 := by
  simp only [activate, challenge_time]
  split
  · next e he =>
    rcases challenge_error he with rfl | rfl
    all_goals exact .quiet (by simp) (by simp) (by simp) (by simp)
  · next q hq =>
    split_ifs with hp
    · exact .quiet (by simp) (by simp) (by simp) (by simp)
    · exact .activated hq (not_not.1 hp)

theorem effect_of_verify (c : ChallengeRef K) (m : Bool) :
    BankEffect s (.eval now (.verify c m)) (some ((verify now { s with time := now } c m).2))
      (verify now { s with time := now } c m).1 := by
  simp only [verify, challenge_time]
  split
  · next e he =>
    have hev : ∀ c' m', BankOp.verify c m = .verify c' m' → s.evaluates now c' = false := by
      rintro _ _ ⟨⟩
      simp [evaluates, he]
    rcases challenge_error he with rfl | rfl
    all_goals exact .quiet (by simp) (by simp) (by simp) hev
  · next q hq =>
    have hev (hs : q.state ≠ .ready) :
        ∀ c' m', BankOp.verify c m = .verify c' m' → s.evaluates now c' = false := by
      rintro _ _ ⟨⟩
      simp [evaluates, hq, hs]
    split_ifs with hl hr hm ha
    · exact .quiet (by simp) (by simp) (by simp) (hev (by simp [hl]))
    · exact .quiet (by simp) (by simp) (by simp) (hev hr)
    · subst hm
      exact .verified hq (not_not.1 hr)
    · have hf : m = false := by simpa using hm
      subst hf
      exact .wrong hq (not_not.1 hr) (by simp) rfl rfl rfl (.inl rfl)
    · have hf : m = false := by simpa using hm
      subst hf
      exact .wrong hq (not_not.1 hr) (by simp) rfl rfl rfl (.inr ⟨not_not.1 hr, Nat.not_le.1 ha⟩)

/-- **Each action has its effect.** -/
theorem effect_of_step {e : BankEntry K} (h : (BankState.machine K).IsStep e) :
    BankEffect e.pre e.act e.out e.post := by
  obtain ⟨s, a, out, s'⟩ := e
  simp only [Machine.IsStep, machine] at h
  cases a with
  | eval now op =>
    simp only [bind_ok, revertIf_ok, pure_ok, Prod.mk.injEq] at h
    obtain ⟨_, -, rfl, rfl⟩ := h
    cases op with
    | reserve r => exact effect_of_reserve r
    | activate c response => exact effect_of_activate c response
    | verify c m => exact effect_of_verify c m
  | expireRequest now key =>
    simp only [bind_ok, revertIf_ok, pure_ok, Prod.mk.injEq] at h
    obtain ⟨_, -, _, -, rfl, rfl⟩ := h
    exact .expiredRequest
  | expireBudget now b =>
    simp only [bind_ok, revertIf_ok, pure_ok, Prod.mk.injEq] at h
    obtain ⟨_, -, _, -, rfl, rfl⟩ := h
    exact .expiredBudget

end

end BankState

/-! ## Histories -/

/-- A reservation that succeeded, with its time. -/
def reservation? (e : BankEntry K) : Option (ℕ × BankReservation K) :=
  match e.act, e.out with
  | .eval now (.reserve r), some (.reserved _) => some (now, r)
  | _, _ => none

/-- A wrong answer to the challenge that was evaluated. -/
def wrongAnswer (id : K) (e : BankEntry K) : Bool :=
  match e.act with
  | .eval now (.verify c false) => decide (c.challengeId = id) && e.pre.evaluates now c
  | _ => false

/-- An answer to the challenge that was reported verified. -/
def verifiedAnswer (id : K) (e : BankEntry K) : Bool :=
  match e.act, e.out with
  | .eval _ (.verify c _), some .verified => decide (c.challengeId = id)
  | _, _ => false

/-- The challenge was activated. -/
def activation (id : K) (e : BankEntry K) : Bool :=
  match e.act, e.out with
  | .eval _ (.activate c _), some .activated => decide (c.challengeId = id)
  | _, _ => false

/-- A successful reservation that counts against the budget. -/
def spends (b : BudgetKey K) (e : BankEntry K) : Bool :=
  (reservation? e).any fun p => decide (b ∈ BankState.reservationBudgets p.2)

def expires (b : BudgetKey K) (e : BankEntry K) : Prop := ∃ now, e.act = .expireBudget now b

/-- The successful reservations of a history. -/
def reservations (es : List (BankEntry K)) : List (ℕ × BankReservation K) := es.filterMap reservation?

/-- The challenges of a flow, in the order of their reservations. -/
def challengesOf (es : List (BankEntry K)) (flowKey : K) : List K :=
  ((reservations es).filter fun p => p.2.flowKey = flowKey).map fun p => p.2.challengeId

/-- What precedes an answer at time `now` that is reported verified: its challenge was
    reserved for this flow, by no later reservation superseded, not expired, activated, not
    locked by wrong answers and not consumed. -/
structure Answerable (es : List (BankEntry K)) (now : ℕ) (c : ChallengeRef K) : Prop where
  reserved : ∃ p ∈ reservations es, p.2.requestKey = c.requestKey ∧ p.2.flowKey = c.flowKey ∧
    p.2.challengeId = c.challengeId ∧ now < p.1 + BankLimits.lifetimeMs
  latest : (challengesOf es c.flowKey).getLast? = some c.challengeId
  activated : ∃ e ∈ es, activation c.challengeId e = true
  unlocked : es.countP (wrongAnswer c.challengeId) < BankLimits.attempts
  unconsumed : es.countP (verifiedAnswer c.challengeId) = 0

/-- What a stored request says about the history of its challenge. -/
structure Remembers (es : List (BankEntry K)) (key : K) (q : BankRequest K) : Prop where
  reserved : ∃ p ∈ reservations es, p.2.requestKey = key ∧ p.2.challengeId = q.id ∧
    q.expires = p.1 + BankLimits.lifetimeMs
  attempts : es.countP (wrongAnswer q.id) = q.attempts
  unconsumed : q.state = .pending ∨ q.state = .ready → es.countP (verifiedAnswer q.id) = 0
  pending : q.state = .pending → q.attempts = 0
  ready : q.state = .ready → q.attempts < BankLimits.attempts ∧ ∃ e ∈ es, activation q.id e = true

structure BankInv (es : List (BankEntry K)) (s : BankState K) : Prop where
  bounded : ∀ i, es.countP (wrongAnswer i) ≤ BankLimits.attempts ∧
    es.countP (verifiedAnswer i) ≤ 1
  unseen : ∀ i, (∀ p ∈ reservations es, p.2.challengeId ≠ i) →
    es.countP (wrongAnswer i) = 0 ∧ es.countP (verifiedAnswer i) = 0
  stored : ∀ key q, s.requests key = some q → Remembers es key q
  current : ∀ f i, s.current f = some i → (challengesOf es f).getLast? = some i

section
variable {es : List (BankEntry K)} {e : BankEntry K} {s : BankState K}

omit [DecidableEq K] in
theorem reservations_concat (es : List (BankEntry K)) (e : BankEntry K) :
    reservations (es ++ [e]) = reservations es ++ (reservation? e).toList := by
  rw [reservations, List.filterMap_append, reservations]
  cases h : reservation? e <;> simp [h]

omit [DecidableEq K] in
/-- Challenge ids tell reservations apart. -/
theorem reservation_unique (h : ((reservations es).map fun p => p.2.challengeId).Nodup)
    {p p' : ℕ × BankReservation K} (hp : p ∈ reservations es) (hp' : p' ∈ reservations es)
    (he : p.2.challengeId = p'.2.challengeId) : p = p' :=
  List.inj_on_of_nodup_map h hp hp' he

theorem challengesOf_concat_of_none (h : reservation? e = none) (f : K) :
    challengesOf (es ++ [e]) f = challengesOf es f := by
  simp [challengesOf, reservations_concat, h]

/-- A request remembers its history as long as nothing happens to its challenge. -/
theorem Remembers.frame {key : K} {q : BankRequest K} (h : Remembers es key q)
    (hw : wrongAnswer q.id e = false) (hv : verifiedAnswer q.id e = false) :
    Remembers (es ++ [e]) key q := by
  obtain ⟨p, hp, hr⟩ := h.reserved
  refine ⟨⟨p, by simp [reservations_concat, hp], hr⟩, ?_, ?_, h.pending, fun hq => ?_⟩
  · simpa [hw] using h.attempts
  · simpa [hv] using h.unconsumed
  · obtain ⟨ha, a, ham, hac⟩ := h.ready hq
    exact ⟨ha, a, by simp [ham], hac⟩

/-- A challenge whose answer is evaluated is the one its request stores. -/
theorem BankInv.answerable (hi : BankInv es s)
    (hids : ((reservations es).map fun p => p.2.challengeId).Nodup) {now : ℕ} {c : ChallengeRef K}
    {q : BankRequest K} (hc : s.challenge now c = .ok q) (hr : q.state = .ready) :
    Answerable es now c := by
  obtain ⟨hq, hid, hcur, hlt⟩ := BankState.challenge_ok.1 hc
  have hm := hi.stored _ _ hq
  have hlast := hi.current _ _ hcur
  obtain ⟨p, hp, hkey, hpid, hexp⟩ := hm.reserved
  obtain ⟨ha, hact⟩ := hm.ready hr
  -- the last reservation of the flow is the one of this request
  obtain ⟨p', hp', hpid'⟩ := List.mem_map.1 (List.mem_of_getLast? hlast)
  obtain ⟨hp', hflow⟩ := List.mem_filter.1 hp'
  have hpp : p = p' := reservation_unique hids hp hp' (by rw [hpid, hid, hpid'])
  subst hpp
  rw [hid] at hact hpid
  refine ⟨⟨p, hp, hkey, of_decide_eq_true hflow, hpid, hexp ▸ hlt⟩, hlast, hact, ?_, ?_⟩
  · rw [← hid, hm.attempts]
    exact ha
  · rw [← hid]
    exact hm.unconsumed (.inr hr)

/-- Actions that neither reserve nor answer leave what requests remember. -/
theorem BankInv.frame {s' : BankState K} (hi : BankInv es s) (hres : reservation? e = none)
    (hw : ∀ i, wrongAnswer i e = false) (hv : ∀ i, verifiedAnswer i e = false)
    (hs : ∀ key q, s'.requests key = some q → Remembers es key q ∨ Remembers (es ++ [e]) key q)
    (hc : ∀ f i, s'.current f = some i → s.current f = some i) : BankInv (es ++ [e]) s' := by
  refine ⟨fun i => ?_, fun i h => ?_, fun key q hq => ?_, fun f i hf => ?_⟩
  · simpa [hw i, hv i] using hi.bounded i
  · rw [reservations_concat, hres] at h
    simpa [hw i, hv i] using hi.unseen i (by simpa using h)
  · rcases hs key q hq with h | h
    · exact h.frame (hw _) (hv _)
    · exact h
  · rw [challengesOf_concat_of_none hres]
    exact hi.current f i (hc f i hf)

/-- An evaluated answer changes one request and what is known of its challenge. -/
theorem BankInv.answered (hi : BankInv es s)
    (hids : ((reservations es).map fun p => p.2.challengeId).Nodup) {now t : ℕ} {c : ChallengeRef K}
    {q q' : BankRequest K} (hc : s.challenge now c = .ok q) (hr : q.state = .ready)
    (hid : q'.id = q.id) (hexp : q'.expires = q.expires) (hres : reservation? e = none)
    (hother : ∀ i ≠ c.challengeId, wrongAnswer i e = false ∧ verifiedAnswer i e = false)
    (hatt : (es ++ [e]).countP (wrongAnswer c.challengeId) = q'.attempts)
    (hver : (es ++ [e]).countP (verifiedAnswer c.challengeId) ≤ 1)
    (hstate : q'.state = .ready → q'.attempts < BankLimits.attempts ∧
      (es ++ [e]).countP (verifiedAnswer c.challengeId) = 0)
    (hle : q'.attempts ≤ BankLimits.attempts) (hpend : q'.state ≠ .pending) :
    BankInv (es ++ [e]) ({ s with time := t }.setRequest c.requestKey q') := by
  obtain ⟨hq, hqid, -, -⟩ := BankState.challenge_ok.1 hc
  have hm := hi.stored _ _ hq
  refine ⟨fun i => ?_, fun i h => ?_, fun key q₁ hq₁ => ?_, fun f i hf => ?_⟩
  · by_cases hic : i = c.challengeId
    · rw [hic, hatt]
      exact ⟨hle, hver⟩
    · simpa [hother i hic] using hi.bounded i
  · rw [reservations_concat, hres, Option.toList_none, List.append_nil] at h
    -- the challenge itself was reserved
    have hic : i ≠ c.challengeId := by
      rintro rfl
      obtain ⟨p, hp, -, hpid, -⟩ := hm.reserved
      exact h p hp (hpid.trans hqid)
    simpa [hother i hic] using hi.unseen i h
  · by_cases hk : key = c.requestKey
    · subst hk
      simp only [BankState.setRequest, update_self, Option.some.injEq] at hq₁
      subst hq₁
      obtain ⟨p, hp, hr⟩ := hm.reserved
      refine ⟨⟨p, by simp [reservations_concat, hp], by rw [hid, hexp]; exact hr⟩, ?_, ?_, ?_, ?_⟩
      · rw [hid, hqid]
        exact hatt
      · rintro (h | h)
        · exact absurd h hpend
        · rw [hid, hqid]
          exact (hstate h).2
      · exact fun h => absurd h hpend
      · intro h
        obtain ⟨-, a, ha, hac⟩ := hm.ready ‹_›
        exact ⟨(hstate h).1, a, by simp [ha], by rw [hid]; exact hac⟩
    · simp only [BankState.setRequest, update_of_ne hk] at hq₁
      have hm₁ := hi.stored _ _ hq₁
      -- another key stores another challenge
      have hne : q₁.id ≠ c.challengeId := by
        intro he
        obtain ⟨p, hp, hpk, hpid, -⟩ := hm.reserved
        obtain ⟨p₁, hp₁, hpk₁, hpid₁, -⟩ := hm₁.reserved
        have hpp := reservation_unique hids hp hp₁ (by rw [hpid, hpid₁, he, hqid])
        exact hk (by rw [← hpk₁, ← hpp, hpk])
      exact hm₁.frame (hother _ hne).1 (hother _ hne).2
  · rw [challengesOf_concat_of_none hres]
    exact hi.current f i hf

theorem wrongAnswer_of_quiet {now : ℕ} {op : BankOp K} (ha : e.act = .eval now op)
    (h : ∀ c m, op = .verify c m → e.pre.evaluates now c = false) (i : K) :
    wrongAnswer i e = false := by
  rw [wrongAnswer, ha]
  cases op with
  | verify c m => cases m <;> simp [h c _ rfl]
  | _ => rfl

/-- **Each action keeps the invariant.** -/
theorem BankInv.step (hi : BankInv es e.pre)
    (hids : ((reservations (es ++ [e])).map fun p => p.2.challengeId).Nodup)
    (hs : (BankState.machine K).IsStep e) : BankInv (es ++ [e]) e.post := by
  have heff := BankState.effect_of_step hs
  have hids' : ((reservations es).map fun p => p.2.challengeId).Nodup := by
    rw [reservations_concat, List.map_append] at hids
    exact (List.nodup_append.1 hids).1
  obtain ⟨s, a, out, s'⟩ := e
  dsimp only at heff hi
  cases heff with
  | @quiet now op reply h1 h2 h3 h4 =>
    have hres : reservation? (⟨s, .eval now op, some reply, { s with time := now }⟩ : BankEntry K) =
        none := by
      rw [reservation?]
      split
      · next r _ _ hr =>
        cases hr
        exact absurd rfl (h1 _)
      · rfl
    refine hi.frame hres (wrongAnswer_of_quiet rfl h4) (fun i => ?_) (fun key q hq => .inl (hi.stored _ _ hq))
      fun _ _ hf => hf
    rw [verifiedAnswer]
    split
    · next c m _ hr =>
      cases hr
      exact absurd rfl h3
    · rfl
  | @reserved now r s' hnone hlim hreq hcount hcur =>
    have hres (t : ℕ) : reservation? (⟨s, .eval now (.reserve r), some (.reserved t), s'⟩ :
        BankEntry K) = some (now, r) := rfl
    rw [reservations_concat, hres, Option.toList_some, List.map_append, List.nodup_append] at hids
    have hfresh : ∀ p ∈ reservations es, p.2.challengeId ≠ r.challengeId := fun p hp he =>
      hids.2.2 _ (List.mem_map_of_mem hp) _ (by simp) he
    refine ⟨fun i => ?_, fun i h => ?_, fun key q hq => ?_, fun f i hf => ?_⟩
    · simpa [wrongAnswer, verifiedAnswer] using hi.bounded i
    · have h' : ∀ p ∈ reservations es, p.2.challengeId ≠ i := fun p hp =>
        h p (by simp [reservations_concat, hp])
      simpa [wrongAnswer, verifiedAnswer] using hi.unseen i h'
    · rw [hreq] at hq
      by_cases hk : key = r.requestKey
      · subst hk
        rw [update_self, Option.some.injEq] at hq
        subst hq
        have hz := hi.unseen _ hfresh
        refine ⟨⟨(now, r), by simp [reservations_concat, hres], rfl, rfl, rfl⟩, ?_, ?_, ?_, ?_⟩
        · simpa [wrongAnswer] using hz.1
        · intro _
          simpa [verifiedAnswer] using hz.2
        · exact fun _ => rfl
        · intro h
          cases h
      · rw [update_of_ne hk] at hq
        exact (hi.stored _ _ hq).frame rfl rfl
    · rw [hcur] at hf
      rw [challengesOf, reservations_concat, hres, Option.toList_some, List.filter_append,
        List.map_append]
      by_cases hff : f = r.flowKey
      · subst hff
        simpa using hf
      · have hff' : ¬ r.flowKey = f := fun he => hff he.symm
        rw [if_neg hff] at hf
        have hcons : [(now, r)].filter (fun p => decide (p.2.flowKey = f)) = [] := by simp [hff']
        rw [hcons, List.map_nil, List.append_nil]
        exact hi.current f i hf
  | @activated now c response q hc hp =>
    obtain ⟨hq, hqid, -, -⟩ := BankState.challenge_ok.1 hc
    have hm := hi.stored _ _ hq
    refine hi.frame rfl (fun _ => rfl) (fun _ => rfl) (fun key q₁ hq₁ => ?_) fun _ _ hf => hf
    by_cases hk : key = c.requestKey
    · subst hk
      simp only [BankState.setRequest, update_self, Option.some.injEq] at hq₁
      subst hq₁
      obtain ⟨p, hpm, hr⟩ := hm.reserved
      have hz : q.attempts = 0 := hm.pending hp
      refine .inr ⟨⟨p, by simp [reservations_concat, hpm], hr⟩, ?_, ?_, ?_, ?_⟩
      · simpa [wrongAnswer] using hm.attempts
      · intro _
        simpa [verifiedAnswer] using hm.unconsumed (.inl hp)
      · exact fun h => by cases h
      · refine fun _ => ⟨by simp [hz, BankLimits.attempts], _, List.mem_append_right _ (List.mem_singleton.2 rfl), ?_⟩
        simpa [activation] using hqid.symm
    · simp only [BankState.setRequest, update_of_ne hk] at hq₁
      exact .inl (hi.stored _ _ hq₁)
  | @verified now c q hc hr =>
    have hans := hi.answerable hids' hc hr
    obtain ⟨hq, hqid, -, -⟩ := BankState.challenge_ok.1 hc
    have hm := hi.stored _ _ hq
    refine hi.answered hids' hc hr rfl rfl rfl (fun i hic => ⟨rfl, ?_⟩) ?_ ?_ ?_ ?_ (by simp)
    · simpa [verifiedAnswer] using fun h : c.challengeId = i => hic h.symm
    · rw [← hqid]
      simpa [wrongAnswer] using hm.attempts
    · simp [verifiedAnswer, hans.unconsumed]
    · exact fun h => by cases h
    · exact Nat.le_of_lt (hm.ready hr).1
  | @wrong now c q q' reply hc hr hnv hid hexp hatt hst =>
    have hans := hi.answerable hids' hc hr
    obtain ⟨hq, hqid, -, -⟩ := BankState.challenge_ok.1 hc
    have hm := hi.stored _ _ hq
    have hev : s.evaluates now c = true := by simp [BankState.evaluates, hc, hr]
    have hv (i : K) : verifiedAnswer i (⟨s, .eval now (.verify c false), some reply,
        ({ s with time := now } : BankState K).setRequest c.requestKey q'⟩ : BankEntry K) = false := by
      rw [verifiedAnswer]
      split
      · next hr =>
        cases hr
        exact absurd rfl hnv
      · rfl
    refine hi.answered hids' hc hr hid hexp rfl (fun i hic => ⟨?_, hv i⟩) ?_ ?_ ?_ ?_ ?_
    · simpa [wrongAnswer] using fun h : c.challengeId = i => absurd h.symm hic
    · rw [hatt, ← hm.attempts, hqid]
      simp [wrongAnswer, hev]
    · simp [hv, hans.unconsumed]
    · intro h
      rcases hst with hl | hl
      · rw [hl] at h
        cases h
      · exact ⟨hl.2, by simp [hv, hans.unconsumed]⟩
    · rw [hatt]
      exact (hm.ready hr).1
    · rcases hst with hl | hl
      · simp [hl]
      · simp [hl.1]
  | @expiredRequest now key =>
    refine hi.frame rfl (fun _ => rfl) (fun _ => rfl) (fun key' q hq => ?_) fun _ _ hf => hf
    change update s.requests key none key' = some q at hq
    by_cases hk : key' = key
    · rw [hk, update_self] at hq
      cases hq
    · rw [update_of_ne hk] at hq
      exact .inl (hi.stored _ _ hq)
  | @expiredBudget now b =>
    refine hi.frame rfl (fun _ => rfl) (fun _ => rfl) (fun key q hq => .inl (hi.stored _ _ hq))
      fun f i hf => ?_
    by_cases hb : BudgetKey.flow f = b
    · simp [BankState.current, hb] at hf
    · simpa [BankState.current, update_of_ne hb] using hf

theorem bankInv_run (h : (BankState.machine K).Run .empty es s)
    (hids : ((reservations es).map fun p => p.2.challengeId).Nodup) : BankInv es s := by
  refine h.history (H := fun es s => ((reservations es).map fun p => p.2.challengeId).Nodup →
    BankInv es s) (fun _ => ?_) (fun es e _ ih hs hids => ?_) hids
  · exact ⟨by simp, by simp, by simp [BankState.empty], by simp [BankState.empty, BankState.current]⟩
  · have hids' : ((reservations es).map fun p => p.2.challengeId).Nodup := by
      rw [reservations_concat, List.map_append] at hids
      exact (List.nodup_append.1 hids).1
    exact (ih hids').step hids hs

/-! ## Budget windows -/

theorem count_le_limit (h : (BankState.machine K).Run .empty es s) (b : BudgetKey K) :
    s.count b ≤ b.limit := by
  refine h.invariant (I := fun s => s.count b ≤ b.limit) (Nat.zero_le _) fun e hi hs => ?_
  have heff := BankState.effect_of_step hs
  obtain ⟨s, a, out, s'⟩ := e
  dsimp only at heff hi
  cases heff with
  | @reserved now r s' _ hlim _ hcount _ =>
    change s'.count b ≤ b.limit
    rw [hcount]
    by_cases hb : b ∈ BankState.reservationBudgets r
    · rw [if_pos hb]
      exact hlim b hb
    · rw [if_neg hb]
      exact hi
  | @expiredBudget now b' =>
    by_cases hb : b = b'
    · simp [BankState.count, hb]
    · simpa [BankState.count, update_of_ne hb] using hi
  | _ => exact hi

/-- While a budget does not expire, its counter counts the reservations. -/
theorem count_segment {s' : BankState K} {b : BudgetKey K}
    (h : (BankState.machine K).Run s es s') (hb : ∀ e ∈ es, ¬ expires b e) :
    s'.count b = s.count b + es.countP (spends b) := by
  refine h.history (H := fun es s' => (∀ e ∈ es, ¬ expires b e) →
    s'.count b = s.count b + es.countP (spends b)) (fun _ => rfl) (fun es e _ ih hs hb => ?_) hb
  have hcount := ih fun e he => hb e (by simp [he])
  have hnot := hb e (by simp)
  have heff := BankState.effect_of_step hs
  obtain ⟨s, a, out, s'⟩ := e
  dsimp only at heff hcount
  rw [List.countP_append, List.countP_singleton, ← Nat.add_assoc, ← hcount]
  cases heff with
  | @quiet now op reply h1 _ _ _ =>
    have hsp : spends b (⟨s, .eval now op, some reply, { s with time := now }⟩ : BankEntry K) =
        false := by
      rw [spends, reservation?]
      split
      · next hr =>
        cases hr
        exact absurd rfl (h1 _)
      · rfl
    rw [hsp]
    rfl
  | reserved _ _ _ hc _ =>
    rw [hc]
    simp [spends, reservation?]
  | @expiredBudget now b' =>
    have hne : b ≠ b' := fun he => hnot ⟨now, he ▸ rfl⟩
    simp [BankState.count, update_of_ne hne, spends, reservation?]
  | _ => rfl

/-- **The bank challenge store is safe.**  A challenge takes at most five wrong answers and
    one right one, which comes while it is current, activated, unexpired and neither locked
    nor consumed; while a budget does not expire, at most its limit is reserved against it;
    and a refused reservation spends nothing. -/
theorem bank_challenge_safety (h : (BankState.machine K).Run .empty es s)
    (hids : ((reservations es).map fun p => p.2.challengeId).Nodup) :
    (∀ i, es.countP (wrongAnswer i) ≤ 5 ∧ es.countP (verifiedAnswer i) ≤ 1) ∧
    (∀ es₁ v es₂ now c m, es = es₁ ++ v :: es₂ → v.act = .eval now (.verify c m) →
      v.out = some .verified → Answerable es₁ now c) ∧
    (∀ b es₁ es₂ es₃, es = es₁ ++ es₂ ++ es₃ → (∀ e ∈ es₂, ¬ expires b e) →
      es₂.countP (spends b) ≤ b.limit) ∧
    (∀ e ∈ es, ∀ now r, e.act = .eval now (.reserve r) → reservation? e = none →
      e.post.budgets = e.pre.budgets ∧ e.post.requests = e.pre.requests) := by
  refine ⟨(bankInv_run h hids).bounded, ?_, ?_, ?_⟩
  · rintro es₁ v es₂ now c m rfl hact hout
    obtain ⟨h1, hv, -⟩ := h.split
    have hids' : ((reservations es₁).map fun p => p.2.challengeId).Nodup := by
      rw [reservations, List.filterMap_append, List.map_append] at hids
      exact (List.nodup_append.1 hids).1
    have heff := BankState.effect_of_step hv
    rw [hact, hout] at heff
    generalize hp : v.post = post at heff
    cases heff with
    | quiet _ _ h3 _ => exact absurd rfl h3
    | verified hc hr => exact (bankInv_run h1 hids').answerable hids' hc hr
    | wrong _ _ hnv => exact absurd rfl hnv
  · rintro b es₁ es₂ es₃ rfl hb
    obtain ⟨s₂, h12, -⟩ := h.append_inv
    obtain ⟨s₁, -, h2⟩ := h12.append_inv
    have hcount := count_segment h2 hb
    have hle := count_le_limit h12 b
    omega
  · intro e he now r hact hres
    obtain ⟨es₁, es₂, -, -, hs, -⟩ := h.of_mem he
    have heff := BankState.effect_of_step hs
    obtain ⟨s, a, out, s'⟩ := e
    dsimp only at hact heff
    subst hact
    cases heff with
    | quiet _ _ _ _ => exact ⟨rfl, rfl⟩
    | reserved _ _ _ _ _ => cases hres

end

/-! A flow that reserves a challenge, answers it wrongly and then rightly, and is refused
a fourth reservation until its budgets expire. -/

def bankFlow : List (BankAction ℕ) :=
  let reserve (n : ℕ) : BankOp ℕ := .reserve ⟨n, 1, 2, 3, 7, 100 + n⟩
  [.eval 10 (reserve 4), .eval 20 (.activate ⟨4, 1, 104⟩ 9), .eval 30 (.verify ⟨4, 1, 104⟩ false),
    .eval 40 (.verify ⟨4, 1, 104⟩ true), .eval 50 (reserve 5), .eval 60 (reserve 6),
    .eval 70 (reserve 8), .expireBudget 86400010 (.flow 1), .expireBudget 86400010 (.account 2),
    .eval 86400020 (reserve 8)]

def bankRun : List (BankEntry ℕ) := (BankState.machine ℕ).trace .empty bankFlow

theorem bank_challenge_safety_flow :
    (∀ i, bankRun.countP (wrongAnswer i) ≤ 5 ∧ bankRun.countP (verifiedAnswer i) ≤ 1) ∧
    (∀ es₁ v es₂ now c m, bankRun = es₁ ++ v :: es₂ → v.act = .eval now (.verify c m) →
      v.out = some .verified → Answerable es₁ now c) ∧
    (∀ b es₁ es₂ es₃, bankRun = es₁ ++ es₂ ++ es₃ → (∀ e ∈ es₂, ¬ expires b e) →
      es₂.countP (spends b) ≤ b.limit) ∧
    (∀ e ∈ bankRun, ∀ now r, e.act = .eval now (.reserve r) → reservation? e = none →
      e.post.budgets = e.pre.budgets ∧ e.post.requests = e.pre.requests) :=
  bank_challenge_safety ((BankState.machine ℕ).run_trace .empty bankFlow) (by decide +kernel)

example : (bankRun.map fun e => e.out).getLast? = some (some (.reserved (86400020 + 600000))) ∧
    (reservations bankRun).length = 4 := by decide +kernel

end Proofmark
