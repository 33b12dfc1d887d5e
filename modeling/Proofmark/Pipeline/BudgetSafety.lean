/-
  The issuance budget is exact.

  `BudgetEffect` lists what one action can do.  `BudgetInv` relates the ledgers and the marks
  to the charges and settlements of the history: a mark is that of the last charge of its
  transaction, and it is gone only once its settlement is `markRetentionMs` old.
-/
import Proofmark.Pipeline.IssuanceBudget
import Mathlib.Algebra.BigOperators.Group.List.Basic
import Mathlib.Data.List.Nodup
import Mathlib.Algebra.Order.BigOperators.Group.List
import Mathlib.Tactic.Linarith

namespace Proofmark

open Revert Function

variable {I T : Type}

/-- A reservation that wrote the ledger. -/
structure Charge (I T : Type) where
  issuer : I
  request : T
  day : ℕ
  reserved : ℕ
deriving DecidableEq

/-- The reconciliation of a charge. -/
structure Settlement (T : Type) where
  request : T
  time : ℕ
  used : ℕ
deriving DecidableEq

/-! ## What an action does -/

section
variable [DecidableEq I] [DecidableEq T]

/-- The charge of an entry: an accepted reservation that found no mark. -/
def charge? (e : BudgetEntry I T) : Option (Charge I T) :=
  match e.act, e.out with
  | .eval now (.reserve c), some (.totals _ _) =>
    if (e.pre.marks c.request).isNone then some ⟨c.issuer, c.request, now / dayMs, c.amount⟩ else none
  | _, _ => none

/-- The settlement of an entry: an accepted reconciliation that found none before it. -/
def settlement? (e : BudgetEntry I T) : Option (Settlement T) :=
  match e.act, e.out with
  | .eval now (.reconcile c), some .ok =>
    if (e.pre.marks c.request).any fun m => m.used.isNone then some ⟨c.request, now, c.amount⟩
    else none
  | _, _ => none

def charges (es : List (BudgetEntry I T)) : List (Charge I T) := es.filterMap charge?

def settlements (es : List (BudgetEntry I T)) : List (Settlement T) := es.filterMap settlement?

/-- All that an action can do. -/
inductive BudgetEffect (s : BudgetRedis I T) :
    BudgetAction I T → Option BudgetReply → BudgetRedis I T → Prop
  | quiet {now : ℕ} {op : BudgetOp I T} {reply : BudgetReply} :
      (∀ c g n, op = .reserve c → reply = .totals g n → (s.marks c.request).isSome = true) →
      (∀ c, op = .reconcile c → reply = .ok → ∃ m, s.marks c.request = some m ∧ m.used.isSome = true) →
      BudgetEffect s (.eval now op) (some reply) { s with time := now }
  | charged {now g n : ℕ} {c : BudgetCall I T} :
      s.marks c.request = none → s.admission now c = .ok () →
      BudgetEffect s (.eval now (.reserve c)) (some (.totals g n)) ({ s with time := now }.charge now c)
  | settled {now : ℕ} {c : BudgetCall I T} {m : BudgetMark I} :
      s.marks c.request = some m → m.issuer = c.issuer → c.amount ≤ m.reserved → m.used = none →
      BudgetEffect s (.eval now (.reconcile c)) (some .ok) ({ s with time := now }.settle now c m)
  | expiredLedger {now : ℕ} {issuer : I} {l : BudgetLedger} :
      s.ledgers issuer = some l → l.deadline ≤ now →
      BudgetEffect s (.expireLedger now issuer) none
        { s with time := now, ledgers := update s.ledgers issuer none }
  | expiredMark {now u : ℕ} {request : T} {m : BudgetMark I} :
      s.marks request = some m → m.deadline = some u → u ≤ now →
      BudgetEffect s (.expireMark now request) none
        { s with time := now, marks := update s.marks request none }

@[simp]
def BudgetAction.now : BudgetAction I T → ℕ
  | .eval now _ | .expireLedger now _ | .expireMark now _ => now

omit [DecidableEq I] [DecidableEq T] in
theorem admit_ok {s : BudgetRedis I T} {now : ℕ} {c : BudgetCall I T} {u : Unit}
    (h : s.admission now c = .ok u) : s.totalGas now c.issuer + c.amount ≤ c.maxGas ∧
      s.totalTx now c.issuer + 1 ≤ c.maxTx := by
  simp only [BudgetRedis.admission, bind_ok, revertIf_ok] at h
  obtain ⟨_, -, _, hgas, htx⟩ := h
  exact ⟨Nat.le_of_not_lt hgas, Nat.le_of_not_lt htx⟩

theorem reserve_effect (s : BudgetRedis I T) (now : ℕ) (c : BudgetCall I T) :
    BudgetEffect s (.eval now (.reserve c)) (some (({ s with time := now }.reserve now c).2))
      ({ s with time := now }.reserve now c).1 := by
  unfold BudgetRedis.reserve
  dsimp only
  split
  · next m hm =>
    split
    · exact .quiet (by simp) (by simp)
    · exact .quiet (by rintro c' g n ⟨⟩ -; simp [hm]) (by simp)
  · next hm =>
    split
    · next e he =>
      refine .quiet ?_ (by simp)
      -- no guard answers with totals
      rintro c' g n - rfl
      simp only [BudgetRedis.admission, revertIf] at he
      split_ifs at he <;> simp at he
    · next u hu => exact .charged hm hu

theorem reconcile_effect (s : BudgetRedis I T) (now : ℕ) (c : BudgetCall I T) :
    BudgetEffect s (.eval now (.reconcile c)) (some (({ s with time := now }.reconcile now c).2))
      ({ s with time := now }.reconcile now c).1 := by
  unfold BudgetRedis.reconcile
  dsimp only
  split
  · exact .quiet (by simp) (by simp)
  · next m hm =>
    split
    · exact .quiet (by simp) (by simp)
    next hissuer =>
    split
    · exact .quiet (by simp) (by simp)
    next hle =>
    split
    · next used hused =>
      refine .quiet (by simp) ?_
      rintro c' ⟨⟩ -
      exact ⟨m, hm, by simp [hused]⟩
    · next hused =>
      split
      · exact .quiet (by simp) (by simp)
      · exact .settled hm (not_not.1 hissuer) (Nat.le_of_not_lt hle) hused

/-- **All that a step does.** -/
theorem budget_effect {e : BudgetEntry I T} (h : (BudgetRedis.machine I T).IsStep e) :
    BudgetEffect e.pre e.act e.out e.post ∧ e.pre.time ≤ e.act.now := by
  obtain ⟨s, a, w, s'⟩ := e
  cases a with
  | eval now op =>
    simp only [Machine.IsStep, BudgetRedis.machine, bind_ok, revertIf_ok, pure_ok, Prod.mk.injEq] at h
    obtain ⟨_, ht, rfl, rfl⟩ := h
    refine ⟨?_, Nat.le_of_not_lt ht⟩
    cases op with
    | status c => exact .quiet (by simp) (by simp)
    | reserve c => exact reserve_effect s now c
    | reconcile c => exact reconcile_effect s now c
  | expireLedger now issuer =>
    simp only [Machine.IsStep, BudgetRedis.machine, bind_ok, revertIf_ok, pure_ok, Prod.mk.injEq] at h
    obtain ⟨_, ht, _, hd, rfl, rfl⟩ := h
    cases hl : s.ledgers issuer with
    | none => simp [hl] at hd
    | some l =>
      simp only [hl, Option.all_some, decide_eq_true_eq, not_lt] at hd
      exact ⟨.expiredLedger hl hd, Nat.le_of_not_lt ht⟩
  | expireMark now request =>
    simp only [Machine.IsStep, BudgetRedis.machine, bind_ok, revertIf_ok, pure_ok, Prod.mk.injEq] at h
    obtain ⟨_, ht, _, hd, rfl, rfl⟩ := h
    cases hm : s.marks request with
    | none => simp [hm] at hd
    | some m =>
      cases hu : m.deadline with
      | none => simp [hm, hu] at hd
      | some u =>
        simp only [hm, hu, Option.all_some, decide_eq_true_eq, not_lt] at hd
        exact ⟨.expiredMark hm hu hd, Nat.le_of_not_lt ht⟩

/-! ## What the ledgers should hold -/

/-- The cost of a charge: what was used if it was settled on its own day, else all of it. -/
def cost (xs : List (Settlement T)) (c : Charge I T) : ℕ :=
  ((xs.find? fun x => x.request = c.request ∧ x.time / dayMs = c.day).map Settlement.used).getD
    c.reserved

def chargesOn (cs : List (Charge I T)) (issuer : I) (day : ℕ) : List (Charge I T) :=
  cs.filter fun c => c.issuer = issuer ∧ c.day = day

def spent (cs : List (Charge I T)) (xs : List (Settlement T)) (issuer : I) (day : ℕ) : ℕ :=
  ((chargesOn cs issuer day).map (cost xs)).sum

theorem sum_map_replace {α : Type} {f g : α → ℕ} {l : List α} {a : α} (ha : a ∈ l) (hn : l.Nodup)
    (h : ∀ b ∈ l, b ≠ a → g b = f b) : (l.map g).sum + f a = (l.map f).sum + g a := by
  induction l with
  | nil => simp at ha
  | cons b l ih =>
    rw [List.nodup_cons] at hn
    simp only [List.map_cons, List.sum_cons]
    rcases List.mem_cons.1 ha with rfl | ha
    · have hl : l.map g = l.map f := by
        refine List.map_congr_left fun b hb => h b (by simp [hb]) ?_
        rintro rfl
        exact hn.1 hb
      rw [hl]
      omega
    · have hb : g b = f b := h b (by simp) (by rintro rfl; exact hn.1 ha)
      have hrest := ih ha hn.2 fun c hc => h c (by simp [hc])
      omega

omit [DecidableEq T] in
theorem mem_chargesOn {cs : List (Charge I T)} {issuer : I} {day : ℕ} {c : Charge I T} :
    c ∈ chargesOn cs issuer day ↔ c ∈ cs ∧ c.issuer = issuer ∧ c.day = day := by
  simp [chargesOn]

omit [DecidableEq T] in
theorem chargesOn_concat (cs : List (Charge I T)) (c : Charge I T) (issuer : I) (day : ℕ) :
    chargesOn (cs ++ [c]) issuer day =
      chargesOn cs issuer day ++ if c.issuer = issuer ∧ c.day = day then [c] else [] := by
  simp only [chargesOn, List.filter_append, List.filter_cons, List.filter_nil, decide_eq_true_eq]

omit [DecidableEq I] in
/-- A settlement of another request, or of another day, leaves the cost of a charge. -/
theorem cost_concat_of_ne {xs : List (Settlement T)} {x : Settlement T} {c : Charge I T}
    (h : ¬ (x.request = c.request ∧ x.time / dayMs = c.day)) : cost (xs ++ [x]) c = cost xs c := by
  simp [cost, List.find?_append, h]

omit [DecidableEq I] in
theorem cost_of_unsettled {xs : List (Settlement T)} {c : Charge I T}
    (h : ∀ x ∈ xs, ¬ (x.request = c.request ∧ x.time / dayMs = c.day)) : cost xs c = c.reserved := by
  have hf : xs.find? (fun x => x.request = c.request ∧ x.time / dayMs = c.day) = none := by
    simpa using h
  rw [cost, hf]
  rfl

omit [DecidableEq I] in
theorem cost_concat_self {xs : List (Settlement T)} {x : Settlement T} {c : Charge I T}
    (h : ∀ x ∈ xs, ¬ (x.request = c.request ∧ x.time / dayMs = c.day))
    (hx : x.request = c.request ∧ x.time / dayMs = c.day) : cost (xs ++ [x]) c = x.used := by
  have hf : xs.find? (fun x => x.request = c.request ∧ x.time / dayMs = c.day) = none := by
    simpa using h
  rw [cost, List.find?_append, hf]
  simp [hx]

/-! ## The invariant -/

/-- What a mark says of the history of its transaction. -/
structure MarkInv (cs : List (Charge I T)) (xs : List (Settlement T)) (request : T)
    (m : BudgetMark I) : Prop where
  charge : (⟨m.issuer, request, m.day, m.reserved⟩ : Charge I T) ∈ cs
  last : ∀ c ∈ cs, c.request = request → c.day ≤ m.day
  durable : m.used = none → m.deadline = none
  fresh : m.used = none → ∀ x ∈ xs, x.request = request → x.time / dayMs < m.day
  due : ∀ u, m.deadline = some u → (∀ x ∈ xs, x.request = request → x.time + markRetentionMs ≤ u) ∧
    ∃ x ∈ xs, x.request = request ∧ m.day ≤ x.time / dayMs

/-- A ledger is the sum of the charges of its day. -/
structure LedgerInv (cs : List (Charge I T)) (xs : List (Settlement T)) (issuer : I)
    (l : BudgetLedger) : Prop where
  deadline : l.deadline = (l.day + 3) * dayMs
  gas : l.gas = spent cs xs issuer l.day
  tx : l.tx = (chargesOn cs issuer l.day).length

/-- The state of the budget after the charges `cs` and the settlements `xs`. -/
structure BudgetInv (cs : List (Charge I T)) (xs : List (Settlement T)) (s : BudgetRedis I T) :
    Prop where
  ledger : ∀ i l, s.ledgers i = some l → LedgerInv cs xs i l
  today : ∀ i l, s.ledgers i = some l → l.day ≤ s.time / dayMs
  kept : ∀ c ∈ cs, (∃ l, s.ledgers c.issuer = some l ∧ c.day ≤ l.day) ∨ c.day + 3 ≤ s.time / dayMs
  mark : ∀ t m, s.marks t = some m → MarkInv cs xs t m
  gone : ∀ c ∈ cs, s.marks c.request = none → ∃ x ∈ xs, x.request = c.request ∧
    c.day ≤ x.time / dayMs ∧ x.time + markRetentionMs ≤ s.time
  past : ∀ x ∈ xs, x.time ≤ s.time
  settled : ∀ x ∈ xs, s.marks x.request = none → x.time + markRetentionMs ≤ s.time
  nodup : (cs.map fun c => (c.request, c.day)).Nodup

/-- A settlement two days old is of a day before yesterday. -/
theorem day_add_two {t now : ℕ} (h : t + markRetentionMs ≤ now) : t / dayMs + 2 ≤ now / dayMs := by
  unfold markRetentionMs at h
  unfold dayMs
  omega

namespace BudgetInv

variable {cs : List (Charge I T)} {xs : List (Settlement T)} {s : BudgetRedis I T} {now : ℕ}

theorem initial : BudgetInv ([] : List (Charge I T)) [] .empty := by
  constructor <;> simp [BudgetRedis.empty]

theorem later (h : BudgetInv cs xs s) (ht : s.time ≤ now) : BudgetInv cs xs { s with time := now } where
  ledger := h.ledger
  today i l hl := (h.today i l hl).trans (Nat.div_le_div_right ht)
  kept c hc := (h.kept c hc).imp_right fun hd => hd.trans (Nat.div_le_div_right ht)
  mark := h.mark
  gone c hc hm := by
    obtain ⟨x, hx, hr, hd, hu⟩ := h.gone c hc hm
    exact ⟨x, hx, hr, hd, hu.trans ht⟩
  past x hx := (h.past x hx).trans ht
  settled x hx hm := (h.settled x hx hm).trans ht
  nodup := h.nodup

theorem day_le (h : BudgetInv cs xs s) {c : Charge I T} (hc : c ∈ cs) : c.day ≤ s.time / dayMs := by
  rcases h.kept c hc with ⟨l, hl, hd⟩ | hd
  · exact hd.trans (h.today _ l hl)
  · omega

/-- The ledger of the day of a charge is there on that day. -/
theorem todays_of_mem (h : BudgetInv cs xs s) {c : Charge I T} (hc : c ∈ cs)
    (hd : c.day = s.time / dayMs) :
    ∃ l, s.ledgers c.issuer = some l ∧ l.day = s.time / dayMs ∧
      s.todays s.time c.issuer = some l := by
  rcases h.kept c hc with ⟨l, hl, hle⟩ | hlt
  · have hday : l.day = s.time / dayMs := le_antisymm (h.today _ l hl) (hd ▸ hle)
    exact ⟨l, hl, hday, by simp [BudgetRedis.todays, hl, hday]⟩
  · omega

/-- **The totals of the clock's day.** -/
theorem totals (h : BudgetInv cs xs s) (i : I) :
    s.totalGas s.time i = spent cs xs i (s.time / dayMs) ∧
      s.totalTx s.time i = (chargesOn cs i (s.time / dayMs)).length := by
  unfold BudgetRedis.totalGas BudgetRedis.totalTx
  cases hl : s.todays s.time i with
  | some l =>
    simp only [BudgetRedis.todays, Option.filter_eq_some_iff, decide_eq_true_eq] at hl
    obtain ⟨hl, hday⟩ := hl
    have hinv := h.ledger i l hl
    exact ⟨hday ▸ hinv.gas, hday ▸ hinv.tx⟩
  | none =>
    have hnil : chargesOn cs i (s.time / dayMs) = [] := by
      refine List.eq_nil_iff_forall_not_mem.2 fun c hc => ?_
      obtain ⟨hc', rfl, hd⟩ := mem_chargesOn.1 hc
      obtain ⟨l, -, -, htoday⟩ := h.todays_of_mem hc' hd
      rw [hl] at htoday
      cases htoday
    simp [spent, hnil]

/-- A transaction without a mark was settled two days ago at least. -/
theorem unsettled_today (h : BudgetInv cs xs s) {t : T} (hm : s.marks t = none) :
    ∀ x ∈ xs, x.request = t → x.time / dayMs + 2 ≤ s.time / dayMs := by
  rintro x hx rfl
  exact day_add_two (h.settled x hx hm)

/-- A transaction without a mark was charged two days ago at least. -/
theorem uncharged_today (h : BudgetInv cs xs s) {t : T} (hm : s.marks t = none) :
    ∀ c ∈ cs, c.request = t → c.day + 2 ≤ s.time / dayMs := by
  rintro c hc rfl
  obtain ⟨x, -, -, hd, hx⟩ := h.gone c hc hm
  have := day_add_two hx
  omega

theorem charged (h : BudgetInv cs xs s) {c : BudgetCall I T} (hm : s.marks c.request = none) :
    BudgetInv (cs ++ [⟨c.issuer, c.request, s.time / dayMs, c.amount⟩]) xs (s.charge s.time c) where
  ledger i l hl := by
    rcases eq_or_ne i c.issuer with rfl | hi
    · simp only [BudgetRedis.charge, update_self, Option.some.injEq] at hl
      subst hl
      have hcost : cost xs ⟨c.issuer, c.request, s.time / dayMs, c.amount⟩ = c.amount := by
        refine cost_of_unsettled ?_
        rintro x hx ⟨hr, hd⟩
        have := h.unsettled_today hm x hx hr
        simp only at hd
        omega
      obtain ⟨hgas, htx⟩ := h.totals c.issuer
      refine ⟨rfl, ?_, ?_⟩
      · simp [hgas, spent, chargesOn_concat, hcost]
      · simp [htx, chargesOn_concat]
    · simp only [BudgetRedis.charge, update_of_ne hi] at hl
      obtain ⟨hdeadline, hgas, htx⟩ := h.ledger i l hl
      refine ⟨hdeadline, ?_, ?_⟩
      · simp [hgas, spent, chargesOn_concat, hi.symm]
      · simp [htx, chargesOn_concat, hi.symm]
  today i l hl := by
    rcases eq_or_ne i c.issuer with rfl | hi
    · simp only [BudgetRedis.charge, update_self, Option.some.injEq] at hl
      subst hl
      exact le_rfl
    · simp only [BudgetRedis.charge, update_of_ne hi] at hl
      exact h.today i l hl
  kept c' hc' := by
    rcases eq_or_ne c'.issuer c.issuer with hi | hi
    · refine .inl ⟨⟨_, _, _, _⟩, by simp only [BudgetRedis.charge, hi, update_self]; rfl, ?_⟩
      rcases List.mem_append.1 hc' with hc' | hc'
      · exact h.day_le hc'
      · simp only [List.mem_singleton] at hc'
        simp [hc']
    · have hmem : c' ∈ cs := by
        rcases List.mem_append.1 hc' with hc' | hc'
        · exact hc'
        · simp only [List.mem_singleton] at hc'
          simp [hc'] at hi
      simpa [BudgetRedis.charge, update_of_ne hi] using h.kept c' hmem
  mark t m hmt := by
    rcases eq_or_ne t c.request with rfl | ht
    · simp only [BudgetRedis.charge, update_self, Option.some.injEq] at hmt
      subst hmt
      constructor
      · simp
      · intro c' hc' hr
        rcases List.mem_append.1 hc' with hc' | hc'
        · exact h.day_le hc'
        · simp only [List.mem_singleton] at hc'
          simp [hc']
      · intro _
        rfl
      · intro _ x hx hr
        have := h.unsettled_today hm x hx hr
        simp only
        omega
      · intro u hu
        cases hu
    · simp only [BudgetRedis.charge, update_of_ne ht] at hmt
      obtain ⟨hcharge, hlast, hdurable, hfresh, hdue⟩ := h.mark t m hmt
      refine ⟨by simp [hcharge], ?_, hdurable, hfresh, hdue⟩
      intro c' hc' hr
      rcases List.mem_append.1 hc' with hc' | hc'
      · exact hlast c' hc' hr
      · simp only [List.mem_singleton] at hc'
        simp [hc', ht.symm] at hr
  gone c' hc' hm' := by
    have hr : c'.request ≠ c.request := by
      intro hr
      simp [BudgetRedis.charge, hr] at hm'
    simp only [BudgetRedis.charge, update_of_ne hr] at hm'
    rcases List.mem_append.1 hc' with hc' | hc'
    · exact h.gone c' hc' hm'
    · simp only [List.mem_singleton] at hc'
      simp [hc'] at hr
  past := h.past
  settled x hx hm' := by
    have hr : x.request ≠ c.request := by
      intro hr
      simp [BudgetRedis.charge, hr] at hm'
    simp only [BudgetRedis.charge, update_of_ne hr] at hm'
    exact h.settled x hx hm'
  nodup := by
    rw [List.map_append, List.nodup_append]
    refine ⟨h.nodup, by simp, ?_⟩
    rintro _ hp _ hk
    simp only [List.map_cons, List.map_nil, List.mem_singleton] at hk
    obtain ⟨c', hc', rfl⟩ := List.mem_map.1 hp
    rw [hk]
    intro hpair
    obtain ⟨hr, hd⟩ := Prod.mk.inj hpair
    have := h.uncharged_today hm c' hc' hr
    omega

/-- The charge that a mark speaks of. -/
theorem charge_eq (h : BudgetInv cs xs s) {t : T} {m : BudgetMark I} (hm : s.marks t = some m)
    {c : Charge I T} (hc : c ∈ cs) (hr : c.request = t) (hd : c.day = m.day) :
    c = ⟨m.issuer, t, m.day, m.reserved⟩ :=
  List.inj_on_of_nodup_map h.nodup hc (h.mark t m hm).charge (by simp [hr, hd])

/-- A settlement changes the sum of the ledger that it credits and no other. -/
theorem spent_settled (h : BudgetInv cs xs s) {c : BudgetCall I T} {m : BudgetMark I}
    (hm : s.marks c.request = some m) (hu : m.used = none) {i : I} {day : ℕ} :
    (m.issuer = i ∧ m.day = day ∧ day = s.time / dayMs →
      spent cs (xs ++ [⟨c.request, s.time, c.amount⟩]) i day + m.reserved = spent cs xs i day + c.amount) ∧
    (¬ (m.issuer = i ∧ m.day = day ∧ day = s.time / dayMs) →
      spent cs (xs ++ [⟨c.request, s.time, c.amount⟩]) i day = spent cs xs i day) := by
  have hmark := h.mark _ m hm
  constructor
  · rintro ⟨rfl, rfl, hday⟩
    have hfresh : ∀ x ∈ xs, ¬ (x.request = c.request ∧ x.time / dayMs = m.day) := by
      rintro x hx ⟨hr, hd⟩
      have := hmark.fresh hu x hx hr
      omega
    have hmem : (⟨m.issuer, c.request, m.day, m.reserved⟩ : Charge I T) ∈ chargesOn cs m.issuer m.day :=
      mem_chargesOn.2 ⟨hmark.charge, rfl, rfl⟩
    have hnodup : (chargesOn cs m.issuer m.day).Nodup := (List.Nodup.of_map _ h.nodup).filter _
    have hold : cost xs (⟨m.issuer, c.request, m.day, m.reserved⟩ : Charge I T) = m.reserved :=
      cost_of_unsettled hfresh
    have hnew : cost (xs ++ [⟨c.request, s.time, c.amount⟩])
        (⟨m.issuer, c.request, m.day, m.reserved⟩ : Charge I T) = c.amount :=
      cost_concat_self hfresh ⟨rfl, hday.symm⟩
    have hsum := sum_map_replace (f := cost xs) (g := cost (xs ++ [⟨c.request, s.time, c.amount⟩]))
      hmem hnodup ?_
    · rwa [hold, hnew] at hsum
    intro b hb hne
    refine cost_concat_of_ne ?_
    rintro ⟨hr, hd⟩
    obtain ⟨hb, -, hbd⟩ := mem_chargesOn.1 hb
    exact hne (h.charge_eq hm hb hr.symm hbd)
  · intro hother
    unfold spent
    congr 1
    refine List.map_congr_left fun b hb => cost_concat_of_ne ?_
    rintro ⟨hr, hd⟩
    obtain ⟨hb', rfl, rfl⟩ := mem_chargesOn.1 hb
    -- the settled charge is the last of its transaction, so it is of the clock's day
    have hle : b.day ≤ m.day := hmark.last b hb' hr.symm
    have hge : m.day ≤ s.time / dayMs := h.day_le hmark.charge
    have hday : b.day = m.day := le_antisymm hle (hge.trans hd.le)
    have hb := h.charge_eq hm hb' hr.symm hday
    exact hother ⟨by rw [hb], hday.symm, hd.symm⟩

omit [DecidableEq I] [DecidableEq T] in
theorem credited_eq_some {c : BudgetCall I T} {m : BudgetMark I} {l : BudgetLedger} :
    s.credited now c m = some l ↔
      m.day = now / dayMs ∧ s.ledgers c.issuer = some l ∧ l.day = now / dayMs := by
  unfold BudgetRedis.credited
  split
  · next hday => simp [hday, BudgetRedis.todays, Option.filter_eq_some_iff]
  · next hday => simp [hday]

/-- The ledgers after a settlement: the one that is credited, and the others. -/
theorem settle_ledgers {c : BudgetCall I T} {m : BudgetMark I} {i : I} {l : BudgetLedger}
    (hl : (s.settle now c m).ledgers i = some l) :
    (∃ l₀, s.credited now c m = some l₀ ∧ i = c.issuer ∧
      l = { l₀ with gas := l₀.gas + c.amount - m.reserved }) ∨
    (s.ledgers i = some l ∧ ¬ (c.issuer = i ∧ m.day = l.day ∧ l.day = now / dayMs)) := by
  unfold BudgetRedis.settle at hl
  cases hc : s.credited now c m with
  | some l₀ =>
    simp only [hc] at hl
    rcases eq_or_ne i c.issuer with rfl | hi
    · simp only [update_self, Option.some.injEq] at hl
      exact .inl ⟨l₀, rfl, rfl, hl.symm⟩
    · exact .inr ⟨by simpa [hi] using hl, fun hall => hi hall.1.symm⟩
  | none =>
    simp only [hc] at hl
    refine .inr ⟨hl, ?_⟩
    rintro ⟨rfl, hday, htoday⟩
    rw [credited_eq_some.2 ⟨hday.trans htoday, hl, htoday⟩] at hc
    cases hc

theorem settled_step (h : BudgetInv cs xs s) {c : BudgetCall I T} {m : BudgetMark I}
    (hm : s.marks c.request = some m) (hi : m.issuer = c.issuer) (hu : m.used = none) :
    BudgetInv cs (xs ++ [⟨c.request, s.time, c.amount⟩]) (s.settle s.time c m) where
  ledger i l hl := by
    rcases settle_ledgers hl with ⟨l₀, hcredited, rfl, rfl⟩ | ⟨hl, hother⟩
    · obtain ⟨hday, hl₀, htoday⟩ := credited_eq_some.1 hcredited
      obtain ⟨hdeadline, hgas, htx⟩ := h.ledger _ l₀ hl₀
      have hsum : spent cs (xs ++ [⟨c.request, s.time, c.amount⟩]) c.issuer l₀.day + m.reserved =
          spent cs xs c.issuer l₀.day + c.amount :=
        (h.spent_settled hm hu).1 ⟨hi, hday.trans htoday.symm, htoday⟩
      refine ⟨hdeadline, ?_, htx⟩
      simp only [hgas]
      omega
    · obtain ⟨hdeadline, hgas, htx⟩ := h.ledger i l hl
      refine ⟨hdeadline, ?_, htx⟩
      rw [hgas, (h.spent_settled hm hu).2 (hi ▸ hother)]
  today i l hl := by
    rcases settle_ledgers hl with ⟨l₀, hcredited, rfl, rfl⟩ | ⟨hl, -⟩
    · exact (credited_eq_some.1 hcredited).2.2.le
    · exact h.today i l hl
  kept c' hc' := by
    refine (h.kept c' hc').imp_left ?_
    rintro ⟨l, hl, hle⟩
    unfold BudgetRedis.settle
    cases hcredited : s.credited s.time c m with
    | none => exact ⟨l, hl, hle⟩
    | some l₀ =>
      obtain ⟨-, hl₀, -⟩ := credited_eq_some.1 hcredited
      rcases eq_or_ne c'.issuer c.issuer with hi' | hi'
      · obtain rfl : l₀ = l := by simpa [hi', hl₀] using hl
        simp only [hi', update_self]
        exact ⟨_, rfl, hle⟩
      · exact ⟨l, by simpa [hi'] using hl, hle⟩
  mark t m' hmt := by
    rcases eq_or_ne t c.request with rfl | ht
    · simp only [BudgetRedis.settle, update_self, Option.some.injEq] at hmt
      subst hmt
      have hmark := h.mark _ m hm
      refine ⟨hmark.charge, hmark.last, by simp, by simp, ?_⟩
      rintro u hdue
      simp only [Option.some.injEq] at hdue
      subst hdue
      constructor
      · intro x hx hr
        rcases List.mem_append.1 hx with hx | hx
        · exact Nat.add_le_add_right (h.past x hx) _
        · simp only [List.mem_singleton] at hx
          simp [hx]
      · exact ⟨_, List.mem_append_right _ (List.mem_singleton_self _), rfl, h.day_le hmark.charge⟩
    · simp only [BudgetRedis.settle, update_of_ne ht] at hmt
      have hmark := h.mark t m' hmt
      have hother : ∀ x ∈ xs ++ [⟨c.request, s.time, c.amount⟩], x.request = t → x ∈ xs := by
        intro x hx hr
        rcases List.mem_append.1 hx with hx | hx
        · exact hx
        · simp only [List.mem_singleton] at hx
          simp [hx, ht.symm] at hr
      refine ⟨hmark.charge, hmark.last, hmark.durable, ?_, ?_⟩
      · intro hu' x hx hr
        exact hmark.fresh hu' x (hother x hx hr) hr
      · intro u hdue
        obtain ⟨hall, x, hx, hr, hd⟩ := hmark.due u hdue
        refine ⟨?_, x, List.mem_append_left _ hx, hr, hd⟩
        intro y hy hry
        exact hall y (hother y hy hry) hry
  gone c' hc' hm' := by
    have hr : c'.request ≠ c.request := by
      intro hr
      simp [BudgetRedis.settle, hr] at hm'
    simp only [BudgetRedis.settle, update_of_ne hr] at hm'
    obtain ⟨x, hx, hrest⟩ := h.gone c' hc' hm'
    exact ⟨x, List.mem_append_left _ hx, hrest⟩
  past x hx := by
    rcases List.mem_append.1 hx with hx | hx
    · exact h.past x hx
    · simp only [List.mem_singleton] at hx
      simp [hx, BudgetRedis.settle]
  settled x hx hm' := by
    have hr : x.request ≠ c.request := by
      intro hr
      simp [BudgetRedis.settle, hr] at hm'
    simp only [BudgetRedis.settle, update_of_ne hr] at hm'
    rcases List.mem_append.1 hx with hx | hx
    · exact h.settled x hx hm'
    · simp only [List.mem_singleton] at hx
      simp [hx] at hr
  nodup := h.nodup

theorem expiredLedger (h : BudgetInv cs xs s) {i : I} {l : BudgetLedger}
    (hl : s.ledgers i = some l) (hdue : l.deadline ≤ s.time) :
    BudgetInv cs xs { s with ledgers := update s.ledgers i none } where
  ledger i' l' hl' := by
    rcases eq_or_ne i' i with rfl | hi
    · simp at hl'
    · exact h.ledger i' l' (by simpa [hi] using hl')
  today i' l' hl' := by
    rcases eq_or_ne i' i with rfl | hi
    · simp at hl'
    · exact h.today i' l' (by simpa [hi] using hl')
  kept c hc := by
    rcases eq_or_ne c.issuer i with rfl | hi
    · refine .inr ?_
      have hday : l.day + 3 ≤ s.time / dayMs := by
        rw [(h.ledger _ l hl).deadline] at hdue
        exact (Nat.le_div_iff_mul_le (by decide)).2 hdue
      rcases h.kept c hc with ⟨l', hl', hle⟩ | hd
      · obtain rfl : l' = l := by simpa [hl] using hl'.symm
        simp only
        omega
      · exact hd
    · simpa [hi] using h.kept c hc
  mark := h.mark
  gone := h.gone
  past := h.past
  settled := h.settled
  nodup := h.nodup

theorem expiredMark (h : BudgetInv cs xs s) {t : T} {m : BudgetMark I} {u : ℕ}
    (hm : s.marks t = some m) (hu : m.deadline = some u) (hdue : u ≤ s.time) :
    BudgetInv cs xs { s with marks := update s.marks t none } where
  ledger := h.ledger
  today := h.today
  kept := h.kept
  mark t' m' hm' := by
    rcases eq_or_ne t' t with rfl | ht
    · simp at hm'
    · exact h.mark t' m' (by simpa [ht] using hm')
  gone c hc hm' := by
    obtain ⟨hall, x, hx, hr, hd⟩ := (h.mark t m hm).due u hu
    rcases eq_or_ne c.request t with rfl | ht
    · have hlast := (h.mark _ m hm).last c hc rfl
      exact ⟨x, hx, hr, hlast.trans hd, (hall x hx hr).trans hdue⟩
    · exact h.gone c hc (by simpa [ht] using hm')
  past := h.past
  settled x hx hm' := by
    rcases eq_or_ne x.request t with rfl | ht
    · exact (((h.mark _ m hm).due u hu).1 x hx rfl).trans hdue
    · exact h.settled x hx (by simpa [ht] using hm')
  nodup := h.nodup

end BudgetInv

/-! ## Runs -/

section history

variable {es : List (BudgetEntry I T)} {e : BudgetEntry I T} {s : BudgetRedis I T}

omit [DecidableEq I] [DecidableEq T] in
theorem charges_concat (es : List (BudgetEntry I T)) (e : BudgetEntry I T) :
    charges (es ++ [e]) = charges es ++ (charge? e).toList := by
  simp only [charges, List.filterMap_append]
  cases h : charge? e <;> simp [h]

omit [DecidableEq I] [DecidableEq T] in
theorem settlements_concat (es : List (BudgetEntry I T)) (e : BudgetEntry I T) :
    settlements (es ++ [e]) = settlements es ++ (settlement? e).toList := by
  simp only [settlements, List.filterMap_append]
  cases h : settlement? e <;> simp [h]

theorem budgetInv_step (h : BudgetInv (charges es) (settlements es) e.pre)
    (he : (BudgetRedis.machine I T).IsStep e) :
    BudgetInv (charges (es ++ [e])) (settlements (es ++ [e])) e.post := by
  obtain ⟨s, a, w, s'⟩ := e
  obtain ⟨heffect, htime⟩ := budget_effect he
  dsimp only at heffect htime h
  have hlater := h.later htime
  rw [charges_concat, settlements_concat]
  cases heffect with
  | @quiet now op reply hreserve hreconcile =>
    have hc : charge? (⟨s, .eval now op, some reply, { s with time := now }⟩ : BudgetEntry I T) = none := by
      unfold charge?
      split
      · next c g n hact hout =>
        obtain ⟨rfl, rfl⟩ := BudgetAction.eval.inj hact
        obtain ⟨m, hm⟩ := Option.isSome_iff_exists.1 (hreserve c g n rfl (Option.some.inj hout))
        simp [hm]
      · rfl
    have hs : settlement? (⟨s, .eval now op, some reply, { s with time := now }⟩ : BudgetEntry I T) =
        none := by
      unfold settlement?
      split
      · next c hact hout =>
        obtain ⟨rfl, rfl⟩ := BudgetAction.eval.inj hact
        obtain ⟨m, hm, hu⟩ := hreconcile c rfl (Option.some.inj hout)
        obtain ⟨u, hu⟩ := Option.isSome_iff_exists.1 hu
        simp [hm, hu]
      · rfl
    rw [hc, hs]
    simpa using hlater
  | charged hm hadmit =>
    simpa [charge?, settlement?, hm] using hlater.charged hm
  | settled hm hi hle hu =>
    simpa [charge?, settlement?, hm, hu] using hlater.settled_step hm hi hu
  | expiredLedger hl hdue => simpa [charge?, settlement?] using hlater.expiredLedger hl hdue
  | expiredMark hm hu hdue => simpa [charge?, settlement?] using hlater.expiredMark hm hu hdue

/-- **The state follows the charges and the settlements of every run.** -/
theorem budgetInv_run (h : (BudgetRedis.machine I T).Run .empty es s) :
    BudgetInv (charges es) (settlements es) s :=
  h.history (H := fun es s => BudgetInv (charges es) (settlements es) s) .initial fun _ _ _ hes he => budgetInv_step hes he

/-- A reservation that the ledger admits comes before its mark can be gone. -/
def timelyAt (xs : List (Settlement T)) (e : BudgetEntry I T) : Bool :=
  match e.act with
  | .eval now (.reserve c) =>
    !(e.pre.admission now c).isOk || xs.all fun x => x.request ≠ c.request || now < x.time + markRetentionMs
  | _ => true

/-- Every reservation of the run does. -/
def Timely (es : List (BudgetEntry I T)) : Prop :=
  ∀ k < es.length, (es[k]?).all (timelyAt (settlements (es.take k))) = true

instance (es : List (BudgetEntry I T)) : Decidable (Timely es) :=
  inferInstanceAs (Decidable (∀ k < es.length, (es[k]?).all (timelyAt (settlements (es.take k))) = true))

omit [DecidableEq I] in
theorem Timely.concat (h : Timely (es ++ [e])) : Timely es ∧ timelyAt (settlements es) e = true := by
  constructor
  · intro k hk
    have hkth := h k (by simp; omega)
    rwa [List.getElem?_append_left hk, List.take_append_of_le_length hk.le] at hkth
  · simpa using h es.length (by simp)

/-- An entry of a timely run charges no transaction that was charged. -/
theorem charge_fresh (h : BudgetInv (charges es) (settlements es) e.pre)
    (he : (BudgetRedis.machine I T).IsStep e) (ht : timelyAt (settlements es) e = true)
    {c : Charge I T} (hc : charge? e = some c) : ∀ c' ∈ charges es, c'.request ≠ c.request := by
  obtain ⟨s, a, w, s'⟩ := e
  obtain ⟨heffect, htime⟩ := budget_effect he
  dsimp only at heffect htime h
  cases heffect with
  | quiet hreserve hreconcile =>
    unfold charge? at hc
    split at hc
    · next c' g n hact hout =>
      obtain ⟨rfl, rfl⟩ := BudgetAction.eval.inj hact
      obtain ⟨m, hm⟩ := Option.isSome_iff_exists.1 (hreserve c' g n rfl (Option.some.inj hout))
      simp [hm] at hc
    · cases hc
  | @charged now g n call hm hadmit =>
    intro c' hc' hr
    simp only [charge?, hm, Option.isNone_none, if_true, Option.some.injEq] at hc
    subst hc
    obtain ⟨x, hx, hxr, -, hdue⟩ := h.gone c' hc' (by rw [hr]; exact hm)
    have hall : ∀ x ∈ settlements es, x.request = call.request → now < x.time + markRetentionMs := by
      simpa [timelyAt, hadmit, Except.isOk, Except.toBool, imp_iff_not_or] using ht
    have hnow := hall x hx (hxr.trans hr)
    simp only [BudgetAction.now] at htime
    omega
  | settled => cases hc
  | expiredLedger => cases hc
  | expiredMark => cases hc

/-- A ledger value that an action raises stays within the limits of its reservation. -/
theorem budget_limit (he : (BudgetRedis.machine I T).IsStep e) {i : I} {l : BudgetLedger}
    (hl : e.post.ledgers i = some l) :
    (∃ l₀, e.pre.ledgers i = some l₀ ∧ l₀.day = l.day ∧ l.gas ≤ l₀.gas ∧ l.tx ≤ l₀.tx) ∨
      ∃ now c, e.act = .eval now (.reserve c) ∧ c.issuer = i ∧ l.gas ≤ c.maxGas ∧ l.tx ≤ c.maxTx := by
  obtain ⟨s, a, w, s'⟩ := e
  obtain ⟨heffect, -⟩ := budget_effect he
  dsimp only at heffect hl ⊢
  cases heffect with
  | quiet => exact .inl ⟨l, hl, rfl, le_rfl, le_rfl⟩
  | @charged now g n c hm hadmit =>
    rcases eq_or_ne i c.issuer with rfl | hi
    · obtain ⟨hgas, htx⟩ := admit_ok hadmit
      simp only [BudgetRedis.charge, update_self, Option.some.injEq] at hl
      subst hl
      exact .inr ⟨now, c, rfl, rfl, hgas, htx⟩
    · exact .inl ⟨l, by simpa [BudgetRedis.charge, hi] using hl, rfl, le_rfl, le_rfl⟩
  | settled hm hi hle hu =>
    rcases BudgetInv.settle_ledgers hl with ⟨l₀, hcredited, rfl, rfl⟩ | ⟨hl, -⟩
    · refine .inl ⟨l₀, (BudgetInv.credited_eq_some.1 hcredited).2.1, rfl, ?_, le_rfl⟩
      simp only
      omega
    · exact .inl ⟨l, hl, rfl, le_rfl, le_rfl⟩
  | @expiredLedger now issuer l₀ hl₀ hdue =>
    rcases eq_or_ne i issuer with rfl | hi
    · simp at hl
    · exact .inl ⟨l, by simpa [hi] using hl, rfl, le_rfl, le_rfl⟩
  | expiredMark => exact .inl ⟨l, hl, rfl, le_rfl, le_rfl⟩

theorem charged_once (h : (BudgetRedis.machine I T).Run .empty es s) (ht : Timely es) :
    ((charges es).map Charge.request).Nodup := by
  induction h with
  | nil => simp [charges]
  | @snoc es s a s' w hrun hstep ih =>
    obtain ⟨htimely, hlast⟩ := ht.concat
    rw [charges_concat, List.map_append, List.nodup_append]
    refine ⟨ih htimely, by cases charge? ⟨s, a, w, s'⟩ <;> simp, ?_⟩
    intro r hr r' hr'
    obtain ⟨c', hc', rfl⟩ := List.mem_map.1 hr
    obtain ⟨c, hc, rfl⟩ := List.mem_map.1 hr'
    exact charge_fresh (e := ⟨s, a, w, s'⟩) (budgetInv_run hrun) hstep hlast (Option.mem_toList.1 hc) c' hc'

/-- **The budget is exact** over every run: a transaction is charged once while its reservations
    come before its mark can be gone, each ledger is the sum of the costs of its day, and no
    reservation raises one above its limits. -/
theorem issuance_budget_exact (h : (BudgetRedis.machine I T).Run .empty es s) :
    (Timely es → ((charges es).map Charge.request).Nodup) ∧
    (∀ i l, s.ledgers i = some l → l.gas = spent (charges es) (settlements es) i l.day ∧
      l.tx = (chargesOn (charges es) i l.day).length) ∧
    (∀ i, s.totalGas s.time i = spent (charges es) (settlements es) i (s.time / dayMs) ∧
      s.totalTx s.time i = (chargesOn (charges es) i (s.time / dayMs)).length) ∧
    ∀ e ∈ es, ∀ i l, e.post.ledgers i = some l →
      (∃ l₀, e.pre.ledgers i = some l₀ ∧ l₀.day = l.day ∧ l.gas ≤ l₀.gas ∧ l.tx ≤ l₀.tx) ∨
        ∃ now c, e.act = .eval now (.reserve c) ∧ c.issuer = i ∧ l.gas ≤ c.maxGas ∧ l.tx ≤ c.maxTx := by
  have hinv := budgetInv_run h
  refine ⟨charged_once h, ?_, hinv.totals, ?_⟩
  · intro i l hl
    exact ⟨(hinv.ledger i l hl).gas, (hinv.ledger i l hl).tx⟩
  · intro e he i l hl
    obtain ⟨es₁, es₂, -, -, hstep, -⟩ := h.of_mem he
    exact budget_limit hstep hl

end history

end

/-- A reservation, one of the next pass, and two reconciliations. -/
def oneDay : List (BudgetEntry ℕ ℕ) :=
  (BudgetRedis.machine ℕ ℕ).trace .empty
    [.eval 0 (.reserve ⟨1, 7, 50, 100, 5⟩), .eval 10 (.reserve ⟨1, 7, 50, 100, 5⟩),
      .eval 1000 (.reconcile ⟨1, 7, 30, 100, 5⟩), .eval 2000 (.reconcile ⟨1, 7, 30, 100, 5⟩)]

theorem issuance_budget_exact_oneDay :
    Timely oneDay ∧ charges oneDay = [⟨1, 7, 0, 50⟩] ∧ spent (charges oneDay) (settlements oneDay) 1 0 = 30 ∧
      ((charges oneDay).map Charge.request).Nodup := by
  refine ⟨by decide, by decide, by decide, ?_⟩
  exact (issuance_budget_exact (Machine.run_trace _ _ _)).1 (by decide)

/-- The reservation of a pass that comes two days after the reconciliation. -/
def lateReserve : List (BudgetEntry ℕ ℕ) :=
  (BudgetRedis.machine ℕ ℕ).trace .empty
    [.eval 0 (.reserve ⟨1, 7, 50, 100, 5⟩), .eval 1000 (.reconcile ⟨1, 7, 30, 100, 5⟩),
      .expireMark 172801000 7, .eval 172801000 (.reserve ⟨1, 7, 50, 100, 5⟩)]

theorem issuance_charged_twice : charges lateReserve = [⟨1, 7, 0, 50⟩, ⟨1, 7, 2, 50⟩] ∧
    ¬ ∀ es s, (BudgetRedis.machine ℕ ℕ).Run .empty es s → ((charges es).map Charge.request).Nodup := by
  refine ⟨by decide, ?_⟩
  intro h
  exact absurd (h _ _ (Machine.run_trace _ _ _) : ((charges lateReserve).map _).Nodup) (by decide)

end Proofmark
