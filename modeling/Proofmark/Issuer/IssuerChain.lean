/-
  The issuer and its source contract on one chain (src/RotatingIssuer.sol,
  src/ComplianceSource.sol).

  An operation of a transaction calls the issuer, or calls the source contract from another
  account, or leaves a log of a third contract.  The issuer is the sender of its calls of the
  source contract, and answers the static calls that the source contract makes to it.

  A run gives a run of the issuer alone (`issuer_run`) and one of the source chain alone
  (`source_run`).
-/
import Proofmark.Issuer.KeySafety
import Proofmark.Source.Chain

namespace Proofmark

open Revert Function

/-- The issuer, and the source contract that it is bound to. -/
structure IssuerSource where
  issuer : RotatingIssuer
  contract : ComplianceSource

/-- One operation of a transaction.  `accounts` is what the other accounts answer. -/
inductive IssuerOp (env : IssuerEnv) where
  | issuer (sender : Address) (sender_ne : sender ≠ 0) (accounts : Address → Account)
      (c : IssuerCall)
  | source (sender : Address) (sender_ne : sender ≠ 0) (sender_other : sender ≠ env.self)
      (accounts : Address → Account) (c : SourceCall)
  | foreign (L : LogEntry) (address_ne : L.address_ ≠ env.source.self)

/-- An operation with the block that it is in. -/
structure PlacedOp (env : IssuerEnv) where
  height : U64
  timestamp : ℕ
  op : IssuerOp env

inductive IssuerSourceError where
  | issuer (e : IssuerError)
  | source (e : SourceError)

namespace IssuerSource

section
variable (env : IssuerEnv) (s : IssuerSource)

/-- What the accounts answer, the issuer among them. -/
def answers (accounts : Address → Account) : Address → Account :=
  update accounts env.self (s.issuer.account env (s.contract.isIssuer env.self))

/-- The source contract as the issuer calls it. -/
def asSource (height : U64) (timestamp : ℕ) (accounts : Address → Account) (c : SourceCall) :
    SourceOutcome :=
  s.contract.call env.source (s.answers env accounts) ⟨env.self, height, timestamp, env.self_ne⟩ c

def step (p : PlacedOp env) :
    Except IssuerSourceError (IssuerSource × List (TxLog env.source.self)) :=
  match p.op with
  | .issuer sender _ accounts c => do
    let (issuer, out) ← (s.issuer.call sender (s.asSource env p.height p.timestamp accounts) c).mapError
      .issuer
    match out with
    | none => pure (⟨issuer, s.contract⟩, [])
    | some (contract, events) => pure (⟨issuer, contract⟩, events.map .own)
  | .source sender sender_ne _ accounts c => do
    let (contract, events) ← (s.contract.call env.source (s.answers env accounts)
      ⟨sender, p.height, p.timestamp, sender_ne⟩ c).mapError .source
    pure (⟨s.issuer, contract⟩, events.map .own)
  | .foreign L address_ne => pure (s, [.foreign L address_ne])

end

/-- The two contracts as a machine that outputs the logs of its operations. -/
def machine (env : IssuerEnv) :
    Machine IssuerSource (PlacedOp env) (List (TxLog env.source.self)) IssuerSourceError where
  step s p := s.step env p

end IssuerSource

abbrev OpEntry (env : IssuerEnv) :=
  Machine.Entry IssuerSource (PlacedOp env) (List (TxLog env.source.self))

/-- A transaction. -/
structure IssuerTx (env : IssuerEnv) where
  height : U64
  txIndex : U64
  timestamp : ℕ
  ops : List (IssuerOp env)

/-- The two contracts and the place of the last transaction. -/
structure IssuerChain where
  issuer : RotatingIssuer
  chain : SourceChain

inductive IssuerChainError where
  | outOfOrder
  | reverted (e : IssuerSourceError)

namespace IssuerChain

/-- The operations of a transaction, one after the other. -/
def runOps (env : IssuerEnv) (height : U64) (timestamp : ℕ) :
    IssuerSource → List (IssuerOp env) →
      Except IssuerSourceError (IssuerSource × List (OpEntry env))
  | s, [] => pure (s, [])
  | s, op :: ops => do
    let (s₁, logs) ← s.step env ⟨height, timestamp, op⟩
    let (s', es) ← runOps env height timestamp s₁ ops
    pure (s', ⟨s, ⟨height, timestamp, op⟩, logs, s₁⟩ :: es)

/-- The chain as a machine that outputs the operations of its transactions. -/
def machine (env : IssuerEnv) :
    Machine IssuerChain (IssuerTx env) (List (OpEntry env)) IssuerChainError where
  step s tx := do
    revertIf (¬ (1 ≤ tx.height ∧ Receipt.Before ⟨s.chain.height, s.chain.txIndex, []⟩
      ⟨tx.height, tx.txIndex, []⟩)) .outOfOrder
    let (s', es) ← (runOps env tx.height tx.timestamp ⟨s.issuer, s.chain.contract⟩ tx.ops).mapError
      .reverted
    pure (⟨s'.issuer, ⟨s'.contract, tx.height, tx.txIndex⟩⟩, es)

end IssuerChain

abbrev IssuerChainEntry (env : IssuerEnv) :=
  Machine.Entry IssuerChain (IssuerTx env) (List (OpEntry env))

/-- The operations of a run, in order. -/
def opEntries {env : IssuerEnv} (es : List (IssuerChainEntry env)) : List (OpEntry env) :=
  es.flatMap fun e => e.out

/-! ## The issuer alone -/

section
variable {env : IssuerEnv} {s s' : IssuerSource} {e d m : OpEntry env} {l : List (OpEntry env)}

/-- The step of the issuer in an operation. -/
def OpEntry.issuerEntry? (e : OpEntry env) : Option (IssuerEntry (ComplianceSource × List SourceEvent)) :=
  match e.act.op with
  | .issuer sender sender_ne accounts c =>
    let source := e.pre.asSource env e.act.height e.act.timestamp accounts
    (value? (e.pre.issuer.call sender source c)).map fun r =>
      ⟨e.pre.issuer, ⟨⟨sender, e.act.height, e.act.timestamp, sender_ne⟩, source, c⟩, r.2, r.1⟩
  | _ => none

/-- A call of the issuer, and what the source contract gave to it. -/
theorem step_issuer {sender : Address} {hne : sender ≠ 0} {accounts : Address → Account}
    {c : IssuerCall} (h : (IssuerSource.machine env).IsStep e)
    (hop : e.act.op = .issuer sender hne accounts c) :
    ∃ out, e.pre.issuer.call sender (e.pre.asSource env e.act.height e.act.timestamp accounts) c =
        .ok (e.post.issuer, out) ∧
      match out with
      | none => e.post.contract = e.pre.contract ∧ e.out = []
      | some r => e.post.contract = r.1 ∧ e.out = r.2.map .own := by
  obtain ⟨s, ⟨height, timestamp, op⟩, logs, s'⟩ := e
  dsimp only at hop
  subst hop
  simp only [Machine.IsStep, IssuerSource.machine, IssuerSource.step, bind_ok, mapError_ok] at h
  obtain ⟨⟨issuer, out⟩, hcall, h⟩ := h
  rcases out with _ | ⟨contract, events⟩
  · simp only [pure_ok, Prod.mk.injEq] at h
    obtain ⟨rfl, rfl⟩ := h
    exact ⟨none, hcall, rfl, rfl⟩
  · simp only [pure_ok, Prod.mk.injEq] at h
    obtain ⟨rfl, rfl⟩ := h
    exact ⟨some (contract, events), hcall, rfl, rfl⟩

theorem step_source {sender : Address} {hne : sender ≠ 0} {hother : sender ≠ env.self}
    {accounts : Address → Account} {c : SourceCall} (h : (IssuerSource.machine env).IsStep e)
    (hop : e.act.op = .source sender hne hother accounts c) :
    ∃ events, e.pre.contract.call env.source (e.pre.answers env accounts)
        ⟨sender, e.act.height, e.act.timestamp, hne⟩ c = .ok (e.post.contract, events) ∧
      e.post.issuer = e.pre.issuer ∧ e.out = events.map .own := by
  obtain ⟨s, ⟨height, timestamp, op⟩, logs, s'⟩ := e
  dsimp only at hop
  subst hop
  simp only [Machine.IsStep, IssuerSource.machine, IssuerSource.step, bind_ok, mapError_ok, pure_ok,
    Prod.mk.injEq] at h
  obtain ⟨⟨contract, events⟩, hcall, rfl, rfl⟩ := h
  exact ⟨events, hcall, rfl, rfl⟩

theorem step_foreign {L : LogEntry} {hne : L.address_ ≠ env.source.self}
    (h : (IssuerSource.machine env).IsStep e) (hop : e.act.op = .foreign L hne) :
    e.post = e.pre ∧ e.out = [.foreign L hne] := by
  obtain ⟨s, ⟨height, timestamp, op⟩, logs, s'⟩ := e
  dsimp only at hop
  subst hop
  simp only [Machine.IsStep, IssuerSource.machine, IssuerSource.step, pure_ok, Prod.mk.injEq] at h
  exact ⟨h.1.symm, h.2.symm⟩

/-- **The issuer alone**: its calls in a run are a run of it. -/
theorem issuer_run (h : (IssuerSource.machine env).Run s l s') :
    (RotatingIssuer.machine (ComplianceSource × List SourceEvent)).Run s.issuer
      (l.filterMap OpEntry.issuerEntry?) s'.issuer := by
  refine h.project (f := IssuerSource.issuer) fun e he => ?_
  cases hop : e.act.op with
  | issuer sender hne accounts c =>
    obtain ⟨out, hcall, -⟩ := step_issuer he hop
    let source := e.pre.asSource env e.act.height e.act.timestamp accounts
    refine .inr ⟨⟨e.pre.issuer, ⟨⟨sender, e.act.height, e.act.timestamp, hne⟩, source, c⟩, out,
      e.post.issuer⟩, ?_, hcall, rfl, rfl⟩
    simp only [OpEntry.issuerEntry?, hop, hcall, value?, Option.map_some, source]
  | source sender hne hother accounts c =>
    obtain ⟨events, -, hissuer, -⟩ := step_source he hop
    exact .inl ⟨by simp only [OpEntry.issuerEntry?, hop], hissuer⟩
  | foreign L hne =>
    exact .inl ⟨by simp only [OpEntry.issuerEntry?, hop], by rw [(step_foreign he hop).1]⟩

/-- Of two operations of a run, the keys of one advance those of the other. -/
theorem advances_or (h₀ : s.issuer.Separate) (h : (IssuerSource.machine env).Run s l s')
    (hd : d ∈ l) (hm : m ∈ l) :
    d.pre.issuer.Advances m.pre.issuer ∨ m.pre.issuer.Advances d.pre.issuer := by
  obtain ⟨l₁, l₂, rfl, h₁, hstep, h₂⟩ := h.of_mem hd
  have hsep : d.pre.issuer.Separate := RotatingIssuer.separate_run h₀ (issuer_run h₁)
  rcases List.mem_append.1 hm with hm | hm
  · obtain ⟨k₁, k₂, rfl, g₁, gstep, g₂⟩ := h₁.of_mem hm
    exact .inr (RotatingIssuer.advances_run (RotatingIssuer.separate_run h₀ (issuer_run g₁))
      (issuer_run (g₂.cons gstep)))
  · rcases List.mem_cons.1 hm with rfl | hm
    · exact .inl (.refl _)
    · obtain ⟨k₁, k₂, rfl, g₁, gstep, g₂⟩ := h₂.of_mem hm
      exact .inl (RotatingIssuer.advances_run hsep (issuer_run (g₁.cons hstep)))

/-- **One key has one epoch** over all operations of a run. -/
theorem keyEpoch_eq (h₀ : s.issuer.Separate) (h : (IssuerSource.machine env).Run s l s')
    (hd : d ∈ l) (hm : m ∈ l) (h0 : d.pre.issuer.operatingKey ≠ 0)
    (hk : m.pre.issuer.operatingKey = d.pre.issuer.operatingKey) :
    m.pre.issuer.keyEpoch = d.pre.issuer.keyEpoch := by
  have hsep (x : OpEntry env) (hx : x ∈ l) : x.pre.issuer.Separate := by
    obtain ⟨l₁, l₂, rfl, h₁, -, -⟩ := h.of_mem hx
    exact RotatingIssuer.separate_run h₀ (issuer_run h₁)
  have hone (x y : RotatingIssuer) (hx : x.Separate) (hxy : x.Advances y) (hne : x.operatingKey ≠ 0)
      (heq : y.operatingKey = x.operatingKey) : y.keyEpoch = x.keyEpoch := by
    rcases hxy.epoch with ⟨he, -⟩ | ⟨-, hz | hu⟩
    · exact he
    · exact absurd (heq.symm.trans hz) hne
    · rw [heq, hx.operating_used hne] at hu
      cases hu
  rcases advances_or h₀ h hd hm with ha | ha
  · exact hone _ _ (hsep d hd) ha h0 hk
  · exact (hone _ _ (hsep m hm) ha (hk ▸ h0) hk.symm).symm

end

/-! ## The source chain alone -/

section
variable {env : IssuerEnv} {s s' : IssuerSource}

/-- The operation of the source chain in an operation. -/
def OpEntry.txOp? (e : OpEntry env) : Option (TxOp env.source.self) :=
  match e.act.op with
  | .issuer _ _ accounts c => (c.sourceCall? e.pre.issuer.keyEpoch).map fun sc =>
    .call env.self env.self_ne (e.pre.answers env accounts) sc
  | .source sender sender_ne _ accounts c => some (.call sender sender_ne (e.pre.answers env accounts) c)
  | .foreign L address_ne => some (.foreign L address_ne)

/-- An operation is one of the source chain, or leaves it. -/
theorem runOps_txOp {e : OpEntry env} (h : (IssuerSource.machine env).IsStep e)
    {ops : List (TxOp env.source.self)} {logs : List (TxLog env.source.self)} {c : ComplianceSource}
    (hrest : Proofmark.runOps env.source e.act.height e.act.timestamp e.post.contract ops =
      .ok (c, logs)) :
    Proofmark.runOps env.source e.act.height e.act.timestamp e.pre.contract
      (e.txOp?.toList ++ ops) = .ok (c, e.out ++ logs) := by
  cases hop : e.act.op with
  | issuer sender hne accounts call =>
    obtain ⟨out, hcall, hout⟩ := step_issuer h hop
    have hsource := RotatingIssuer.call_source hcall
    simp only [OpEntry.txOp?, hop]
    cases hsc : call.sourceCall? e.pre.issuer.keyEpoch with
    | none =>
      simp only [hsc] at hsource
      rw [hsource] at hout
      rw [hout.2, Option.map_none, Option.toList_none, List.nil_append, List.nil_append, ← hout.1]
      exact hrest
    | some sc =>
      simp only [hsc] at hsource
      obtain ⟨⟨contract, events⟩, hok, rfl⟩ := hsource
      rw [Option.map_some, Option.toList_some, List.singleton_append, Proofmark.runOps]
      simp only [bind_ok, pure_ok]
      rw [hout.2]
      exact ⟨_, hok, _, hout.1 ▸ hrest, rfl⟩
  | source sender hne hother accounts call =>
    obtain ⟨events, hok, -, hout⟩ := step_source h hop
    simp only [OpEntry.txOp?, hop]
    rw [Option.toList_some, List.singleton_append, Proofmark.runOps]
    simp only [bind_ok, pure_ok]
    rw [hout]
    exact ⟨_, hok, _, hrest, rfl⟩
  | foreign L hne =>
    obtain ⟨hpost, hout⟩ := step_foreign h hop
    simp only [OpEntry.txOp?, hop]
    rw [Option.toList_some, List.singleton_append, Proofmark.runOps]
    simp only [bind_ok, pure_ok]
    rw [hout]
    exact ⟨_, hpost ▸ hrest, rfl⟩

/-- What the operations of a transaction are. -/
theorem runOps_run {height : U64} {timestamp : ℕ} {ops : List (IssuerOp env)}
    {es : List (OpEntry env)} (h : IssuerChain.runOps env height timestamp s ops = .ok (s', es)) :
    (IssuerSource.machine env).Run s es s' ∧
      (∀ e ∈ es, e.act.height = height ∧ e.act.timestamp = timestamp) ∧
      Proofmark.runOps env.source height timestamp s.contract (es.filterMap OpEntry.txOp?) =
        .ok (s'.contract, es.flatMap fun e => e.out) := by
  induction ops generalizing s es with
  | nil =>
    rw [IssuerChain.runOps, pure_ok, Prod.mk.injEq] at h
    obtain ⟨rfl, rfl⟩ := h
    exact ⟨.nil, by simp, rfl⟩
  | cons op ops ih =>
    simp only [IssuerChain.runOps, bind_ok, pure_ok, Prod.mk.injEq] at h
    obtain ⟨⟨s₁, logs⟩, hstep, ⟨s₂, es'⟩, hrest, rfl, rfl⟩ := h
    obtain ⟨hrun, hplace, hops⟩ := ih hrest
    have he : (IssuerSource.machine env).IsStep ⟨s, ⟨height, timestamp, op⟩, logs, s₁⟩ := hstep
    refine ⟨hrun.cons he, List.forall_mem_cons.2 ⟨⟨rfl, rfl⟩, hplace⟩, ?_⟩
    have h := runOps_txOp he hops
    rw [List.flatMap_cons, List.filterMap_cons]
    cases ht : OpEntry.txOp? ⟨s, ⟨height, timestamp, op⟩, logs, s₁⟩ with
    | none =>
      rw [ht] at h
      exact h
    | some t =>
      rw [ht] at h
      exact h

/-- The transaction of the source chain in a transaction. -/
def sourceEntry (e : IssuerChainEntry env) : ChainEntry env.source :=
  ⟨e.pre.chain, ⟨e.act.height, e.act.txIndex, e.act.timestamp, e.out.filterMap OpEntry.txOp?⟩,
    e.out.flatMap fun o => o.out, e.post.chain⟩

variable {c c' : IssuerChain} {e : IssuerChainEntry env} {es : List (IssuerChainEntry env)}

/-- What a successful transaction went through. -/
theorem issuerChain_step (h : (IssuerChain.machine env).IsStep e) :
    (IssuerSource.machine env).Run ⟨e.pre.issuer, e.pre.chain.contract⟩ e.out
        ⟨e.post.issuer, e.post.chain.contract⟩ ∧
      (∀ o ∈ e.out, o.act.height = e.act.height ∧ o.act.timestamp = e.act.timestamp) ∧
      (SourceChain.machine env.source).IsStep (sourceEntry e) := by
  obtain ⟨s, tx, out, s'⟩ := e
  simp only [Machine.IsStep, IssuerChain.machine, bind_ok, revertIf_ok, mapError_ok, pure_ok,
    Prod.mk.injEq] at h
  obtain ⟨_, hplace, ⟨t, out'⟩, hops, rfl, rfl⟩ := h
  obtain ⟨hrun, hat, hsource⟩ := runOps_run hops
  refine ⟨hrun, hat, ?_⟩
  simp only [Machine.IsStep, SourceChain.machine, sourceEntry, bind_ok, revertIf_ok,
    mapError_ok, pure_ok]
  exact ⟨(), hplace, _, hsource, rfl⟩

/-- The operations of a run follow one another. -/
theorem opEntries_run (h : (IssuerChain.machine env).Run c es c') :
    (IssuerSource.machine env).Run ⟨c.issuer, c.chain.contract⟩ (opEntries es)
      ⟨c'.issuer, c'.chain.contract⟩ := by
  refine h.history (H := fun es s => (IssuerSource.machine env).Run ⟨c.issuer, c.chain.contract⟩
    (opEntries es) ⟨s.issuer, s.chain.contract⟩) .nil ?_
  intro es e _ ih hstep
  rw [opEntries, List.flatMap_append, List.flatMap_singleton]
  exact ih.append (issuerChain_step hstep).1

/-- **The source chain alone**: the transactions of a run are a run of it. -/
theorem source_run (h : (IssuerChain.machine env).Run c es c') :
    (SourceChain.machine env.source).Run c.chain (es.map sourceEntry) c'.chain := by
  have hp : (SourceChain.machine env.source).Run c.chain (es.filterMap fun e => some (sourceEntry e))
      c'.chain := by
    refine h.project (f := IssuerChain.chain) fun e he => ?_
    exact .inr ⟨_, rfl, (issuerChain_step he).2.2, rfl, rfl⟩
  rwa [← List.filterMap_eq_map]

/-- The transaction that an operation is in. -/
theorem exists_entry (h : (IssuerChain.machine env).Run c es c') {o : OpEntry env}
    (ho : o ∈ opEntries es) :
    ∃ e ∈ es.map sourceEntry, e.act.height = o.act.height ∧ e.act.timestamp = o.act.timestamp ∧
      o.out ⊆ e.out ∧ ∀ t, o.txOp? = some t → t ∈ e.act.ops := by
  obtain ⟨e, he, hoe⟩ := List.mem_flatMap.1 ho
  obtain ⟨-, -, -, -, hstep, -⟩ := h.of_mem he
  obtain ⟨hheight, htime⟩ := (issuerChain_step hstep).2.1 o hoe
  refine ⟨sourceEntry e, List.mem_map_of_mem he, hheight.symm, htime.symm, fun x hx => ?_,
    fun t ht => ?_⟩
  · exact List.mem_flatMap.2 ⟨o, hoe, hx⟩
  · exact List.mem_filterMap.2 ⟨o, hoe, ht⟩

end

end Proofmark
