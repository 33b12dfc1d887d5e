/-
  Transactions on the source chain.

  A transaction calls the source contract any number of times, from any senders, and
  may leave logs of other contracts in between.  `TxSpec` says what one transaction
  leaves of the roster epochs, and `ChainInv` what a whole run does: the receipts are in
  source order, every event is sound, and the publications have increasing epochs.
-/
import Proofmark.Source.DenialCorrection

namespace Proofmark

open Revert

/-- One operation of a transaction: a call of the source contract, with what the queried
    accounts answer, or a log of another contract. -/
inductive TxOp (source : Address) where
  | call (sender : Address) (sender_ne : sender ≠ 0) (accounts : Address → Account) (c : SourceCall)
  | foreign (L : LogEntry) (address_ne : L.address_ ≠ source)

/-- A source transaction. -/
structure SourceTx (source : Address) where
  height : U64
  txIndex : U64
  timestamp : ℕ
  ops : List (TxOp source)

/-- A log of a transaction: an event of the source contract, or of another one. -/
inductive TxLog (source : Address) where
  | own (e : SourceEvent)
  | foreign (L : LogEntry) (address_ne : L.address_ ≠ source)

def TxLog.log {source : Address} : TxLog source → LogEntry
  | own e => e.log source
  | foreign L _ => L

def TxLog.own? {source : Address} : TxLog source → Option SourceEvent
  | own e => some e
  | foreign _ _ => none

/-- The events of the source contract among the logs of a transaction. -/
def ownEvents {source : Address} (logs : List (TxLog source)) : List SourceEvent := logs.filterMap TxLog.own?

/-- The publication that an operation asks for. -/
def TxOp.publication? {source : Address} (height : U64) (timestamp : ℕ) :
    TxOp source → Option (Publication × List (Address × U64))
  | call sender sender_ne accounts c => c.publication? accounts ⟨sender, height, timestamp, sender_ne⟩
  | foreign _ _ => none

/-- The operations of a transaction, one after the other. -/
def runOps (env : SourceEnv) (height : U64) (timestamp : ℕ) :
    ComplianceSource → List (TxOp env.self) →
      Except SourceError (ComplianceSource × List (TxLog env.self))
  | s, [] => pure (s, [])
  | s, .foreign L address_ne :: ops => do
    let (s', logs) ← runOps env height timestamp s ops
    pure (s', .foreign L address_ne :: logs)
  | s, .call sender sender_ne accounts c :: ops => do
    let (s₁, events) ← s.call env accounts ⟨sender, height, timestamp, sender_ne⟩ c
    let (s', logs) ← runOps env height timestamp s₁ ops
    pure (s', events.map .own ++ logs)

/-- The source contract and the place of the last transaction. -/
structure SourceChain where
  contract : ComplianceSource
  height : U64
  txIndex : U64

inductive ChainError where
  | outOfOrder
  | reverted (e : SourceError)

/-- The chain before any transaction, at the genesis block. -/
def SourceChain.deployed (owner : Address) : SourceChain := ⟨.deployed owner, 0, 0⟩

/-- The source chain as a machine that outputs the logs of its transactions. -/
def SourceChain.machine (env : SourceEnv) :
    Machine SourceChain (SourceTx env.self) (List (TxLog env.self)) ChainError where
  step chain tx := do
    revertIf (¬ (1 ≤ tx.height ∧ Receipt.Before ⟨chain.height, chain.txIndex, []⟩
      ⟨tx.height, tx.txIndex, []⟩)) .outOfOrder
    let (contract, logs) ← (runOps env tx.height tx.timestamp chain.contract tx.ops).mapError .reverted
    pure (⟨contract, tx.height, tx.txIndex⟩, logs)

abbrev ChainEntry (env : SourceEnv) :=
  Machine.Entry SourceChain (SourceTx env.self) (List (TxLog env.self))

/-- The receipt of a transaction. -/
def chainReceipt {env : SourceEnv} (e : ChainEntry env) : Receipt :=
  ⟨e.act.height, e.act.txIndex, e.out.map TxLog.log⟩

/-- The receipts of a run, in source order. -/
def receipts {env : SourceEnv} (es : List (ChainEntry env)) : List Receipt := es.map chainReceipt

def txPublications {source : Address} (tx : SourceTx source) : List (Publication × List (Address × U64)) :=
  tx.ops.filterMap (TxOp.publication? tx.height tx.timestamp)

/-- The publications of a run, in order. -/
def publications {env : SourceEnv} (es : List (ChainEntry env)) :
    List (Publication × List (Address × U64)) :=
  es.flatMap fun e => txPublications e.act

namespace SourceEvent

/-- The epoch that an event is about. -/
def epoch? : SourceEvent → Option U32
  | rosterEpochPublished epoch .. | rosterIssuerAuthorized epoch .. |
    rosterIssuerKeyAuthorized epoch .. => some epoch
  | _ => none

/-- The issuer that an event authorises for an epoch. -/
def approver? (epoch : U32) (root : Bytes32) : SourceEvent → Option Address
  | rosterIssuerAuthorized epoch' root' issuer =>
    if epoch' = epoch ∧ root' = root then some issuer else none
  | _ => none

/-- The key epoch that an event gives for an issuer of an epoch. -/
def keyEpoch? (epoch : U32) (root : Bytes32) (issuer : Address) : SourceEvent → Option U64
  | rosterIssuerKeyAuthorized epoch' root' issuer' issuerKeyEpoch =>
    if epoch' = epoch ∧ root' = root ∧ issuer' = issuer then some issuerKeyEpoch else none
  | _ => none

/-- Whether an event denies the subject, or corrects its denial. -/
def decision? (subject : Address) : SourceEvent → Option Bool
  | sanctionDenied subject' .. => if subject' = subject then some true else none
  | sanctionDenialCorrected subject' .. => if subject' = subject then some false else none
  | _ => none

end SourceEvent

/-- The last decision about the subject, or `b` when there is none. -/
def lastDecision (subject : Address) (b : Bool) (events : List SourceEvent) : Bool :=
  ((events.filterMap (SourceEvent.decision? subject)).getLast?).getD b

/-- The approvals by an issuer that come with a key epoch. -/
def keyedApprovals (approvals : List (Address × U64)) (issuer : Address) : List (Address × U64) :=
  approvals.filter fun a => a.1 = issuer ∧ a.2 ≠ 0

/-! ## One call -/

section
variable {p : Publication} {approvals : List (Address × U64)} {e : SourceEvent}

theorem mem_publication_events (h : e ∈ p.events approvals) :
    e = p.event ∨ ∃ a ∈ approvals, e = .rosterIssuerAuthorized p.epoch p.root a.1 ∨
      a.2 ≠ 0 ∧ e = .rosterIssuerKeyAuthorized p.epoch p.root a.1 a.2 := by
  rw [Publication.events, List.mem_append, List.mem_flatMap, List.mem_singleton] at h
  rcases h with ⟨a, ha, h⟩ | h
  · rw [Publication.approvalEvents, List.mem_cons] at h
    rcases h with h | h
    · exact .inr ⟨a, ha, .inl h⟩
    · split_ifs at h with hk
      · exact .inr ⟨a, ha, .inr ⟨hk, List.mem_singleton.1 h⟩⟩
      · cases h
  · exact .inl h

theorem epoch?_of_publication (h : e ∈ p.events approvals) : e.epoch? = some p.epoch := by
  rcases mem_publication_events h with rfl | ⟨a, -, rfl | ⟨-, rfl⟩⟩ <;> rfl

theorem epoch?_of_quiet (h : e.quiet = true) : e.epoch? = none := by
  cases e <;> first | rfl | simp [SourceEvent.quiet] at h

theorem filterMap_approver (p : Publication) (approvals : List (Address × U64)) :
    (p.events approvals).filterMap (SourceEvent.approver? p.epoch p.root) =
      approvals.map Prod.fst := by
  rw [Publication.events, List.filterMap_append]
  have hp : [p.event].filterMap (SourceEvent.approver? p.epoch p.root) = [] := rfl
  rw [hp, List.append_nil]
  induction approvals with
  | nil => rfl
  | cons a approvals ih =>
    rw [List.flatMap_cons, List.filterMap_append, ih, Publication.approvalEvents]
    by_cases hk : a.2 = 0 <;> simp [hk, SourceEvent.approver?]

theorem filterMap_keyEpoch (p : Publication) (approvals : List (Address × U64)) (i : Address) :
    (p.events approvals).filterMap (SourceEvent.keyEpoch? p.epoch p.root i) =
      (keyedApprovals approvals i).map Prod.snd := by
  rw [Publication.events, List.filterMap_append]
  have hp : [p.event].filterMap (SourceEvent.keyEpoch? p.epoch p.root i) = [] := rfl
  rw [hp, List.append_nil]
  induction approvals with
  | nil => rfl
  | cons a approvals ih =>
    rw [List.flatMap_cons, List.filterMap_append, ih, Publication.approvalEvents]
    by_cases hk : a.2 = 0#64 <;> by_cases hi : a.1 = i <;>
      simp [keyedApprovals, hk, hi, SourceEvent.keyEpoch?, List.filterMap_cons]

/-- Distinct issuers have at most one key epoch each. -/
theorem length_filter_issuer {approvals : List (Address × U64)}
    (h : (approvals.map Prod.fst).Nodup) (i : Address) :
    (keyedApprovals approvals i).length ≤ 1 := by
  induction approvals with
  | nil => simp [keyedApprovals]
  | cons a approvals ih =>
    rw [List.map_cons, List.nodup_cons] at h
    rw [keyedApprovals, List.filter_cons, ← keyedApprovals]
    split_ifs with ha
    · -- a second approval by the same issuer would repeat it
      have hnil : keyedApprovals approvals i = [] := by
        refine List.filter_eq_nil_iff.2 fun b hb hbi => h.1 ?_
        simp only [decide_eq_true_eq] at ha hbi
        rw [ha.1, ← hbi.1]
        exact List.mem_map_of_mem hb
      rw [hnil]
      exact Nat.le_refl 1
    · exact ih h.2

end

/-! ## One transaction -/

/-- What a transaction leaves of the denials and of the roster epochs: `pubs` are its
    publications. -/
structure TxSpec (s s' : ComplianceSource) (events : List SourceEvent)
    (pubs : List (Publication × List (Address × U64))) (number : U64) (timestamp : ℕ) : Prop where
  sound : SourceInv s → SourceInv s' ∧ ∀ e ∈ events, e.Sound number timestamp
  denial : ∀ x, s'.sourceDenialActive x = lastDecision x (s.sourceDenialActive x) events
  above : ∀ e ∈ events, ∀ ep, e.epoch? = some ep → s.lastEpoch < ep ∧ ep ≤ s'.lastEpoch
  increasing : (pubs.map fun q => q.1.epoch).Pairwise (· < ·)
  last : s'.lastEpoch = (pubs.getLast?.map fun q => q.1.epoch).getD s.lastEpoch
  emitted : ∀ q ∈ pubs, q.1.event ∈ events
  published : ∀ p : Publication, p.event ∈ events → ∃ approvals, (p, approvals) ∈ pubs
  approved : ∀ q ∈ pubs, q.2 ≠ [] ∧ q.2.length ≤ 16 ∧ (q.2.map Prod.fst).Nodup ∧
    events.filterMap (SourceEvent.approver? q.1.epoch q.1.root) = q.2.map Prod.fst
  keyed : ∀ q ∈ pubs, ∀ i, events.filterMap (SourceEvent.keyEpoch? q.1.epoch q.1.root i) =
    (keyedApprovals q.2 i).map Prod.snd

theorem lastDecision_append (x : Address) (b : Bool) (events events' : List SourceEvent) :
    lastDecision x b (events ++ events') = lastDecision x (lastDecision x b events) events' := by
  rw [lastDecision, List.filterMap_append, List.getLast?_append, lastDecision, lastDecision]
  cases (events'.filterMap (SourceEvent.decision? x)).getLast? <;> simp

theorem lastDecision_of_none {x : Address} {b : Bool} {events : List SourceEvent}
    (h : ∀ e ∈ events, e.decision? x = none) : lastDecision x b events = b := by
  rw [lastDecision, List.filterMap_eq_nil_iff.2 h]
  rfl

theorem Denials.lastDecision {s s' : ComplianceSource} {subjects : List Address}
    (h : Denials s subjects s') (x : Address) (lv ep : U32) :
    s'.sourceDenialActive x = Proofmark.lastDecision x (s.sourceDenialActive x)
      (subjects.map fun y => .sanctionDenied y lv ep) := by
  induction h with
  | nil s => rfl
  | @cons s s' y subjects _ _ _ ih =>
    rw [ih, List.map_cons, ← List.singleton_append, lastDecision_append]
    congr 1
    by_cases hy : y = x
    · subst hy
      simp [ComplianceSource.denied, Proofmark.lastDecision, SourceEvent.decision?]
    · have hy' : x ≠ y := fun he => hy he.symm
      simp [ComplianceSource.denied, Proofmark.lastDecision, SourceEvent.decision?, hy,
        Function.update_of_ne hy']

theorem decision?_of_quiet {e : SourceEvent} (h : e.quiet = true) (x : Address) :
    e.decision? x = none := by
  cases e <;> first | rfl | simp [SourceEvent.quiet] at h

/-- How a call moves the denials. -/
theorem CallEffect.denial {accounts : Address → Account} {msg : Msg} {s s' : ComplianceSource}
    {c : SourceCall} {events : List SourceEvent} (he : CallEffect accounts msg s c s' events)
    (x : Address) : s'.sourceDenialActive x = lastDecision x (s.sourceDenialActive x) events := by
  cases he with
  | quiet _ hs hq =>
    rw [hs.sourceDenialActive, lastDecision_of_none fun e hm => decision?_of_quiet (hq e hm).1 x]
  | denied _ _ hd => exact hd.lastDecision x _ _
  | proposed _ _ _ _ _ => rfl
  | approved _ _ _ _ _ => rfl
  | @executed id _ _ _ _ _ _ _ _ =>
    by_cases hx : (s.denialCorrections id).subject = x
    · subst hx
      simp [lastDecision, SourceEvent.decision?, List.filterMap_cons]
    · have hx' : x ≠ (s.denialCorrections id).subject := fun he => hx he.symm
      simp [lastDecision, SourceEvent.decision?, hx, List.filterMap_cons, Function.update_of_ne hx']
  | published _ _ _ _ _ _ _ _ _ =>
    rw [lastDecision_of_none fun e hm => ?_]
    rcases mem_publication_events hm with rfl | ⟨a, -, rfl | ⟨-, rfl⟩⟩ <;> rfl

theorem event_injective : Function.Injective Publication.event := by
  rintro ⟨⟩ ⟨⟩ h
  simpa [Publication.event] using h

/-- Every event of a call is sound. -/
theorem CallEffect.sound {accounts : Address → Account} {msg : Msg} {s s' : ComplianceSource}
    {c : SourceCall} {events : List SourceEvent} (h : SourceInv s)
    (he : CallEffect accounts msg s c s' events) : ∀ e ∈ events, e.Sound msg.number msg.timestamp := by
  cases he with
  | quiet _ _ hq => exact fun e he => (hq e he).2
  | denied _ _ hd =>
    intro e he
    obtain ⟨x, hx, rfl⟩ := List.mem_map.1 he
    exact hd.subject_ne x hx
  | proposed _ _ _ _ _ => simp [SourceEvent.Sound]
  | approved _ _ _ _ _ => simp [SourceEvent.Sound]
  | @executed id h0 _ _ _ _ hv hap _ =>
    have hw := h.wellFormed id h0
    have hid := h.id_ne_zero h0
    intro e he
    rcases List.mem_cons.1 he with rfl | he
    · exact ⟨h0, hw.denialRevision, hid.1, hw.reasonHash, hw.proposer, hap, hw.approver⟩
    · rw [List.mem_singleton.1 he]
      exact ⟨h0, hw.proposer, hv⟩
  | published _ _ _ hvalid htime _ _ _ hne =>
    intro e he
    rcases mem_publication_events he with rfl | ⟨a, ha, rfl | ⟨hk, rfl⟩⟩
    · exact ⟨hvalid, htime⟩
    · exact hne a ha
    · exact ⟨hne a ha, hk⟩

theorem epoch?_event (p : Publication) : p.event.epoch? = some p.epoch := rfl

/-- An effect without publication says nothing about epochs. -/
theorem CallEffect.txSpec {accounts : Address → Account} {msg : Msg} {s s' : ComplianceSource}
    {c : SourceCall} {events : List SourceEvent} (he : CallEffect accounts msg s c s' events) :
    TxSpec s s' events (c.publication? accounts msg).toList msg.number msg.timestamp := by
  have hsound (h : SourceInv s) := And.intro (h.step he) (he.sound h)
  have hnone (hl : s'.lastEpoch = s.lastEpoch) (hq : ∀ e ∈ events, e.epoch? = none)
      (hc : c.publication? accounts msg = none) :
      TxSpec s s' events (c.publication? accounts msg).toList msg.number msg.timestamp := by
    rw [hc]
    refine ⟨hsound, he.denial, fun e hm ep hep => ?_, by simp, by simpa using hl, by simp,
      fun p hp => ?_, by simp, by simp⟩
    · rw [hq e hm] at hep
      cases hep
    · have := hq _ hp
      rw [epoch?_event] at this
      cases this
  have hdenial := he.denial
  cases he with
  | quiet hc hs hq => exact hnone hs.lastEpoch (fun e hm => epoch?_of_quiet (hq e hm).1) hc
  | denied hc _ hd =>
    refine hnone hd.lastEpoch_eq (fun e hm => ?_) hc
    obtain ⟨x, -, rfl⟩ := List.mem_map.1 hm
    rfl
  | proposed _ _ _ _ _ => exact hnone rfl (by simp [SourceEvent.epoch?]) rfl
  | approved _ _ _ _ _ => exact hnone rfl (by simp [SourceEvent.epoch?]) rfl
  | executed _ _ _ _ _ _ _ _ => exact hnone rfl (by simp [SourceEvent.epoch?]) rfl
  | @published c p approvals hc _ hlt _ _ hne hlen hnd _ =>
    rw [hc]
    refine ⟨hsound, hdenial, fun e hm ep hep => ?_, by simp, by simp, ?_, fun p' hp' => ?_, ?_, ?_⟩
    · rw [epoch?_of_publication hm, Option.some.injEq] at hep
      exact hep ▸ ⟨hlt, BitVec.le_refl _⟩
    · simp [Publication.events]
    · rcases mem_publication_events hp' with h | ⟨a, -, h | ⟨-, h⟩⟩
      · exact ⟨approvals, by simp [event_injective h]⟩
      · cases h
      · cases h
    · simpa [hne, hlen, hnd] using filterMap_approver p approvals
    · simpa using filterMap_keyEpoch p approvals

theorem filterMap_eq_nil_of_epoch {β : Type} {epoch : U32} (events : List SourceEvent)
    {f : SourceEvent → Option β} (hf : ∀ e, e.epoch? ≠ some epoch → f e = none)
    (h : ∀ e ∈ events, e.epoch? ≠ some epoch) : events.filterMap f = [] :=
  List.filterMap_eq_nil_iff.2 fun e he => hf e (h e he)

theorem approver?_eq_none {epoch : U32} {root : Bytes32} (e : SourceEvent)
    (h : e.epoch? ≠ some epoch) : e.approver? epoch root = none := by
  cases e <;> simp_all [SourceEvent.epoch?, SourceEvent.approver?]

theorem keyEpoch?_eq_none {epoch : U32} {root : Bytes32} {i : Address} (e : SourceEvent)
    (h : e.epoch? ≠ some epoch) : e.keyEpoch? epoch root i = none := by
  cases e <;> simp_all [SourceEvent.epoch?, SourceEvent.keyEpoch?]

namespace TxSpec

variable {s s₁ s' : ComplianceSource} {events events' : List SourceEvent}
  {pubs pubs' : List (Publication × List (Address × U64))} {number : U64} {timestamp : ℕ}

theorem nil (s : ComplianceSource) (number : U64) (timestamp : ℕ) :
    TxSpec s s [] [] number timestamp :=
  ⟨fun h => ⟨h, by simp⟩, fun _ => rfl, by simp, by simp, rfl, by simp, by simp, by simp, by simp⟩

theorem lastEpoch_le (h : TxSpec s s' events pubs number timestamp) : s.lastEpoch ≤ s'.lastEpoch := by
  rcases hp : pubs.getLast? with _ | q
  · have := h.last
    rw [hp] at this
    rw [this]
    exact BitVec.le_refl _
  · have hq := h.emitted q (List.mem_of_getLast? hp)
    have hlt := h.above _ hq _ (epoch?_event q.1)
    exact BitVec.le_of_lt (Std.lt_of_lt_of_le hlt.1 hlt.2)

/-- The publications of a transaction are above its first epoch, up to its last. -/
theorem mem_range (h : TxSpec s s' events pubs number timestamp)
    {q : Publication × List (Address × U64)} (hq : q ∈ pubs) :
    s.lastEpoch < q.1.epoch ∧ q.1.epoch ≤ s'.lastEpoch :=
  h.above _ (h.emitted q hq) _ (epoch?_event q.1)

/-- Calls follow one another: their epochs do not overlap. -/
theorem append (h : TxSpec s s₁ events pubs number timestamp)
    (h' : TxSpec s₁ s' events' pubs' number timestamp) :
    TxSpec s s' (events ++ events') (pubs ++ pubs') number timestamp := by
  have hle := h.lastEpoch_le
  have hle' := h'.lastEpoch_le
  have hlate {q : Publication × List (Address × U64)} (hq : q ∈ pubs) :
      ∀ e ∈ events', e.epoch? ≠ some q.1.epoch := fun e he hep =>
    BitVec.lt_irrefl _ (Std.lt_of_le_of_lt (h.mem_range hq).2 (h'.above e he _ hep).1)
  have hearly {q : Publication × List (Address × U64)} (hq : q ∈ pubs') :
      ∀ e ∈ events, e.epoch? ≠ some q.1.epoch := fun e he hep =>
    BitVec.lt_irrefl _ (Std.lt_of_le_of_lt (h.above e he _ hep).2 (h'.mem_range hq).1)
  refine ⟨fun hi => ?_, fun x => ?_, fun e he ep hep => ?_, ?_, ?_, fun q hq => ?_, fun p hp => ?_,
    fun q hq => ?_, fun q hq i => ?_⟩
  · obtain ⟨h1, h2⟩ := h.sound hi
    obtain ⟨h3, h4⟩ := h'.sound h1
    refine ⟨h3, fun e he => ?_⟩
    rcases List.mem_append.1 he with he | he
    exacts [h2 e he, h4 e he]
  · rw [lastDecision_append, ← h.denial, h'.denial]
  · rcases List.mem_append.1 he with he | he
    · obtain ⟨h1, h2⟩ := h.above e he ep hep
      exact ⟨h1, BitVec.le_trans h2 hle'⟩
    · obtain ⟨h1, h2⟩ := h'.above e he ep hep
      exact ⟨Std.lt_of_le_of_lt hle h1, h2⟩
  · rw [List.map_append, List.pairwise_append]
    refine ⟨h.increasing, h'.increasing, fun a ha b hb => ?_⟩
    obtain ⟨q, hq, rfl⟩ := List.mem_map.1 ha
    obtain ⟨q', hq', rfl⟩ := List.mem_map.1 hb
    exact Std.lt_of_le_of_lt (h.mem_range hq).2 (h'.mem_range hq').1
  · rw [h'.last, h.last, List.getLast?_append]
    cases hp : pubs'.getLast? <;> simp
  · rcases List.mem_append.1 hq with hq | hq
    exacts [by simp [h.emitted q hq], by simp [h'.emitted q hq]]
  · rcases List.mem_append.1 hp with hp | hp
    · obtain ⟨a, ha⟩ := h.published p hp
      exact ⟨a, by simp [ha]⟩
    · obtain ⟨a, ha⟩ := h'.published p hp
      exact ⟨a, by simp [ha]⟩
  · rw [List.filterMap_append]
    rcases List.mem_append.1 hq with hq | hq
    · obtain ⟨h1, h2, h3, h4⟩ := h.approved q hq
      rw [filterMap_eq_nil_of_epoch events' approver?_eq_none (hlate hq), List.append_nil]
      exact ⟨h1, h2, h3, h4⟩
    · obtain ⟨h1, h2, h3, h4⟩ := h'.approved q hq
      rw [filterMap_eq_nil_of_epoch events approver?_eq_none (hearly hq), List.nil_append]
      exact ⟨h1, h2, h3, h4⟩
  · rw [List.filterMap_append]
    rcases List.mem_append.1 hq with hq | hq
    · rw [filterMap_eq_nil_of_epoch events' keyEpoch?_eq_none (hlate hq), List.append_nil]
      exact h.keyed q hq i
    · rw [filterMap_eq_nil_of_epoch events keyEpoch?_eq_none (hearly hq), List.nil_append]
      exact h'.keyed q hq i

end TxSpec

/-- **What a transaction does**: by induction on its operations. -/
theorem runOps_spec {env : SourceEnv} {height : U64} {timestamp : ℕ} {s s' : ComplianceSource}
    {ops : List (TxOp env.self)} {logs : List (TxLog env.self)}
    (h : runOps env height timestamp s ops = .ok (s', logs)) :
    TxSpec s s' (ownEvents logs) (ops.filterMap (TxOp.publication? height timestamp)) height
      timestamp := by
  induction ops generalizing s logs with
  | nil =>
    rw [runOps, pure_ok, Prod.mk.injEq] at h
    obtain ⟨rfl, rfl⟩ := h
    exact .nil s height timestamp
  | cons op ops ih =>
    cases op with
    | foreign L hL =>
      simp only [runOps, bind_ok, pure_ok, Prod.mk.injEq] at h
      obtain ⟨⟨s₁, logs₁⟩, h1, rfl, rfl⟩ := h
      have hrest := ih h1
      exact hrest
    | call sender hne accounts c =>
      simp only [runOps, bind_ok, pure_ok, Prod.mk.injEq] at h
      obtain ⟨⟨s₁, events⟩, h1, ⟨s₂, logs₁⟩, h2, rfl, rfl⟩ := h
      have hown : ownEvents (events.map TxLog.own ++ logs₁ : List (TxLog env.self)) =
          events ++ ownEvents logs₁ := by
        rw [ownEvents, List.filterMap_append, List.filterMap_map, ownEvents]
        congr 1
        exact List.filterMap_some
      have hpubs : (TxOp.call sender hne accounts c :: ops).filterMap
          (fun op : TxOp env.self => op.publication? height timestamp) =
          (c.publication? accounts ⟨sender, height, timestamp, hne⟩).toList ++
            ops.filterMap (TxOp.publication? height timestamp) := by
        rw [List.filterMap_cons, TxOp.publication?]
        cases c.publication? accounts ⟨sender, height, timestamp, hne⟩ <;> rfl
      rw [hown, hpubs]
      exact (call_effect h1).txSpec.append (ih h2)

/-! ## Runs -/

/-- The events of the source contract in a run, in source order. -/
def chainEvents {env : SourceEnv} (es : List (ChainEntry env)) : List SourceEvent :=
  es.flatMap fun e => ownEvents e.out

/-- What a run of the source chain leaves. -/
structure ChainInv {env : SourceEnv} (es : List (ChainEntry env)) (chain : SourceChain) : Prop where
  source : SourceInv chain.contract
  sorted : (receipts es).Pairwise Receipt.Before
  last : ∀ r ∈ receipts es, r.height < chain.height ∨
    r.height = chain.height ∧ r.txIndex ≤ chain.txIndex
  height : ∀ r ∈ receipts es, 1 ≤ r.height
  sound : ∀ e ∈ es, ∀ ev ∈ ownEvents e.out, ev.Sound e.act.height e.act.timestamp
  increasing : ((publications es).map fun q => q.1.epoch).Pairwise (· < ·)
  bounded : ∀ q ∈ publications es, q.1.epoch ≤ chain.contract.lastEpoch
  lastEpoch : chain.contract.lastEpoch =
    ((publications es).getLast?.map fun q => q.1.epoch).getD 0
  denial : ∀ x, chain.contract.sourceDenialActive x = lastDecision x false (chainEvents es)

section
variable {env : SourceEnv} {owner : Address} {es : List (ChainEntry env)} {chain : SourceChain}

/-- What a successful transaction went through. -/
theorem chainStep {e : ChainEntry env} (h : (SourceChain.machine env).IsStep e) :
    1 ≤ e.act.height ∧
      Receipt.Before ⟨e.pre.height, e.pre.txIndex, []⟩ ⟨e.act.height, e.act.txIndex, []⟩ ∧
      e.post.height = e.act.height ∧ e.post.txIndex = e.act.txIndex ∧
      TxSpec e.pre.contract e.post.contract (ownEvents e.out) (txPublications e.act) e.act.height
        e.act.timestamp := by
  simp only [Machine.IsStep, SourceChain.machine, bind_ok, revertIf_ok, pure_ok, Prod.mk.injEq,
    not_not] at h
  obtain ⟨_, ⟨h1, h2⟩, ⟨s', logs⟩, h3, h4, h5⟩ := h
  rw [← h4, ← h5]
  refine ⟨h1, h2, rfl, rfl, ?_⟩
  cases hr : runOps env e.act.height e.act.timestamp e.pre.contract e.act.ops with
  | error err => rw [hr] at h3; cases h3
  | ok r =>
    rw [hr] at h3
    cases h3
    exact runOps_spec hr

theorem chainInv_run (h : (SourceChain.machine env).Run (.deployed owner) es chain) :
    ChainInv es chain := by
  refine h.history (H := ChainInv) ?_ ?_
  · exact ⟨sourceInv_deployed owner, by simp [receipts], by simp [receipts], by simp [receipts],
      by simp, by simp [publications], by simp [publications], rfl, fun _ => rfl⟩
  · intro es e _ hi hs
    obtain ⟨h1, h2, h3, h4, hspec⟩ := chainStep hs
    have hrec : receipts (es ++ [e]) = receipts es ++ [chainReceipt e] := by simp [receipts]
    have hpub : publications (es ++ [e]) = publications es ++ txPublications e.act := by
      simp [publications]
    obtain ⟨hsrc, hsound⟩ := hspec.sound hi.source
    have hle := hspec.lastEpoch_le
    refine ⟨hsrc, ?_, ?_, ?_, ?_, ?_, ?_, ?_, ?_⟩
    · rw [hrec, List.pairwise_append]
      refine ⟨hi.sorted, by simp, fun r hr r' hr' => ?_⟩
      rw [List.mem_singleton.1 hr']
      -- every earlier receipt is at or before the last one, which is before this one
      simp only [Receipt.Before, chainReceipt] at h2 ⊢
      rcases hi.last r hr with hl | ⟨hl, hl'⟩ <;> rcases h2 with h2 | ⟨h2, h2'⟩
      · exact .inl (BitVec.lt_trans hl h2)
      · exact .inl (h2 ▸ hl)
      · exact .inl (hl ▸ h2)
      · exact .inr ⟨hl.trans h2, Std.lt_of_le_of_lt hl' h2'⟩
    · rw [hrec, h3, h4]
      intro r hr
      rcases List.mem_append.1 hr with hr | hr
      · simp only [Receipt.Before] at h2
        rcases hi.last r hr with hl | ⟨hl, hl'⟩ <;> rcases h2 with h2 | ⟨h2, h2'⟩
        · exact .inl (BitVec.lt_trans hl h2)
        · exact .inl (h2 ▸ hl)
        · exact .inl (hl ▸ h2)
        · exact .inr ⟨hl.trans h2, BitVec.le_of_lt (Std.lt_of_le_of_lt hl' h2')⟩
      · rw [List.mem_singleton.1 hr]
        exact .inr ⟨rfl, BitVec.le_refl _⟩
    · rw [hrec]
      intro r hr
      rcases List.mem_append.1 hr with hr | hr
      · exact hi.height r hr
      · rw [List.mem_singleton.1 hr]
        exact h1
    · intro e' he'
      rcases List.mem_append.1 he' with he' | he'
      · exact hi.sound e' he'
      · rw [List.mem_singleton.1 he']
        exact hsound
    · rw [hpub, List.map_append, List.pairwise_append]
      refine ⟨hi.increasing, hspec.increasing, fun a ha b hb => ?_⟩
      obtain ⟨q, hq, rfl⟩ := List.mem_map.1 ha
      obtain ⟨q', hq', rfl⟩ := List.mem_map.1 hb
      exact Std.lt_of_le_of_lt (hi.bounded q hq) (hspec.mem_range hq').1
    · rw [hpub]
      intro q hq
      rcases List.mem_append.1 hq with hq | hq
      exacts [BitVec.le_trans (hi.bounded q hq) hle, (hspec.mem_range hq).2]
    · rw [hpub, hspec.last, hi.lastEpoch, List.getLast?_append]
      cases (txPublications e.act).getLast? <;> simp
    · intro x
      rw [chainEvents, List.flatMap_append, ← chainEvents, List.flatMap_singleton,
        lastDecision_append, ← hi.denial, hspec.denial]

end

end Proofmark
