/-
  Source and hub converge.

  When the hub has accepted the receipts of the source chain that carry lifecycle
  events, in any order, the denials, the latest epoch, its bounds and its approvals
  are those of the source contract.
-/
import Proofmark.Hub.Genuine

namespace Proofmark

open Latest

/-- The log matches one of the actions of `execute`. -/
def LogEntry.carries (source : Address) (L : LogEntry) : Bool :=
  ([0, 1, 2, 3, 4, 5] : List U8).any fun action => ProofmarkASC.matchesAction source action L

/-- The receipt carries a lifecycle event. -/
def Receipt.carries (source : Address) (r : Receipt) : Bool := r.logs.any (LogEntry.carries source)

theorem carries_of_meaning {source : Address} {L : LogEntry}
    (h : LogMeaning.ofLog source L ≠ .nothing) : L.carries source = true := by
  rw [LogMeaning.ofLog] at h
  split_ifs at h with h0 h1 h2 h3 h4 h5 h6 h7
  all_goals first
    | exact absurd rfl h
    | rw [not_or, not_not] at h0
      simp_all [LogEntry.carries, ProofmarkASC.matchesAction, ProofmarkASC.requestedSig]

section
variable {source subject : Address}

/-- Receipts that carry nothing have no events. -/
theorem receiptEvents_filter (rs : List Receipt) :
    receiptEvents source subject (rs.filter (Receipt.carries source)) =
      receiptEvents source subject rs := by
  induction rs with
  | nil => rfl
  | cons r rs ih =>
    have hcons (l : List Receipt) : receiptEvents source subject (r :: l) =
        events source subject r.applied ++ receiptEvents source subject l := by
      rw [receiptEvents, List.flatMap_cons, events, List.filterMap_append]
      rfl
    rw [List.filter_cons]
    split_ifs with hr
    · rw [hcons, hcons, ih]
    · rw [hcons, ih]
      suffices events source subject r.applied = [] by rw [this, List.nil_append]
      refine List.eq_nil_iff_forall_not_mem.2 fun m hm => hr ?_
      obtain ⟨a, ha, -, hmean⟩ := mem_events hm
      exact List.any_eq_true.2 ⟨a.log, (mem_applied ha).2, carries_of_meaning (by simp [hmean])⟩

/-! ## Denials -/

/-- Whether a lifecycle event denies, or corrects a denial. -/
def LifecycleEvent.decision? : LifecycleEvent → Option Bool
  | .denied => some true
  | .corrected .. => some false
  | _ => none

/-- In source order the last decision is the one in force. -/
theorem denialInForce_of_sorted {l : List Event} (h : l.Pairwise fun a b => a.1 < b.1) :
    denialInForce l = ((l.filterMap fun m => m.2.decision?).getLast?).getD false := by
  have hsorted : (decisions l).Pairwise fun a b => a.1 < b.1 := h.filter _
  have hmap : (l.filterMap fun m => m.2.decision?) = (decisions l).map fun m => m.2 == .denied := by
    rw [decisions, ← List.filterMap_eq_map, List.filterMap_filter]
    refine List.filterMap_congr fun m _ => ?_
    rcases m with ⟨c, ev⟩
    cases ev <;> rfl
  rw [denialInForce, latest_of_sorted hsorted, hmap, List.getLast?_map]
  cases (decisions l).getLast? <;> rfl

end

section
variable {self : Address} {logs : List (TxLog self)}

theorem event?_log (r : Receipt) (i : ℕ) (l : TxLog self) (x : Address) :
    ((⟨r, i, l.log⟩ : Applied).event? self x).bind (fun m => m.2.decision?) =
      l.own?.bind (SourceEvent.decision? x) := by
  rw [Applied.event?, LogEntry.lifecycle?, l.meaning_log]
  cases l with
  | foreign L hL => rfl
  | own e =>
    cases e <;> simp only [TxLog.own?, SourceEvent.meaning, SourceEvent.decision?, Option.map_some,
      Option.getD_some, Option.bind_some] <;> try rfl
    all_goals split_ifs <;> rfl

/-- The decisions about a subject in a receipt are those of its source events. -/
theorem decisions_appliedFrom (r : Receipt) (i : ℕ) (x : Address) :
    ((events self x (r.appliedFrom i (logs.map TxLog.log))).filterMap fun m => m.2.decision?) =
      (ownEvents logs).filterMap (SourceEvent.decision? x) := by
  induction logs generalizing i with
  | nil => rfl
  | cons l logs ih =>
    have h := event?_log r i l x
    rw [List.map_cons, Receipt.appliedFrom, List.zipIdx_cons, List.map_cons, ← Receipt.appliedFrom,
      events, List.filterMap_filterMap, List.filterMap_cons, h, ← List.filterMap_filterMap, ← events,
      ih, ownEvents, ownEvents, List.filterMap_filterMap, List.filterMap_filterMap,
      List.filterMap_cons]

end

/-! ## Whole runs -/

section
variable {senv : SourceEnv} {sowner : Address} {ces : List (ChainEntry senv)} {chain : SourceChain}

/-- The transactions of a run, one by one. -/
theorem chainEntry_spec (h : (SourceChain.machine senv).Run (.deployed sowner) ces chain)
    {e : ChainEntry senv} (he : e ∈ ces) :
    SourceInv e.pre.contract ∧ TxSpec e.pre.contract e.post.contract (ownEvents e.out)
      (txPublications e.act) e.act.height e.act.timestamp := by
  obtain ⟨es₁, es₂, -, h1, h2, -⟩ := h.of_mem he
  exact ⟨(chainInv_run h1).source, (chainStep h2).2.2.2.2⟩

/-- The decisions about a subject in all receipts are those of the source run. -/
theorem decisions_receipts (ces : List (ChainEntry senv)) (x : Address) :
    ((receiptEvents senv.self x (receipts ces)).filterMap fun m => m.2.decision?) =
      (chainEvents ces).filterMap (SourceEvent.decision? x) := by
  induction ces with
  | nil => rfl
  | cons e ces ih =>
    have hcons : receiptEvents senv.self x (receipts (e :: ces)) =
        events senv.self x ((chainReceipt e).appliedFrom 0 (e.out.map TxLog.log)) ++
          receiptEvents senv.self x (receipts ces) := by
      rw [receiptEvents, receipts, List.map_cons, List.flatMap_cons, events, List.filterMap_append]
      rfl
    have hevents : chainEvents (e :: ces) = ownEvents e.out ++ chainEvents ces := by
      simp [chainEvents]
    rw [hcons, List.filterMap_append, decisions_appliedFrom, ih, hevents, List.filterMap_append]

/-- An epoch log of the source chain is that of a publication of the run. -/
theorem publication_of_applied
    (h : (SourceChain.machine senv).Run (.deployed sowner) ces chain) {rs : List Receipt}
    (hrs : ∀ r ∈ rs, r ∈ receipts ces) {a : Applied} (ha : a ∈ rs.flatMap Receipt.applied)
    (hm : LogMeaning.ofLog senv.self a.log = .epoch) :
    ∃ e ∈ ces, ∃ q ∈ txPublications e.act, a.receipt = chainReceipt e ∧ a.log.publication = q.1 := by
  obtain ⟨r, hr, har⟩ := List.mem_flatMap.1 ha
  obtain ⟨hrec, hlog⟩ := mem_applied har
  obtain ⟨e, he, rfl⟩ := List.mem_map.1 (hrs r hr)
  obtain ⟨l, hl, hll⟩ := List.mem_map.1 hlog
  rw [← hll, l.meaning_log] at hm
  cases l with
  | foreign L hL => cases hm
  | own ev =>
    cases ev <;> try cases hm
    rename_i epoch root listVersion validUntil sourceCutoff publishedAt snapshotId
    let p : Publication := ⟨epoch, root, listVersion, validUntil, sourceCutoff, publishedAt, snapshotId⟩
    have hown : p.event ∈ ownEvents e.out := List.mem_filterMap.2 ⟨_, hl, rfl⟩
    obtain ⟨approvals, hq⟩ := (chainEntry_spec h he).2.published p hown
    exact ⟨e, he, (p, approvals), hq, hrec, by rw [← hll]; exact publication_log p⟩

theorem mem_publications {e : ChainEntry senv} (he : e ∈ ces)
    {q : Publication × List (Address × U64)} (hq : q ∈ txPublications e.act) : q ∈ publications ces :=
  List.mem_flatMap.2 ⟨e, he, hq⟩

/-- The log of a publication is in the receipt of its transaction. -/
theorem applied_of_publication
    (h : (SourceChain.machine senv).Run (.deployed sowner) ces chain)
    {q : Publication × List (Address × U64)} (hq : q ∈ publications ces) :
    ∃ r ∈ receipts ces, r.carries senv.self = true ∧ ∃ a ∈ r.applied,
      LogMeaning.ofLog senv.self a.log = .epoch ∧ a.log.publication = q.1 := by
  obtain ⟨e, he, hqe⟩ := List.mem_flatMap.1 hq
  obtain ⟨l, hl, hown⟩ := List.mem_filterMap.1 ((chainEntry_spec h he).2.emitted q hqe)
  have hlog : l.log = q.1.event.log senv.self := by
    cases l with
    | foreign L hL => cases hown
    | own ev => cases hown; rfl
  have hmem : l.log ∈ (chainReceipt e).logs := List.mem_map_of_mem hl
  have hmean : LogMeaning.ofLog senv.self l.log = .epoch := by rw [hlog, meaning_log]; rfl
  obtain ⟨a, ha, hal, -⟩ := exists_applied hmem
  refine ⟨chainReceipt e, List.mem_map_of_mem he, ?_, a, ha, hal ▸ hmean, ?_⟩
  · exact List.any_eq_true.2 ⟨l.log, hmem, carries_of_meaning (by simp [hmean])⟩
  · rw [hal, hlog, publication_log]

/-- The key epoch that the hub reads for an approving issuer. -/
theorem keyEpochOf_publication {e : ChainEntry senv}
    (hspec : TxSpec e.pre.contract e.post.contract (ownEvents e.out) (txPublications e.act)
      e.act.height e.act.timestamp) {q : Publication × List (Address × U64)}
    (hq : q ∈ txPublications e.act) {a : Address × U64} (ha : a ∈ q.2) :
    keyEpochOf senv.self q.1.epoch q.1.root a.1 (chainReceipt e).logs = a.2 := by
  have hlen := length_filter_issuer (hspec.approved q hq).2.2.1 a.1
  have hwords : keyWords senv.self q.1.epoch q.1.root a.1 (chainReceipt e).logs =
      ((keyedApprovals q.2 a.1).map Prod.snd).map toWord := by
    rw [← hspec.keyed q hq]
    exact keyWords_logs _ _ _
  rw [keyEpochOf, hwords]
  rcases hf : keyedApprovals q.2 a.1 with _ | ⟨b, l⟩
  · -- no key epoch is given, so the issuer has none
    by_contra hne
    have hmem : a ∈ keyedApprovals q.2 a.1 := by
      have hzero : a.2 ≠ 0 := fun h0 => hne (by simp [h0])
      exact List.mem_filter.2 ⟨ha, decide_eq_true ⟨rfl, hzero⟩⟩
    rw [hf] at hmem
    cases hmem
  · rw [hf] at hlen
    have hl : l = [] := List.eq_nil_of_length_eq_zero (by simpa using hlen)
    have hb : b ∈ keyedApprovals q.2 a.1 := by rw [hf]; simp
    obtain ⟨hbq, hb1⟩ := List.mem_filter.1 hb
    simp only [decide_eq_true_eq] at hb1
    have hab : b = a := Latest.eq_of_key_eq (hspec.approved q hq).2.2.1 hbq ha hb1.1
    subst hab hl
    simpa using setWidth_toWord64 b.2

/-- What the hub shows is the publication `q`, with exactly its approvals. -/
structure Displays (asc : ProofmarkASC) (q : Publication × List (Address × U64)) : Prop where
  shows_ : Shows asc q.1
  approved : ∀ i, (asc.epochs asc.latestEpoch).issuerApproved i = true ↔ i ∈ q.2.map Prod.fst
  keyEpoch : ∀ a ∈ q.2, (asc.epochs asc.latestEpoch).issuerKeyEpoch a.1 = a.2

/-- **Source and hub converge.**  Once the receipts of the source chain that carry
    lifecycle events are accepted, in whatever order, the hub denies whom the source
    denies and displays the last publication of the source, of epoch `lastEpoch`. -/
theorem source_hub_convergence {henv : HubEnv} {howner : Address} {hes : List HubEntry}
    {asc : ProofmarkASC} (hchain : (SourceChain.machine senv).Run (.deployed sowner) ces chain)
    (hhub : (ProofmarkASC.machine henv).Run (.deployed howner) hes asc)
    (hconf : asc.sourceContract = senv.self)
    (hall : (accepted henv hes).Perm ((receipts ces).filter (Receipt.carries senv.self))) :
    (∀ x, (asc.subjects x).permanentDenial = chain.contract.sourceDenialActive x) ∧
      asc.latestEpoch = chain.contract.lastEpoch ∧
      match (publications ces).getLast? with
      | none => chain.contract.lastEpoch = 0 ∧ NoEpoch asc
      | some q => q.1.epoch = chain.contract.lastEpoch ∧ Displays asc q := by
  have hinv := chainInv_run hchain
  have hm := (hubInv_run hhub).mirrors
  rw [hconf] at hm
  have hacc (r : Receipt) (hr : r ∈ accepted henv hes) : r ∈ receipts ces :=
    (List.mem_filter.1 (hall.mem_iff.1 hr)).1
  constructor
  · intro x
    -- both sides are the last decision of the source run
    have hheight : ∀ r ∈ accepted henv hes, 1 ≤ r.height := fun r hr => hinv.height r (hacc r hr)
    have hsorted : (receiptEvents senv.self x ((receipts ces).filter (Receipt.carries senv.self))).Pairwise
        fun a b => a.1 < b.1 := pairwise_events (pairwise_applied (hinv.sorted.filter _))
    have hperm : (receiptEvents senv.self x (accepted henv hes)).Perm
        (receiptEvents senv.self x ((receipts ces).filter (Receipt.carries senv.self))) :=
      (hall.flatMap_right Receipt.applied).filterMap _
    have htracks := tracks_delivered (l := receiptEvents senv.self x (accepted henv hes))
      fun m hm => bot_lt_events hheight hm
    have hagree := delivered_agrees hperm hsorted fun m hm => bot_lt_events hheight hm
    have hspec := referenceSpec hsorted fun m hm => bot_lt_events hheight
      (hperm.mem_iff.2 hm)
    rw [hm.subjects x]
    refine hagree.permanentDenial.trans ?_
    rw [hspec.permanentDenial, denialInForce_of_sorted hsorted, receiptEvents_filter,
      decisions_receipts, hinv.denial x, lastDecision]
  · have hbound (q : Publication × List (Address × U64)) (hq : q ∈ publications ces) :
        q.1.epoch ≤ asc.latestEpoch := by
      obtain ⟨r, hr, hcar, a, ha, hmean, hp⟩ := applied_of_publication hchain hq
      have hracc : r ∈ accepted henv hes := hall.mem_iff.2 (List.mem_filter.2 ⟨hr, hcar⟩)
      rw [← hp]
      exact hm.bound a (List.mem_flatMap.2 ⟨r, hracc, ha⟩) hmean
    rcases hlast : (publications ces).getLast? with _ | q
    · have hnil : publications ces = [] := List.getLast?_eq_none_iff.1 hlast
      have hzero : chain.contract.lastEpoch = 0 := by rw [hinv.lastEpoch, hnil]; rfl
      rcases hm.latest with hno | ⟨a, ha, hrec, -⟩
      · exact ⟨by rw [hno.epoch, hzero], hzero, hno⟩
      · obtain ⟨e, he, q, hq, -⟩ := publication_of_applied hchain hacc ha hrec.isEpoch
        have := mem_publications he hq
        rw [hnil] at this
        cases this
    · have hlastEpoch : chain.contract.lastEpoch = q.1.epoch := by
        rw [hinv.lastEpoch, hlast]
        rfl
      have hqmem : q ∈ publications ces := List.mem_of_getLast? hlast
      rcases hm.latest with hno | ⟨a, ha, hrec, hshow⟩
      · -- an accepted publication has a positive epoch
        obtain ⟨e, he, hqe⟩ := List.mem_flatMap.1 hqmem
        have hpos := ((chainEntry_spec hchain he).2.mem_range hqe).1
        have hle := hbound q hqmem
        rw [hno.epoch] at hle
        have : e.pre.contract.lastEpoch < 0 := Std.lt_of_lt_of_le hpos hle
        simp at this
      · obtain ⟨e, he, q', hq', hrecv, hp⟩ := publication_of_applied hchain hacc ha hrec.isEpoch
        have hspec := (chainEntry_spec hchain he).2
        have hepoch : asc.latestEpoch = q'.1.epoch := by rw [hshow.epoch, hp]
        -- it is the last one, whose epoch is the greatest
        have hqq : q' = q := by
          obtain ⟨init, hinit⟩ := List.getLast?_eq_some_iff.1 hlast
          have hmem := mem_publications he hq'
          have hle := hbound q hqmem
          rw [hinit, List.mem_append, List.mem_singleton] at hmem
          rcases hmem with hmem | hmem
          · have hpw := hinv.increasing
            rw [hinit, List.map_append, List.pairwise_append] at hpw
            have hlt : q'.1.epoch < q.1.epoch :=
              hpw.2.2 _ (List.mem_map_of_mem hmem) _ (by simp)
            rw [hepoch] at hle
            exact absurd (Std.lt_of_lt_of_le hlt hle) (BitVec.lt_irrefl _)
          · exact hmem
        subst hqq
        refine ⟨hepoch.trans hlastEpoch.symm, hlastEpoch.symm, hp ▸ hshow, fun i => ?_, fun b hb => ?_⟩
        · rw [hrec.approved i, hrecv, hp, ← (hspec.approved q' hq').2.2.2]
          exact iff_of_eq (congrArg (i ∈ ·) (approvers_logs _ _ _))
        · have happ : (asc.epochs asc.latestEpoch).issuerApproved b.1 = true := by
            rw [hrec.approved, hrecv, hp]
            have hlogs := approvers_logs e.out q'.1.epoch q'.1.root
            rw [(hspec.approved q' hq').2.2.2] at hlogs
            exact hlogs ▸ List.mem_map_of_mem hb
          rw [hrec.keyEpoch b.1 happ, hrecv, hp]
          exact keyEpochOf_publication hspec hq' hb

end

/-! A source run with two epochs and two denials, whose receipts the hub accepts with
the second epoch first. -/

def twoEpochsTxs : List (SourceTx issuerEnv.self) :=
  let eoa : Address → Account := fun _ => .eoa
  [⟨50, 0, 1000, [.call 1 Sender.owner eoa (.setIssuer 3 true),
      .call 1 Sender.owner eoa (.setEpochPublisher 3 true)]⟩,
    ⟨100, 1, 2000, [.call 3 Sender.issuer eoa (.deny 8 1 1)]⟩,
    ⟨101, 0, 3000, [.call 3 Sender.issuer eoa (.publishEpoch 1 77 1 9000 2500 5),
      foreignDenial]⟩,
    ⟨102, 3, 4000, [.call 3 Sender.issuer eoa (.publishEpoch 4 78 2 9500 3500 6),
      .call 3 Sender.issuer eoa (.deny 9 1 1)]⟩]

def twoEpochsRun : List (ChainEntry issuerEnv) :=
  (SourceChain.machine issuerEnv).trace (.deployed 1) twoEpochsTxs

def twoEpochsChain : SourceChain := (SourceChain.machine issuerEnv).final (.deployed 1) twoEpochsTxs

def twoEpochsEnv : HubEnv := ReceiptFixture.env ((receipts twoEpochsRun).map Receipt.logs)

def twoEpochsCalls : List (Msg × ProofmarkASC.Call) :=
  let msg (sender : Address) (h : sender ≠ 0) : Msg := ⟨sender, 0, 5000, h⟩
  (msg 1 Sender.owner, .configureSource 2 80) ::
    ([(2, 3), (3, 2), (2, 1)] : List (U8 × ℕ)).map fun p =>
      (msg 3 Sender.issuer,
        ReceiptFixture.deliver p.1 2 ((receipts twoEpochsRun).getD p.2 ⟨0, 0, []⟩))

def twoEpochsHub : ProofmarkASC := (ProofmarkASC.machine twoEpochsEnv).final (.deployed 1) twoEpochsCalls

theorem source_hub_convergence_two_epochs :
    (∀ x, (twoEpochsHub.subjects x).permanentDenial = twoEpochsChain.contract.sourceDenialActive x) ∧
      twoEpochsHub.latestEpoch = twoEpochsChain.contract.lastEpoch ∧
      match (publications twoEpochsRun).getLast? with
      | none => twoEpochsChain.contract.lastEpoch = 0 ∧ NoEpoch twoEpochsHub
      | some q => q.1.epoch = twoEpochsChain.contract.lastEpoch ∧ Displays twoEpochsHub q :=
  source_hub_convergence ((SourceChain.machine issuerEnv).run_trace (.deployed 1) twoEpochsTxs)
    ((ProofmarkASC.machine twoEpochsEnv).run_trace (.deployed 1) twoEpochsCalls)
    (by decide +kernel) (by decide +kernel)

example : twoEpochsHub.latestEpoch = 4 ∧ (twoEpochsHub.subjects 9).permanentDenial = true ∧
    (twoEpochsHub.subjects 7).permanentDenial = false := by decide +kernel

end Proofmark
