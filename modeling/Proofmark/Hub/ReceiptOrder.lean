/-
  The order in which receipts are accepted does not matter.

  A set of source receipts has one source order.  Whatever order the hub accepts them
  in, every subject ends as the fold of its events in source order.
-/
import Proofmark.Hub.ReceiptFixture

namespace Proofmark

open Latest

variable {source subject : Address}

/-! ## Source order of the applied logs -/

theorem coord_lt_of_before {a b : Applied} (h : a.receipt.Before b.receipt) : a.coord < b.coord := by
  rw [Coord.lt_iff]
  rcases h with h | ⟨h1, h2⟩
  exacts [.inl h, .inr ⟨h1, .inl h2⟩]

theorem mem_appliedFrom {r : Receipt} {i : ℕ} {logs : List LogEntry} {a : Applied}
    (h : a ∈ r.appliedFrom i logs) : a.receipt = r ∧ i ≤ a.index ∧ a.log ∈ logs := by
  obtain ⟨p, hp, rfl⟩ := List.mem_map.1 h
  exact ⟨rfl, List.le_snd_of_mem_zipIdx hp, List.fst_mem_of_mem_zipIdx hp⟩

theorem mem_applied {r : Receipt} {a : Applied} (h : a ∈ r.applied) :
    a.receipt = r ∧ a.log ∈ r.logs :=
  ⟨(mem_appliedFrom h).1, (mem_appliedFrom h).2.2⟩

theorem exists_applied {r : Receipt} {L : LogEntry} (h : L ∈ r.logs) :
    ∃ a ∈ r.applied, a.log = L ∧ a.receipt = r := by
  obtain ⟨i, hi, rfl⟩ := List.getElem_of_mem h
  exact ⟨⟨r, i, r.logs[i]⟩, List.mem_map.2 ⟨(r.logs[i], i), by simp [List.mem_zipIdx_iff_getElem?, hi],
    rfl⟩, rfl, rfl⟩

theorem pairwise_appliedFrom (r : Receipt) (i : ℕ) (logs : List LogEntry) :
    (r.appliedFrom i logs).Pairwise fun a b => a.coord < b.coord := by
  induction logs generalizing i with
  | nil => exact List.Pairwise.nil
  | cons L logs ih =>
    rw [Receipt.appliedFrom, List.zipIdx_cons, List.map_cons, ← Receipt.appliedFrom]
    refine List.pairwise_cons.2 ⟨fun a ha => ?_, ih (i + 1)⟩
    obtain ⟨hr, hi, -⟩ := mem_appliedFrom ha
    rw [Coord.lt_iff, Applied.coord, Applied.coord, hr]
    exact .inr ⟨rfl, .inr ⟨rfl, hi⟩⟩

/-- Receipts in source order give their logs in source order. -/
theorem pairwise_applied {rs : List Receipt} (h : rs.Pairwise Receipt.Before) :
    (rs.flatMap Receipt.applied).Pairwise fun a b => a.coord < b.coord := by
  refine List.pairwise_flatMap.2 ⟨fun r _ => pairwise_appliedFrom r 0 r.logs, h.imp ?_⟩
  intro r r' hr a ha b hb
  refine coord_lt_of_before ?_
  rwa [(mem_applied ha).1, (mem_applied hb).1]

theorem mem_events {l : List Applied} {m : Event} (h : m ∈ events source subject l) :
    ∃ a ∈ l, m.1 = a.coord ∧ LogMeaning.ofLog source a.log = .lifecycle subject m.2 := by
  obtain ⟨a, ha, he⟩ := List.mem_filterMap.1 h
  obtain ⟨ev, hev, rfl⟩ := Option.map_eq_some_iff.1 he
  refine ⟨a, ha, rfl, ?_⟩
  rw [LogEntry.lifecycle?] at hev
  split at hev
  · rename_i s ev' hm
    split_ifs at hev with hs
    cases hev
    rw [hm, hs]
  · cases hev

theorem pairwise_events {l : List Applied} (h : l.Pairwise fun a b => a.coord < b.coord) :
    (events source subject l).Pairwise fun a b => a.1 < b.1 := by
  refine List.pairwise_filterMap.2 (h.imp ?_)
  intro a b hab m hm m' hm'
  obtain ⟨_, -, rfl⟩ := Option.map_eq_some_iff.1 hm
  obtain ⟨_, -, rfl⟩ := Option.map_eq_some_iff.1 hm'
  exact hab

theorem bot_lt_events {rs : List Receipt} (h : ∀ r ∈ rs, 1 ≤ r.height) {m : Event}
    (hm : m ∈ events source subject (rs.flatMap Receipt.applied)) : ⊥ < m.1 := by
  obtain ⟨a, ha, hc, -⟩ := mem_events hm
  obtain ⟨r, hr, ha'⟩ := List.mem_flatMap.1 ha
  rw [hc]
  refine Coord.bot_lt_of_height ?_
  rw [Applied.coord, (mem_applied ha').1]
  exact h r hr

/-! ## Independence -/

/-- The events of a subject in the receipts, in the order of the receipts. -/
def receiptEvents (source subject : Address) (rs : List Receipt) : List Event :=
  events source subject (rs.flatMap Receipt.applied)

/-- **Receipt-order independence**: when the accepted receipts are those of `receipts`,
    in whatever order, every subject is the fold of its events in source order. -/
theorem receipt_order_independence {env : HubEnv} {owner : Address} {es : List HubEntry}
    {asc : ProofmarkASC} {receipts : List Receipt}
    (hrun : (ProofmarkASC.machine env).Run (.deployed owner) es asc)
    (hacc : (accepted env es).Perm receipts) (hord : receipts.Pairwise Receipt.Before)
    (hheight : ∀ r ∈ receipts, 1 ≤ r.height) (subject : Address) :
    Agrees (asc.subjects subject) (reference (receiptEvents asc.sourceContract subject receipts)) := by
  have hinv := hubInv_run hrun
  have hperm : (receiptEvents asc.sourceContract subject (accepted env es)).Perm
      (receiptEvents asc.sourceContract subject receipts) :=
    (hacc.flatMap_right Receipt.applied).filterMap _
  rw [hinv.mirrors.subjects subject]
  refine delivered_agrees hperm (pairwise_events (pairwise_applied hord)) fun m hm => ?_
  exact bot_lt_events (fun r hr => hheight r (hacc.mem_iff.1 hr)) hm

/-- An issuance, then a denial beside a foreign log, then its correction with a new
    issuance, in source order. -/
def lateDenialReceipts : List Receipt :=
  let attrs := MarkAttrs.pack 1 3 1 410 1 1000 2000 0
  [⟨100, 1, [(SourceEvent.markIssued 7 attrs 9 11 12).log 80]⟩,
    ⟨101, 0, [(SourceEvent.sanctionDenied 7 1 1).log 81, (SourceEvent.sanctionDenied 7 1 1).log 80]⟩,
    ⟨102, 3, [(SourceEvent.sanctionDenialCorrected 7 1 1 5 3 4).log 80,
      (SourceEvent.markIssued 7 attrs 9 13 14).log 80]⟩]

/-- The correction is delivered first and the denial last. -/
def lateDenialCalls : List (Msg × ProofmarkASC.Call) :=
  let msg (sender : Address) (h : sender ≠ 0) : Msg := ⟨sender, 0, 5000, h⟩
  (msg 1 Sender.owner, .configureSource 2 80) ::
    ([(5, 2), (0, 0), (2, 1)] : List (U8 × ℕ)).map fun p =>
      (msg 3 Sender.issuer, ReceiptFixture.deliver p.1 2 (lateDenialReceipts.getD p.2 ⟨0, 0, []⟩))

def lateDenialEnv : HubEnv := ReceiptFixture.env (lateDenialReceipts.map Receipt.logs)

def lateDenialHub : ProofmarkASC :=
  (ProofmarkASC.machine lateDenialEnv).final (.deployed 1) lateDenialCalls

theorem receipt_order_independence_late_denial :
    Agrees (lateDenialHub.subjects 7) (reference (receiptEvents 80 7 lateDenialReceipts)) := by
  have h : Agrees _ (reference (receiptEvents _ 7 lateDenialReceipts)) := receipt_order_independence
    ((ProofmarkASC.machine lateDenialEnv).run_trace (.deployed 1) lateDenialCalls)
    (by decide +kernel) (by decide +kernel) (by decide +kernel) 7
  have hsrc : lateDenialHub.sourceContract = 80 := by decide +kernel
  rwa [← lateDenialHub, hsrc] at h

end Proofmark
