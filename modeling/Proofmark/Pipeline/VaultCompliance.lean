/-
  The compliance states of the vault.

  A blocked case stays blocked until a review clears it, and the outbox holds at most one
  unconfirmed job for a case (`OutboxInv`); a case that a screening or a review blocks has
  a job from then on.
-/
import Proofmark.Pipeline.VaultEffects

namespace Proofmark

open Revert Function

namespace VaultData

variable {env : VaultEnv} {d d' : VaultData}

/-! ## The outbox -/

/-- No case has two unconfirmed jobs. -/
def OutboxInv (d : VaultData) : Prop := ∀ id, (d.unconfirmed id).length ≤ 1

/-- Every case that has a job keeps one. -/
def KeepsJobs (d d' : VaultData) : Prop :=
  ∀ id, (∃ j ∈ d.revocations, j.recordId = id) → ∃ j ∈ d'.revocations, j.recordId = id

theorem queue_ok {r : VaultRecord} {at_ : ℤ} (h : d.queueRevocation r at_ = .ok d') :
    d.unconfirmed r.id ≠ [] ∧ d' = d ∨
    d.unconfirmed r.id = [] ∧ ∃ j : RevocationJob, j.recordId = r.id ∧ j.state = .pending ∧
      j.id = ⟨r.id, at_⟩ ∧ j.transaction = none ∧ d.job j.id = none ∧
      d' = { d with revocations := d.revocations ++ [j] } := by
  unfold queueRevocation at h
  by_cases hu : d.unconfirmed r.id = []
  · rw [if_neg (not_not.2 hu)] at h
    by_cases hj : (d.job ⟨r.id, at_⟩).isSome
    · rw [if_pos hj] at h
      cases h
    · rw [if_neg hj, Except.ok.injEq] at h
      have hn : d.job ⟨r.id, at_⟩ = none := by simpa using hj
      exact .inr ⟨hu, _, rfl, rfl, rfl, rfl, hn, h.symm⟩
  · rw [if_pos hu, Except.ok.injEq] at h
    exact .inl ⟨hu, h.symm⟩

/-- A queued revocation leaves exactly one unconfirmed job for its case. -/
theorem OutboxInv.queue (hi : OutboxInv d) {r : VaultRecord} {at_ : ℤ}
    (h : d.queueRevocation r at_ = .ok d') :
    OutboxInv d' ∧ KeepsJobs d d' ∧ (d'.unconfirmed r.id).length = 1 := by
  rcases queue_ok h with ⟨hu, rfl⟩ | ⟨hu, j, hj, hs, -, -, -, rfl⟩
  · have hpos := List.length_pos_of_ne_nil hu
    exact ⟨hi, fun _ hj => hj, Nat.le_antisymm (hi r.id) hpos⟩
  · have happ (id : String) : ({ d with revocations := d.revocations ++ [j] } : VaultData).unconfirmed id =
        d.unconfirmed id ++ if id = r.id then [j] else [] := by
      rw [unconfirmed, List.filter_append, ← unconfirmed]
      by_cases hid : id = r.id
      · subst hid
        simp [hj, hs]
      · have hne : ¬ r.id = id := fun he => hid he.symm
        simp [hj, hid, hne]
    refine ⟨fun id => ?_, ?_, ?_⟩
    · rw [happ]
      by_cases hid : id = r.id
      · subst hid
        simp [hu]
      · simpa [hid] using hi id
    · rintro id ⟨x, hx, hid⟩
      exact ⟨x, List.mem_append_left _ hx, hid⟩
    · rw [happ, hu]
      simp

/-- A changed job is unconfirmed only if it was before. -/
theorem OutboxInv.setJob (hi : OutboxInv d) {j j' : RevocationJob} {op : VaultOp}
    (hj : d.job j.id = some j) (hs : JobStep j op j') :
    OutboxInv (d.setJob j') ∧ KeepsJobs d (d.setJob j') := by
  obtain ⟨hid, hrecord, hconfirmed⟩ := hs.kept
  obtain ⟨l₁, l₂, hl, -, hf⟩ := Keyed.change_eq hj
  have hset : (d.setJob j').revocations = l₁ ++ j' :: l₂ := by
    rw [VaultData.setJob, hid]
    exact hf fun _ => j'
  refine ⟨fun id => ?_, ?_⟩
  · refine Nat.le_trans ?_ (hi id)
    unfold unconfirmed
    rw [hset, hl, List.filter_append, List.filter_append, List.length_append, List.length_append,
      List.filter_cons, List.filter_cons, hrecord]
    by_cases hc : j.state = .confirmed
    · simp [hc, hconfirmed hc]
    · by_cases hr : j.recordId = id
      · simp only [hr, hc, ne_eq, not_false_eq_true, and_self, decide_true, if_true]
        split <;> simp
      · simp [hr]
  · rintro id ⟨x, hx, hr⟩
    rw [hl] at hx
    rw [hset]
    rcases List.mem_append.1 hx with hx | hx
    · exact ⟨x, List.mem_append_left _ hx, hr⟩
    · rcases List.mem_cons.1 hx with rfl | hx
      · exact ⟨j', by simp, hrecord.trans hr⟩
      · exact ⟨x, List.mem_append_right _ (List.mem_cons_of_mem _ hx), hr⟩

theorem OutboxInv.recover {now : ℤ} {l : List VaultRecord} (hi : OutboxInv d)
    (h : l.foldlM (fun d record => d.recoverRecord now record) d = .ok d') :
    OutboxInv d' ∧ KeepsJobs d d' ∧ d'.records = d.records := by
  induction l generalizing d with
  | nil =>
    rw [List.foldlM_nil, pure_ok] at h
    subst h
    exact ⟨hi, fun _ hj => hj, rfl⟩
  | cons r l ih =>
    rw [List.foldlM_cons, bind_ok] at h
    obtain ⟨d₁, h1, h2⟩ := h
    unfold recoverRecord at h1
    split at h1
    · obtain ⟨hi₁, hk₁, -⟩ := hi.queue h1
      obtain ⟨hi₂, hk₂, hr₂⟩ := ih hi₁ h2
      refine ⟨hi₂, fun id hj => hk₂ id (hk₁ id hj), hr₂.trans ?_⟩
      rcases queue_ok h1 with ⟨-, rfl⟩ | ⟨-, j, -, -, -, -, -, rfl⟩
      · rfl
      · rfl
    · cases h1
      exact ih hi h2

theorem purge_revocations {now : ℤ} {l : List VaultRecord} :
    (l.foldl (fun d record => d.purgeRecord env now record) d).revocations = d.revocations := by
  induction l generalizing d with
  | nil => rfl
  | cons r l ih =>
    rw [List.foldl_cons, ih]
    unfold purgeRecord
    split
    · rfl
    · split
      · rfl
      · rfl

/-- **Each operation keeps the outbox**, and a blocking one leaves exactly one unconfirmed job. -/
theorem OutboxInv.step {op : VaultOp} (hi : OutboxInv d) (h : VaultEffect env d op d') :
    OutboxInv d' ∧ KeepsJobs d d' := by
  have hsame {x : VaultData} (hx : x.revocations = d.revocations) : OutboxInv x ∧ KeepsJobs d x := by
    refine ⟨fun id => ?_, fun id hj => ?_⟩
    · rw [unconfirmed, hx]
      exact hi id
    · rw [hx]
      exact hj
  cases h with
  | same _ hop => exact hsame rfl
  | stored r hn he hc hr => exact hsame rfl
  | updated _ r r' hr hs hb => exact hsame rfl
  | blocked _ r r' at_ _ hr hs hb hstate hq =>
    have hi' : OutboxInv (d.setRecord r') := hi
    exact ⟨(hi'.queue hq).1, (hi'.queue hq).2.1⟩
  | controlled _ r c hr hs hop => exact hsame rfl
  | requested r requestId input at_ hr => exact hsame rfl
  | approved r request operator at_ hr hreq hn ho hf => exact hsame rfl
  | erased r request at_ hr hreq hb => exact hsame rfl
  | purged now => exact hsame purge_revocations
  | recovered now _ hr => exact ⟨(hi.recover hr).1, (hi.recover hr).2.1⟩
  | delivered _ j j' hj hs => exact hi.setJob hj hs

/-! ## Records -/

theorem record_setRecord {r : VaultRecord} {id : String} (h : (d.record r.id).isSome) :
    (d.setRecord r).record id = if id = r.id then some r else d.record id := by
  unfold setRecord record
  split
  · next hid =>
    subst hid
    rw [Keyed.find_change_self fun _ _ => rfl]
    obtain ⟨x, hx⟩ := Option.isSome_iff_exists.1 h
    rw [record] at hx
    rw [hx]
    rfl
  · next hid => exact Keyed.find_change_of_ne (fun _ _ => rfl) hid

theorem record_queue {r : VaultRecord} {at_ : ℤ} {id : String}
    (h : d.queueRevocation r at_ = .ok d') : d'.record id = d.record id := by
  rcases queue_ok h with ⟨-, rfl⟩ | ⟨-, j, -, -, -, -, -, rfl⟩
  · rfl
  · rfl

/-- **What an operation does to one case**: nothing, or a change that it makes, or it
    stores or erases it. -/
inductive CaseEffect (env : VaultEnv) (d : VaultData) (op : VaultOp) (id : String) :
    Option VaultRecord → Option VaultRecord → Prop
  | kept (o : Option VaultRecord) : CaseEffect env d op id o o
  | changed (r r' : VaultRecord) (hid : r.id = id) (hs : RecordStep env d r op r') :
    CaseEffect env d op id (some r) (some r')
  | stored (r : VaultRecord) (hop : op = .put r) (hid : r.id = id) :
    CaseEffect env d op id none (some r)
  | erased (r : VaultRecord) (q : DeletionRequest) (now : ℤ) (hq : d.request id = some q)
      (hb : d.deletionBlockers env r now = [])
      (hop : op = .erase id q.id now ∨ op = .purgeExpired now ∧ q.automatic = true) :
    CaseEffect env d op id (some r) none

/-- Whether `purgeExpired` takes a record. -/
def purges (env : VaultEnv) (d : VaultData) (now : ℤ) (r : VaultRecord) : Bool :=
  (d.request r.id).any (fun q => q.automatic) && decide (d.deletionBlockers env r now = [])

/-- The loop of `purgeExpired` only removes records. -/
theorem purge_records (env : VaultEnv) (d : VaultData) (now : ℤ) (l rs : List VaultRecord)
    (es : List VaultErasure) :
    let p := l.foldl (fun d record => d.purgeRecord env now record)
      { d with records := rs, erasures := es }
    p.records = rs.filter (fun r => !l.any fun x => purges env d now x && decide (x.id = r.id)) ∧
    p.retention = d.retention ∧
    (∀ e, e ∈ p.erasures ↔ e ∈ es ∨ ∃ x ∈ l, purges env d now x = true ∧
      ∃ q, d.request x.id = some q ∧ e = ⟨x.id, now, q.policyRef, q.id⟩) := by
  induction l generalizing rs es with
  | nil => simp
  | cons x l ih =>
    rw [List.foldl_cons]
    have hturn : ({ d with records := rs, erasures := es } : VaultData).purgeRecord env now x =
        if purges env d now x then
          { d with
            records := rs.filter fun r => r.id ≠ x.id
            erasures := es ++ (d.request x.id).toList.map fun q => ⟨x.id, now, q.policyRef, q.id⟩ }
        else { d with records := rs, erasures := es } := by
      have hreq : ({ d with records := rs, erasures := es } : VaultData).request x.id =
          d.request x.id := rfl
      have hblock : ({ d with records := rs, erasures := es } : VaultData).deletionBlockers env x now =
          d.deletionBlockers env x now := rfl
      rw [purgeRecord, hreq, hblock]
      cases hq : d.request x.id with
      | none => simp [purges, hq]
      | some q =>
        by_cases ha : q.automatic
        · by_cases hb : d.deletionBlockers env x now = []
          · simp [purges, hq, ha, hb, eraseApproved]
          · simp [purges, hq, ha, hb]
        · simp [purges, hq, ha]
    rw [hturn]
    by_cases hx : purges env d now x
    · rw [if_pos hx]
      obtain ⟨h1, h2, h3⟩ := ih (rs.filter fun r => r.id ≠ x.id)
        (es ++ (d.request x.id).toList.map fun q => ⟨x.id, now, q.policyRef, q.id⟩)
      refine ⟨?_, h2, fun e => ?_⟩
      · rw [h1, List.filter_filter]
        refine List.filter_congr fun r _ => ?_
        by_cases hr : x.id = r.id
        · simp [hx, hr]
        · have hr' : ¬ r.id = x.id := fun he => hr he.symm
          simp [hr, hr']
      · rw [h3]
        constructor
        · rintro (he | ⟨y, hy, hp, hq⟩)
          · rcases List.mem_append.1 he with he | he
            · exact .inl he
            · obtain ⟨q, hq, rfl⟩ := List.mem_map.1 he
              exact .inr ⟨x, List.mem_cons_self, hx, q, by simpa using hq, rfl⟩
          · exact .inr ⟨y, List.mem_cons_of_mem _ hy, hp, hq⟩
        · rintro (he | ⟨y, hy, hp, q, hq, rfl⟩)
          · exact .inl (List.mem_append_left _ he)
          · rcases List.mem_cons.1 hy with rfl | hy
            · refine .inl (List.mem_append_right _ (List.mem_map.2 ⟨q, ?_, rfl⟩))
              simp [hq]
            · exact .inr ⟨y, hy, hp, q, hq, rfl⟩
    · rw [if_neg hx]
      obtain ⟨h1, h2, h3⟩ := ih rs es
      refine ⟨?_, h2, fun e => ?_⟩
      · rw [h1]
        refine List.filter_congr fun r _ => ?_
        simp [hx]
      · rw [h3]
        simp [hx]

theorem record_purge {now : ℤ} {id : String} :
    (d.records.foldl (fun d record => d.purgeRecord env now record) d).record id =
      if d.records.any fun x => purges env d now x && decide (x.id = id) then none
      else d.record id := by
  have h := (purge_records env d now d.records d.records d.erasures).1
  unfold record
  rw [h]
  refine (@Keyed.find_filter _ _ _ VaultRecord.id _ _ fun k =>
    !d.records.any fun x => purges env d now x && decide (x.id = k)).trans ?_
  cases d.records.any fun x => purges env d now x && decide (x.id = id)
  · rfl
  · rfl

/-- Records have distinct ids. -/
theorem nodup_step {op : VaultOp} (hn : (d.records.map VaultRecord.id).Nodup) (hi : OutboxInv d)
    (h : VaultEffect env d op d') : (d'.records.map VaultRecord.id).Nodup := by
  cases h with
  | stored r hr he hc ht => exact Keyed.nodup_concat hn hr
  | updated _ r r' hr hs hb =>
    rw [setRecord, Keyed.keys_change fun _ _ => rfl]
    exact hn
  | blocked _ r r' at_ _ hr hs hb hstate hq =>
    have hrec : d'.records = (d.setRecord r').records := by
      rcases queue_ok hq with ⟨-, rfl⟩ | ⟨-, j, -, -, -, -, -, rfl⟩
      · rfl
      · rfl
    rw [hrec, setRecord, Keyed.keys_change fun _ _ => rfl]
    exact hn
  | erased r request at_ hr hreq hb => exact hn.sublist (List.filter_sublist.map _)
  | purged now =>
    rw [(purge_records env d now d.records d.records d.erasures).1]
    exact hn.sublist (List.filter_sublist.map _)
  | recovered now _ hr =>
    rw [(hi.recover hr).2.2]
    exact hn
  | _ => exact hn

theorem case_effect {op : VaultOp} (hn : (d.records.map VaultRecord.id).Nodup) (hi : OutboxInv d)
    (h : VaultEffect env d op d') (id : String) :
    CaseEffect env d op id (d.record id) (d'.record id) := by
  cases h with
  | same _ hop => exact .kept _
  | stored r hn he hc hr =>
    have hrec : ({ d with records := d.records ++ [r] } : VaultData).record id =
        if id = r.id then some r else d.record id := Keyed.find_concat hn
    rw [hrec]
    split
    · next hid =>
      subst hid
      rw [hn]
      exact .stored r rfl rfl
    · exact .kept _
  | updated _ r r' hr hs hb =>
    have hid := hs.fixed.1
    rw [record_setRecord (by rw [hid, hr]; rfl), hid]
    split
    · next he =>
      rw [he, hr]
      exact .changed r r' rfl hs
    · exact .kept _
  | blocked _ r r' at_ _ hr hs hb hstate hq =>
    have hid := hs.fixed.1
    rw [record_queue hq, record_setRecord (by rw [hid, hr]; rfl), hid]
    split
    · next he =>
      rw [he, hr]
      exact .changed r r' rfl hs
    · exact .kept _
  | controlled _ r c hr hs hop => exact .kept _
  | requested r requestId input at_ hr => exact .kept _
  | approved r request operator at_ hr hreq hn ho hf => exact .kept _
  | erased r request at_ hr hreq hb =>
    have hrec : (d.eraseApproved r request at_).record id =
        if decide (id ≠ r.id) then d.record id else none :=
      @Keyed.find_filter _ _ _ VaultRecord.id _ _ fun k => decide (k ≠ r.id)
    rw [hrec]
    by_cases hid : id = r.id
    · subst hid
      simp only [ne_eq, not_true_eq_false, decide_false, Bool.false_eq_true, if_false, hr]
      exact .erased r request at_ hreq hb (.inl rfl)
    · simp only [ne_eq, hid, not_false_eq_true, decide_true, if_true]
      exact .kept _
  | purged now =>
    rw [record_purge]
    split
    · next hany =>
      cases hr : d.record id with
      | none => exact .kept _
      | some r =>
        obtain ⟨x, hx, hp⟩ := List.any_eq_true.1 hany
        simp only [purges, Bool.and_eq_true, decide_eq_true_eq, Option.any_eq_true] at hp
        obtain ⟨⟨⟨q, hq, ha⟩, hb⟩, hid⟩ := hp
        have hxr := Keyed.find_of_mem hn hx
        rw [hid] at hxr hq
        have hxr' : d.record id = some x := hxr
        rw [hr, Option.some.injEq] at hxr'
        subst hxr'
        exact .erased r q now hq hb (.inr ⟨rfl, ha⟩)
    · exact .kept _
  | recovered now _ hr =>
    rw [record, record, (hi.recover hr).2.2]
    exact .kept _
  | delivered _ j j' hj hs => exact .kept _

/-! ## Runs -/

/-- The operation blocks the case: an accepted BLOCK screening, or a review that blocks. -/
def Blocks (op : VaultOp) (id : String) : Prop :=
  (∃ event expected, op = .recordRescreen id event expected ∧ event.decision = .block) ∨
  ∃ event revision, op = .decideReview id event revision ∧ event.outcome = .blocked

/-- The operations that issuance and screening make. -/
def FromDelivery (op : VaultOp) : Prop :=
  (∃ r, op = .put r) ∨ (∃ id e, op = .recordMaterialization id e) ∨
  (∃ id e o, op = .recordSourceConfirmation id e o) ∨ ∃ id e x, op = .recordRescreen id e x

theorem Blocks.blocks {op : VaultOp} {id : String} (h : Blocks op id) :
    op.blocks = true ∧ op.repeats = false := by
  rcases h with ⟨event, expected, rfl, hd⟩ | ⟨event, revision, rfl, hd⟩
  · exact ⟨decide_eq_true hd, rfl⟩
  · exact ⟨decide_eq_true hd, rfl⟩

theorem blocked_effect {op : VaultOp} {id : String} (hi : OutboxInv d) (h : VaultEffect env d op d')
    (hop : Blocks op id) :
    (d'.unconfirmed id).length = 1 ∧ ∃ r, d'.record id = some r ∧ r.state = .blocked := by
  obtain ⟨hb', hr'⟩ := hop.blocks
  cases h with
  | blocked _ r r' at_ _ hr hs hb hstate hq =>
    have hid : r.id = id := by
      rcases hop with ⟨event, expected, rfl, -⟩ | ⟨event, revision, rfl, -⟩
      · cases hs
        rfl
      · cases hs
        rfl
    have hid' := hs.fixed.1
    subst hid
    have hi' : OutboxInv (d.setRecord r') := hi
    refine ⟨by rw [← hid']; exact (hi'.queue hq).2.2, r', ?_, hstate⟩
    rw [record_queue hq, record_setRecord (by rw [hid', hr]; rfl), hid', if_pos rfl]
  | same _ hrep =>
    rw [hr'] at hrep
    cases hrep
  | updated _ r r' hr hs hb =>
    rw [hb'] at hb
    cases hb
  | controlled _ r c hr hs hc =>
    rw [VaultOp.blocks_of_retains hc] at hb'
    cases hb'
  | delivered _ j j' hj hs => cases hs <;> cases hb'
  | _ => cases hb'

/-- A review that is accepted was made on the current revision of the case. -/
theorem review_checked {id : String} {event : ReviewEvent} {revision : Bytes32}
    (h : VaultEffect env d (.decideReview id event revision) d') :
    ∃ r, d.record id = some r ∧ revision = d.reviewRevision env r ∧
      (event.outcome = .cleared → d.unconfirmed id = []) := by
  cases h with
  | same _ hop => cases hop
  | updated _ r r' hr hs hb =>
    cases hs with
    | reviewed _ state reviews hc _ => exact ⟨r, hr, rfl, hc⟩
  | blocked _ r r' at_ _ hr hs hb hstate hq =>
    cases hs with
    | reviewed _ state reviews hc _ => exact ⟨r, hr, rfl, hc⟩
  | controlled _ r c hr hs hop => cases hop
  | delivered _ j j' hj hs => cases hs

/-- A blocked case is changed to another state by a review that clears it only. -/
theorem RecordStep.unblocked {op : VaultOp} {r r' : VaultRecord} (h : RecordStep env d r op r')
    (hb : r.state = .blocked) (hb' : r'.state ≠ .blocked) :
    ∃ event, event.outcome = .cleared ∧ op = .decideReview r.id event (d.reviewRevision env r) := by
  cases h with
  | materialized _ _ =>
    refine absurd ?_ hb'
    simp [hb]
  | sourced _ _ _ => exact absurd hb hb'
  | rescreened _ _ _ ht _ => exact absurd hb ht.1
  | reviewed event state reviews hc hbl =>
    refine ⟨event, ?_, rfl⟩
    cases ho : event.outcome with
    | cleared => rfl
    | blocked => exact absurd (hbl ho) hb'

/-- Issuance and screening leave a blocked or rejected case in its state. -/
theorem RecordStep.terminal {op : VaultOp} {r r' : VaultRecord} (h : RecordStep env d r op r')
    (hop : FromDelivery op) (ht : r.state = .blocked ∨ r.state = .rejected) : r'.state = r.state := by
  cases h with
  | materialized _ _ => rcases ht with ht | ht <;> simp [ht]
  | sourced _ _ _ => rfl
  | rescreened _ _ _ hn _ =>
    rcases ht with ht | ht
    · exact absurd ht hn.1
    · exact absurd ht hn.2
  | reviewed event state reviews hc hb =>
    rcases hop with ⟨_, h⟩ | ⟨_, _, h⟩ | ⟨_, _, _, h⟩ | ⟨_, _, _, h⟩ <;> cases h

theorem outboxInv_empty : OutboxInv .empty := fun _ => Nat.zero_le _

theorem outboxInv_run {es : List VaultStep} (h : (machine env).Run .empty es d) : OutboxInv d :=
  h.invariant outboxInv_empty fun _ hi hs => (hi.step (effect_of_step hs)).1

theorem nodup_run {es : List VaultStep} (h : (machine env).Run .empty es d) :
    (d.records.map VaultRecord.id).Nodup := by
  have hrun : (d.records.map VaultRecord.id).Nodup ∧ OutboxInv d :=
    h.invariant (I := fun d => (d.records.map VaultRecord.id).Nodup ∧ OutboxInv d)
      ⟨List.nodup_nil, outboxInv_empty⟩ fun e hi hs =>
        have heff := effect_of_step hs
        ⟨nodup_step hi.1 hi.2 heff, (hi.2.step heff).1⟩
  exact hrun.1

theorem keepsJobs_run {es : List VaultStep} (hi : OutboxInv d) (h : (machine env).Run d es d') :
    KeepsJobs d d' := by
  have hrun : OutboxInv d' ∧ KeepsJobs d d' :=
    h.invariant (I := fun x => OutboxInv x ∧ KeepsJobs d x) ⟨hi, fun _ hj => hj⟩ fun e hi hs =>
      have hstep := hi.1.step (effect_of_step hs)
      ⟨hstep.1, fun id hj => hstep.2 id (hi.2 id hj)⟩
  exact hrun.2

/-- **The compliance states of the vault.**  A case leaves the state blocked by erasure or by a
    review that clears it, made on the current revision and with no unconfirmed job; issuance
    and screening never take a case out of blocked or rejected; and a case that is blocked has
    exactly one unconfirmed job at that moment and some job ever after. -/
theorem vault_compliance_states {es : List VaultStep} (h : (machine env).Run .empty es d) :
    (∀ e ∈ es, ∀ id r, e.pre.record id = some r → r.state = .blocked →
      (e.post.record id = none → (∃ requestId at_, e.act = .erase id requestId at_) ∨
        ∃ now, e.act = .purgeExpired now) ∧
      ∀ r', e.post.record id = some r' → r'.state ≠ .blocked →
        ∃ event, event.outcome = .cleared ∧
          e.act = .decideReview id event (e.pre.reviewRevision env r)) ∧
    (∀ e ∈ es, ∀ id event revision, e.act = .decideReview id event revision →
      ∃ r, e.pre.record id = some r ∧ revision = e.pre.reviewRevision env r ∧
        (event.outcome = .cleared → e.pre.unconfirmed id = [])) ∧
    (∀ e ∈ es, FromDelivery e.act → ∀ id r, e.pre.record id = some r →
      r.state = .blocked ∨ r.state = .rejected →
        ∃ r', e.post.record id = some r' ∧ r'.state = r.state) ∧
    (∀ es₁ e es₂ id, es = es₁ ++ e :: es₂ → Blocks e.act id →
      (e.post.unconfirmed id).length = 1 ∧
      (∃ r, e.post.record id = some r ∧ r.state = .blocked) ∧
      ∃ j ∈ d.revocations, j.recordId = id) ∧
    (∀ id, (d.unconfirmed id).length ≤ 1) := by
  have hstep (e : VaultStep) (he : e ∈ es) :
      (e.pre.records.map VaultRecord.id).Nodup ∧ OutboxInv e.pre ∧
        VaultEffect env e.pre e.act e.post := by
    obtain ⟨es₁, es₂, -, hpre, hs, -⟩ := h.of_mem he
    exact ⟨nodup_run hpre, outboxInv_run hpre, effect_of_step hs⟩
  refine ⟨fun e he id r hr hb => ?_, fun e he id event revision hact => ?_,
    fun e he hop id r hr ht => ?_, fun es₁ e es₂ id hes hop => ?_, outboxInv_run h⟩
  · obtain ⟨hnodup, hi, heff⟩ := hstep e he
    have hcase := case_effect hnodup hi heff id
    rw [hr] at hcase
    refine ⟨fun hn => ?_, fun r' hr' hb' => ?_⟩
    · rw [hn] at hcase
      cases hcase with
      | erased _ q now hq hbl hop =>
        rcases hop with hop | ⟨hop, -⟩
        · exact .inl ⟨_, _, hop⟩
        · exact .inr ⟨_, hop⟩
    · rw [hr'] at hcase
      cases hcase with
      | kept => exact absurd hb hb'
      | changed _ _ hid hs =>
        subst hid
        exact hs.unblocked hb hb'
  · obtain ⟨-, -, heff⟩ := hstep e he
    rw [hact] at heff
    exact review_checked heff
  · obtain ⟨hnodup, hi, heff⟩ := hstep e he
    have hcase := case_effect hnodup hi heff id
    rw [hr] at hcase
    generalize hp : e.post.record id = o at hcase
    cases hcase with
    | kept => exact ⟨r, rfl, rfl⟩
    | changed _ r' hid hs => exact ⟨r', rfl, hs.terminal hop ht⟩
    | erased _ q now hq hbl herase =>
      exfalso
      rcases herase with ha | ⟨ha, -⟩ <;>
        rcases hop with ⟨_, h⟩ | ⟨_, _, h⟩ | ⟨_, _, _, h⟩ | ⟨_, _, _, h⟩ <;>
          rw [ha] at h <;> cases h
  · subst hes
    obtain ⟨hpre, hs, hpost⟩ := h.split
    have hi := outboxInv_run hpre
    have heff := effect_of_step hs
    obtain ⟨hlen, hrec⟩ := blocked_effect hi heff hop
    refine ⟨hlen, hrec, keepsJobs_run (hi.step heff).1 hpost id ?_⟩
    obtain ⟨j, hj⟩ := List.exists_mem_of_length_pos (hlen ▸ Nat.one_pos)
    obtain ⟨hmem, hj⟩ := List.mem_filter.1 hj
    exact ⟨j, hmem, (of_decide_eq_true hj).1⟩

end VaultData

/-! A case that is issued, screened, blocked and cleared after its revocation. -/

def vaultEnv : VaultEnv where
  reviewDigest r jobs _ :=
    BitVec.ofNat 256 (1 + r.reviews.length + 16 * r.rescreens.length + 256 * jobs.length)
  deletionDigest r _ extensions holds jobs :=
    BitVec.ofNat 256 (1 + r.reviews.length + 16 * r.rescreens.length + 256 * jobs.length +
      4096 * extensions.length + 65536 * (holds.filter fun h => h.release.isSome).length)
  idLe a b := a.at_ ≤ b.at_

def vaultCase : VaultRecord where
  id := "case"
  walletAddress := "0x01"
  fullName := "Name"
  content := "{}"
  processingCustomer := none
  retentionPolicy := none
  evidenceHash := "0xab"
  state := .pending
  createdAt := 10
  retentionUntil := 100
  lastScreenedAt := none
  rescreens := []
  reviews := []
  sourceIssuance := none

def vaultJob : RevocationJobId := ⟨"case", 20⟩

def vaultBlocked : List VaultOp :=
  [.put vaultCase, .recordMaterialization "case" "0xab",
    .recordRescreen "case" ⟨20, .block, none, [("list", 1)]⟩ { vaultCase with state := .active },
    .prepareRevocation vaultJob ⟨5, [2], 11155111, 9⟩, .finishRevocation vaultJob 30]

def vaultCleared : List VaultOp :=
  vaultBlocked ++ [.decideReview "case" ⟨40, "op", .cleared, "ref", none⟩ 273]

def vaultRun : List VaultStep := (VaultData.machine vaultEnv).trace .empty vaultCleared

theorem vault_compliance_states_cleared :
    let d := (VaultData.machine vaultEnv).final .empty vaultCleared
    (∀ e ∈ vaultRun, ∀ id r, e.pre.record id = some r → r.state = .blocked →
      (e.post.record id = none → (∃ requestId at_, e.act = .erase id requestId at_) ∨
        ∃ now, e.act = .purgeExpired now) ∧
      ∀ r', e.post.record id = some r' → r'.state ≠ .blocked →
        ∃ event, event.outcome = .cleared ∧
          e.act = .decideReview id event (e.pre.reviewRevision vaultEnv r)) ∧
    (∀ e ∈ vaultRun, ∀ id event revision, e.act = .decideReview id event revision →
      ∃ r, e.pre.record id = some r ∧ revision = e.pre.reviewRevision vaultEnv r ∧
        (event.outcome = .cleared → e.pre.unconfirmed id = [])) ∧
    (∀ e ∈ vaultRun, VaultData.FromDelivery e.act → ∀ id r, e.pre.record id = some r →
      r.state = .blocked ∨ r.state = .rejected →
        ∃ r', e.post.record id = some r' ∧ r'.state = r.state) ∧
    (∀ es₁ e es₂ id, vaultRun = es₁ ++ e :: es₂ → VaultData.Blocks e.act id →
      (e.post.unconfirmed id).length = 1 ∧
      (∃ r, e.post.record id = some r ∧ r.state = .blocked) ∧
      ∃ j ∈ d.revocations, j.recordId = id) ∧
    (∀ id, (d.unconfirmed id).length ≤ 1) :=
  VaultData.vault_compliance_states ((VaultData.machine vaultEnv).run_trace .empty vaultCleared)

example : vaultRun.map (fun e => (e.post.record "case").map (·.state)) =
    [some .pending, some .active, some .blocked, some .blocked, some .blocked, some .active] := by
  decide +kernel

end Proofmark
