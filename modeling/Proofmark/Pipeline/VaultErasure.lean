/-
  The erasure of vault records.

  `Erasable` is the rule, as one reads it off the policy; `blockers_nil` says that it is
  what `deletionBlockers` computes.  `ErasureInv` keeps the retention controls and the
  tombstones well formed along a run, and ties every request and approval to the
  operation that made it.
-/
import Proofmark.Pipeline.VaultCompliance

namespace Proofmark

open Revert Function

/-- The minimum retention is the latest extension. -/
structure RetentionControls.WellFormed (c : RetentionControls) : Prop where
  none_ : c.minimumUntil = none → c.extensions = []
  some_ : ∀ u, c.minimumUntil = some u → safeInteger u 0 ∧ (∃ x ∈ c.extensions, x.until_ = u) ∧
    ∀ x ∈ c.extensions, x.until_ ≤ u

theorem ControlsStep.wellFormed {r : VaultRecord} {c c' : RetentionControls} (hw : c.WellFormed)
    (hs : VaultData.ControlsStep r c c') : c'.WellFormed := by
  cases hs with
  | held holds => exact ⟨hw.none_, hw.some_⟩
  | extended x hx hl =>
    refine ⟨fun h => (by cases h), fun u hu => ?_⟩
    cases hu
    refine ⟨hx, ⟨x, by simp, rfl⟩, fun y hy => ?_⟩
    rcases List.mem_append.1 hy with hy | hy
    · -- an earlier extension ends before the new one
      cases hm : c.minimumUntil with
      | none =>
        rw [hw.none_ hm] at hy
        cases hy
      | some u =>
        have hle := (hw.some_ u hm).2.2 y hy
        rw [hm] at hl
        simp only [Option.getD_some] at hl
        omega
    · rw [List.mem_singleton.1 hy]

namespace VaultData

variable {env : VaultEnv} {d d' : VaultData}

/-- **The erasure rule**, for a record at a time: its current request was approved by another
    operator over the current fingerprint, its retention and every extension have passed, its
    case is closed, nothing holds it and its revocations are confirmed. -/
structure Erasable (env : VaultEnv) (d : VaultData) (r : VaultRecord) (now : ℤ) : Prop where
  approved : ∃ q a, d.request r.id = some q ∧ q.approval = some a ∧ a.operator ≠ q.operator ∧
    q.fingerprint = d.deletionFingerprint env r ∧ q.requestedAt ≤ a.at_ ∧ a.at_ ≤ now
  retention : r.retentionUntil ≤ now ∧ ∀ x ∈ (d.controls r.id).extensions, x.until_ ≤ now
  state : r.state = .active ∨ r.state = .blocked ∨ r.state = .rejected
  holds : ∀ hold ∈ (d.controls r.id).holds, hold.release.isSome
  jobs : ∀ j ∈ d.revocations, j.recordId = r.id → j.state = .confirmed
  reconciled : r.state = .blocked → ∃ j ∈ d.revocations, j.recordId = r.id ∧ j.state = .confirmed

/-! ## Controls -/

theorem controls_setControls {id id' : String} {c : RetentionControls} :
    (d.setControls id c).controls id' = if id' = id then c else d.controls id' := by
  unfold setControls controls
  split
  · next h => simp [h]
  · next h => simp [update_of_ne h]

theorem controls_minimumUntil (id : String) :
    (d.retention id).bind RetentionControls.minimumUntil = (d.controls id).minimumUntil := by
  unfold controls
  cases d.retention id <;> rfl

/-! ## The rule that the blockers compute -/

theorem guard_nil {p : Prop} [Decidable p] {b : DeletionBlocker} :
    (if p then [b] else []) = [] ↔ ¬ p := by
  by_cases h : p <;> simp [h]

theorem safetyBlockers_nil {r : VaultRecord} (now : ℤ) (hw : (d.controls r.id).WellFormed)
    (hc : safeInteger r.createdAt 0) (hr : safeInteger r.retentionUntil r.createdAt) :
    d.safetyBlockers r now = [] ↔
      (r.retentionUntil ≤ now ∧ ∀ x ∈ (d.controls r.id).extensions, x.until_ ≤ now) ∧
      (r.state = .active ∨ r.state = .blocked ∨ r.state = .rejected) ∧
      (∀ hold ∈ (d.controls r.id).holds, hold.release.isSome) ∧
      (∀ j ∈ d.revocations, j.recordId = r.id → j.state = .confirmed) ∧
      (r.state = .blocked → ∃ j ∈ d.revocations, j.recordId = r.id ∧ j.state = .confirmed) := by
  have hdeadline : safeInteger (d.retentionDeadline r) r.createdAt ∧
      (d.retentionDeadline r ≤ now ↔
        r.retentionUntil ≤ now ∧ ∀ x ∈ (d.controls r.id).extensions, x.until_ ≤ now) := by
    obtain ⟨hr1, hr2⟩ := hr
    obtain ⟨-, hc2⟩ := hc
    rw [retentionDeadline, controls_minimumUntil]
    cases hm : (d.controls r.id).minimumUntil with
    | none =>
      have hmax : max r.retentionUntil 0 = r.retentionUntil := by omega
      simp only [Option.getD_none, hmax, hw.none_ hm, List.not_mem_nil, false_implies,
        implies_true, and_true]
      exact ⟨hr1, hr2⟩
    | some u =>
      obtain ⟨hu, ⟨x, hx, hxu⟩, hall⟩ := hw.some_ u hm
      simp only [Option.getD_some]
      refine ⟨⟨?_, by omega⟩, fun h => ⟨by omega, fun y hy => ?_⟩, fun h => ?_⟩
      · rcases le_total r.retentionUntil u with hle | hle
        · rw [max_eq_right hle]
          exact hu.1
        · rw [max_eq_left hle]
          exact hr1
      · have := hall y hy
        omega
      · have := h.2 x hx
        omega
  have hnow : d.retentionDeadline r ≤ now → r.createdAt ≤ now := fun h =>
    le_trans hdeadline.1.2 h
  rw [← hdeadline.2]
  have hvalid : ¬ (¬ safeInteger r.retentionUntil r.createdAt ∨
      ¬ safeInteger (d.retentionDeadline r) r.createdAt ∨ ¬ safeInteger r.createdAt 0) := by
    rintro (h | h | h)
    · exact h hr
    · exact h hdeadline.1
    · exact h hc
  simp only [safetyBlockers, if_neg hvalid, List.append_eq_nil_iff, guard_nil, not_lt]
  constructor
  · rintro ⟨⟨⟨⟨⟨⟨h1, -⟩, h2⟩, h3⟩, h4⟩, h5⟩, h6⟩
    refine ⟨h1, ?_, fun hold hm => ?_, fun j hj hid => ?_, fun hb => ?_⟩
    · cases hs : r.state with
      | pending => exact absurd hs h3
      | review => exact absurd hs h4
      | active => exact .inl rfl
      | blocked => exact .inr (.inl rfl)
      | rejected => exact .inr (.inr rfl)
    · rw [Option.isSome_iff_ne_none]
      exact fun hn => h2 (List.any_eq_true.2 ⟨hold, hm, by simpa using hn⟩)
    · by_contra hne
      refine h5 (List.any_eq_true.2 ⟨j, List.mem_filter.2 ⟨hj, ?_⟩, ?_⟩)
      · simpa using hid
      · simpa using hne
    · by_contra hn
      refine h6 ⟨hb, fun hany => hn ?_⟩
      obtain ⟨j, hj, hjs⟩ := List.any_eq_true.1 hany
      obtain ⟨hj, hid⟩ := List.mem_filter.1 hj
      exact ⟨j, hj, of_decide_eq_true hid, of_decide_eq_true hjs⟩
  · rintro ⟨h1, h2, h3, h4, h5⟩
    refine ⟨⟨⟨⟨⟨⟨h1, hnow h1⟩, fun hany => ?_⟩, ?_⟩, ?_⟩, fun hany => ?_⟩, ?_⟩
    · obtain ⟨hold, hm, hn⟩ := List.any_eq_true.1 hany
      have := h3 hold hm
      simp only [Option.isNone_iff_eq_none] at hn
      rw [hn] at this
      cases this
    · rintro hp
      rw [hp] at h2
      simp at h2
    · rintro hp
      rw [hp] at h2
      simp at h2
    · obtain ⟨j, hj, hjs⟩ := List.any_eq_true.1 hany
      obtain ⟨hj, hid⟩ := List.mem_filter.1 hj
      exact of_decide_eq_true hjs (h4 j hj (of_decide_eq_true hid))
    · rintro ⟨hb, hn⟩
      obtain ⟨j, hj, hid, hjs⟩ := h5 hb
      exact hn (List.any_eq_true.2 ⟨j, List.mem_filter.2 ⟨hj, by simpa using hid⟩, by simpa using hjs⟩)

/-- **The blockers compute the rule.** -/
theorem blockers_nil {r : VaultRecord} {now : ℤ} (hw : (d.controls r.id).WellFormed)
    (hc : safeInteger r.createdAt 0) (hr : safeInteger r.retentionUntil r.createdAt)
    (hq : ∀ q ∈ (d.controls r.id).requests, ∀ a, q.approval = some a → a.operator ≠ q.operator) :
    d.deletionBlockers env r now = [] ↔ Erasable env d r now := by
  have hsafe := safetyBlockers_nil now hw hc hr
  unfold deletionBlockers
  simp only [List.append_eq_nil_iff, guard_nil, hsafe]
  constructor
  · rintro ⟨⟨⟨hs, ha⟩, hf⟩, ht⟩
    obtain ⟨h1, h2, h3, h4, h5⟩ := hs
    cases hreq : d.request r.id with
    | none => simp [hreq] at ha
    | some q =>
      cases hap : q.approval with
      | none => simp [hreq, hap] at ha
      | some a =>
        simp only [hreq, hap, Option.any_some, Option.bind_some, decide_eq_true_eq, not_not,
          not_or, not_lt, ne_eq] at hf ht
        exact ⟨⟨q, a, hreq, hap, hq q (List.mem_of_getLast? hreq) a hap, hf, ht.2, ht.1⟩, h1, h2, h3,
          h4, h5⟩
  · rintro ⟨⟨q, a, hreq, hap, -, hf, ht, ht'⟩, h1, h2, h3, h4, h5⟩
    refine ⟨⟨⟨⟨h1, h2, h3, h4, h5⟩, ?_⟩, ?_⟩, ?_⟩
    · simp [hreq, hap]
    · simp [hreq, hf]
    · simp only [hreq, hap, Option.any_some, Option.bind_some, decide_eq_true_eq]
      omega

/-! ## Runs -/

/-- The history has the request, made on the case with the fingerprint it holds. -/
def Requested (env : VaultEnv) (es : List VaultStep) (id : String) (q : DeletionRequest) : Prop :=
  ∃ e ∈ es, ∃ input r, e.act = .requestDeletion id q.id input q.requestedAt ∧
    input.operator = q.operator ∧ input.automatic = q.automatic ∧ e.pre.record id = some r ∧
    q.fingerprint = e.pre.deletionFingerprint env r

/-- The history has the approval, by another operator and on the same fingerprint. -/
def ApprovedBy (env : VaultEnv) (es : List VaultStep) (id : String) (q : DeletionRequest)
    (a : DeletionApproval) : Prop :=
  ∃ e ∈ es, ∃ r, e.act = .approveDeletion id q.id a.operator a.at_ ∧ a.operator ≠ q.operator ∧
    e.pre.record id = some r ∧ e.pre.request id = some { q with approval := none } ∧
    q.fingerprint = e.pre.deletionFingerprint env r

structure ErasureInv (env : VaultEnv) (es : List VaultStep) (d : VaultData) : Prop where
  times : ∀ r ∈ d.records, safeInteger r.createdAt 0 ∧ safeInteger r.retentionUntil r.createdAt
  erasures : ∀ x ∈ d.erasures, d.record x.recordId = none
  controls : ∀ id, (d.controls id).WellFormed
  requested : ∀ id, ∀ q ∈ (d.controls id).requests, Requested env es id q
  approved : ∀ id, ∀ q ∈ (d.controls id).requests, ∀ a, q.approval = some a → ApprovedBy env es id q a

section
variable {es : List VaultStep} {e : VaultStep}

theorem Requested.concat {id : String} {q : DeletionRequest} (h : Requested env es id q)
    (e : VaultStep) : Requested env (es ++ [e]) id q := by
  obtain ⟨x, hx, hr⟩ := h
  exact ⟨x, List.mem_append_left _ hx, hr⟩

theorem ApprovedBy.concat {id : String} {q : DeletionRequest} {a : DeletionApproval}
    (h : ApprovedBy env es id q a) (e : VaultStep) : ApprovedBy env (es ++ [e]) id q a := by
  obtain ⟨x, hx, hr⟩ := h
  exact ⟨x, List.mem_append_left _ hx, hr⟩

/-- Operations that leave the controls as they are. -/
theorem ErasureInv.frame (hi : ErasureInv env es d) (e : VaultStep)
    (ht : ∀ r ∈ d'.records, safeInteger r.createdAt 0 ∧ safeInteger r.retentionUntil r.createdAt)
    (he : ∀ x ∈ d'.erasures, d'.record x.recordId = none) (hr : d'.retention = d.retention) :
    ErasureInv env (es ++ [e]) d' := by
  have hc (id : String) : d'.controls id = d.controls id := by rw [VaultData.controls, hr]; rfl
  refine ⟨ht, he, fun id => ?_, fun id q hq => ?_, fun id q hq a ha => ?_⟩
  · rw [hc]
    exact hi.controls id
  · rw [hc] at hq
    exact (hi.requested id q hq).concat e
  · rw [hc] at hq
    exact (hi.approved id q hq a ha).concat e

/-- Operations that set the controls of one record. -/
theorem ErasureInv.setControls (hi : ErasureInv env es d) (e : VaultStep) {id : String}
    {c : RetentionControls} (hw : c.WellFormed)
    (hq : ∀ q ∈ c.requests, q ∈ (d.controls id).requests ∨ Requested env (es ++ [e]) id q ∧
      ∀ a, q.approval = some a → ApprovedBy env (es ++ [e]) id q a) :
    ErasureInv env (es ++ [e]) (d.setControls id c) := by
  refine ⟨hi.times, hi.erasures, fun id' => ?_, fun id' q hm => ?_, fun id' q hm a ha => ?_⟩
  · rw [controls_setControls]
    split
    · exact hw
    · exact hi.controls id'
  · rw [controls_setControls] at hm
    split at hm
    · next hid =>
      subst hid
      rcases hq q hm with hold | hnew
      · exact (hi.requested _ q hold).concat e
      · exact hnew.1
    · exact (hi.requested id' q hm).concat e
  · rw [controls_setControls] at hm
    split at hm
    · next hid =>
      subst hid
      rcases hq q hm with hold | hnew
      · exact (hi.approved _ q hold a ha).concat e
      · exact hnew.2 a ha
    · exact (hi.approved id' q hm a ha).concat e

/-- A change of a record that keeps its identity and its retention. -/
theorem ErasureInv.setRecord (hi : ErasureInv env es d) {r r' : VaultRecord} {op : VaultOp}
    (hr : d.record r.id = some r) (hs : RecordStep env d r op r') :
    (∀ x ∈ (d.setRecord r').records,
      safeInteger x.createdAt 0 ∧ safeInteger x.retentionUntil x.createdAt) ∧
    ∀ x ∈ (d.setRecord r').erasures, (d.setRecord r').record x.recordId = none := by
  obtain ⟨hid, hc, hu⟩ := hs.fixed
  refine ⟨fun x hx => ?_, fun x hx => ?_⟩
  · rcases Keyed.mem_change hx with hx | ⟨y, -, -, rfl⟩
    · exact hi.times x hx
    · rw [hc, hu]
      exact hi.times r (Keyed.mem_of_find hr).1
  · have hnone := hi.erasures x hx
    rw [record_setRecord (by rw [hid, hr]; rfl), if_neg ?_]
    · exact hnone
    · intro hxr
      rw [hxr, hid, hr] at hnone
      cases hnone

theorem queue_frame {r : VaultRecord} {at_ : ℤ} (h : d.queueRevocation r at_ = .ok d') :
    d'.records = d.records ∧ d'.erasures = d.erasures ∧ d'.retention = d.retention := by
  rcases queue_ok h with ⟨-, rfl⟩ | ⟨-, j, -, -, -, -, -, rfl⟩
  · exact ⟨rfl, rfl, rfl⟩
  · exact ⟨rfl, rfl, rfl⟩

theorem recover_frame {now : ℤ} {l : List VaultRecord}
    (h : l.foldlM (fun d record => d.recoverRecord now record) d = .ok d') :
    d'.records = d.records ∧ d'.erasures = d.erasures ∧ d'.retention = d.retention := by
  induction l generalizing d with
  | nil =>
    rw [List.foldlM_nil, pure_ok] at h
    subst h
    exact ⟨rfl, rfl, rfl⟩
  | cons r l ih =>
    rw [List.foldlM_cons, bind_ok] at h
    obtain ⟨d₁, h1, h2⟩ := h
    obtain ⟨i1, i2, i3⟩ := ih h2
    unfold recoverRecord at h1
    split at h1
    · obtain ⟨j1, j2, j3⟩ := queue_frame h1
      exact ⟨i1.trans j1, i2.trans j2, i3.trans j3⟩
    · cases h1
      exact ⟨i1, i2, i3⟩

/-- **Each operation keeps the invariant.** -/
theorem ErasureInv.step (hi : ErasureInv env es e.pre) (hstep : (machine env).IsStep e) :
    ErasureInv env (es ++ [e]) e.post := by
  have heff := effect_of_step hstep
  clear hstep
  obtain ⟨d, op, u, d'⟩ := e
  dsimp only at hi heff ⊢
  cases heff with
  | same _ hop => exact hi.frame _ hi.times hi.erasures rfl
  | stored r hn he hc hr =>
    refine hi.frame _ (fun x hx => ?_) (fun x hx => ?_) rfl
    · rcases List.mem_append.1 hx with hx | hx
      · exact hi.times x hx
      · rw [List.mem_singleton.1 hx]
        exact ⟨hc, hr⟩
    · refine (Keyed.find_concat hn).trans ?_
      rw [if_neg (he x hx)]
      exact hi.erasures x hx
  | updated _ r r' hr hs hb =>
    obtain ⟨ht, he⟩ := hi.setRecord hr hs
    exact hi.frame _ ht he rfl
  | blocked _ r r' at_ _ hr hs hb hstate hq =>
    obtain ⟨ht, he⟩ := hi.setRecord hr hs
    obtain ⟨h1, h2, h3⟩ := queue_frame hq
    refine hi.frame _ (fun x hx => ht x (h1 ▸ hx)) (fun x hx => ?_) h3
    rw [VaultData.record, h1]
    exact he x (h2 ▸ hx)
  | controlled _ r c hr hs hop =>
    refine hi.setControls _ (ControlsStep.wellFormed (hi.controls r.id) hs) fun q hq => .inl ?_
    cases hs with
    | extended x _ _ => exact hq
    | held holds => exact hq
  | requested r requestId input at_ hr =>
    refine hi.setControls _ ⟨(hi.controls r.id).none_, (hi.controls r.id).some_⟩ fun q hq => ?_
    rcases List.mem_append.1 hq with hq | hq
    · exact .inl hq
    · rw [List.mem_singleton.1 hq]
      refine .inr ⟨⟨_, List.mem_append_right _ (List.mem_singleton.2 rfl), input, r, rfl, rfl, rfl,
        hr, rfl⟩, fun a ha => ?_⟩
      cases ha
  | approved r request operator at_ hr hreq hn ho hf =>
    have hmem := List.mem_of_getLast? hreq
    have hrec := hi.requested r.id request hmem
    refine hi.setControls _ ⟨(hi.controls r.id).none_, (hi.controls r.id).some_⟩ fun q hq => ?_
    rcases List.mem_append.1 hq with hq | hq
    · exact .inl ((List.dropLast_sublist _).subset hq)
    · rw [List.mem_singleton.1 hq]
      refine .inr ⟨Requested.concat hrec _, fun a ha => ?_⟩
      cases ha
      refine ⟨_, List.mem_append_right _ (List.mem_singleton.2 rfl), r, rfl, ho, hr, ?_, hf⟩
      rw [hreq]
      obtain ⟨_, _, _, _, _, _, _, _, approval⟩ := request
      dsimp only at hn ⊢
      rw [hn]
  | erased r request at_ hr hreq hb =>
    have hrec (id : String) : (d.eraseApproved r request at_).record id =
        if decide (id ≠ r.id) then d.record id else none :=
      @Keyed.find_filter _ _ _ VaultRecord.id _ _ fun k => decide (k ≠ r.id)
    refine hi.frame _ (fun x hx => hi.times x (List.mem_filter.1 hx).1) (fun x hx => ?_) rfl
    rw [hrec]
    rcases List.mem_append.1 hx with hx | hx
    · rw [hi.erasures x hx, ite_self]
    · rw [List.mem_singleton.1 hx]
      simp
  | purged now =>
    obtain ⟨h1, h2, h3⟩ := purge_records env d now d.records d.records d.erasures
    refine hi.frame _ (fun x hx => ?_) (fun x hx => ?_) h2
    · rw [h1] at hx
      exact hi.times x (List.mem_filter.1 hx).1
    · rw [record_purge]
      rcases (h3 x).1 hx with hx | ⟨y, hy, hp, q, hq, rfl⟩
      · rw [hi.erasures x hx, ite_self]
      · rw [if_pos (List.any_eq_true.2 ⟨y, hy, by simp [hp]⟩)]
  | recovered now _ hr =>
    obtain ⟨h1, h2, h3⟩ := recover_frame hr
    refine hi.frame _ (fun x hx => hi.times x (h1 ▸ hx)) (fun x hx => ?_) h3
    rw [VaultData.record, h1]
    exact hi.erasures x (h2 ▸ hx)
  | delivered _ j j' hj hs => exact hi.frame _ hi.times hi.erasures rfl

theorem erasureInv_run (h : (machine env).Run .empty es d) : ErasureInv env es d := by
  refine h.history (H := fun es d => ErasureInv env es d) ?_ fun es e _ hi hs => hi.step hs
  refine ⟨fun r hr => (by cases hr), fun x hx => (by cases hx), fun id => ?_, fun id q hq => ?_,
    fun id q hq => ?_⟩
  · exact ⟨fun _ => rfl, fun u hu => (by cases hu)⟩
  · cases hq
  · cases hq

/-- The rule decides, in every reached state. -/
theorem ErasureInv.erasable (hi : ErasureInv env es d) {r : VaultRecord} {now : ℤ}
    (hr : d.record r.id = some r) : d.deletionBlockers env r now = [] ↔ Erasable env d r now := by
  obtain ⟨hc, ht⟩ := hi.times r (Keyed.mem_of_find hr).1
  refine blockers_nil (hi.controls r.id) hc ht fun q hq a ha => ?_
  obtain ⟨_, _, _, _, ho, _⟩ := hi.approved r.id q hq a ha
  exact ho

/-- Tombstones stay. -/
theorem erasures_step {op : VaultOp} (h : VaultEffect env d op d') :
    ∀ x ∈ d.erasures, x ∈ d'.erasures := by
  intro x hx
  cases h with
  | blocked _ r r' at_ _ hr hs hb hstate hq =>
    rw [(queue_frame hq).2.1]
    exact hx
  | erased r request at_ hr hreq hb => exact List.mem_append_left _ hx
  | purged now => exact ((purge_records env d now d.records d.records d.erasures).2.2 x).2 (.inl hx)
  | recovered now _ hr =>
    rw [(recover_frame hr).2.1]
    exact hx
  | _ => exact hx

/-- An erased case leaves a tombstone. -/
theorem tombstone_of_erased {op : VaultOp} {id : String} {r : VaultRecord}
    (hn : (d.records.map VaultRecord.id).Nodup) (hi : OutboxInv d) (h : VaultEffect env d op d')
    (hr : d.record id = some r) (hr' : d'.record id = none) :
    ∃ x ∈ d'.erasures, x.recordId = id := by
  have hcase := case_effect hn hi h id
  rw [hr, hr'] at hcase
  cases hcase with
  | erased _ q now hq hb hop =>
    have hid := record_id hr
    rcases hop with hop | ⟨hop, ha⟩
    · cases h with
      | same _ _ =>
        rw [hr] at hr'
        cases hr'
      | erased x request at_ hx hreq hbl =>
        simp only [VaultOp.erase.injEq] at hop
        exact ⟨_, List.mem_append_right _ (List.mem_singleton.2 rfl), hop.1⟩
      | updated _ x x' hx hs hb =>
        subst hop
        cases hs
      | blocked _ x x' _ _ hx hs hb hstate hq =>
        subst hop
        cases hs
      | controlled _ x c hx hs _ =>
        have hr'' : d.record id = none := hr'
        rw [hr] at hr''
        cases hr''
      | delivered _ j j' hj hs =>
        have hr'' : d.record id = none := hr'
        rw [hr] at hr''
        cases hr''
      | _ => cases hop
    · subst hop
      cases h with
      | same _ hop => cases hop
      | purged _ =>
        refine ⟨⟨id, now, q.policyRef, q.id⟩, ?_, rfl⟩
        refine ((purge_records env d now d.records d.records d.erasures).2.2 _).2
          (.inr ⟨r, (Keyed.mem_of_find hr).1, ?_, q, by rw [hid, hq], by rw [hid]⟩)
        simp [purges, hid, hq, ha, hb]
      | updated _ x x' hx hs hb => cases hs
      | blocked _ x x' _ _ hx hs hb hstate hq => cases hs
      | controlled _ x c hx hs hop => cases hop
      | delivered _ j j' hj hs => cases hs

theorem erasures_run (h : (machine env).Run d es d') : ∀ x ∈ d.erasures, x ∈ d'.erasures :=
  h.relation (R := fun d d' => ∀ x ∈ d.erasures, x ∈ d'.erasures) (fun _ _ hx => hx)
    (fun _ _ _ h1 h2 x hx => h2 x (h1 x hx)) fun _ hs => erasures_step (effect_of_step hs)

/-- `put` refuses an id with a tombstone. -/
theorem put_erased {r : VaultRecord} (h : ∃ x ∈ d.erasures, x.recordId = r.id) (d' : VaultData) :
    d.put r ≠ .ok d' := by
  obtain ⟨x, hx, hid⟩ := h
  intro hput
  simp only [put, bind_ok, revertIf_ok] at hput
  obtain ⟨-, -, -, he, -⟩ := hput
  exact he (List.any_eq_true.2 ⟨x, hx, by simpa using hid⟩)

/-- **Vault erasure is safe.**  A record is erased only when the rule holds for it at that
    moment, with a request and an approval by two operators in the history, and is never stored
    again; and the purge erases a record exactly when the rule holds for it and its current
    request is automatic. -/
theorem vault_erasure_safety (h : (machine env).Run .empty es d) :
    (∀ es₁ e es₂ id r, es = es₁ ++ e :: es₂ → e.pre.record id = some r → e.post.record id = none →
      (∃ q a now, (e.act = .erase id q.id now ∨ e.act = .purgeExpired now) ∧
        e.pre.request id = some q ∧ q.approval = some a ∧ Erasable env e.pre r now ∧
        Requested env es₁ id q ∧ ApprovedBy env es₁ id q a) ∧
      d.record id = none ∧ ∀ r' d', r'.id = id → d.put r' ≠ .ok d') ∧
    (∀ e ∈ es, ∀ now, e.act = .purgeExpired now → ∀ id r, e.pre.record id = some r →
      (e.post.record id = none ↔
        Erasable env e.pre r now ∧ ∃ q, e.pre.request id = some q ∧ q.automatic = true)) := by
  constructor
  · rintro es₁ e es₂ id r rfl hr hr'
    obtain ⟨hpre, hs, hpost⟩ := h.split
    have hinv := erasureInv_run hpre
    have heff := effect_of_step hs
    have hcase := case_effect (nodup_run hpre) (outboxInv_run hpre) heff id
    obtain ⟨x, hx, hxid⟩ :=
      tombstone_of_erased (nodup_run hpre) (outboxInv_run hpre) heff hr hr'
    have hx' := erasures_run hpost x hx
    refine ⟨?_, ?_, fun r' d' hid => put_erased ⟨x, hx', hxid.trans hid.symm⟩ d'⟩
    · rw [hr, hr'] at hcase
      cases hcase with
      | erased _ q now hq hb hop =>
        have hid := record_id hr
        subst hid
        have hera := (hinv.erasable hr).1 hb
        obtain ⟨q', a, hq', ha, -⟩ := hera.approved
        rw [hq, Option.some.injEq] at hq'
        subst hq'
        have hmem := List.mem_of_getLast? hq
        exact ⟨q, a, now, hop.imp_right And.left, hq, ha, hera, hinv.requested _ q hmem,
          hinv.approved _ q hmem a ha⟩
    · rw [← hxid]
      exact (erasureInv_run h).erasures x hx'
  · intro e he now hact id r hr
    obtain ⟨es₁, es₂, -, hpre, hs, -⟩ := h.of_mem he
    have hinv := erasureInv_run hpre
    have heff := effect_of_step hs
    have hid := record_id hr
    subst hid
    rw [hact] at heff
    constructor
    · intro hn
      have hcase := case_effect (nodup_run hpre) (outboxInv_run hpre) heff r.id
      rw [hr, hn] at hcase
      cases hcase with
      | erased _ q now' hq hb hop =>
        rcases hop with hop | ⟨hop, ha⟩
        · cases hop
        · cases hop
          exact ⟨(hinv.erasable hr).1 hb, q, hq, ha⟩
    · rintro ⟨hera, q, hq, ha⟩
      have hb := (hinv.erasable hr).2 hera
      generalize hpost : e.post = p at heff
      cases heff with
      | same _ hop => cases hop
      | purged _ =>
        rw [record_purge, if_pos (List.any_eq_true.2 ⟨r, (Keyed.mem_of_find hr).1, ?_⟩)]
        simp [purges, hq, ha, hb]
      | updated _ x x' hx hs hb => cases hs
      | blocked _ x x' _ _ hx hs hb hstate hq => cases hs
      | controlled _ x c hx hs hop => cases hop
      | delivered _ j j' hj hs => cases hs

end

end VaultData

/-! The cleared case is erased after its retention. -/

def vaultErased : List VaultOp :=
  vaultCleared ++ [.requestDeletion "case" "req" ⟨"op", "policy", "svc", .sourceRevoked, true⟩ 50,
    .approveDeletion "case" "req" "other" 60, .purgeExpired 99, .purgeExpired 100, .put vaultCase]

def vaultErasureRun : List VaultStep := (VaultData.machine vaultEnv).trace .empty vaultErased

theorem vault_erasure_safety_purged :
    let d := (VaultData.machine vaultEnv).final .empty vaultErased
    (∀ es₁ e es₂ id r, vaultErasureRun = es₁ ++ e :: es₂ → e.pre.record id = some r →
      e.post.record id = none →
      (∃ q a now, (e.act = .erase id q.id now ∨ e.act = .purgeExpired now) ∧
        e.pre.request id = some q ∧ q.approval = some a ∧
        VaultData.Erasable vaultEnv e.pre r now ∧ VaultData.Requested vaultEnv es₁ id q ∧
        VaultData.ApprovedBy vaultEnv es₁ id q a) ∧
      d.record id = none ∧ ∀ r' d', r'.id = id → d.put r' ≠ .ok d') ∧
    (∀ e ∈ vaultErasureRun, ∀ now, e.act = .purgeExpired now → ∀ id r,
      e.pre.record id = some r → (e.post.record id = none ↔
        VaultData.Erasable vaultEnv e.pre r now ∧
          ∃ q, e.pre.request id = some q ∧ q.automatic = true)) :=
  VaultData.vault_erasure_safety ((VaultData.machine vaultEnv).run_trace .empty vaultErased)

example : (vaultErasureRun.map fun e => (e.post.record "case").isSome).drop 6 =
    [true, true, true, false] := by decide +kernel

end Proofmark
