/-
  The governance of denial corrections.

  `SourceInv` says that what the contract stores is well formed; `Later` is what every
  call preserves of the corrections and the denial revisions; `CorrectionHistory` finds the
  proposal and the approval of every stored correction among the earlier calls.  The
  main result, `denial_correction_governance`, follows for every run.
-/
import Proofmark.Source.CallEffects

namespace Proofmark

open Function

/-! ## The invariant -/

/-- A stored correction that was proposed. -/
structure DenialCorrection.WellFormed (d : DenialCorrection) : Prop where
  denialRevision : d.denialRevision ≠ 0
  reasonHash : d.reasonHash ≠ 0
  proposer : d.proposer ≠ 0
  approver : d.proposer ≠ d.approver

/-- What the source contract stores is well formed. -/
structure SourceInv (s : ComplianceSource) : Prop where
  nextId : s.nextDenialCorrectionId ≠ 0
  unused : ∀ id, id = 0 ∨ s.nextDenialCorrectionId ≤ id → s.denialCorrections id = .empty
  active : ∀ x, s.sourceDenialActive x = true → s.sourceDenialRevision x ≠ 0
  wellFormed : ∀ id, (s.denialCorrections id).subject ≠ 0 → (s.denialCorrections id).WellFormed

theorem sourceInv_deployed (owner : Address) : SourceInv (.deployed owner) :=
  ⟨by simp [ComplianceSource.deployed], fun _ _ => rfl, by simp [ComplianceSource.deployed],
    fun _ h => absurd rfl h⟩

section
variable {accounts : Address → Account} {msg : Msg} {s s' : ComplianceSource} {c : SourceCall}
  {events : List SourceEvent}

theorem Denials.sourceInv {subjects : List Address} (hd : Denials s subjects s') (h : SourceInv s) :
    SourceInv s' := by
  induction hd with
  | nil s => exact h
  | @cons s s' x subjects _ hmax _ ih =>
    refine ih ⟨h.nextId, h.unused, fun y hy => ?_, h.wellFormed⟩
    by_cases hxy : y = x
    · subst hxy
      simpa [ComplianceSource.denied] using bv_add_one_ne_zero hmax
    · simp only [ComplianceSource.denied, update_of_ne hxy] at hy ⊢
      exact h.active y hy

/-- A correction that was never proposed has no subject. -/
theorem SourceInv.id_ne_zero (h : SourceInv s) {id : U256} (hid : (s.denialCorrections id).subject ≠ 0) :
    id ≠ 0 ∧ id < s.nextDenialCorrectionId := by
  constructor
  · intro h0
    rw [h.unused id (.inl h0)] at hid
    exact hid rfl
  · by_contra hle
    rw [h.unused id (.inr (BitVec.not_lt.1 hle))] at hid
    exact hid rfl

theorem SourceInv.step (h : SourceInv s) (he : CallEffect accounts msg s c s' events) :
    SourceInv s' := by
  cases he with
  | quiet _ hs _ =>
    obtain ⟨-, h2, h3, h4, h5⟩ := hs
    exact ⟨h5 ▸ h.nextId, by rw [h4, h5]; exact h.unused, by rw [h2, h3]; exact h.active,
      h4 ▸ h.wellFormed⟩
  | denied _ _ hd => exact hd.sourceInv h
  | proposed hi h0 hact hr hmax =>
    have hlt := bv_toNat_add_one hmax
    refine ⟨bv_add_one_ne_zero hmax, fun id hid => ?_, h.active, fun id hid => ?_⟩
    · have hne : id ≠ s.nextDenialCorrectionId := by
        rcases hid with rfl | hid
        · exact h.nextId.symm
        · rintro rfl
          have hle : (s.nextDenialCorrectionId + 1).toNat ≤ s.nextDenialCorrectionId.toNat := hid
          omega
      simp only [update_of_ne hne]
      refine h.unused id (hid.imp_right fun hid => ?_)
      have hle : (s.nextDenialCorrectionId + 1).toNat ≤ id.toNat := hid
      rw [BitVec.le_def]
      omega
    · by_cases hne : id = s.nextDenialCorrectionId
      · subst hne
        simp only [update_self]
        exact ⟨h.active _ hact, hr, msg.sender_ne, msg.sender_ne⟩
      · simp only [update_of_ne hne] at hid ⊢
        exact h.wellFormed id hid
  | @approved id₀ ha h0 hex hap hpr =>
    have hlt := h.id_ne_zero h0
    refine ⟨h.nextId, fun id hid => ?_, h.active, fun id hid => ?_⟩
    · have hne : id ≠ id₀ := by
        rintro rfl
        rcases hid with hid | hid
        exacts [hlt.1 hid, BitVec.not_lt.2 hid hlt.2]
      simp only [update_of_ne hne]
      exact h.unused id hid
    · by_cases hne : id = id₀
      · subst hne
        simp only [update_self]
        obtain ⟨w1, w2, w3, -⟩ := h.wellFormed id h0
        exact ⟨w1, w2, w3, hpr⟩
      · simp only [update_of_ne hne] at hid ⊢
        exact h.wellFormed id hid
  | @executed id₀ h0 hex hact hrev hiss hv hap htime =>
    have hlt := h.id_ne_zero h0
    refine ⟨h.nextId, fun id hid => ?_, fun x hx => ?_, fun id hid => ?_⟩
    · have hne : id ≠ id₀ := by
        rintro rfl
        rcases hid with hid | hid
        exacts [hlt.1 hid, BitVec.not_lt.2 hid hlt.2]
      simp only [update_of_ne hne]
      exact h.unused id hid
    · by_cases hne : x = (s.denialCorrections id₀).subject
      · subst hne
        simp at hx
      · exact h.active x (by simpa [update_of_ne hne] using hx)
    · by_cases hne : id = id₀
      · subst hne
        simp only [update_self]
        obtain ⟨w1, w2, w3, w4⟩ := h.wellFormed id h0
        exact ⟨w1, w2, w3, w4⟩
      · simp only [update_of_ne hne] at hid ⊢
        exact h.wellFormed id hid
  | published _ _ _ _ _ _ _ _ _ => exact ⟨h.nextId, h.unused, h.active, h.wellFormed⟩

/-! ## What only grows -/

/-- The content of a correction that no later call changes. -/
structure SameProposal (d d' : DenialCorrection) : Prop where
  subject : d'.subject = d.subject
  proposer : d'.proposer = d.proposer
  attrs : d'.attrs = d.attrs
  claimsRoot : d'.claimsRoot = d.claimsRoot
  evidenceHash : d'.evidenceHash = d.evidenceHash
  reasonHash : d'.reasonHash = d.reasonHash
  denialRevision : d'.denialRevision = d.denialRevision
  executeAfter : d'.executeAfter = d.executeAfter

theorem SameProposal.refl (d : DenialCorrection) : SameProposal d d :=
  ⟨rfl, rfl, rfl, rfl, rfl, rfl, rfl, rfl⟩

theorem SameProposal.trans {a b c : DenialCorrection} (h : SameProposal a b) (h' : SameProposal b c) :
    SameProposal a c :=
  ⟨h'.1.trans h.1, h'.2.trans h.2, h'.3.trans h.3, h'.4.trans h.4, h'.5.trans h.5, h'.6.trans h.6,
    h'.7.trans h.7, h'.8.trans h.8⟩

/-- `s'` comes after `s` in a run: revisions grow, a subject is denied again only at a
    new revision, and what was proposed or executed stays so. -/
structure Later (s s' : ComplianceSource) : Prop where
  revision : ∀ x, s.sourceDenialRevision x ≤ s'.sourceDenialRevision x
  again : ∀ x, s.sourceDenialActive x = false → s'.sourceDenialActive x = true →
    s.sourceDenialRevision x < s'.sourceDenialRevision x
  nextId : s.nextDenialCorrectionId ≤ s'.nextDenialCorrectionId
  proposal : ∀ id, id < s.nextDenialCorrectionId →
    SameProposal (s.denialCorrections id) (s'.denialCorrections id)
  executed : ∀ id, id < s.nextDenialCorrectionId → (s.denialCorrections id).executed = true →
    (s'.denialCorrections id).executed = true

namespace Later

theorem refl (s : ComplianceSource) : Later s s :=
  ⟨fun _ => BitVec.le_refl _, fun x h h' => by simp [h] at h', BitVec.le_refl _,
    fun _ _ => .refl _, fun _ _ h => h⟩

theorem trans {s₁ s₂ s₃ : ComplianceSource} (h : Later s₁ s₂) (h' : Later s₂ s₃) : Later s₁ s₃ := by
  have hid {id : U256} (hlt : id < s₁.nextDenialCorrectionId) : id < s₂.nextDenialCorrectionId :=
    Std.lt_of_lt_of_le hlt h.nextId
  refine ⟨fun x => BitVec.le_trans (h.revision x) (h'.revision x), fun x h1 h3 => ?_,
    BitVec.le_trans h.nextId h'.nextId, fun id hlt => (h.proposal id hlt).trans (h'.proposal id (hid hlt)),
    fun id hlt he => h'.executed id (hid hlt) (h.executed id hlt he)⟩
  cases h2 : s₂.sourceDenialActive x with
  | false => exact Std.lt_of_le_of_lt (h.revision x) (h'.again x h2 h3)
  | true => exact Std.lt_of_lt_of_le (h.again x h1 h2) (h'.revision x)

theorem denied (x : Address) (hmax : s.sourceDenialRevision x ≠ BitVec.allOnes 64) :
    Later s (s.denied x) := by
  have hlt : s.sourceDenialRevision x < s.sourceDenialRevision x + 1 := by
    rw [BitVec.lt_def, bv_toNat_add_one hmax]
    omega
  refine ⟨fun y => ?_, fun y h1 h2 => ?_, BitVec.le_refl _, fun _ _ => .refl _, fun _ _ h => h⟩
  · by_cases hy : y = x
    · subst hy
      simpa [ComplianceSource.denied] using BitVec.le_of_lt hlt
    · simp [ComplianceSource.denied, update_of_ne hy]
  · by_cases hy : y = x
    · subst hy
      simpa [ComplianceSource.denied] using hlt
    · simp [ComplianceSource.denied, update_of_ne hy, h1] at h2

end Later

theorem Denials.later {subjects : List Address} (h : Denials s subjects s') : Later s s' := by
  induction h with
  | nil s => exact .refl s
  | cons _ hmax _ ih => exact (Later.denied _ hmax).trans ih

/-- A denied subject is at a new revision afterwards. -/
theorem Denials.revision_lt {subjects : List Address} (h : Denials s subjects s') {x : Address}
    (hx : x ∈ subjects) : s.sourceDenialRevision x < s'.sourceDenialRevision x := by
  induction h with
  | nil s => cases hx
  | @cons s s' y subjects _ hmax hd ih =>
    rcases List.mem_cons.1 hx with rfl | hx
    · refine Std.lt_of_lt_of_le ?_ (hd.later.revision x)
      rw [BitVec.lt_def]
      simp only [ComplianceSource.denied, update_self]
      rw [bv_toNat_add_one hmax]
      exact Nat.lt_succ_self _
    · exact Std.lt_of_le_of_lt ((Later.denied y hmax).revision x) (ih hx)

theorem CallEffect.later (he : CallEffect accounts msg s c s' events) :
    Later s s' := by
  cases he with
  | quiet _ hs _ =>
    obtain ⟨-, h2, h3, h4, h5⟩ := hs
    refine ⟨fun x => h3 ▸ BitVec.le_refl _, fun x ha hb => ?_, h5 ▸ BitVec.le_refl _,
      fun id _ => h4 ▸ .refl _, fun id _ h => h4 ▸ h⟩
    rw [h2, ha] at hb
    cases hb
  | denied _ _ hd => exact hd.later
  | proposed hi h0 hact hr hmax =>
    have hne (id : U256) (hlt : id < s.nextDenialCorrectionId) : id ≠ s.nextDenialCorrectionId :=
      BitVec.ne_of_lt hlt
    refine ⟨fun _ => BitVec.le_refl _, fun x ha hb => by simp [ha] at hb, ?_, fun id hlt => ?_,
      fun id hlt hex => ?_⟩
    · rw [BitVec.le_def, bv_toNat_add_one hmax]
      omega
    · simp only [update_of_ne (hne id hlt)]
      exact SameProposal.refl _
    · simpa only [update_of_ne (hne id hlt)] using hex
  | @approved id₀ ha h0 hex hap hpr =>
    refine ⟨fun _ => BitVec.le_refl _, fun x ha hb => by simp [ha] at hb, BitVec.le_refl _,
      fun id hlt => ?_, fun id hlt hex' => ?_⟩
    · by_cases hne : id = id₀
      · subst hne
        simp only [update_self]
        exact ⟨rfl, rfl, rfl, rfl, rfl, rfl, rfl, rfl⟩
      · simp only [update_of_ne hne]
        exact SameProposal.refl _
    · by_cases hne : id = id₀
      · subst hne
        simpa using hex'
      · simpa only [update_of_ne hne] using hex'
  | @executed id₀ h0 hex hact hrev hiss hv hap htime =>
    refine ⟨fun _ => BitVec.le_refl _, fun x ha hb => ?_, BitVec.le_refl _, fun id hlt => ?_,
      fun id hlt hex' => ?_⟩
    · by_cases hx : x = (s.denialCorrections id₀).subject
      · subst hx
        simp at hb
      · simp [update_of_ne hx, ha] at hb
    · by_cases hne : id = id₀
      · subst hne
        simp only [update_self]
        exact ⟨rfl, rfl, rfl, rfl, rfl, rfl, rfl, rfl⟩
      · simp only [update_of_ne hne]
        exact SameProposal.refl _
    · by_cases hne : id = id₀
      · subst hne
        simp
      · simpa only [update_of_ne hne] using hex'
  | published _ _ _ _ _ _ _ _ _ =>
    exact ⟨fun _ => BitVec.le_refl _, fun x ha hb => by simp [ha] at hb, BitVec.le_refl _,
      fun _ _ => .refl _, fun _ _ h => h⟩

end

/-! ## Runs -/

section
variable {env : SourceEnv} {owner : Address} {es : List SourceEntry} {s₀ s : ComplianceSource}

theorem isStep_effect {e : SourceEntry} (h : (ComplianceSource.machine env).IsStep e) :
    CallEffect e.act.accounts e.act.msg e.pre e.act.call e.post e.out := call_effect h

theorem sourceInv_run (h : (ComplianceSource.machine env).Run s₀ es s) (h₀ : SourceInv s₀) :
    SourceInv s :=
  h.invariant h₀ fun _ hi hs => hi.step (isStep_effect hs)

theorem later_run (h : (ComplianceSource.machine env).Run s₀ es s) : Later s₀ s :=
  h.relation Later.refl (fun _ _ _ => Later.trans) fun _ hs => (isStep_effect hs).later

/-! ## The history of a correction -/

/-- The entry proposed the correction `id` with the content of `d`. -/
structure Proposes (e : SourceEntry) (id : U256) (d : DenialCorrection) : Prop where
  call : e.act.call =
    .proposeDenialCorrection d.subject d.attrs d.claimsRoot d.evidenceHash d.reasonHash
  proposer : e.act.msg.sender = d.proposer
  issuer : e.pre.isIssuer d.proposer = true
  active : e.pre.sourceDenialActive d.subject = true
  revision : e.pre.sourceDenialRevision d.subject = d.denialRevision
  id : e.pre.nextDenialCorrectionId = id
  executeAfter : d.executeAfter =
    BitVec.ofNat 40 (e.act.msg.timestamp + ComplianceSource.MIN_DENIAL_CORRECTION_DELAY)

/-- The entry approved the correction `id`, as `d` records. -/
structure Approves (e : SourceEntry) (id : U256) (d : DenialCorrection) : Prop where
  call : e.act.call = .approveDenialCorrection id
  approver : e.act.msg.sender = d.approver
  role : e.pre.isDenialCorrectionApprover d.approver = true
  other : d.approver ≠ d.proposer

/-- Among the entries `es` are the proposal of `d` and, when `d` is approved, its
    approval after it. -/
def RecordedBy (es : List SourceEntry) (id : U256) (d : DenialCorrection) : Prop :=
  ∃ es₁ p es₂, es = es₁ ++ p :: es₂ ∧ Proposes p id d ∧
    (d.approver ≠ 0 → ∃ a ∈ es₂, Approves a id d)

theorem RecordedBy.append {id : U256} {d : DenialCorrection} (h : RecordedBy es id d)
    (es' : List SourceEntry) : RecordedBy (es ++ es') id d := by
  obtain ⟨es₁, p, es₂, rfl, hp, ha⟩ := h
  refine ⟨es₁, p, es₂ ++ es', by simp, hp, fun h0 => ?_⟩
  obtain ⟨a, hm, haa⟩ := ha h0
  exact ⟨a, by simp [hm], haa⟩

/-- One call extends the history of the corrections. -/
theorem recordedBy_step {e : SourceEntry} (hs : (ComplianceSource.machine env).IsStep e)
    (h : ∀ id, (e.pre.denialCorrections id).subject ≠ 0 →
      RecordedBy es id (e.pre.denialCorrections id)) (id : U256)
    (hid : (e.post.denialCorrections id).subject ≠ 0) :
    RecordedBy (es ++ [e]) id (e.post.denialCorrections id) := by
  have he := isStep_effect hs
  obtain ⟨pre, ⟨accounts, msg, c⟩, out, post⟩ := e
  dsimp only at he h hid ⊢
  cases he with
  | quiet _ hsame _ =>
    rw [hsame.denialCorrections] at hid ⊢
    exact (h id hid).append _
  | denied _ _ hd =>
    rw [hd.denialCorrections_eq] at hid ⊢
    exact (h id hid).append _
  | proposed hi h0 hact hr hmax =>
    by_cases hne : id = pre.nextDenialCorrectionId
    · subst hne
      simp only [update_self]
      exact ⟨es, _, [], rfl, ⟨rfl, rfl, hi, hact, rfl, rfl, rfl⟩, fun h0 => absurd rfl h0⟩
    · simp only [update_of_ne hne] at hid ⊢
      exact (h id hid).append _
  | @approved id₀ ha h0 hex hap hpr =>
    by_cases hne : id = id₀
    · subst hne
      simp only [update_self]
      obtain ⟨es₁, p, es₂, hes, ⟨p1, p2, p3, p4, p5, p6, p7⟩, -⟩ := h id h0
      rw [hes]
      exact ⟨es₁, p, es₂ ++ [_], List.append_assoc .., ⟨p1, p2, p3, p4, p5, p6, p7⟩, fun _ =>
        ⟨_, List.mem_append_right _ (List.mem_singleton.2 rfl), rfl, rfl, ha, hpr.symm⟩⟩
    · simp only [update_of_ne hne] at hid ⊢
      exact (h id hid).append _
  | @executed id₀ h0 hex hact hrev hiss hv hap htime =>
    by_cases hne : id = id₀
    · subst hne
      simp only [update_self]
      obtain ⟨es₁, p, es₂, hes, ⟨p1, p2, p3, p4, p5, p6, p7⟩, happ⟩ := h id h0
      rw [hes]
      refine ⟨es₁, p, es₂ ++ [_], List.append_assoc .., ⟨p1, p2, p3, p4, p5, p6, p7⟩, fun h0 => ?_⟩
      obtain ⟨a, hm, a1, a2, a3, a4⟩ := happ h0
      exact ⟨a, by simp [hm], a1, a2, a3, a4⟩
    · simp only [update_of_ne hne] at hid ⊢
      exact (h id hid).append _
  | published _ _ _ _ _ _ _ _ _ => exact (h id hid).append _

theorem recordedBy_run (h : (ComplianceSource.machine env).Run (.deployed owner) es s) (id : U256)
    (hid : (s.denialCorrections id).subject ≠ 0) : RecordedBy es id (s.denialCorrections id) := by
  refine h.history (H := fun es s => ∀ id, (s.denialCorrections id).subject ≠ 0 →
    RecordedBy es id (s.denialCorrections id)) (fun id h0 => absurd rfl h0) ?_ id hid
  exact fun es e _ hh hs id => recordedBy_step hs hh id

/-! ## Executed corrections -/

/-- The execution of the correction `id`, stored as `d`. -/
structure Executes (e : SourceEntry) (id : U256) (d : DenialCorrection) : Prop where
  stored : e.pre.denialCorrections id = d
  subject : d.subject ≠ 0
  pending : d.executed = false
  active : e.pre.sourceDenialActive d.subject = true
  revision : e.pre.sourceDenialRevision d.subject = d.denialRevision
  issuer : e.pre.isIssuer d.proposer = true
  approved : d.approver ≠ 0
  delay : d.executeAfter.toNat ≤ e.act.msg.timestamp
  out : e.out = [.sanctionDenialCorrected d.subject d.denialRevision id d.reasonHash d.proposer
      d.approver, .markIssued d.subject d.attrs d.proposer d.claimsRoot d.evidenceHash]
  executed : (e.post.denialCorrections id).executed = true
  lifted : e.post.sourceDenialActive d.subject = false
  revision_eq : e.post.sourceDenialRevision = e.pre.sourceDenialRevision

theorem Publication.quiet_events {p : Publication} {approvals : List (Address × U64)}
    {e : SourceEvent} (h : e ∈ p.events approvals) (x : Address) (r : U64) (id : U256) (w : Bytes32)
    (a b : Address) (lv ep : U32) :
    e ≠ .sanctionDenialCorrected x r id w a b ∧ e ≠ .sanctionDenied x lv ep := by
  rw [Publication.events, List.mem_append, List.mem_flatMap, List.mem_singleton] at h
  rcases h with ⟨ap, -, h⟩ | rfl
  · rw [Publication.approvalEvents, List.mem_cons] at h
    rcases h with rfl | h
    · simp
    · split_ifs at h
      · rw [List.mem_singleton] at h
        simp [h]
      · cases h
  · simp [Publication.event]

/-- Only an execution emits a correction. -/
theorem executes_of_mem {e : SourceEntry} (hs : (ComplianceSource.machine env).IsStep e)
    {x : Address} {r : U64} {id : U256} {w : Bytes32} {a b : Address}
    (h : .sanctionDenialCorrected x r id w a b ∈ e.out) :
    ∃ d, Executes e id d ∧ d.subject = x ∧ d.denialRevision = r ∧ d.reasonHash = w ∧
      d.proposer = a ∧ d.approver = b := by
  have he := isStep_effect hs
  obtain ⟨pre, ⟨accounts, msg, c⟩, out, post⟩ := e
  dsimp only at he h ⊢
  cases he with
  | quiet _ _ hq => exact absurd (hq _ h).1 (by simp [SourceEvent.quiet])
  | denied _ _ _ => simp at h
  | proposed _ _ _ _ _ => simp at h
  | approved _ _ _ _ _ => simp at h
  | @executed id₀ h0 hex hact hrev hiss hv hap htime =>
    simp only [List.mem_cons, SourceEvent.sanctionDenialCorrected.injEq, reduceCtorEq,
      List.not_mem_nil, or_false] at h
    obtain ⟨h1, h2, rfl, h4, h5, h6⟩ := h
    exact ⟨pre.denialCorrections id, ⟨rfl, h0, hex, hact, hrev, hiss, hap, htime, rfl, by simp,
      by simp, rfl⟩, h1.symm, h2.symm, h4.symm, h5.symm, h6.symm⟩
  | published _ _ _ _ _ _ _ _ _ =>
    exact absurd rfl (Publication.quiet_events h x r id w a b 0 0).1

/-- A denial raises the revision of its subject. -/
theorem revision_lt_of_denied {e : SourceEntry} (hs : (ComplianceSource.machine env).IsStep e)
    {x : Address} {lv ep : U32} (h : .sanctionDenied x lv ep ∈ e.out) :
    e.pre.sourceDenialRevision x < e.post.sourceDenialRevision x := by
  have he := isStep_effect hs
  obtain ⟨pre, ⟨accounts, msg, c⟩, out, post⟩ := e
  dsimp only at he h ⊢
  cases he with
  | quiet _ _ hq => exact absurd (hq _ h).1 (by simp [SourceEvent.quiet])
  | denied _ _ hd =>
    obtain ⟨y, hy, heq⟩ := List.mem_map.1 h
    cases heq
    exact hd.revision_lt hy
  | proposed _ _ _ _ _ => simp at h
  | approved _ _ _ _ _ => simp at h
  | executed _ _ _ _ _ _ _ _ => simp at h
  | published _ _ _ _ _ _ _ _ _ =>
    exact absurd rfl (Publication.quiet_events h x 0 0 0 0 0 lv ep).2

/-- What the run must contain before the entry `e` corrects a denial. -/
structure Governed (before : List SourceEntry) (e : SourceEntry) (subject : Address)
    (denialRevision : U64) (id : U256) (reasonHash : Bytes32) (proposer approver : Address) :
    Prop where
  active : e.pre.sourceDenialActive subject = true
  revision : e.pre.sourceDenialRevision subject = denialRevision
  stillIssuer : e.pre.isIssuer proposer = true
  history : ∃ l₁ p l₂ a l₃ attrs claimsRoot evidenceHash, before = l₁ ++ p :: (l₂ ++ a :: l₃) ∧
    p.act.call = .proposeDenialCorrection subject attrs claimsRoot evidenceHash reasonHash ∧
    p.act.msg.sender = proposer ∧ p.pre.isIssuer proposer = true ∧
    p.pre.nextDenialCorrectionId = id ∧ p.pre.sourceDenialActive subject = true ∧
    p.pre.sourceDenialRevision subject = denialRevision ∧
    a.act.call = .approveDenialCorrection id ∧ a.act.msg.sender = approver ∧
    a.pre.isDenialCorrectionApprover approver = true ∧ approver ≠ proposer ∧
    p.act.msg.timestamp + ComplianceSource.MIN_DENIAL_CORRECTION_DELAY ≤ e.act.msg.timestamp ∧
    e.out = [.sanctionDenialCorrected subject denialRevision id reasonHash proposer approver,
      .markIssued subject attrs proposer claimsRoot evidenceHash]

theorem governed_of_executes {e : SourceEntry} {id : U256} {d : DenialCorrection}
    (hrun : (ComplianceSource.machine env).Run (.deployed owner) es e.pre) (hx : Executes e id d)
    (htime : ∀ e ∈ es, e.act.msg.timestamp < 2 ^ 40 - ComplianceSource.MIN_DENIAL_CORRECTION_DELAY) :
    Governed es e d.subject d.denialRevision id d.reasonHash d.proposer d.approver := by
  have hrec := recordedBy_run hrun id (hx.stored ▸ hx.subject)
  rw [hx.stored] at hrec
  obtain ⟨es₁, p, es₂, rfl, hp, happ⟩ := hrec
  obtain ⟨a, ha, hap⟩ := happ hx.approved
  obtain ⟨l₂, l₃, rfl⟩ := List.append_of_mem ha
  refine ⟨hx.active, hx.revision, hx.issuer, es₁, p, l₂, a, l₃, d.attrs, d.claimsRoot,
    d.evidenceHash, rfl, hp.call, hp.proposer, hp.issuer, hp.id, hp.active, hp.revision, hap.call,
    hap.approver, hap.role, hap.other, ?_, hx.out⟩
  have hdelay := hx.delay
  have hlt := htime p (by simp)
  rw [hp.executeAfter, BitVec.toNat_ofNat, Nat.mod_eq_of_lt] at hdelay
  · exact hdelay
  · have : ComplianceSource.MIN_DENIAL_CORRECTION_DELAY = 3600 := rfl
    omega

/-- Two executions, one after the other, are of different corrections at different
    revisions. -/
theorem executes_twice {e e' : SourceEntry} {id id' : U256} {d d' : DenialCorrection}
    (h0 : SourceInv e.pre) (hl : Later e.post e'.pre) (hn : e.post.nextDenialCorrectionId = e.pre.nextDenialCorrectionId)
    (hx : Executes e id d) (hx' : Executes e' id' d') :
    id ≠ id' ∧ (d.subject, d.denialRevision) ≠ (d'.subject, d'.denialRevision) := by
  constructor
  · rintro rfl
    have hlt : id < e.post.nextDenialCorrectionId := by
      rw [hn]
      exact (h0.id_ne_zero (hx.stored ▸ hx.subject)).2
    have hex := hl.executed id hlt hx.executed
    rw [hx'.stored, hx'.pending] at hex
    cases hex
  · intro heq
    obtain ⟨h1, h2⟩ := Prod.mk.inj heq
    have hlt := hl.again d.subject hx.lifted (h1 ▸ hx'.active)
    rw [hx.revision_eq, hx.revision, h1, hx'.revision, h2] at hlt
    exact BitVec.lt_irrefl _ hlt

theorem nextId_of_executes {e : SourceEntry} (hs : (ComplianceSource.machine env).IsStep e)
    {x : Address} {r : U64} {id : U256} {w : Bytes32} {a b : Address}
    (h : .sanctionDenialCorrected x r id w a b ∈ e.out) :
    e.post.nextDenialCorrectionId = e.pre.nextDenialCorrectionId := by
  have he := isStep_effect hs
  obtain ⟨pre, ⟨accounts, msg, c⟩, out, post⟩ := e
  dsimp only at he h ⊢
  cases he with
  | quiet _ hsame _ => exact hsame.nextDenialCorrectionId
  | denied _ _ _ => simp at h
  | proposed _ _ _ _ _ => simp at h
  | approved _ _ _ _ _ => rfl
  | executed _ _ _ _ _ _ _ _ => rfl
  | published _ _ _ _ _ _ _ _ _ => rfl

/-- What a successful proposal stores. -/
theorem stored_of_proposal {e : SourceEntry} (hs : (ComplianceSource.machine env).IsStep e)
    {x : Address} {attrs cr eh w : Bytes32}
    (hc : e.act.call = .proposeDenialCorrection x attrs cr eh w) :
    e.pre.nextDenialCorrectionId < e.post.nextDenialCorrectionId ∧
      (e.post.denialCorrections e.pre.nextDenialCorrectionId).subject = x ∧
      (e.post.denialCorrections e.pre.nextDenialCorrectionId).denialRevision =
        e.pre.sourceDenialRevision x ∧
      e.post.sourceDenialRevision = e.pre.sourceDenialRevision := by
  obtain ⟨pre, ⟨accounts, msg, c⟩, out, post⟩ := e
  dsimp only at hc ⊢
  subst hc
  have hs' : pre.proposeDenialCorrection msg x attrs cr eh w = .ok (post, out) := hs
  simp only [ComplianceSource.proposeDenialCorrection, Revert.bind_ok, Revert.revertIf_ok,
    Revert.pure_ok, Prod.mk.injEq] at hs'
  obtain ⟨_, -, _, -, _, hmax, rfl, -⟩ := hs'
  refine ⟨?_, by simp, by simp, rfl⟩
  rw [BitVec.lt_def, bv_toNat_add_one hmax]
  exact Nat.lt_succ_self _

/-- **Denial-correction governance**, in every run with timestamps that leave room for
    the delay: each emitted correction has its proposal, its approval and its delay
    behind it; none is executed twice, nor two at one revision; and a new denial ends
    every earlier proposal. -/
theorem denial_correction_governance
    (hrun : (ComplianceSource.machine env).Run (.deployed owner) es s)
    (htime : ∀ e ∈ es, e.act.msg.timestamp < 2 ^ 40 - ComplianceSource.MIN_DENIAL_CORRECTION_DELAY) :
    (∀ es₁ e es₂, es = es₁ ++ e :: es₂ → ∀ x r id w a b,
      .sanctionDenialCorrected x r id w a b ∈ e.out → Governed es₁ e x r id w a b) ∧
    (∀ es₁ e es₂ e' es₃, es = es₁ ++ e :: (es₂ ++ e' :: es₃) →
      ∀ x r id w a b x' r' id' w' a' b', .sanctionDenialCorrected x r id w a b ∈ e.out →
        .sanctionDenialCorrected x' r' id' w' a' b' ∈ e'.out → id ≠ id' ∧ (x, r) ≠ (x', r')) ∧
    (∀ es₁ p es₂ d es₃ e es₄, es = es₁ ++ p :: (es₂ ++ d :: (es₃ ++ e :: es₄)) →
      ∀ x attrs claimsRoot evidenceHash w lv ep,
        p.act.call = .proposeDenialCorrection x attrs claimsRoot evidenceHash w →
        .sanctionDenied x lv ep ∈ d.out → ∀ x' r w' a b,
          .sanctionDenialCorrected x' r p.pre.nextDenialCorrectionId w' a b ∉ e.out) := by
  refine ⟨?_, ?_, ?_⟩
  · rintro es₁ e es₂ rfl x r id w a b hmem
    obtain ⟨h1, h2, -⟩ := hrun.split
    obtain ⟨d, hx, rfl, rfl, rfl, rfl, rfl⟩ := executes_of_mem h2 hmem
    exact governed_of_executes h1 hx fun e he => htime e (by simp [he])
  · rintro es₁ e es₂ e' es₃ rfl x r id w a b x' r' id' w' a' b' hmem hmem'
    obtain ⟨h1, h2, h3⟩ := hrun.split
    obtain ⟨h4, h5, -⟩ := h3.split
    obtain ⟨d, hx, rfl, rfl, -⟩ := executes_of_mem h2 hmem
    obtain ⟨d', hx', rfl, rfl, -⟩ := executes_of_mem h5 hmem'
    exact executes_twice (sourceInv_run h1 (sourceInv_deployed owner)) (later_run h4)
      (nextId_of_executes h2 hmem) hx hx'
  · rintro es₁ p es₂ d es₃ e es₄ rfl x attrs claimsRoot evidenceHash w lv ep hcall hden x' r w' a b hmem
    obtain ⟨-, h2, h3⟩ := hrun.split
    obtain ⟨h4, h5, h6⟩ := h3.split
    obtain ⟨h7, h8, -⟩ := h6.split
    obtain ⟨hid, hsub, hrev, hsame⟩ := stored_of_proposal h2 hcall
    obtain ⟨c, hx, -⟩ := executes_of_mem h8 hmem
    have hpd := later_run h4
    have hde := later_run h7
    have hstep := (isStep_effect h5).later
    -- the stored proposal is the one executed, at the revision of the proposal
    have hprop := ((hpd.trans hstep).trans hde).proposal p.pre.nextDenialCorrectionId hid
    rw [hx.stored] at hprop
    have hcsub : c.subject = x := hprop.subject.trans hsub
    have hcrev : e.pre.sourceDenialRevision x = p.pre.sourceDenialRevision x := by
      rw [← hcsub, hx.revision, hprop.denialRevision, hrev, hcsub]
    -- but the denial in between has raised the revision
    have h1 := hpd.revision x
    have h2 := revision_lt_of_denied h5 hden
    have h3 := hde.revision x
    rw [hcrev, ← hsame] at h3
    exact BitVec.lt_irrefl _ (Std.lt_of_lt_of_le (Std.lt_of_le_of_lt h1 h2) h3)

end

/-! A run in which the denial of an account is corrected: roles, denial, proposal,
approval, execution after the delay. -/

def correctionActions : List SourceAction :=
  ([(⟨1, 100, 1000, Sender.owner⟩, .setIssuer 3 true),
    (⟨1, 100, 1000, Sender.owner⟩, .setDenialCorrectionApprover 4 true),
    (⟨3, 110, 2000, Sender.issuer⟩, .deny 7 1 1),
    (⟨3, 120, 3000, Sender.issuer⟩,
      .proposeDenialCorrection 7 (MarkAttrs.pack 1 3 1 410 1 2500 9000 0) 11 12 5),
    (⟨4, 130, 3500, Sender.approver⟩, .approveDenialCorrection 1),
    (⟨9, 160, 6600, Sender.outsider⟩, .executeDenialCorrection 1)] : List (Msg × SourceCall)).map
    fun p => ⟨fun _ => .eoa, p.1, p.2⟩

def correctionRun : List SourceEntry :=
  (ComplianceSource.machine ⟨80, fun _ => 0, fun _ => 0, fun _ _ => none⟩).trace (.deployed 1)
    correctionActions

theorem denial_correction_governance_run :
    ∃ e ∈ correctionRun, .sanctionDenialCorrected 7 1 1 5 3 4 ∈ e.out ∧
      Governed (correctionRun.take 5) e 7 1 1 5 3 4 := by
  have hout : (correctionRun[5]?.map (·.out)) = some [.sanctionDenialCorrected 7 1 1 5 3 4,
    .markIssued 7 (MarkAttrs.pack 1 3 1 410 1 2500 9000 0) 3 11 12] := by decide +kernel
  obtain ⟨e, he, hout⟩ := Option.map_eq_some_iff.1 hout
  have hmem : .sanctionDenialCorrected 7 1 1 5 3 4 ∈ e.out := by simp [hout]
  obtain ⟨hlt, rfl⟩ := List.getElem?_eq_some_iff.1 he
  refine ⟨_, List.getElem_mem hlt, hmem, ?_⟩
  exact (denial_correction_governance
    ((ComplianceSource.machine ⟨80, fun _ => 0, fun _ => 0, fun _ _ => none⟩).run_trace (.deployed 1)
      correctionActions) (by decide +kernel)).1 _ _ _
    (by rw [← correctionRun, List.getElem_cons_drop, List.take_append_drop]) _ _ _ _ _ _ hmem

end Proofmark
