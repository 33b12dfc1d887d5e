/-
  A subject under events delivered in any order.

  `Tracks l st` says what the record `st` of a subject holds after the events `l`, in
  terms of the latest event and the latest denial decision only.  Each event keeps it
  (`Tracks.apply`), and since these do not depend on the order of `l`
  (`Latest.latest_perm`), neither does the record.  `Reference` folds the events in
  source order; `Tracks.agrees` compares the two.
-/
import Proofmark.Hub.LogEffects
import Proofmark.Lib.Latest

namespace Proofmark

open Latest

/-- A lifecycle event at its source coordinate. -/
abbrev Event := Coord × LifecycleEvent

/-- The denials and corrections among the events. -/
def decisions (l : List Event) : List Event := l.filter fun m => m.2.isDecision

/-- The latest denial decision is a denial. -/
def denialInForce (l : List Event) : Bool := (latest (decisions l)).any fun m => m.2 == .denied

/-- The status an event leaves when no denial masks it. -/
def LifecycleEvent.status : LifecycleEvent → MarkStatus
  | .issued attrs .. => if MarkAttrs.validSchema attrs then .active else .suspended
  | .revoked => .revoked
  | .denied => .denied
  | .corrected .. => .suspended

/-- The mark a valid issuance stores. -/
def Mark.direct (attrs : Bytes32) (issuer : Address) (claimsRoot evidenceHash : Bytes32) : Mark where
  status := .active
  origin := .direct
  kind := MarkAttrs.kind attrs
  assurance := MarkAttrs.assurance attrs
  regime := MarkAttrs.regime attrs
  jurisdiction := MarkAttrs.jurisdiction attrs
  methods := MarkAttrs.methods attrs
  issuedAt := MarkAttrs.issuedAt attrs
  expiry := MarkAttrs.expiry attrs
  epoch := MarkAttrs.epoch attrs
  claimsRoot := claimsRoot
  evidenceHash := evidenceHash
  issuer := issuer

namespace SubjectState

variable {st : SubjectState} {c : Coord}

theorem isNewer_iff : st.isNewer c = true ↔ st.lastApplied < c := by
  rw [Coord.lt_iff]
  simp only [isNewer, Bool.or_eq_true, Bool.and_eq_true, decide_eq_true_eq, beq_iff_eq, gt_iff_lt]
  simp only [eq_comm (a := c.height), eq_comm (a := c.txIndex)]

theorem advance_of_lt (h : st.lastApplied < c) : st.advance c = some { st with lastApplied := c } := by
  rw [advance, if_pos (isNewer_iff.2 h)]

theorem advance_of_not_lt (h : ¬ st.lastApplied < c) : st.advance c = none := by
  rw [advance, if_neg (isNewer_iff.not.2 h)]

theorem decisionNewer_iff : (decide (c.height > st.lastDenialDecision.height) ||
      (c.height == st.lastDenialDecision.height &&
        (decide (c.txIndex > st.lastDenialDecision.txIndex) ||
          (c.txIndex == st.lastDenialDecision.txIndex &&
            decide (c.logIndex > st.lastDenialDecision.logIndex))))) = true ↔
    st.lastDenialDecision < c := by
  rw [Coord.lt_iff]
  simp only [Bool.or_eq_true, Bool.and_eq_true, decide_eq_true_eq, beq_iff_eq, gt_iff_lt]
  simp only [eq_comm (a := c.height), eq_comm (a := c.txIndex)]

theorem advanceDenialDecision_of_lt (h : st.lastDenialDecision < c) :
    st.advanceDenialDecision c = some { st with lastDenialDecision := c } := by
  rw [advanceDenialDecision, if_pos (decisionNewer_iff.2 h)]

theorem advanceDenialDecision_of_not_lt (h : ¬ st.lastDenialDecision < c) :
    st.advanceDenialDecision c = none := by
  rw [advanceDenialDecision, if_neg (decisionNewer_iff.not.2 h)]

end SubjectState

/-! ## What the events leave -/

/-- What the record of a subject holds after the events `l`. -/
structure Tracks (l : List Event) (st : SubjectState) : Prop where
  lastApplied : st.lastApplied = position l
  lastDenialDecision : st.lastDenialDecision = position (decisions l)
  permanentDenial : st.permanentDenial = denialInForce l
  untouched : l = [] → st = .empty
  status : ∀ m, latest l = some m →
    st.mark.status = if denialInForce l then .denied else m.2.status
  tombstone : ∀ m, latest l = some m → st.tombstone = decide (st.mark.status ≠ .active)
  ordinary : ∀ m, latest l = some m → m.2.isDecision = false →
    st.latestOrdinaryStatus = m.2.status
  stored : ∀ c attrs issuer keyEpoch claimsRoot evidenceHash,
    latest l = some (c, .issued attrs issuer keyEpoch claimsRoot evidenceHash) →
    MarkAttrs.validSchema attrs = true →
    { st.mark with status := .active } = Mark.direct attrs issuer claimsRoot evidenceHash ∧
      st.markIssuerKeyEpoch = keyEpoch

theorem decisions_concat (l : List Event) (x : Event) :
    decisions (l ++ [x]) = decisions l ++ if x.2.isDecision then [x] else [] := by
  rw [decisions, List.filter_append, decisions]
  cases h : x.2.isDecision <;> simp [h]

theorem decisions_concat_ordinary {l : List Event} {x : Event} (h : x.2.isDecision = false) :
    decisions (l ++ [x]) = decisions l := by
  simp [decisions_concat, h]

theorem decisions_concat_decision {l : List Event} {x : Event} (h : x.2.isDecision = true) :
    decisions (l ++ [x]) = decisions l ++ [x] := by
  simp [decisions_concat, h]

theorem denialInForce_ordinary {l : List Event} {x : Event} (h : x.2.isDecision = false) :
    denialInForce (l ++ [x]) = denialInForce l := by
  rw [denialInForce, decisions_concat_ordinary h, denialInForce]

theorem denialInForce_decision {l : List Event} {x : Event} (h : x.2.isDecision = true)
    (hlt : position (decisions l) < x.1) : denialInForce (l ++ [x]) = (x.2 == .denied) := by
  rw [denialInForce, decisions_concat_decision h, latest_concat_of_lt hlt, Option.any_some]

namespace Tracks

theorem nil : Tracks [] .empty :=
  ⟨rfl, rfl, rfl, fun _ => rfl, by simp, by simp, by simp, by simp⟩

variable {l : List Event} {st : SubjectState} {c : Coord}

/-- A stale event of either sort changes nothing that is tracked. -/
theorem stale {ev : LifecycleEvent} (h : Tracks l st) (hc : ⊥ < c) (hl : ¬ position l < c)
    (hd : ev.isDecision = true → ¬ position (decisions l) < c) : Tracks (l ++ [(c, ev)]) st := by
  have hlat : latest (l ++ [(c, ev)]) = latest l := latest_concat_of_not_lt hc hl
  have hdec : latest (decisions (l ++ [(c, ev)])) = latest (decisions l) := by
    cases he : ev.isDecision with
    | false => rw [decisions_concat_ordinary he]
    | true => rw [decisions_concat_decision he, latest_concat_of_not_lt hc (hd he)]
  have hforce : denialInForce (l ++ [(c, ev)]) = denialInForce l := by
    rw [denialInForce, hdec, denialInForce]
  refine ⟨?_, ?_, ?_, by simp, ?_, ?_, ?_, ?_⟩
  · rw [h.lastApplied, position, position, hlat]
  · rw [h.lastDenialDecision, position, position, hdec]
  · rw [h.permanentDenial, hforce]
  · rw [hlat, hforce]; exact h.status
  · rw [hlat]; exact h.tombstone
  · rw [hlat]; exact h.ordinary
  · rw [hlat]; exact h.stored

/-- A denied subject has the status that says so. -/
theorem status_denied (h : Tracks l st) (hp : st.permanentDenial = true) :
    st.mark.status = .denied := by
  rw [h.permanentDenial] at hp
  rcases hm : latest l with _ | m
  · rw [latest_eq_none] at hm
    simp [denialInForce, decisions, hm] at hp
  · rw [h.status m hm, if_pos hp]

/-- An ordinary event after all others. -/
theorem ordinary_newest {ev : LifecycleEvent} {st' : SubjectState} (h : Tracks l st)
    (hl : position l < c) (hord : ev.isDecision = false) (hla : st'.lastApplied = c)
    (hld : st'.lastDenialDecision = st.lastDenialDecision)
    (hpd : st'.permanentDenial = st.permanentDenial)
    (hst : st'.mark.status = if st.permanentDenial then .denied else ev.status)
    (htomb : st'.tombstone = decide (st'.mark.status ≠ .active))
    (hlo : st'.latestOrdinaryStatus = ev.status)
    (hstored : ∀ attrs issuer keyEpoch claimsRoot evidenceHash,
      ev = .issued attrs issuer keyEpoch claimsRoot evidenceHash → MarkAttrs.validSchema attrs = true →
      { st'.mark with status := .active } = Mark.direct attrs issuer claimsRoot evidenceHash ∧
        st'.markIssuerKeyEpoch = keyEpoch) :
    Tracks (l ++ [(c, ev)]) st' := by
  have hlat : latest (l ++ [(c, ev)]) = some (c, ev) := latest_concat_of_lt hl
  have hforce : denialInForce (l ++ [(c, ev)]) = denialInForce l := denialInForce_ordinary hord
  refine ⟨?_, ?_, ?_, by simp, ?_, ?_, ?_, ?_⟩
  · rw [hla, position_concat_of_lt hl]
  · rw [hld, h.lastDenialDecision, decisions_concat_ordinary hord]
  · rw [hpd, h.permanentDenial, hforce]
  · rintro m hm
    rw [hlat, Option.some.injEq] at hm
    rw [hforce, ← h.permanentDenial, hst, ← hm]
  · exact fun _ _ => htomb
  · rintro m hm -
    rw [hlat, Option.some.injEq] at hm
    rw [hlo, ← hm]
  · intro c' attrs issuer keyEpoch claimsRoot evidenceHash hm hv
    rw [hlat, Option.some.injEq, Prod.mk.injEq] at hm
    exact hstored attrs issuer keyEpoch claimsRoot evidenceHash hm.2 hv

theorem onIssued (h : Tracks l st) (hc : ⊥ < c) (attrs : Bytes32) (issuer : Address) (keyEpoch : U64)
    (claimsRoot evidenceHash : Bytes32) :
    Tracks (l ++ [(c, .issued attrs issuer keyEpoch claimsRoot evidenceHash)])
      (st.onIssued c attrs issuer keyEpoch claimsRoot evidenceHash) := by
  by_cases hl : position l < c
  · rw [SubjectState.onIssued, SubjectState.advance_of_lt (h.lastApplied ▸ hl)]
    have hden := h.status_denied
    apply h.ordinary_newest hl rfl
    case hstored =>
      rintro _ _ _ _ _ ⟨⟩ hv
      cases hp : st.permanentDenial <;>
        simp [hv, SubjectState.storeMark, SubjectState.setStatus, Mark.direct]
    all_goals cases hp : st.permanentDenial <;> cases hv : MarkAttrs.validSchema attrs
    all_goals simp [hp, hv, hden, LifecycleEvent.status, SubjectState.storeMark,
      SubjectState.setStatus]
  · rw [SubjectState.onIssued, SubjectState.advance_of_not_lt (h.lastApplied ▸ hl)]
    exact h.stale hc hl (by simp [LifecycleEvent.isDecision])

theorem onRevoked (h : Tracks l st) (hc : ⊥ < c) : Tracks (l ++ [(c, .revoked)]) (st.onRevoked c) := by
  by_cases hl : position l < c
  · rw [SubjectState.onRevoked, SubjectState.advance_of_lt (h.lastApplied ▸ hl)]
    refine h.ordinary_newest hl rfl rfl rfl rfl rfl ?_ rfl (by simp)
    cases hp : st.permanentDenial <;> simp [SubjectState.setStatus]
  · rw [SubjectState.onRevoked, SubjectState.advance_of_not_lt (h.lastApplied ▸ hl)]
    exact h.stale hc hl (by simp [LifecycleEvent.isDecision])

/-- A decision after all other decisions, ordinary events possibly being later. -/
theorem decision_newest {ev : LifecycleEvent} {st' : SubjectState} (h : Tracks l st) (hc : ⊥ < c)
    (hd : position (decisions l) < c) (hdec : ev.isDecision = true)
    (hla : st'.lastApplied = if position l < c then c else position l)
    (hld : st'.lastDenialDecision = c) (hpd : st'.permanentDenial = (ev == .denied))
    (hst : ∀ m, latest (l ++ [(c, ev)]) = some m →
      st'.mark.status = if ev = .denied then .denied else m.2.status)
    (htomb : st'.tombstone = decide (st'.mark.status ≠ .active))
    (hlo : st'.latestOrdinaryStatus = st.latestOrdinaryStatus)
    (hmark : { st'.mark with status := .active } = { st.mark with status := .active })
    (hkey : st'.markIssuerKeyEpoch = st.markIssuerKeyEpoch) :
    Tracks (l ++ [(c, ev)]) st' := by
  have hforce : denialInForce (l ++ [(c, ev)]) = (ev == .denied) := denialInForce_decision hdec hd
  have hold : ∀ m, latest (l ++ [(c, ev)]) = some m → m.2.isDecision = false → latest l = some m := by
    intro m hm hm'
    by_cases hl : position l < c
    · rw [latest_concat_of_lt hl, Option.some.injEq] at hm
      rw [← hm, hdec] at hm'
      cases hm'
    · rwa [latest_concat_of_not_lt hc hl] at hm
  refine ⟨?_, ?_, ?_, by simp, ?_, ?_, ?_, ?_⟩
  · rw [hla]
    split_ifs with hl
    · rw [position_concat_of_lt hl]
    · rw [position_concat_of_not_lt hc hl]
  · rw [hld, decisions_concat_decision hdec, position_concat_of_lt hd]
  · rw [hpd, hforce]
  · intro m hm
    rw [hforce, hst m hm]
    simp
  · exact fun _ _ => htomb
  · intro m hm hm'
    rw [hlo, h.ordinary m (hold m hm hm') hm']
  · intro c' attrs issuer keyEpoch claimsRoot evidenceHash hm hv
    rw [hmark, hkey]
    exact h.stored c' attrs issuer keyEpoch claimsRoot evidenceHash (hold _ hm rfl) hv

theorem decision_stale {ev : LifecycleEvent} (h : Tracks l st) (hc : ⊥ < c)
    (hd : ¬ position (decisions l) < c) : Tracks (l ++ [(c, ev)]) st :=
  h.stale hc (fun hl => hd ((position_mono (List.filter_sublist).subset).trans_lt hl)) fun _ => hd

theorem onDenied (h : Tracks l st) (hc : ⊥ < c) : Tracks (l ++ [(c, .denied)]) (st.onDenied c) := by
  by_cases hd : position (decisions l) < c
  · rw [SubjectState.onDenied,
      SubjectState.advanceDenialDecision_of_lt (h.lastDenialDecision ▸ hd)]
    have hla := h.lastApplied
    simp only
    by_cases hl : position l < c
    · rw [SubjectState.advance_of_lt (by exact hla ▸ hl)]
      apply h.decision_newest hc hd rfl <;> simp [hl, SubjectState.setStatus]
    · rw [SubjectState.advance_of_not_lt (by exact hla ▸ hl)]
      apply h.decision_newest hc hd rfl <;> simp [hl, hla, SubjectState.setStatus]
  · rw [SubjectState.onDenied,
      SubjectState.advanceDenialDecision_of_not_lt (h.lastDenialDecision ▸ hd)]
    exact h.decision_stale hc hd

theorem onDenialCorrected (h : Tracks l st) (hc : ⊥ < c) (denialRevision : U64) (correctionId : U256)
    (reasonHash : Bytes32) (proposer approver : Address) :
    Tracks (l ++ [(c, .corrected denialRevision correctionId reasonHash proposer approver)])
      (st.onDenialCorrected c denialRevision correctionId reasonHash proposer approver) := by
  by_cases hd : position (decisions l) < c
  · rw [SubjectState.onDenialCorrected,
      SubjectState.advanceDenialDecision_of_lt (h.lastDenialDecision ▸ hd)]
    have hla := h.lastApplied
    simp only
    by_cases hl : position l < c
    · have hlat : latest (l ++ [(c, .corrected denialRevision correctionId reasonHash proposer
          approver)]) = some (c, _) := latest_concat_of_lt hl
      rw [SubjectState.advance_of_lt (by exact hla ▸ hl)]
      apply h.decision_newest hc hd rfl <;>
        simp [hl, hlat, SubjectState.setStatus, LifecycleEvent.status]
    · -- the latest event is an ordinary one, after this correction
      obtain ⟨m, hm, hord⟩ := latest_not_selected (p := fun m : Event => m.2.isDecision) hd hl hc
      have hstat := h.ordinary m hm hord
      have hlat : latest (l ++ [(c, .corrected denialRevision correctionId reasonHash proposer
          approver)]) = some m := by rw [latest_concat_of_not_lt hc hl, hm]
      rw [SubjectState.advance_of_not_lt (by exact hla ▸ hl)]
      have hcases : m.2.status = .active ∨ m.2.status = .revoked ∨ m.2.status = .suspended := by
        rcases m with ⟨_, ev⟩
        cases ev <;> simp_all [LifecycleEvent.status, LifecycleEvent.isDecision]
        grind
      rcases hcases with hs | hs | hs <;> rw [hs] at hstat <;>
        apply h.decision_newest hc hd rfl <;>
        simp [hl, hla, hstat, hlat, hs, SubjectState.setStatus]
  · rw [SubjectState.onDenialCorrected,
      SubjectState.advanceDenialDecision_of_not_lt (h.lastDenialDecision ▸ hd)]
    exact h.decision_stale hc hd

/-- **Each event keeps what is tracked**, wherever it stands in source order. -/
theorem apply (h : Tracks l st) (hc : ⊥ < c) (ev : LifecycleEvent) :
    Tracks (l ++ [(c, ev)]) (st.apply c ev) := by
  cases ev with
  | issued attrs issuer keyEpoch claimsRoot evidenceHash =>
    exact h.onIssued hc attrs issuer keyEpoch claimsRoot evidenceHash
  | revoked => exact h.onRevoked hc
  | denied => exact h.onDenied hc
  | corrected denialRevision correctionId reasonHash proposer approver =>
    exact h.onDenialCorrected hc denialRevision correctionId reasonHash proposer approver

end Tracks

/-- The record of a subject after its events, in the order of delivery. -/
def delivered (l : List Event) : SubjectState := l.foldl (fun st m => st.apply m.1 m.2) .empty

theorem tracks_delivered {l : List Event} (hl : ∀ m ∈ l, ⊥ < m.1) : Tracks l (delivered l) := by
  induction l using List.reverseRecOn with
  | nil => exact .nil
  | append_singleton l m ih =>
    rw [delivered, List.foldl_concat, ← delivered]
    exact (ih fun m' hm' => hl m' (by simp [hm'])).apply (hl m (by simp)) m.2

/-! ## The fold in source order -/

/-- What a subject should be after its events in source order. -/
structure Reference where
  permanentDenial : Bool
  tombstone : Bool
  status : MarkStatus
  lastApplied : Coord
  lastDenialDecision : Coord
  /-- the mark of the last valid issuance, with its key epoch -/
  stored : Option (Mark × U64)

namespace Reference

def empty : Reference := ⟨false, false, .none, ⊥, ⊥, none⟩

/-- The status `status`, unless a denial is in force. -/
def mask (r : Reference) (c : Coord) (status : MarkStatus) : Reference :=
  let status := if r.permanentDenial then .denied else status
  { r with status, tombstone := decide (status ≠ .active), lastApplied := c }

def step (r : Reference) (m : Event) : Reference :=
  match m.2 with
  | .denied => { r with permanentDenial := true, lastDenialDecision := m.1 }.mask m.1 .denied
  | .corrected .. =>
    { r with permanentDenial := false, lastDenialDecision := m.1 }.mask m.1 .suspended
  | .revoked => r.mask m.1 .revoked
  | .issued attrs issuer keyEpoch claimsRoot evidenceHash =>
    if MarkAttrs.validSchema attrs then
      { r with stored := some (Mark.direct attrs issuer claimsRoot evidenceHash, keyEpoch) }.mask m.1
        .active
    else r.mask m.1 .suspended

end Reference

def reference (l : List Event) : Reference := l.foldl Reference.step .empty

/-- The reference after sorted events, in terms of the latest ones. -/
structure ReferenceSpec (l : List Event) (r : Reference) : Prop where
  permanentDenial : r.permanentDenial = denialInForce l
  lastApplied : r.lastApplied = position l
  lastDenialDecision : r.lastDenialDecision = position (decisions l)
  untouched : l = [] → r = .empty
  status : ∀ m, latest l = some m → r.status = if denialInForce l then .denied else m.2.status
  tombstone : ∀ m, latest l = some m → r.tombstone = decide (r.status ≠ .active)
  stored : ∀ c attrs issuer keyEpoch claimsRoot evidenceHash,
    latest l = some (c, .issued attrs issuer keyEpoch claimsRoot evidenceHash) →
    MarkAttrs.validSchema attrs = true →
    r.stored = some (Mark.direct attrs issuer claimsRoot evidenceHash, keyEpoch)

theorem ReferenceSpec.mask {l : List Event} {m : Event} {r : Reference} (hl : position l < m.1)
    (hpd : r.permanentDenial = denialInForce (l ++ [m]))
    (hld : r.lastDenialDecision = position (decisions (l ++ [m])))
    (hst : ∀ attrs issuer keyEpoch claimsRoot evidenceHash,
      m.2 = .issued attrs issuer keyEpoch claimsRoot evidenceHash →
      MarkAttrs.validSchema attrs = true →
      r.stored = some (Mark.direct attrs issuer claimsRoot evidenceHash, keyEpoch)) :
    ReferenceSpec (l ++ [m]) (r.mask m.1 m.2.status) := by
  have hlat : latest (l ++ [m]) = some m := latest_concat_of_lt hl
  refine ⟨hpd, (position_concat_of_lt hl).symm, hld, by simp, ?_, fun _ _ => rfl, ?_⟩
  · intro m' hm
    rw [hlat, Option.some.injEq] at hm
    rw [← hpd, ← hm]
    rfl
  · intro c attrs issuer keyEpoch claimsRoot evidenceHash hm hv
    rw [hlat, Option.some.injEq] at hm
    exact hst attrs issuer keyEpoch claimsRoot evidenceHash (by rw [hm]) hv

theorem ReferenceSpec.step {l : List Event} {m : Event} {r : Reference} (h : ReferenceSpec l r)
    (hl : position l < m.1) : ReferenceSpec (l ++ [m]) (r.step m) := by
  have hd : position (decisions l) < m.1 :=
    (position_mono (List.filter_sublist).subset).trans_lt hl
  obtain ⟨c, ev⟩ := m
  have hord (he : ev.isDecision = false) :
      r.permanentDenial = denialInForce (l ++ [(c, ev)]) ∧
        r.lastDenialDecision = position (decisions (l ++ [(c, ev)])) := by
    rw [denialInForce_ordinary he, decisions_concat_ordinary he]
    exact ⟨h.permanentDenial, h.lastDenialDecision⟩
  have hdec (he : ev.isDecision = true) :
      (ev == .denied) = denialInForce (l ++ [(c, ev)]) ∧
        c = position (decisions (l ++ [(c, ev)])) := by
    rw [denialInForce_decision he hd, decisions_concat_decision he, position_concat_of_lt hd]
    exact ⟨rfl, rfl⟩
  cases ev with
  | issued attrs issuer keyEpoch claimsRoot evidenceHash =>
    obtain ⟨h1, h2⟩ := hord rfl
    cases hv : MarkAttrs.validSchema attrs with
    | false =>
      have hs : LifecycleEvent.status (.issued attrs issuer keyEpoch claimsRoot evidenceHash) =
        .suspended := by simp [LifecycleEvent.status, hv]
      have := ReferenceSpec.mask (r := r) hl h1 h2 (by rintro _ _ _ _ _ ⟨⟩ hv'; simp [hv] at hv')
      simpa [Reference.step, hv, hs] using this
    | true =>
      have hs : LifecycleEvent.status (.issued attrs issuer keyEpoch claimsRoot evidenceHash) =
        .active := by simp [LifecycleEvent.status, hv]
      have := ReferenceSpec.mask
        (r := { r with stored := some (Mark.direct attrs issuer claimsRoot evidenceHash, keyEpoch) })
        hl h1 h2 (by rintro _ _ _ _ _ ⟨⟩ _; rfl)
      simpa [Reference.step, hv, hs] using this
  | revoked =>
    obtain ⟨h1, h2⟩ := hord rfl
    exact ReferenceSpec.mask hl h1 h2 (by simp)
  | denied =>
    obtain ⟨h1, h2⟩ := hdec rfl
    exact ReferenceSpec.mask (r := { r with permanentDenial := true, lastDenialDecision := c }) hl
      h1 h2 (by simp)
  | corrected denialRevision correctionId reasonHash proposer approver =>
    obtain ⟨h1, h2⟩ := hdec rfl
    exact ReferenceSpec.mask (r := { r with permanentDenial := false, lastDenialDecision := c }) hl
      h1 h2 (by simp)

theorem referenceSpec {l : List Event} (hs : l.Pairwise fun a b => a.1 < b.1)
    (hb : ∀ m ∈ l, ⊥ < m.1) : ReferenceSpec l (reference l) := by
  induction l using List.reverseRecOn with
  | nil => exact ⟨rfl, rfl, rfl, fun _ => rfl, by simp, by simp, by simp⟩
  | append_singleton l m ih =>
    rw [List.pairwise_append] at hs
    have hl : position l < m.1 := by
      rcases hm : latest l with _ | m'
      · simpa [position, hm] using hb m (by simp)
      · rw [position_of_latest hm]
        exact hs.2.2 m' (latest_mem hm) m (by simp)
    rw [reference, List.foldl_concat, ← reference]
    exact (ih hs.1 fun m' hm => hb m' (by simp [hm])).step hl

/-- The record of a subject is the reference, where the claimed fields go. -/
structure Agrees (st : SubjectState) (r : Reference) : Prop where
  permanentDenial : st.permanentDenial = r.permanentDenial
  tombstone : st.tombstone = r.tombstone
  status : st.mark.status = r.status
  lastApplied : st.lastApplied = r.lastApplied
  lastDenialDecision : st.lastDenialDecision = r.lastDenialDecision
  stored : r.status = .active → r.stored = some (st.mark, st.markIssuerKeyEpoch)

/-- **The order of delivery does not matter**: the record of a subject is the fold of
    its events in source order. -/
theorem delivered_agrees {l l' : List Event} (hp : l.Perm l')
    (hs : l'.Pairwise fun a b => a.1 < b.1) (hb : ∀ m ∈ l, ⊥ < m.1) :
    Agrees (delivered l) (reference l') := by
  have hk : (l.map Prod.fst).Nodup := by
    refine (hp.map Prod.fst).nodup_iff.2 ?_
    exact (List.pairwise_map.2 hs).imp fun h => ne_of_lt h
  have hkd : ((decisions l).map Prod.fst).Nodup := hk.sublist (List.filter_sublist.map _)
  have hpd : (decisions l).Perm (decisions l') := hp.filter _
  have hlat := latest_perm hk hp
  have hpos := position_perm hk hp
  have hposd := position_perm hkd hpd
  have hforce : denialInForce l = denialInForce l' := by
    rw [denialInForce, latest_perm hkd hpd, denialInForce]
  have t := tracks_delivered hb
  have r := referenceSpec hs fun m hm => hb m (hp.mem_iff.2 hm)
  have hnil : l = [] ↔ l' = [] := ⟨fun h => (h ▸ hp).nil_eq.symm, fun h => (h ▸ hp).eq_nil⟩
  refine ⟨?_, ?_, ?_, ?_, ?_, ?_⟩
  · rw [t.permanentDenial, r.permanentDenial, hforce]
  · rcases hm : latest l with _ | m
    · rw [t.untouched (latest_eq_none.1 hm), r.untouched (hnil.1 (latest_eq_none.1 hm))]
      rfl
    · rw [t.tombstone m hm, r.tombstone m (hlat ▸ hm), t.status m hm, r.status m (hlat ▸ hm), hforce]
  · rcases hm : latest l with _ | m
    · rw [t.untouched (latest_eq_none.1 hm), r.untouched (hnil.1 (latest_eq_none.1 hm))]
      rfl
    · rw [t.status m hm, r.status m (hlat ▸ hm), hforce]
  · rw [t.lastApplied, r.lastApplied, hpos]
  · rw [t.lastDenialDecision, r.lastDenialDecision, hposd]
  · intro ha
    rcases hm : latest l with _ | ⟨c, ev⟩
    · rw [r.untouched (hnil.1 (latest_eq_none.1 hm))] at ha
      simp [Reference.empty] at ha
    · have hr := r.status _ (hlat ▸ hm)
      have ht := t.status _ hm
      rw [ha] at hr
      cases ev with
      | issued attrs issuer keyEpoch claimsRoot evidenceHash =>
        cases hv : MarkAttrs.validSchema attrs with
        | false => grind [LifecycleEvent.status]
        | true =>
          obtain ⟨h1, h2⟩ := t.stored _ _ _ _ _ _ hm hv
          rw [hforce, ← hr] at ht
          rw [r.stored _ _ _ _ _ _ (hlat ▸ hm) hv, ← h1, ← h2, ← ht]
      | revoked => grind [LifecycleEvent.status]
      | denied => grind [LifecycleEvent.status]
      | corrected denialRevision correctionId reasonHash proposer approver =>
        grind [LifecycleEvent.status]

end Proofmark
