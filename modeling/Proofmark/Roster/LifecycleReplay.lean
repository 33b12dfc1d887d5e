/-
  What the replay of the source holds.

  The replay folds the lifecycle events of the source in source order, with flags.  `Follows`
  says what it holds of a subject after its events, in terms of the latest of them, as `Tracks`
  does for the hub, and `Replays` what its maps hold after the logs of the receipts.
-/
import Proofmark.Hub.Genuine
import Proofmark.Hub.Verification
import Proofmark.Roster.Resume

namespace Proofmark

open Latest Words Revert

/-- The events of a subject other than its denials. -/
def undenied (l : List Event) : List Event := l.filter fun m => !(m.2 == .denied)

theorem undenied_concat (l : List Event) (x : Event) :
    undenied (l ++ [x]) = undenied l ++ if x.2 = .denied then [] else [x] := by
  rw [undenied, List.filter_append, undenied]
  by_cases h : x.2 = .denied <;> simp [h]

/-- While no denial is in force, the latest event is not a denial. -/
theorem latest_undenied {l : List Event} (hk : (l.map Prod.fst).Nodup)
    (h : denialInForce l = false) : latest (undenied l) = latest l := by
  rcases hm : latest l with _ | m
  · rw [latest_eq_none.1 hm]
    rfl
  · refine latest_filter_of_latest hk hm ?_
    -- a latest event that is a denial is also the latest decision
    by_contra hden
    have hden : m.2 = .denied := by simpa using hden
    have hdec : latest (decisions l) = some m := by
      refine latest_filter_of_latest hk hm ?_
      rw [hden]
      rfl
    rw [denialInForce, hdec, Option.any_some, hden] at h
    cases h

namespace RosterSource

/-- The receipts of a block. -/
def View.receipts (view : View) (height : ℕ) : List Receipt :=
  (view.block height).transactions.zipIdx.map fun t =>
    ⟨BitVec.ofNat 64 height, BitVec.ofNat 64 t.2, t.1.logs⟩

/-- The receipts of `n` blocks from `height` on. -/
def View.receiptsFrom (view : View) (height n : ℕ) : List Receipt :=
  (List.range' height n).flatMap view.receipts

/-- The receipts from the deployment up to a block. -/
def View.receiptsTo (view : View) (cutoffHeight : ℕ) : List Receipt :=
  view.receiptsFrom view.creation.blockNumber (cutoffHeight + 1 - view.creation.blockNumber)

/-- What the replay holds of a subject after its events. -/
structure Follows (subject : Address) (l : List Event) (s : LifecycleState) : Prop where
  denied : s.denied = denialInForce l
  issued : ∀ c attrs issuer keyEpoch claimsRoot evidenceHash,
    latest (undenied l) = some (c, .issued attrs issuer keyEpoch claimsRoot evidenceHash) →
    MarkAttrs.validSchema attrs = true ∧ s.revoked = false ∧
      s.entry = some ⟨subject, attrs, claimsRoot, evidenceHash, issuer⟩ ∧
      s.issuerKeyEpoch = some keyEpoch.toNat ∧ s.issueBlock = some c.height.toNat
  other : (∀ c attrs issuer keyEpoch claimsRoot evidenceHash,
    latest (undenied l) ≠ some (c, .issued attrs issuer keyEpoch claimsRoot evidenceHash)) →
    s.revoked = true ∨ s.entry = none

/-- What the maps of the replay hold after the applied logs `l`. -/
structure Replays (source : Address) (l : List Applied) (m : Lifecycle) : Prop where
  states : ∀ subject, Follows subject (events source subject l) (m.stateOf subject)
  cutoffs : ∀ issuer (keyEpoch : U64) (n : ℕ),
    (InsertionMap.get (issuer, keyEpoch.toNat) m.cutoffs).any (fun c => decide (c < n)) = true ↔
      ∃ b ∈ cutoffs source (issuer, keyEpoch) l, b.toNat < n

/-! ## One subject -/

namespace Follows

variable {subject : Address} {l : List Event} {s : LifecycleState} {c : Coord}

theorem nil : Follows subject [] ⟨false, false, none, none, none⟩ :=
  ⟨rfl, fun _ _ _ _ _ _ h => (by cases h), fun _ => .inr rfl⟩

theorem onDenied (h : Follows subject l s) (hl : position l < c) :
    Follows subject (l ++ [(c, .denied)]) { s with denied := true } := by
  have hd : position (decisions l) < c :=
    (position_mono (List.filter_sublist).subset).trans_lt hl
  have hu : undenied (l ++ [(c, .denied)]) = undenied l := by simp [undenied_concat]
  refine ⟨?_, ?_, ?_⟩
  · rw [denialInForce_decision rfl hd]
    rfl
  · rw [hu]
    exact h.issued
  · rw [hu]
    exact h.other

/-- A revocation or a correction after all others. -/
theorem closed {ev : LifecycleEvent} {s' : LifecycleState} (hl : position l < c)
    (hne : ev ≠ .denied)
    (hno : ∀ attrs issuer keyEpoch claimsRoot evidenceHash,
      ev ≠ .issued attrs issuer keyEpoch claimsRoot evidenceHash)
    (hdenied : s'.denied = denialInForce (l ++ [(c, ev)])) (hrevoked : s'.revoked = true) :
    Follows subject (l ++ [(c, ev)]) s' := by
  have hlat : latest (undenied (l ++ [(c, ev)])) = some (c, ev) := by
    rw [undenied_concat, if_neg hne]
    exact latest_concat_of_lt ((position_mono (List.filter_sublist).subset).trans_lt hl)
  refine ⟨hdenied, ?_, fun _ => .inl hrevoked⟩
  intro c' attrs issuer keyEpoch claimsRoot evidenceHash hm
  rw [hlat, Option.some.injEq, Prod.mk.injEq] at hm
  exact absurd hm.2 (hno _ _ _ _ _)

theorem onRevoked (h : Follows subject l s) (hl : position l < c) :
    Follows subject (l ++ [(c, .revoked)]) { s with revoked := true } := by
  refine closed hl (by simp) (by simp) ?_ rfl
  rw [denialInForce_ordinary rfl]
  exact h.denied

theorem onCorrected (hl : position l < c) (denialRevision : U64) (correctionId : U256)
    (reasonHash : Bytes32) (proposer approver : Address) :
    Follows subject (l ++ [(c, .corrected denialRevision correctionId reasonHash proposer approver)])
      ⟨false, true, none, none, none⟩ := by
  have hd : position (decisions l) < c :=
    (position_mono (List.filter_sublist).subset).trans_lt hl
  refine closed hl (by simp) (by simp) ?_ rfl
  rw [denialInForce_decision rfl hd]
  rfl

theorem onIssued (h : Follows subject l s) (hl : position l < c) {attrs : Bytes32} {issuer : Address}
    {keyEpoch : U64} {claimsRoot evidenceHash : Bytes32} (hv : MarkAttrs.validSchema attrs = true) :
    Follows subject (l ++ [(c, .issued attrs issuer keyEpoch claimsRoot evidenceHash)])
      { s with entry := some ⟨subject, attrs, claimsRoot, evidenceHash, issuer⟩
               issuerKeyEpoch := some keyEpoch.toNat, issueBlock := some c.height.toNat
               revoked := false } := by
  have hlat : latest (undenied (l ++ [(c, .issued attrs issuer keyEpoch claimsRoot evidenceHash)])) =
      some (c, .issued attrs issuer keyEpoch claimsRoot evidenceHash) := by
    rw [undenied_concat, if_neg (by simp)]
    exact latest_concat_of_lt ((position_mono (List.filter_sublist).subset).trans_lt hl)
  refine ⟨?_, ?_, ?_⟩
  · rw [denialInForce_ordinary rfl]
    exact h.denied
  · intro c' attrs' issuer' keyEpoch' claimsRoot' evidenceHash' hm
    rw [hlat] at hm
    cases hm
    exact ⟨hv, rfl, rfl, rfl, rfl⟩
  · intro hno
    exact absurd hlat (hno _ _ _ _ _ _)

end Follows

/-! ## One event -/

section
variable {source subject : Address} {m m' : Lifecycle} {height timestamp : ℕ} {e : SourceEvent}

theorem validSchema_of_valid {attrs : Bytes32} {now : ℕ}
    (h : validCredentialAttrs attrs (some now) = true) : MarkAttrs.validSchema attrs = true := by
  rw [← validCredentialAttrs_eq]
  simp only [validCredentialAttrs, Option.all_some, Option.all_none, Bool.and_true,
    Bool.and_eq_true] at h ⊢
  exact h.1

/-- An update touches one subject. -/
theorem update_ok {f : LifecycleState → LifecycleState} (h : m.update subject f = .ok m') :
    m'.stateOf subject = f (m.stateOf subject) ∧
      (∀ x, x ≠ subject → m'.stateOf x = m.stateOf x) ∧ m'.cutoffs = m.cutoffs := by
  simp only [Lifecycle.update, bind_ok, revertIf_ok, pure_ok] at h
  obtain ⟨_, -, rfl⟩ := h
  refine ⟨?_, fun x hx => ?_, rfl⟩
  · rw [Lifecycle.stateOf, InsertionMap.get_set_self, Option.getD_some]
  · rw [Lifecycle.stateOf, InsertionMap.get_set_of_ne hx, Lifecycle.stateOf]

theorem issue_ok {entry : RosterEntry} {issuerKeyEpoch : ℕ}
    (h : m.issue height timestamp entry issuerKeyEpoch = .ok m') :
    MarkAttrs.validSchema entry.attrs = true ∧ m.update entry.subject (fun s =>
      { s with entry := some entry, issuerKeyEpoch := some issuerKeyEpoch, issueBlock := some height
               revoked := false }) = .ok m' := by
  simp only [Lifecycle.issue, bind_ok, revertIf_ok, not_or, Bool.not_eq_false] at h
  obtain ⟨_, ⟨hv, -⟩, h⟩ := h
  exact ⟨validSchema_of_valid hv, h⟩

/-- A lifecycle event after those of its subject. -/
theorem apply_lifecycle {l : List Event} {ev : LifecycleEvent} {c : Coord}
    (h : m.apply height timestamp e = .ok m') (hm : e.meaning = .lifecycle subject ev)
    (hf : Follows subject l (m.stateOf subject)) (hl : position l < c) (hc : c.height.toNat = height) :
    Follows subject (l ++ [(c, ev)]) (m'.stateOf subject) ∧
      (∀ x, x ≠ subject → m'.stateOf x = m.stateOf x) ∧ m'.cutoffs = m.cutoffs := by
  subst hc
  cases e <;> cases hm
  case markIssued attrs issuer claimsRoot evidenceHash =>
    simp only [Lifecycle.apply, bind_ok, revertIf_ok] at h
    obtain ⟨_, -, h⟩ := h
    obtain ⟨hv, h⟩ := issue_ok h
    obtain ⟨hs, hx, hk⟩ := update_ok h
    rw [hs]
    have hnext : Follows subject (l ++ [(c, .issued attrs issuer 0 claimsRoot evidenceHash)]) _ :=
      hf.onIssued hl hv
    exact ⟨hnext, hx, hk⟩
  case keyedMarkIssued attrs issuer issuerKeyEpoch claimsRoot evidenceHash =>
    simp only [Lifecycle.apply, bind_ok, revertIf_ok, pure_ok] at h
    obtain ⟨_, -, m₁, h, _, -, rfl⟩ := h
    obtain ⟨hv, h⟩ := issue_ok h
    obtain ⟨hs, hx, hk⟩ := update_ok h
    rw [hs]
    exact ⟨hf.onIssued hl hv, hx, hk⟩
  case markRevoked =>
    rw [Lifecycle.apply] at h
    obtain ⟨hs, hx, hk⟩ := update_ok h
    rw [hs]
    exact ⟨hf.onRevoked hl, hx, hk⟩
  case sanctionDenied =>
    rw [Lifecycle.apply] at h
    obtain ⟨hs, hx, hk⟩ := update_ok h
    rw [hs]
    exact ⟨hf.onDenied hl, hx, hk⟩
  case sanctionDenialCorrected denialRevision correctionId reasonHash proposer approver =>
    simp only [Lifecycle.apply, bind_ok, revertIf_ok] at h
    obtain ⟨_, -, _, -, h⟩ := h
    obtain ⟨hs, hx, hk⟩ := update_ok h
    rw [hs]
    exact ⟨.onCorrected hl .., hx, hk⟩

/-- A compromise tightens the cutoff of its key. -/
theorem apply_compromise {k : Compromise} (h : m.apply height timestamp e = .ok m')
    (hm : e.meaning = .compromise k) : m'.states = m.states ∧
      ∀ issuer (keyEpoch : U64), InsertionMap.get (issuer, keyEpoch.toNat) m'.cutoffs =
        if (k.issuer, k.keyEpoch) = (issuer, keyEpoch) then
          some (((InsertionMap.get (issuer, keyEpoch.toNat) m.cutoffs).map
            (min · k.lastTrustedBlock.toNat)).getD k.lastTrustedBlock.toNat)
        else InsertionMap.get (issuer, keyEpoch.toNat) m.cutoffs := by
  cases e <;> cases hm
  case issuerKeyCompromised issuer issuerKeyEpoch lastTrustedBlock reasonHash =>
    simp only [Lifecycle.apply, bind_ok, revertIf_ok, pure_ok] at h
    obtain ⟨_, -, rfl⟩ := h
    refine ⟨rfl, fun issuer' keyEpoch' => ?_⟩
    by_cases hk : (issuer, issuerKeyEpoch) = (issuer', keyEpoch')
    · cases hk
      rw [if_pos rfl]
      exact InsertionMap.get_set_self
    · rw [if_neg hk]
      refine InsertionMap.get_set_of_ne fun he => hk ?_
      rw [Prod.mk.injEq] at he
      rw [he.1, BitVec.eq_of_toNat_eq he.2]

theorem apply_nothing (h : m.apply height timestamp e = .ok m')
    (hl : ∀ s ev, e.meaning ≠ .lifecycle s ev) (hk : ∀ k, e.meaning ≠ .compromise k) : m' = m := by
  cases e <;>
    first
    | exact absurd rfl (hl _ _)
    | exact absurd rfl (hk _)
    | exact (pure_ok.1 h).symm

end

/-! ## One log -/

section
variable {source : Address} {L : LogEntry}

/-- A log that the replay passes over tells the hub nothing of a subject or a key. -/
theorem meaning_of_none (h : lifecycleOf source L = .ok none) :
    (∀ s ev, LogMeaning.ofLog source L ≠ .lifecycle s ev) ∧
      ∀ k, LogMeaning.ofLog source L ≠ .compromise k := by
  have hw : ∀ t, L.topics.head? = some t → t ∉ watched := by
    intro t ht hmem
    rw [lifecycleOf, ht, if_neg (by simpa using hmem)] at h
    split at h
    · simp only [bind_ok, revertIf_ok, pure_ok] at h
      obtain ⟨_, -, h⟩ := h
      cases h
    · cases h
  have htopic : L.topics.length ≠ 0 → L.topic 0 ∉ watched := by
    intro hlen
    cases ht : L.topics with
    | nil => exact absurd (by rw [ht]; rfl) hlen
    | cons t ts =>
      have h0 : L.topic 0 = t := by simp [LogEntry.topic, ht]
      rw [h0]
      exact hw t (by rw [ht]; rfl)
  rw [LogMeaning.ofLog]
  split_ifs with h0 h1 h2 h3 h4 h5 h6 h7
  all_goals first
    | simp; done
    | rw [not_or, not_not] at h0
      have hnot := htopic h0.2
      simp_all [watched]

theorem log_of_some {e : SourceEvent} (h : lifecycleOf source L = .ok (some e)) :
    L = e.log source := by
  rw [lifecycleOf] at h
  split at h
  · simp [pure_ok] at h
  · split at h
    · simp only [bind_ok, revertIf_ok, pure_ok, not_not, Option.some.injEq] at h
      obtain ⟨_, hlog, rfl⟩ := h
      exact hlog.symm
    · cases h

theorem meaning_foreign (h : L.address_ ≠ source) : LogMeaning.ofLog source L = .nothing := by
  rw [LogMeaning.ofLog, if_pos (.inl h)]

theorem mem_cutoffs_iff {l : List Applied} {key : Address × U64} {b : U64} :
    b ∈ cutoffs source key l ↔
      ∃ a ∈ l, LogMeaning.ofLog source a.log = .compromise ⟨key.1, key.2, b⟩ := by
  simp only [cutoffs, List.mem_filterMap, Applied.cutoff?, LogEntry.compromise?,
    Option.bind_eq_some_iff]
  refine exists_congr fun a => and_congr_right fun _ => ?_
  constructor
  · rintro ⟨k, hk, hb⟩
    split at hk <;> cases hk
    rename_i hm
    split_ifs at hb with heq
    cases hb
    rw [hm, ← heq]
  · intro hm
    exact ⟨_, by rw [hm], by simp⟩

end

namespace Replays

variable {source : Address} {l : List Applied} {a : Applied} {m m' : Lifecycle}
  {height timestamp : ℕ}

theorem empty : Replays source [] .empty :=
  ⟨fun _ => .nil, fun _ _ n => by simp [InsertionMap.get, Lifecycle.empty, Proofmark.cutoffs]⟩

theorem position_lt {subject : Address} (hl : ∀ b ∈ l, b.coord < a.coord) (hbot : ⊥ < a.coord) :
    position (events source subject l) < a.coord := by
  rcases hm : latest (events source subject l) with _ | x
  · simpa [position, hm] using hbot
  · obtain ⟨b, hb, hx, -⟩ := mem_events (latest_mem hm)
    rw [position_of_latest hm, hx]
    exact hl b hb

/-- A log of another sort leaves the maps as they were. -/
theorem keep (h : Replays source l m)
    (hl : ∀ s ev, LogMeaning.ofLog source a.log ≠ .lifecycle s ev)
    (hk : ∀ k, LogMeaning.ofLog source a.log ≠ .compromise k) : Replays source (l ++ [a]) m := by
  refine ⟨fun subject => ?_, fun issuer keyEpoch n => ?_⟩
  · have hnone : a.event? source subject = none := by
      rw [Applied.event?, LogEntry.lifecycle?]
      split
      · rename_i s ev hm
        exact absurd hm (hl s ev)
      · rfl
    rw [Mirrors.events_concat, hnone, Option.toList_none, List.append_nil]
    exact h.states subject
  · have hnone : a.cutoff? source (issuer, keyEpoch) = none := by
      rw [Applied.cutoff?, LogEntry.compromise?]
      split
      · rename_i k hm
        exact absurd hm (hk k)
      · rfl
    rw [Mirrors.cutoffs_concat, hnone, Option.toList_none, List.append_nil]
    exact h.cutoffs issuer keyEpoch n

theorem event (h : Replays source l m) {e : SourceEvent} (hl : ∀ b ∈ l, b.coord < a.coord)
    (hbot : ⊥ < a.coord) (hc : a.receipt.height.toNat = height)
    (hm : LogMeaning.ofLog source a.log = e.meaning) (he : m.apply height timestamp e = .ok m') :
    Replays source (l ++ [a]) m' := by
  cases hmean : e.meaning with
  | lifecycle subject ev =>
    obtain ⟨hs, hx, hk⟩ := apply_lifecycle he hmean (h.states subject)
      (position_lt (a := a) hl hbot) hc
    refine ⟨fun x => ?_, fun issuer keyEpoch n => ?_⟩
    · rw [Mirrors.events_concat, Applied.event?, LogEntry.lifecycle?, hm, hmean]
      by_cases hxs : subject = x
      · subst hxs
        simpa using hs
      · rw [hx x (Ne.symm hxs)]
        simpa [hxs] using h.states x
    · rw [Mirrors.cutoffs_concat, Applied.cutoff?, LogEntry.compromise?, hm, hmean, hk]
      simpa using h.cutoffs issuer keyEpoch n
  | compromise k =>
    obtain ⟨hs, hk⟩ := apply_compromise he hmean
    refine ⟨fun x => ?_, fun issuer keyEpoch n => ?_⟩
    · rw [Mirrors.events_concat, Applied.event?, LogEntry.lifecycle?, hm, hmean, Lifecycle.stateOf, hs,
        ← Lifecycle.stateOf]
      simpa using h.states x
    · rw [Mirrors.cutoffs_concat, Applied.cutoff?, LogEntry.compromise?, hm, hmean, hk]
      have hold := h.cutoffs issuer keyEpoch n
      by_cases heq : (k.issuer, k.keyEpoch) = (issuer, keyEpoch)
      · rw [if_pos heq]
        simp only [Option.bind_some, if_pos heq, Option.toList_some, List.mem_append,
          List.mem_singleton, or_and_right, exists_or, exists_eq_left, ← hold]
        cases InsertionMap.get (issuer, keyEpoch.toNat) m.cutoffs <;> simp
      · rw [if_neg heq]
        simp only [Option.bind_some, if_neg heq, Option.toList_none, List.append_nil]
        exact hold
  | nothing | epoch =>
    have hkeep : m' = m := apply_nothing he (by simp [hmean]) (by simp [hmean])
    rw [hkeep]
    exact h.keep (by simp [hm, hmean]) (by simp [hm, hmean])

variable {hash : Json → Bytes32} {view : View} {s s' : Replay}

theorem log {b : SnapshotLog} (h : Replays view.source l s.lifecycle)
    (hl : ∀ b ∈ l, b.coord < a.coord) (hbot : ⊥ < a.coord) (hc : a.receipt.height.toNat = height)
    (hlog : b.log = a.log) (hs : replayLog hash view height timestamp s b = .ok s') :
    Replays view.source (l ++ [a]) s'.lifecycle := by
  rw [replayLog, hlog] at hs
  split_ifs at hs with haddr
  · rw [← pure_ok.1 hs]
    exact h.keep (by simp [meaning_foreign haddr]) (by simp [meaning_foreign haddr])
  · simp only [bind_ok, pure_ok] at hs
    obtain ⟨e, he, m, hm, rfl⟩ := hs
    cases e with
    | none =>
      obtain ⟨hnl, hnk⟩ := meaning_of_none he
      rw [← pure_ok.1 hm]
      exact h.keep hnl hnk
    | some e =>
      refine h.event hl hbot hc ?_ hm
      rw [log_of_some he]
      exact meaning_log e

theorem logs {bs : List SnapshotLog} {as : List Applied} (h : Replays view.source l s.lifecycle)
    (hlogs : bs.map SnapshotLog.log = as.map Applied.log)
    (hsorted : (l ++ as).Pairwise fun a b => a.coord < b.coord)
    (has : ∀ a ∈ as, 1 ≤ a.receipt.height ∧ a.receipt.height.toNat = height)
    (hs : bs.foldlM (replayLog hash view height timestamp) s = .ok s') :
    Replays view.source (l ++ as) s'.lifecycle := by
  induction as generalizing bs l s with
  | nil =>
    rw [List.map_nil, List.map_eq_nil_iff] at hlogs
    subst hlogs
    rw [← pure_ok.1 hs, List.append_nil]
    exact h
  | cons a as ih =>
    rw [List.map_cons, List.map_eq_cons_iff] at hlogs
    obtain ⟨b, bs, rfl, hlog, hlogs⟩ := hlogs
    rw [List.foldlM_cons, bind_ok] at hs
    obtain ⟨s₁, h1, hs⟩ := hs
    obtain ⟨hpos, hheight⟩ := has a (by simp)
    have hl : ∀ b ∈ l, b.coord < a.coord := fun b hb =>
      (List.pairwise_append.1 hsorted).2.2 b hb a (by simp)
    have hnext := h.log hl (Coord.bot_lt_of_height hpos) hheight hlog h1
    rw [List.append_cons]
    rw [List.append_cons] at hsorted
    exact ih hnext hlogs hsorted (fun a ha => has a (by simp [ha])) hs

end Replays

/-! ## Blocks -/

section
variable {view : View} {hash : Json → Bytes32} {height n cutoffTimestamp : ℕ} {s s' : Replay}

theorem map_log_applied (r : Receipt) : r.applied.map Applied.log = r.logs := by
  rw [Receipt.applied, Receipt.appliedFrom, List.map_map]
  exact List.zipIdx_map_fst 0 r.logs

theorem map_log_blockLogs (height : ℕ) (b : SnapshotBlock) (i j : ℕ) (txs : List SnapshotTx) :
    (blockLogs height b i j txs).flatten.map SnapshotLog.log = txs.flatMap SnapshotTx.logs := by
  induction txs generalizing i j with
  | nil => rfl
  | cons t txs ih =>
    have ht : (txLogs height b i j t).map SnapshotLog.log = t.logs := by
      rw [txLogs, List.map_map]
      exact List.zipIdx_map_fst j t.logs
    rw [blockLogs, List.flatten_cons, List.map_append, ih, ht, List.flatMap_cons]

theorem map_log_receipts (view : View) (height : ℕ) :
    ((view.receipts height).flatMap Receipt.applied).map Applied.log =
      (view.block height).transactions.flatMap SnapshotTx.logs := by
  have hlogs : ∀ r : Receipt, r.applied.map Applied.log = r.logs := map_log_applied
  rw [List.map_flatMap, View.receipts, List.flatMap_map]
  simp only [hlogs]
  rw [← List.flatMap_map Prod.fst, List.zipIdx_map_fst]

theorem receiptsFrom_succ (view : View) (height n : ℕ) :
    view.receiptsFrom height (n + 1) = view.receiptsFrom height n ++ view.receipts (height + n) := by
  rw [View.receiptsFrom, List.range'_concat, List.flatMap_append, View.receiptsFrom, Nat.one_mul]
  simp

theorem height_of_mem_receipts {r : Receipt} (h : r ∈ view.receipts height) :
    r.height = BitVec.ofNat 64 height := by
  obtain ⟨t, -, rfl⟩ := List.mem_map.1 h
  rfl

theorem toNat_height {r : Receipt} (hfit : height < 2 ^ 64) (h : r ∈ view.receipts height) :
    r.height.toNat = height := by
  rw [height_of_mem_receipts h, BitVec.toNat_ofNat, Nat.mod_eq_of_lt hfit]

/-- The receipts of a chain are in source order. -/
theorem before_receiptsFrom (hfit : height + n ≤ 2 ^ 64)
    (htxs : ∀ k, height ≤ k → k < height + n → (view.block k).transactions.length ≤ 2 ^ 64) :
    (view.receiptsFrom height n).Pairwise Receipt.Before := by
  refine List.pairwise_flatMap.2 ⟨fun k hk => ?_, ?_⟩
  · rw [List.mem_range'_1] at hk
    have hlen := htxs k hk.1 hk.2
    refine List.pairwise_map.2 (List.pairwise_iff_getElem.2 fun i j hi hj hij => .inr ⟨rfl, ?_⟩)
    rw [List.length_zipIdx] at hi hj
    simp only [List.getElem_zipIdx, Nat.zero_add, BitVec.lt_def, BitVec.toNat_ofNat]
    rwa [Nat.mod_eq_of_lt (by omega), Nat.mod_eq_of_lt (by omega)]
  · refine (List.pairwise_lt_range' (s := height) (n := n)).imp_of_mem ?_
    intro k k' hk hk' hlt r hr r' hr'
    rw [List.mem_range'_1] at hk hk'
    refine .inl ?_
    rw [BitVec.lt_def, toNat_height (by omega) hr, toNat_height (by omega) hr']
    exact hlt

theorem Replays.block {l : List Applied} (h : Replays view.source l s.lifecycle)
    (hheight : 1 ≤ height) (hfit : height < 2 ^ 64)
    (hsorted : (l ++ (view.receipts height).flatMap Receipt.applied).Pairwise
      fun a b => a.coord < b.coord)
    (hs : replayBlock hash view cutoffTimestamp s height = .ok s') :
    Replays view.source (l ++ (view.receipts height).flatMap Receipt.applied) s'.lifecycle := by
  simp only [replayBlock, bind_ok, revertIf_ok, pure_ok] at hs
  obtain ⟨_, -, _, -, s₁, hlogs, _, -, rfl⟩ := hs
  have hmap := (map_log_blockLogs height (view.block height) 0 0 _).trans
    (map_log_receipts view height).symm
  have hnext : Replays view.source _ s₁.lifecycle := h.logs hmap hsorted (fun a ha => ?_) hlogs
  · exact hnext
  obtain ⟨r, hr, ha⟩ := List.mem_flatMap.1 ha
  have hnat := toNat_height hfit hr
  rw [(mem_applied ha).1]
  refine ⟨?_, hnat⟩
  rw [BitVec.le_def, hnat]
  exact hheight

/-- **The scan of the blocks** holds what their receipts say. -/
theorem Replays.scan (hfit : height + 1 + n ≤ 2 ^ 64) (hempty : s.lifecycle = .empty)
    (hsorted : (view.receiptsFrom (height + 1) n).Pairwise Receipt.Before)
    (hs : scan hash view cutoffTimestamp height n s = .ok s') :
    Replays view.source ((view.receiptsFrom (height + 1) n).flatMap Receipt.applied) s'.lifecycle := by
  induction n generalizing s' with
  | zero =>
    rw [← pure_ok.1 hs, hempty]
    exact .empty
  | succ n ih =>
    rw [scan_succ, bind_ok] at hs
    obtain ⟨s₁, h1, hs⟩ := hs
    rw [receiptsFrom_succ] at hsorted
    have hh : height + n + 1 = height + 1 + n := by omega
    have happlied := pairwise_applied hsorted
    rw [receiptsFrom_succ, List.flatMap_append]
    rw [List.flatMap_append] at happlied
    rw [hh] at hs
    exact (ih (by omega) (List.pairwise_append.1 hsorted).1 h1).block (by omega) (by omega) happlied
      hs

end

end RosterSource

end Proofmark
