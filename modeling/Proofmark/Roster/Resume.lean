/-
  Resuming the replay from a checkpoint.

  The checkpoint holds the maps of the replay sorted by key, and the replay looks at them by
  key alone (`Lifecycle.Same`), so that it goes on from the checkpoint as it went on from the
  state that the checkpoint was taken of.

  `resume_eq_cold`: a run from a checkpoint, emitted by a run that may itself have been
  resumed, and a cold run to the same cutoff end with the same tree, excluded list, manifest
  and checkpoint.
-/
import Proofmark.Lib.Related
import Proofmark.Pipeline.RosterSource

namespace Proofmark

open Revert

namespace RosterSource

/-! ## The order of the maps -/

/-- The same maps. -/
structure Lifecycle.Same (m m' : Lifecycle) : Prop where
  states : InsertionMap.Same m.states m'.states
  cutoffs : InsertionMap.Same m.cutoffs m'.cutoffs

/-- The same variables. -/
structure Replay.Same (s s' : Replay) : Prop where
  lifecycle : s.lifecycle.Same s'.lifecycle
  rest : s' = { s with lifecycle := s'.lifecycle }

section
variable {m m' : Lifecycle} {s s' : Replay} {height timestamp : ℕ}

theorem Lifecycle.Same.update (h : m.Same m') (subject : Address)
    (f : LifecycleState → LifecycleState) :
    Related Lifecycle.Same (m.update subject f) (m'.update subject f) := by
  rw [Lifecycle.update, Lifecycle.update]
  have hstate : m.stateOf subject = m'.stateOf subject := by
    rw [Lifecycle.stateOf, Lifecycle.stateOf, h.states.get]
  rw [hstate]
  exact .guard (.pure ⟨h.states.set subject _, h.cutoffs⟩)

theorem Lifecycle.Same.issue (h : m.Same m') (entry : RosterEntry) (issuerKeyEpoch : ℕ) :
    Related Lifecycle.Same (m.issue height timestamp entry issuerKeyEpoch)
      (m'.issue height timestamp entry issuerKeyEpoch) := by
  rw [Lifecycle.issue, Lifecycle.issue]
  exact .guard (h.update _ _)

/-- An event does the same to the same maps. -/
theorem Lifecycle.Same.apply (h : m.Same m') (e : SourceEvent) :
    Related Lifecycle.Same (m.apply height timestamp e) (m'.apply height timestamp e) := by
  cases e
  case markIssued => exact .guard (h.issue _ _)
  case keyedMarkIssued =>
    exact .guard ((h.issue _ _).bind fun a b hab => .guard (.pure hab))
  case markRevoked =>
    rw [Lifecycle.apply, Lifecycle.apply]
    exact h.update _ _
  case sanctionDenied =>
    rw [Lifecycle.apply, Lifecycle.apply]
    exact h.update _ _
  case sanctionDenialCorrected => exact .guard (.guard (h.update _ _))
  case issuerKeyCompromised issuer issuerKeyEpoch lastTrustedBlock reasonHash =>
    refine .guard (.pure ⟨h.states, ?_⟩)
    rw [h.cutoffs.get]
    exact h.cutoffs.set _ _
  all_goals exact .pure h

variable {hash : Json → Bytes32} {view : View}

theorem Replay.Same.replayLog (h : s.Same s') (l : SnapshotLog) :
    Related Replay.Same (replayLog hash view height timestamp s l)
      (replayLog hash view height timestamp s' l) := by
  obtain ⟨hl, hrest⟩ := h
  rw [RosterSource.replayLog, RosterSource.replayLog]
  split_ifs
  · exact .pure ⟨hl, hrest⟩
  cases hlog : lifecycleOf view.source l.log with
  | error e => exact .error e e
  | ok e =>
    have he : Related Lifecycle.Same
        (e.elim (pure s.lifecycle) (s.lifecycle.apply height timestamp))
        (e.elim (pure s'.lifecycle) (s'.lifecycle.apply height timestamp)) := by
      cases e with
      | none => exact .pure hl
      | some e => exact hl.apply e
    refine he.bind fun a b hab => .pure ⟨hab, ?_⟩
    rw [hrest]

theorem Replay.Same.replayBlock (h : s.Same s') {cutoffTimestamp : ℕ} :
    Related Replay.Same (replayBlock hash view cutoffTimestamp s height)
      (replayBlock hash view cutoffTimestamp s' height) := by
  rw [RosterSource.replayBlock, RosterSource.replayBlock]
  have hparent : s'.parentHash = s.parentHash := by rw [h.rest]
  have htime : s'.previousTimestamp = s.previousTimestamp := by rw [h.rest]
  rw [hparent, htime]
  refine .guard (.guard ?_)
  refine (Related.foldlM (fun a b l _ hab => hab.replayLog l) h).bind fun a b hab => ?_
  refine .guard (.pure ⟨hab.lifecycle, ?_⟩)
  rw [hab.rest]

end

/-! ## Sorted maps -/

theorem addressLE_antisymm {a b : Address} (h : addressLE a b) (h' : addressLE b a) : a = b :=
  BitVec.eq_of_toNat_eq (Nat.le_antisymm h h')

theorem repr_inj {a b : ℕ} (h : (Nat.repr a).toList = (Nat.repr b).toList) : a = b := by
  rw [Nat.toList_repr, Nat.toList_repr] at h
  rw [← Nat.ofDigitChars_toDigits (b := 10) (n := a) (by decide) (by decide), h,
    Nat.ofDigitChars_toDigits (by decide) (by decide)]

theorem cutoffKeyLE_antisymm {a b : Address × ℕ} (h : cutoffKeyLE a b) (h' : cutoffKeyLE b a) :
    a = b := by
  rcases h with h | ⟨h1, h2⟩
  · rcases h' with h' | ⟨h1', -⟩
    · omega
    · rw [h1'] at h
      exact absurd h (Nat.lt_irrefl _)
  · rcases h' with h' | ⟨-, h2'⟩
    · rw [h1] at h'
      exact absurd h' (Nat.lt_irrefl _)
    · exact Prod.ext h1 (repr_inj (Json.charsLE_antisymm h2 h2'))

theorem cutoffKeyLE_total (a b : Address × ℕ) : cutoffKeyLE a b ∨ cutoffKeyLE b a := by
  rcases Nat.lt_trichotomy a.1.toNat b.1.toNat with h | h | h
  · exact .inl (.inl h)
  · have he := BitVec.eq_of_toNat_eq h
    rcases Json.charsLE_total (Nat.repr a.2).toList (Nat.repr b.2).toList with hl | hl
    · exact .inl (.inr ⟨he, hl⟩)
    · exact .inr (.inr ⟨he.symm, hl⟩)
  · exact .inr (.inl h)

theorem cutoffKeyLE_trans (a b c : Address × ℕ) (h : cutoffKeyLE a b) (h' : cutoffKeyLE b c) :
    cutoffKeyLE a c := by
  rcases h with h | ⟨h1, h2⟩
  · rcases h' with h' | ⟨h1', -⟩
    · exact .inl (Nat.lt_trans h h')
    · exact .inl (h1' ▸ h)
  · rcases h' with h' | ⟨h1', h2'⟩
    · exact .inl (by rw [h1]; exact h')
    · exact .inr ⟨h1.trans h1', Json.charsLE_trans h2 h2'⟩

section
variable {m m' : Lifecycle}

theorem Lifecycle.Same.sorted_states (h : m.Same m') :
    InsertionMap.sorted addressLE m.states = InsertionMap.sorted addressLE m'.states :=
  h.states.sorted_eq (fun _ _ => Nat.le_total _ _) (fun _ _ _ => Nat.le_trans)
    fun _ _ => addressLE_antisymm

theorem Lifecycle.Same.sorted_cutoffs (h : m.Same m') :
    InsertionMap.sorted cutoffKeyLE m.cutoffs = InsertionMap.sorted cutoffKeyLE m'.cutoffs :=
  h.cutoffs.sorted_eq cutoffKeyLE_total cutoffKeyLE_trans fun _ _ => cutoffKeyLE_antisymm

theorem Lifecycle.Same.exclusion (h : m.Same m') :
    exclusion m.cutoffs = exclusion m'.cutoffs := by
  funext cutoffTimestamp s
  simp only [RosterSource.exclusion, h.cutoffs.get]

variable {keccak256 : Bytes → Bytes32} {hash : Json → Bytes32} {ns : Bytes} {view : View}
  {s s' : Replay}

/-- The end of the run looks at the maps by key. -/
theorem Replay.Same.finish (h : s.Same s') (cutoffHeight : ℕ) :
    finish keccak256 hash ns view cutoffHeight s =
      finish keccak256 hash ns view cutoffHeight s' := by
  obtain ⟨hl, hrest⟩ := h
  have hcheckpoint : nextCheckpoint view cutoffHeight s = nextCheckpoint view cutoffHeight s' := by
    rw [hrest, nextCheckpoint, nextCheckpoint, hl.sorted_states, hl.sorted_cutoffs]
  have hentries : entriesOf s.lifecycle.cutoffs = entriesOf s'.lifecycle.cutoffs := by
    funext t l
    rw [entriesOf, entriesOf, hl.exclusion]
  have hexcluded : excludedOf s.lifecycle.cutoffs = excludedOf s'.lifecycle.cutoffs := by
    funext t l
    rw [excludedOf, excludedOf, hl.exclusion]
  rw [RosterSource.finish, RosterSource.finish, hcheckpoint, hentries, hexcluded, hl.sorted_states,
    hrest]

end

/-! ## What a replay leaves -/

/-- The maps pass the checks of a checkpoint. -/
structure Lifecycle.Checked (view : View) (m : Lifecycle) : Prop where
  states : (m.states.map Prod.fst).Nodup
  okStates : ∀ p ∈ m.states, stateOk view p = true
  cutoffs : (m.cutoffs.map Prod.fst).Nodup
  okCutoffs : ∀ p ∈ m.cutoffs, 1 ≤ p.1.2 ∧ p.2 ≤ MAX_SAFE_INTEGER

section
variable {view : View} {m m' : Lifecycle} {height timestamp : ℕ}

theorem Lifecycle.Checked.empty : (Lifecycle.empty).Checked view :=
  ⟨List.nodup_nil, by simp [Lifecycle.empty], List.nodup_nil, by simp [Lifecycle.empty]⟩

theorem Lifecycle.Checked.same (h : m.Checked view) : m.Same m :=
  ⟨.refl h.states, .refl h.cutoffs⟩

theorem Lifecycle.Checked.update (h : m.Checked view) {subject : Address}
    {f : LifecycleState → LifecycleState}
    (hf : ∀ s, stateOk view (subject, s) = true → stateOk view (subject, f s) = true)
    (hm : m.update subject f = .ok m') : m'.Checked view := by
  simp only [Lifecycle.update, bind_ok, revertIf_ok, pure_ok] at hm
  obtain ⟨_, -, rfl⟩ := hm
  refine ⟨InsertionMap.nodup_set h.states, fun p hp => ?_, h.cutoffs, h.okCutoffs⟩
  rcases InsertionMap.mem_set hp with rfl | ⟨hp, -⟩
  · refine hf _ ?_
    rw [Lifecycle.stateOf]
    cases hget : InsertionMap.get subject m.states with
    | none => rfl
    | some s => exact h.okStates _ ((InsertionMap.get_eq_some h.states).1 hget)
  · exact h.okStates p hp

theorem Lifecycle.Checked.issue (h : m.Checked view) (hlow : view.creation.blockNumber ≤ height)
    (hhigh : height ≤ MAX_SAFE_INTEGER) {entry : RosterEntry} {issuerKeyEpoch : ℕ}
    (hepoch : issuerKeyEpoch ≤ MAX_SAFE_INTEGER)
    (hm : m.issue height timestamp entry issuerKeyEpoch = .ok m') : m'.Checked view := by
  simp only [Lifecycle.issue, bind_ok, revertIf_ok] at hm
  obtain ⟨_, -, hm⟩ := hm
  refine h.update (fun s _ => ?_) hm
  simp [stateOk, hlow, hhigh, hepoch]

/-- **An event** keeps the checks. -/
theorem Lifecycle.Checked.apply (h : m.Checked view) (hlow : view.creation.blockNumber ≤ height)
    (hhigh : height ≤ MAX_SAFE_INTEGER) {e : SourceEvent}
    (hm : m.apply height timestamp e = .ok m') : m'.Checked view := by
  cases e <;> simp only [Lifecycle.apply, bind_ok, revertIf_ok, pure_ok] at hm
  case markIssued =>
    obtain ⟨_, -, hm⟩ := hm
    exact h.issue hlow hhigh (Nat.zero_le _) hm
  case keyedMarkIssued =>
    obtain ⟨_, -, m₁, hm, _, hepoch, rfl⟩ := hm
    exact h.issue hlow hhigh (by omega) hm
  case markRevoked =>
    refine h.update ?_ hm
    exact fun _ hs => hs
  case sanctionDenied =>
    refine h.update ?_ hm
    exact fun _ hs => hs
  case sanctionDenialCorrected =>
    obtain ⟨_, -, _, -, hm⟩ := hm
    exact h.update (fun _ _ => rfl) hm
  case issuerKeyCompromised issuer issuerKeyEpoch lastTrustedBlock reasonHash =>
    obtain ⟨_, hguard, rfl⟩ := hm
    simp only [not_or, Nat.not_lt] at hguard
    obtain ⟨-, hne, -, hlast, -⟩ := hguard
    refine ⟨h.states, h.okStates, InsertionMap.nodup_set h.cutoffs, fun p hp => ?_⟩
    rcases InsertionMap.mem_set hp with rfl | ⟨hp, -⟩
    · refine ⟨?_, ?_⟩
      · refine Nat.pos_of_ne_zero fun h0 => hne (BitVec.eq_of_toNat_eq ?_)
        exact h0
      · cases InsertionMap.get (issuer, issuerKeyEpoch.toNat) m.cutoffs with
        | none => exact hlast
        | some c => exact Nat.le_trans (Nat.min_le_right _ _) hlast
    · exact h.okCutoffs p hp
  all_goals
    rw [← hm]
    exact h

variable {hash : Json → Bytes32} {s s' : Replay} {cutoffTimestamp : ℕ}

theorem checked_replayLog (h : s.lifecycle.Checked view)
    (hlow : view.creation.blockNumber ≤ height) (hhigh : height ≤ MAX_SAFE_INTEGER)
    {l : SnapshotLog} (hs : replayLog hash view height timestamp s l = .ok s') :
    s'.lifecycle.Checked view := by
  rw [replayLog] at hs
  split_ifs at hs
  · rw [← pure_ok.1 hs]
    exact h
  simp only [bind_ok, pure_ok] at hs
  obtain ⟨e, -, m, hm, rfl⟩ := hs
  cases e with
  | none =>
    rw [← pure_ok.1 hm]
    exact h
  | some e => exact h.apply hlow hhigh hm

theorem checked_replayLogs {l : List SnapshotLog} (h : s.lifecycle.Checked view)
    (hlow : view.creation.blockNumber ≤ height) (hhigh : height ≤ MAX_SAFE_INTEGER)
    (hs : l.foldlM (replayLog hash view height timestamp) s = .ok s') :
    s'.lifecycle.Checked view := by
  induction l generalizing s with
  | nil =>
    rw [← pure_ok.1 hs]
    exact h
  | cons a l ih =>
    rw [List.foldlM_cons, bind_ok] at hs
    obtain ⟨s₁, h1, hs⟩ := hs
    exact ih (checked_replayLog h hlow hhigh h1) hs

/-- What a block leaves. -/
structure BlockSpec (view : View) (cutoffTimestamp height : ℕ) (s s' : Replay) : Prop where
  previous : s.previousTimestamp ≤ s'.previousTimestamp
  cutoff : s'.previousTimestamp ≤ cutoffTimestamp
  parentHash : s'.parentHash = (view.block height).hash
  timestamp : s'.previousTimestamp = (view.block height).timestamp

theorem replayBlock_spec (hs : replayBlock hash view cutoffTimestamp s height = .ok s') :
    BlockSpec view cutoffTimestamp height s s' := by
  simp only [replayBlock, bind_ok, revertIf_ok, pure_ok, not_or, Nat.not_lt] at hs
  obtain ⟨_, -, _, ⟨-, hprev, hcut, -⟩, s₁, -, _, -, rfl⟩ := hs
  exact ⟨hprev, hcut, rfl, rfl⟩

/-- A later cutoff changes nothing. -/
theorem replayBlock_later {later : ℕ} (hle : cutoffTimestamp ≤ later)
    (hs : replayBlock hash view cutoffTimestamp s height = .ok s') :
    replayBlock hash view later s height = .ok s' := by
  simp only [replayBlock, bind_ok, revertIf_ok, pure_ok, not_or, Nat.not_lt] at hs ⊢
  obtain ⟨_, h0, _, ⟨h1, h2, h3, h4⟩, rest⟩ := hs
  exact ⟨(), h0, (), ⟨h1, h2, Nat.le_trans h3 hle, h4⟩, rest⟩

theorem checked_replayBlock (h : s.lifecycle.Checked view)
    (hlow : view.creation.blockNumber ≤ height) (hhigh : height ≤ MAX_SAFE_INTEGER)
    (hs : replayBlock hash view cutoffTimestamp s height = .ok s') :
    s'.lifecycle.Checked view := by
  simp only [replayBlock, bind_ok, revertIf_ok, pure_ok] at hs
  obtain ⟨_, -, _, -, s₁, hlogs, _, -, rfl⟩ := hs
  have hc : s₁.lifecycle.Checked view := checked_replayLogs h hlow hhigh hlogs
  exact hc

/-- The scan of `n` blocks after `height`. -/
def scan (hash : Json → Bytes32) (view : View) (cutoffTimestamp height n : ℕ) (s : Replay) :
    Except RosterSourceError Replay :=
  (List.range' (height + 1) n).foldlM (replayBlock hash view cutoffTimestamp) s

theorem scan_succ (n : ℕ) : scan hash view cutoffTimestamp height (n + 1) s =
    scan hash view cutoffTimestamp height n s >>= fun s =>
      replayBlock hash view cutoffTimestamp s (height + n + 1) := by
  rw [scan, List.range'_concat, List.foldlM_append, scan]
  congr 1
  funext s
  have hh : height + 1 + 1 * n = height + n + 1 := by omega
  rw [hh, List.foldlM_cons]
  cases replayBlock hash view cutoffTimestamp s (height + n + 1) <;> rfl

theorem scan_append (n k : ℕ) : scan hash view cutoffTimestamp height (n + k) s =
    scan hash view cutoffTimestamp height n s >>=
      scan hash view cutoffTimestamp (height + n) k := by
  have hh : height + 1 + 1 * n = height + n + 1 := by omega
  rw [scan, ← List.range'_append, List.foldlM_append, hh]
  rfl

/-- What a scan of at least one block leaves. -/
theorem scan_spec {n : ℕ} (h : s.lifecycle.Checked view)
    (hlow : view.creation.blockNumber ≤ height + 1) (hhigh : height + n ≤ MAX_SAFE_INTEGER)
    (hs : scan hash view cutoffTimestamp height n s = .ok s') :
    s'.lifecycle.Checked view ∧ s.previousTimestamp ≤ s'.previousTimestamp ∧
      (0 < n → s'.previousTimestamp ≤ cutoffTimestamp ∧
        s'.parentHash = (view.block (height + n)).hash ∧
        s'.previousTimestamp = (view.block (height + n)).timestamp) := by
  induction n generalizing s' with
  | zero =>
    rw [← pure_ok.1 hs]
    exact ⟨h, Nat.le_refl _, fun h0 => absurd h0 (Nat.lt_irrefl 0)⟩
  | succ n ih =>
    rw [scan_succ, bind_ok] at hs
    obtain ⟨s₁, h1, hs⟩ := hs
    obtain ⟨hc, hp, -⟩ := ih (by omega) h1
    have hb := replayBlock_spec hs
    exact ⟨checked_replayBlock hc (by omega) (by omega) hs, Nat.le_trans hp hb.previous,
      fun _ => ⟨hb.cutoff, hb.parentHash, hb.timestamp⟩⟩

theorem scan_later {later n : ℕ} (hle : cutoffTimestamp ≤ later)
    (hs : scan hash view cutoffTimestamp height n s = .ok s') :
    scan hash view later height n s = .ok s' := by
  induction n generalizing s' with
  | zero => exact hs
  | succ n ih =>
    rw [scan_succ, bind_ok] at hs ⊢
    obtain ⟨s₁, h1, hs⟩ := hs
    exact ⟨s₁, ih h1, replayBlock_later hle hs⟩

end

/-! ## Emitted checkpoints -/

section
variable {keccak256 : Bytes → Bytes32} {hash : Json → Bytes32} {ns : Bytes} {view : View}
  {c c₁ : ℕ} {s s' s₁ : Replay}

/-- What a cold run to `c₁` leaves. -/
structure Reached (hash : Json → Bytes32) (view : View) (c₁ : ℕ) (s₁ : Replay) : Prop where
  safe : c₁ ≤ MAX_SAFE_INTEGER
  deployed : 1 ≤ view.creation.blockNumber ∧ view.creation.blockNumber ≤ c₁
  cutoff : validBlock (view.block c₁) = true
  anchor : validBlock (view.block (view.creation.blockNumber - 1)) = true
  replayed : scan hash view (view.block c₁).timestamp (view.creation.blockNumber - 1)
    (c₁ - (view.creation.blockNumber - 1))
    (start hash view (view.block (view.creation.blockNumber - 1)) none) = .ok s₁

theorem reached_of_cold {S : Snapshot}
    (h : buildSourceRoster keccak256 hash ns view none c₁ = .ok S) :
    ∃ s₁, Reached hash view c₁ s₁ ∧ S.checkpoint = nextCheckpoint view c₁ s₁ := by
  simp only [buildSourceRoster, bind_ok, revertIf_ok, not_or, Nat.not_lt, Bool.not_eq_false] at h
  obtain ⟨_, ⟨-, hsafe, -⟩, _, hdep, _, hcut, _, -, _, hanchor, _, -, s₁, hscan, hfin⟩ := h
  refine ⟨s₁, ⟨hsafe, hdep, hcut, hanchor, hscan⟩, ?_⟩
  simp only [finish, bind_ok, pure_ok] at hfin
  obtain ⟨tree, -, rfl⟩ := hfin
  rfl

theorem Reached.spec (h : Reached hash view c₁ s₁) :
    s₁.lifecycle.Checked view ∧ s₁.parentHash = (view.block c₁).hash ∧
      s₁.previousTimestamp = (view.block c₁).timestamp := by
  obtain ⟨hdep, hle⟩ := h.deployed
  have hsafe := h.safe
  have hheight : view.creation.blockNumber - 1 + (c₁ - (view.creation.blockNumber - 1)) = c₁ := by
    omega
  have hspec := scan_spec .empty (by omega) (by omega) h.replayed
  rw [hheight] at hspec
  obtain ⟨hchecked, -, hlast⟩ := hspec
  obtain ⟨-, hparent, htime⟩ := hlast (by omega)
  exact ⟨hchecked, hparent, htime⟩

/-- The maps of the checkpoint. -/
theorem Lifecycle.Checked.sorted {m : Lifecycle} (h : m.Checked view) :
    Lifecycle.Checked view ⟨InsertionMap.sorted addressLE m.states,
      InsertionMap.sorted cutoffKeyLE m.cutoffs⟩ := by
  have hstates : InsertionMap.Same _ (InsertionMap.sorted addressLE m.states) := .sorted h.states
  have hcutoffs : InsertionMap.Same _ (InsertionMap.sorted cutoffKeyLE m.cutoffs) :=
    .sorted h.cutoffs
  constructor
  · exact hstates.nodup'
  · exact fun p hp => h.okStates p (hstates.perm.mem_iff.2 hp)
  · exact hcutoffs.nodup'
  · exact fun p hp => h.okCutoffs p (hcutoffs.perm.mem_iff.2 hp)

/-- The checkpoint passes its checks at every later cutoff. -/
theorem Reached.checkpointOk (h : Reached hash view c₁ s₁) (hle : c₁ ≤ c) :
    checkpointOk view c (nextCheckpoint view c₁ s₁) = true := by
  have hsorted := h.spec.1.sorted
  have htime : 1 ≤ (view.block c₁).timestamp := by
    have hv := h.cutoff
    rw [validBlock, Bool.and_eq_true] at hv
    exact of_decide_eq_true hv.1
  have hstates := List.all_eq_true.2 hsorted.okStates
  simp [RosterSource.checkpointOk, nextCheckpoint, hstates, hsorted.states, hsorted.cutoffs,
    h.deployed.2, hle, htime]
  exact fun issuer epoch cutoff hp => hsorted.okCutoffs ((issuer, epoch), cutoff) hp

/-- The replay goes on from the checkpoint with the variables that it was taken of. -/
theorem Reached.same (h : Reached hash view c₁ s₁) :
    s₁.Same (start hash view (view.block c₁) (some (nextCheckpoint view c₁ s₁))) := by
  obtain ⟨hchecked, hparent, htime⟩ := h.spec
  refine ⟨⟨.sorted hchecked.states, .sorted hchecked.cutoffs⟩, ?_⟩
  simp only [start, nextCheckpoint, Option.map_some, Option.getD_some]
  rw [← hparent, ← htime]

/-- From the cutoff of the checkpoint on, both runs go alike. -/
theorem Reached.related (h : Reached hash view c₁ s₁) (hle : c₁ ≤ c)
    (hsafe : c ≤ MAX_SAFE_INTEGER) :
    Related Replay.Same
      (scan hash view (view.block c).timestamp (view.creation.blockNumber - 1)
        (c - (view.creation.blockNumber - 1))
        (start hash view (view.block (view.creation.blockNumber - 1)) none))
      (scan hash view (view.block c).timestamp c₁ (c - c₁)
        (start hash view (view.block c₁) (some (nextCheckpoint view c₁ s₁)))) := by
  obtain ⟨hdep, hle₁⟩ := h.deployed
  have hn : c - (view.creation.blockNumber - 1) =
      c₁ - (view.creation.blockNumber - 1) + (c - c₁) := by omega
  have hheight : view.creation.blockNumber - 1 + (c₁ - (view.creation.blockNumber - 1)) = c₁ := by
    omega
  rw [hn, scan_append, hheight]
  by_cases htime : (view.block c₁).timestamp ≤ (view.block c).timestamp
  · rw [scan_later htime h.replayed]
    exact Related.foldlM (fun a b i _ hab => hab.replayBlock) h.same
  -- no block after the checkpoint is as old as the cutoff
  · refine .of_ne_ok (fun s hs => ?_) fun s hs => ?_
    · obtain ⟨s₂, h2, -⟩ := bind_ok.1 hs
      obtain ⟨-, -, hlast⟩ := scan_spec .empty (by omega) (by have := h.safe; omega) h2
      rw [hheight] at hlast
      obtain ⟨hcut, -, hlast⟩ := hlast (by omega)
      exact htime (hlast ▸ hcut)
    · obtain ⟨-, hprev, hlast⟩ := scan_spec h.spec.1.sorted (by omega) (by omega) hs
      have hne : c₁ ≠ c := fun he => htime (by rw [he])
      obtain ⟨hcut, -, -⟩ := hlast (by omega)
      exact htime (Nat.le_trans hprev hcut)

theorem checkpointOk_le {cp : Checkpoint} (h : checkpointOk view c cp = true) :
    cp.blockNumber ≤ c := by
  simp only [RosterSource.checkpointOk, Bool.and_eq_true, decide_eq_true_eq] at h
  obtain ⟨⟨⟨⟨⟨⟨-, hle⟩, -⟩, -⟩, -⟩, -⟩, -⟩ := h
  exact hle

/-- What a cold run leaves depends on neither the confirmations nor the finality of its day. -/
theorem Reached.settings (h : Reached hash view c₁ s₁) (confirmations ceiling : ℕ) :
    Reached hash { view with confirmations, ceiling } c₁ s₁ :=
  ⟨h.safe, h.deployed, h.cutoff, h.anchor, h.replayed⟩

/-- A run from the checkpoint of a cold run, and a cold run. -/
theorem Reached.resume (h : Reached hash view c₁ s₁) (hle : c₁ ≤ c) :
    value? (buildSourceRoster keccak256 hash ns view none c) =
      value? (buildSourceRoster keccak256 hash ns view (some (nextCheckpoint view c₁ s₁)) c) := by
  refine Related.value? ?_
  rw [buildSourceRoster, buildSourceRoster]
  by_cases hc : c < 1 ∨ MAX_SAFE_INTEGER < c ∨ view.ceiling < c
  · rw [revertIf, if_pos hc]
    exact .error _ _
  rw [revertIf_of_not hc]
  refine .guard (.guard ?_)
  have hchecked := h.checkpointOk hle
  have hanchor : anchorOk (view.block c₁) (nextCheckpoint view c₁ s₁) = true := by
    simp [anchorOk, nextCheckpoint]
  have hblock : (nextCheckpoint view c₁ s₁).blockNumber = c₁ := rfl
  simp only [Option.map_none, Option.map_some, Option.getD_none, Option.getD_some, hblock]
  simp only [Option.any_none, Option.any_some, hchecked, hanchor, h.cutoff, h.anchor, Bool.not_true,
    Bool.true_eq_false, Bool.false_eq_true, revertIf, if_false, ok_bind]
  refine (h.related hle (by omega)).bind fun a b hab => ?_
  rw [hab.finish]
  exact .refl _

variable (keccak256 hash ns view)

/-- Checkpoints of earlier runs, under whatever confirmations and finality of their day. -/
inductive Emitted : ℕ → Checkpoint → Prop
  | cold {confirmations ceiling c : ℕ} {S : Snapshot}
      (h : buildSourceRoster keccak256 hash ns { view with confirmations, ceiling } none c =
        .ok S) : Emitted c S.checkpoint
  | resumed {confirmations ceiling c₁ c : ℕ} {cp : Checkpoint} {S : Snapshot} (hcp : Emitted c₁ cp)
      (h : buildSourceRoster keccak256 hash ns { view with confirmations, ceiling } (some cp) c =
        .ok S) : Emitted c S.checkpoint

variable {keccak256 hash ns view}

/-- A chain of runs leaves the checkpoint of a cold run. -/
theorem Emitted.reached {cp : Checkpoint} (h : Emitted keccak256 hash ns view c cp) :
    ∃ s, Reached hash view c s ∧ cp = nextCheckpoint view c s := by
  induction h with
  | cold h =>
    obtain ⟨s, hs, hcp⟩ := reached_of_cold h
    exact ⟨s, hs.settings view.confirmations view.ceiling, hcp⟩
  | @resumed confirmations ceiling c₁ c cp S hcp h ih =>
    obtain ⟨s₁, hs₁, rfl⟩ := ih
    have hle : c₁ ≤ c := by
      simp only [buildSourceRoster, bind_ok, revertIf_ok] at h
      obtain ⟨_, -, _, -, _, -, _, hchecked, -⟩ := h
      rw [Option.any_some, Bool.not_eq_true', Bool.not_eq_false] at hchecked
      exact checkpointOk_le hchecked
    have hS : value? (buildSourceRoster keccak256 hash ns { view with confirmations, ceiling } none
        c) = some S :=
      ((hs₁.settings confirmations ceiling).resume hle).trans (value?_eq_some.2 h)
    obtain ⟨s, hs, hcp⟩ := reached_of_cold (value?_eq_some.1 hS)
    exact ⟨s, hs.settings view.confirmations view.ceiling, hcp⟩

/-- **Resuming is replaying**: a run from the checkpoint of an earlier run, itself cold or
resumed, ends as a cold run to the same cutoff does, in tree, excluded list, manifest and
next checkpoint. -/
theorem resume_eq_cold {cp : Checkpoint} (hcp : Emitted keccak256 hash ns view c₁ cp)
    (hle : c₁ ≤ c) :
    value? (buildSourceRoster keccak256 hash ns view (some cp) c) =
      value? (buildSourceRoster keccak256 hash ns view none c) := by
  obtain ⟨s₁, hs₁, rfl⟩ := hcp.reached
  exact (hs₁.resume hle).symm

end

/-! ## A replay -/

def replayedLogs : ℕ → List SourceEvent
  | 2 => [.keyedMarkIssued 7 (MarkAttrs.pack 1 3 1 410 1 1500 9000 0) 3 1 11 12,
      .markIssued 8 (MarkAttrs.pack 1 3 1 410 1 1500 9000 0) 3 13 14]
  | 3 => [.issuerKeyCompromised 3 1 1 6]
  | 4 => [.sanctionDenied 8 5 1]
  | _ => []

def replayedBlock (n : ℕ) : SnapshotBlock where
  hash := BitVec.ofNat 256 (100 + n)
  parentHash := BitVec.ofNat 256 (99 + n)
  receiptsRoot := 5
  timestamp := 2000 + n
  transactions := [⟨BitVec.ofNat 256 (200 + n), 1, (replayedLogs n).map fun e => e.log 50⟩]

/-- A deployment in block 1, issuances, a key compromise and a denial. -/
def replayedView : View where
  source := 50
  chainId := 1
  deploymentTx := 201
  confirmations := 2
  ceiling := 9
  creation := ⟨1, 101, 0⟩
  block := replayedBlock

def byteHash (bs : Bytes) : Bytes32 :=
  BitVec.ofNat 256 (bs.foldl (fun n b => 31 * n + b.toNat) 7)

def built (checkpoint : Option Checkpoint) (cutoff : ℕ) : Option Snapshot :=
  value? (buildSourceRoster byteHash (fun _ => 0) [] replayedView checkpoint cutoff)

theorem resume_eq_cold_replayed : ∃ S S', built none 3 = some S ∧
    built (some S.checkpoint) 4 = some S' ∧ built none 4 = some S' ∧
      S'.excluded.length = 2 := by
  obtain ⟨S, hS⟩ := Option.isSome_iff_exists.1 (by decide +kernel : (built none 3).isSome = true)
  have hlive : ((built none 4).map fun S => S.excluded.length) = some 2 := by decide +kernel
  obtain ⟨S', hS', hlen⟩ := Option.map_eq_some_iff.1 hlive
  have hcp : Emitted byteHash (fun _ => 0) [] replayedView 3 S.checkpoint :=
    .cold (value?_eq_some.1 hS)
  have hresumed : built (some S.checkpoint) 4 = built none 4 := resume_eq_cold hcp (by decide)
  exact ⟨S, S', hS, hresumed.trans hS', hS', hlen⟩

end RosterSource

end Proofmark
