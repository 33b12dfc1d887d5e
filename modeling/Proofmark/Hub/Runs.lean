/-
  What the hub contract holds after any run.

  `accepted` lists the receipts a run accepted, in the order of acceptance, and
  `HubInv` relates the state to them: every subject is the fold of its events, every
  key cutoff the tightest one declared, every recorded epoch the publication and the
  approvals of one log, and no source coordinate is accepted twice.
-/
import Proofmark.Hub.EpochEffects
import Proofmark.Hub.SourceOrder

namespace Proofmark

open Revert Function

/-! ## Applied logs -/

/-- A log of an accepted receipt, with its position in it. -/
structure Applied where
  receipt : Receipt
  index : ℕ
  log : LogEntry

def Applied.coord (a : Applied) : Coord := ⟨a.receipt.height, a.receipt.txIndex, a.index⟩

/-- The logs of a receipt from position `i` on. -/
def Receipt.appliedFrom (r : Receipt) (i : ℕ) (logs : List LogEntry) : List Applied :=
  (logs.zipIdx i).map fun p => ⟨r, p.2, p.1⟩

def Receipt.applied (r : Receipt) : List Applied := r.appliedFrom 0 r.logs

/-- The lifecycle event of `subject` that an applied log carries. -/
def Applied.event? (source subject : Address) (a : Applied) : Option Event :=
  (a.log.lifecycle? source subject).map fun ev => (a.coord, ev)

/-- The last trusted block that an applied log declares for a key. -/
def Applied.cutoff? (source : Address) (key : Address × U64) (a : Applied) : Option U64 :=
  (a.log.compromise? source).bind fun k =>
    if (k.issuer, k.keyEpoch) = key then some k.lastTrustedBlock else none

/-- The events of a subject among applied logs. -/
def events (source subject : Address) (l : List Applied) : List Event :=
  l.filterMap (Applied.event? source subject)

/-- The cutoffs declared for a key among applied logs. -/
def cutoffs (source : Address) (key : Address × U64) (l : List Applied) : List U64 :=
  l.filterMap (Applied.cutoff? source key)

/-- The epoch record is what one epoch log and its receipt say. -/
structure Records (source : Address) (a : Applied) (st : EpochState) : Prop where
  isEpoch : LogMeaning.ofLog source a.log = .epoch
  valid : a.log.publication.Valid
  root : st.root = a.log.publication.root
  nonempty : approvers source a.log.publication.epoch a.log.publication.root a.receipt.logs ≠ []
  approved : ∀ i, st.issuerApproved i = true ↔
    i ∈ approvers source a.log.publication.epoch a.log.publication.root a.receipt.logs
  height : ∀ i, st.issuerApproved i = true → st.issuerApprovalHeight i = a.receipt.height
  keyEpoch : ∀ i, st.issuerApproved i = true → st.issuerKeyEpoch i =
    keyEpochOf source a.log.publication.epoch a.log.publication.root i a.receipt.logs

/-- The latest epoch and its bounds are those of a publication. -/
structure Shows (asc : ProofmarkASC) (p : Publication) : Prop where
  epoch : asc.latestEpoch = p.epoch
  root : (asc.epochs asc.latestEpoch).root = p.root
  validUntil : asc.epochValidUntil = p.validUntil
  sourceCutoff : asc.epochSourceCutoff = p.sourceCutoff
  publishedAt : asc.epochPublishedAt = p.publishedAt
  listVersion : asc.epochListVersion = p.listVersion
  snapshotId : asc.epochSnapshotId = p.snapshotId

/-- No epoch was accepted. -/
structure NoEpoch (asc : ProofmarkASC) : Prop where
  epoch : asc.latestEpoch = 0
  epochs : ∀ e, asc.epochs e = .empty
  validUntil : asc.epochValidUntil = 0
  sourceCutoff : asc.epochSourceCutoff = 0
  publishedAt : asc.epochPublishedAt = 0
  listVersion : asc.epochListVersion = 0
  snapshotId : asc.epochSnapshotId = 0

/-- What the applied logs `l` of `source` leave in the hub contract. -/
structure Mirrors (source : Address) (l : List Applied) (asc : ProofmarkASC) : Prop where
  subjects : ∀ subject, asc.subjects subject = delivered (events source subject l)
  issuerKeys : ∀ key, asc.issuerKeys key = (cutoffs source key l).foldl KeyCutoff.tighten ⟨false, 0⟩
  bound : ∀ a ∈ l, LogMeaning.ofLog source a.log = .epoch →
    a.log.publication.epoch ≤ asc.latestEpoch
  future : ∀ e, asc.latestEpoch < e → asc.epochs e = .empty
  recorded : ∀ e, asc.epochs e = .empty ∨
    ∃ a ∈ l, Records source a (asc.epochs e) ∧ a.log.publication.epoch = e
  latest : NoEpoch asc ∨
    ∃ a ∈ l, Records source a (asc.epochs asc.latestEpoch) ∧ Shows asc a.log.publication

/-- The part of the state that only logs change. -/
structure SameMirror (asc asc' : ProofmarkASC) : Prop where
  subjects : asc'.subjects = asc.subjects
  epochs : asc'.epochs = asc.epochs
  issuerKeys : asc'.issuerKeys = asc.issuerKeys
  latestEpoch : asc'.latestEpoch = asc.latestEpoch
  epochValidUntil : asc'.epochValidUntil = asc.epochValidUntil
  epochSourceCutoff : asc'.epochSourceCutoff = asc.epochSourceCutoff
  epochPublishedAt : asc'.epochPublishedAt = asc.epochPublishedAt
  epochListVersion : asc'.epochListVersion = asc.epochListVersion
  epochSnapshotId : asc'.epochSnapshotId = asc.epochSnapshotId

/-- The part of the state that logs never touch. -/
structure SameConfig (asc asc' : ProofmarkASC) : Prop where
  ownable : asc'.ownable = asc.ownable
  expectedChainKey : asc'.expectedChainKey = asc.expectedChainKey
  sourceContract : asc'.sourceContract = asc.sourceContract
  processedQueries : asc'.processedQueries = asc.processedQueries

theorem SameConfig.refl (asc : ProofmarkASC) : SameConfig asc asc := ⟨rfl, rfl, rfl, rfl⟩

theorem SameConfig.trans {a b c : ProofmarkASC} (h : SameConfig a b) (h' : SameConfig b c) :
    SameConfig a c :=
  ⟨h'.1.trans h.1, h'.2.trans h.2, h'.3.trans h.3, h'.4.trans h.4⟩

section
variable {asc asc' : ProofmarkASC} {now : ℕ} {receiptLogs : List LogEntry} {L : LogEntry}
  {source : Address} {l : List Applied} {a : Applied}

theorem LogEffect.sameConfig {c : Coord} (h : LogEffect now c receiptLogs L asc asc') :
    SameConfig asc asc' := by
  cases h with
  | nothing _ => exact .refl _
  | lifecycle _ => exact ⟨rfl, rfl, rfl, rfl⟩
  | compromise _ => exact ⟨rfl, rfl, rfl, rfl⟩
  | epoch _ he =>
    cases onEpoch_effect he with
    | stale _ => exact .refl _
    | accepted _ _ _ _ _ => exact ⟨rfl, rfl, rfl, rfl⟩

theorem delivered_concat (l : List Event) (m : Event) :
    delivered (l ++ [m]) = (delivered l).apply m.1 m.2 := by
  rw [delivered, List.foldl_concat, ← delivered]

namespace Mirrors

theorem empty (h : NoEpoch asc) (hs : ∀ subject, asc.subjects subject = .empty)
    (hk : ∀ key, asc.issuerKeys key = ⟨false, 0⟩) : Mirrors source [] asc :=
  ⟨hs, hk, by simp, fun e _ => h.epochs e, fun e => .inl (h.epochs e), .inl h⟩

theorem congr (h : Mirrors source l asc) (hs : SameMirror asc asc') : Mirrors source l asc' := by
  obtain ⟨h1, h2, h3, h4, h5, h6, h7, h8, h9⟩ := hs
  have hne : NoEpoch asc → NoEpoch asc' := fun hn =>
    ⟨h4 ▸ hn.1, h2 ▸ hn.2, h5 ▸ hn.3, h6 ▸ hn.4, h7 ▸ hn.5, h8 ▸ hn.6, h9 ▸ hn.7⟩
  have hsh (p : Publication) : Shows asc p → Shows asc' p := fun hs => ⟨h4 ▸ hs.1,
    by rw [h2, h4]; exact hs.2, h5 ▸ hs.3, h6 ▸ hs.4, h7 ▸ hs.5, h8 ▸ hs.6, h9 ▸ hs.7⟩
  refine ⟨h1 ▸ h.subjects, h3 ▸ h.issuerKeys, h4 ▸ h.bound, ?_, h2 ▸ h.recorded, ?_⟩
  · rw [h2, h4]; exact h.future
  · rw [h2, h4]
    rcases h.latest with hn | ⟨a, ha, hr, hs⟩
    exacts [.inl (hne hn), .inr ⟨a, ha, hr, hsh _ hs⟩]

/-- Before any log, it does not matter which contract is the source. -/
theorem change_source {source' : Address} (h : Mirrors source [] asc) : Mirrors source' [] asc := by
  refine ⟨h.subjects, h.issuerKeys, by simp, h.future, fun e => ?_, ?_⟩
  · rcases h.recorded e with he | ⟨a, ha, -⟩
    exacts [.inl he, absurd ha (by simp)]
  · rcases h.latest with he | ⟨a, ha, -⟩
    exacts [.inl he, absurd ha (by simp)]

/-- A log that is not about epochs leaves what is recorded of them. -/
theorem keep_epochs (h : Mirrors source l asc) (ha : LogMeaning.ofLog source a.log ≠ .epoch)
    (h1 : asc'.epochs = asc.epochs) (h2 : asc'.latestEpoch = asc.latestEpoch)
    (h3 : NoEpoch asc → NoEpoch asc') (h4 : ∀ p, Shows asc p → Shows asc' p)
    (hs : ∀ subject, asc'.subjects subject = delivered (events source subject (l ++ [a])))
    (hk : ∀ key, asc'.issuerKeys key =
      (cutoffs source key (l ++ [a])).foldl KeyCutoff.tighten ⟨false, 0⟩) :
    Mirrors source (l ++ [a]) asc' := by
  refine ⟨hs, hk, ?_, ?_, ?_, ?_⟩
  · intro b hb hm
    rw [h2]
    rcases List.mem_append.1 hb with hb | hb
    · exact h.bound b hb hm
    · rw [List.mem_singleton.1 hb] at hm
      exact absurd hm ha
  · rw [h1, h2]; exact h.future
  · intro e
    rw [h1]
    rcases h.recorded e with he | ⟨b, hb, hr⟩
    exacts [.inl he, .inr ⟨b, by simp [hb], hr⟩]
  · rw [h1, h2]
    rcases h.latest with he | ⟨b, hb, hr, hsh⟩
    exacts [.inl (h3 he), .inr ⟨b, by simp [hb], hr, h4 _ hsh⟩]

theorem events_concat (source subject : Address) (l : List Applied) (a : Applied) :
    events source subject (l ++ [a]) =
      events source subject l ++ (a.event? source subject).toList := by
  rw [events, List.filterMap_append, events]
  cases h : a.event? source subject <;> simp [h]

theorem cutoffs_concat (source : Address) (key : Address × U64) (l : List Applied) (a : Applied) :
    cutoffs source key (l ++ [a]) = cutoffs source key l ++ (a.cutoff? source key).toList := by
  rw [cutoffs, List.filterMap_append, cutoffs]
  cases h : a.cutoff? source key <;> simp [h]

/-- A log of another sort leaves the subjects. -/
theorem keep_subjects (h : Mirrors source l asc)
    (ha : ∀ s ev, LogMeaning.ofLog source a.log ≠ .lifecycle s ev) (subject : Address) :
    asc.subjects subject = delivered (events source subject (l ++ [a])) := by
  have hn : a.event? source subject = none := by
    rw [Applied.event?, LogEntry.lifecycle?]
    split
    · exact absurd ‹_› (ha _ _)
    · rfl
  rw [events_concat, hn, h.subjects]
  simp

/-- A log of another sort leaves the cutoffs. -/
theorem keep_cutoffs (h : Mirrors source l asc)
    (ha : ∀ k, LogMeaning.ofLog source a.log ≠ .compromise k) (key : Address × U64) :
    asc.issuerKeys key = (cutoffs source key (l ++ [a])).foldl KeyCutoff.tighten ⟨false, 0⟩ := by
  have hn : a.cutoff? source key = none := by
    rw [Applied.cutoff?, LogEntry.compromise?]
    split
    · exact absurd ‹_› (ha _)
    · rfl
  rw [cutoffs_concat, hn, h.issuerKeys]
  simp

/-- A new epoch becomes the latest one. -/
theorem accept (h : Mirrors source l asc) (ha : LogMeaning.ofLog source a.log = .epoch)
    (hsrc : asc.sourceContract = source)
    (he : EpochEffect now a.receipt.height a.receipt.logs a.log asc asc') :
    Mirrors source (l ++ [a]) asc' := by
  have hs := h.keep_subjects (a := a) (by simp [ha])
  have hk := h.keep_cutoffs (a := a) (by simp [ha])
  cases he with
  | stale hle =>
    refine ⟨hs, hk, ?_, h.future, ?_, ?_⟩
    · intro b hb hm
      rcases List.mem_append.1 hb with hb | hb
      · exact h.bound b hb hm
      · rw [List.mem_singleton.1 hb]
        exact hle
    · intro e
      rcases h.recorded e with he | ⟨b, hb, hr⟩
      exacts [.inl he, .inr ⟨b, by simp [hb], hr⟩]
    · rcases h.latest with he | ⟨b, hb, hr⟩
      exacts [.inl he, .inr ⟨b, by simp [hb], hr⟩]
  | @accepted st hlt hv _ hne hr =>
    rw [hsrc] at hne hr
    rw [h.future _ hlt] at hr
    have hrec : Records source a { st with root := a.log.publication.root } := by
      have happ : ∀ i, st.issuerApproved i = true ↔
          i ∈ approvers source a.log.publication.epoch a.log.publication.root a.receipt.logs := by
        intro i
        refine ⟨fun hi => ?_, fun hi => (hr.approved i hi).1⟩
        by_contra hn
        rw [(hr.other i hn).1] at hi
        cases hi
      exact ⟨ha, hv, rfl, hne, happ, fun i hi => (hr.approved i ((happ i).1 hi)).2.1,
        fun i hi => (hr.approved i ((happ i).1 hi)).2.2⟩
    refine ⟨hs, hk, ?_, ?_, ?_, .inr ⟨a, by simp, ?_, ?_⟩⟩
    · intro b hb hm
      rcases List.mem_append.1 hb with hb | hb
      · exact BitVec.le_trans (h.bound b hb hm) (BitVec.le_of_lt hlt)
      · rw [List.mem_singleton.1 hb]
        exact BitVec.le_refl _
    · intro e hlt'
      have hlt'' : a.log.publication.epoch < e := hlt'
      have hne' : e ≠ a.log.publication.epoch := fun he => by
        rw [he] at hlt''
        exact BitVec.lt_irrefl _ hlt''
      rw [ProofmarkASC.accept]
      simp only [update_of_ne hne']
      exact h.future e (BitVec.lt_trans hlt hlt'')
    · intro e
      by_cases hee : e = a.log.publication.epoch
      · refine .inr ⟨a, by simp, ?_, hee.symm⟩
        rw [hee, ProofmarkASC.accept]
        simpa using hrec
      · rw [ProofmarkASC.accept]
        simp only [update_of_ne hee]
        rcases h.recorded e with he | ⟨b, hb, hr⟩
        exacts [.inl he, .inr ⟨b, by simp [hb], hr⟩]
    · simpa [ProofmarkASC.accept] using hrec
    · refine ⟨rfl, ?_, rfl, rfl, rfl, rfl, rfl⟩
      simp [ProofmarkASC.accept]

/-- **One applied log**: the state keeps mirroring the logs. -/
theorem step (h : Mirrors source l asc) (hsrc : asc.sourceContract = source)
    (he : LogEffect now a.coord a.receipt.logs a.log asc asc') : Mirrors source (l ++ [a]) asc' := by
  subst hsrc
  cases he with
  | nothing hm =>
    exact h.keep_epochs (by simp [hm]) rfl rfl id (fun _ => id) (h.keep_subjects (by simp [hm]))
      (h.keep_cutoffs (by simp [hm]))
  | @lifecycle s ev hm =>
    refine h.keep_epochs (by simp [hm]) rfl rfl ?_ ?_ ?_ (h.keep_cutoffs (by simp [hm]))
    · exact fun hn => ⟨hn.1, hn.2, hn.3, hn.4, hn.5, hn.6, hn.7⟩
    · exact fun p hp => ⟨hp.1, hp.2, hp.3, hp.4, hp.5, hp.6, hp.7⟩
    · intro subject
      rw [events_concat, Applied.event?, LogEntry.lifecycle?, hm, ProofmarkASC.updateSubject]
      by_cases hs : s = subject
      · subst hs
        simp [delivered_concat, h.subjects]
      · have hs' : subject ≠ s := fun he => hs he.symm
        simp [hs, update_of_ne hs', h.subjects]
  | @compromise k hm =>
    refine h.keep_epochs (by simp [hm]) rfl rfl ?_ ?_ (h.keep_subjects (by simp [hm])) ?_
    · exact fun hn => ⟨hn.1, hn.2, hn.3, hn.4, hn.5, hn.6, hn.7⟩
    · exact fun p hp => ⟨hp.1, hp.2, hp.3, hp.4, hp.5, hp.6, hp.7⟩
    · intro key
      rw [cutoffs_concat, Applied.cutoff?, LogEntry.compromise?, hm, ProofmarkASC.declare]
      by_cases hk : (k.issuer, k.keyEpoch) = key
      · subst hk
        simp [h.issuerKeys]
      · have hk' : key ≠ (k.issuer, k.keyEpoch) := fun he => hk he.symm
        simp [hk, update_of_ne hk', h.issuerKeys]
  | epoch hm heo => exact h.accept hm rfl (onEpoch_effect heo)

end Mirrors

/-- **The logs of one receipt** keep the mirror and leave the configuration. -/
theorem applyLogs_mirrors {r : Receipt} {i : ℕ} {logs : List LogEntry}
    (h : Mirrors source l asc) (hsrc : asc.sourceContract = source)
    (hok : ProofmarkASC.applyLogs now r.height r.txIndex r.logs asc i logs = .ok asc') :
    Mirrors source (l ++ r.appliedFrom i logs) asc' ∧ SameConfig asc asc' := by
  induction logs generalizing asc i l with
  | nil =>
    rw [ProofmarkASC.applyLogs, pure_ok] at hok
    subst hok
    exact ⟨by simpa [Receipt.appliedFrom] using h, .refl _⟩
  | cons L logs ih =>
    simp only [ProofmarkASC.applyLogs, bind_ok] at hok
    obtain ⟨asc₁, h1, h2⟩ := hok
    have he := applyLog_effect h1
    have hcfg := he.sameConfig
    have hm : Mirrors source (l ++ [⟨r, i, L⟩]) asc₁ := h.step hsrc he
    obtain ⟨h3, h4⟩ := ih hm (hcfg.sourceContract.trans hsrc) h2
    exact ⟨by simpa [Receipt.appliedFrom, List.zipIdx_cons] using h3, hcfg.trans h4⟩

end

/-! ## Runs -/

/-- The id under which the hub records a source transaction. -/
def ProofmarkASC.queryId (env : HubEnv) (asc : ProofmarkASC) (r : Receipt) : Bytes32 :=
  computeQueryId env.keccak256 asc.expectedChainKey r.height r.txIndex

/-- What a successful `execute` went through. -/
structure Executed (env : HubEnv) (now : ℕ) (x : ExecuteCall) (r : Receipt)
    (asc asc' : ProofmarkASC) : Prop where
  height : r.height = x.blockHeight
  txIndex : r.txIndex = x.txIndex
  decoded : ∃ f, env.decoder.decodeReceiptFields x.encodedTransaction = some f ∧
    f.receiptStatus = 1 ∧ f.receiptLogs = r.logs
  verified : x.verifyProof = true
  chainKey : x.chainKey = asc.expectedChainKey
  configured : asc.sourceContract ≠ 0
  fresh : asc.processedQueries (asc.queryId env r) = false
  applied : ProofmarkASC.applyLogs now r.height r.txIndex r.logs
    { asc with processedQueries := update asc.processedQueries (asc.queryId env r) true } 0 r.logs =
      .ok asc'

/-- The receipt that a call asks the hub to accept. -/
def ProofmarkASC.Call.receipt? (env : HubEnv) : ProofmarkASC.Call → Option Receipt
  | .execute x => (env.decoder.decodeReceiptFields x.encodedTransaction).map fun f =>
    ⟨x.blockHeight, x.txIndex, f.receiptLogs⟩
  | _ => none

abbrev HubEntry := Machine.Entry ProofmarkASC (Msg × ProofmarkASC.Call) Unit

/-- The receipts a run accepted, in the order of acceptance. -/
def accepted (env : HubEnv) (es : List HubEntry) : List Receipt :=
  es.filterMap fun e => e.act.2.receipt? env

theorem execute_executed {env : HubEnv} {asc asc' : ProofmarkASC} {now : ℕ} {x : ExecuteCall}
    (h : asc.execute env now x = .ok asc') :
    ∃ r, (ProofmarkASC.Call.execute x).receipt? env = some r ∧ Executed env now x r asc asc' := by
  simp only [ProofmarkASC.execute, ProofmarkASC.processAndEmitEvent, bind_ok, orRevert_ok, pure_ok,
    revertIf_ok] at h
  obtain ⟨_, hfresh, _, hver, _, hsrc, _, hkey, _, -, t, -, _, -, f, hf, _, hstatus, _, happly, _, -,
    rfl⟩ := h
  rw [not_not] at hver hkey hstatus
  rw [hkey] at hfresh happly
  refine ⟨⟨x.blockHeight, x.txIndex, f.receiptLogs⟩, by simp [ProofmarkASC.Call.receipt?, hf], rfl, rfl,
    ⟨f, hf, hstatus, rfl⟩, hver, hkey, hsrc, ?_, happly⟩
  simpa [ProofmarkASC.queryId] using hfresh

/-- **The invariant of the hub contract**, after accepting the receipts `rs`. -/
structure HubInv (env : HubEnv) (rs : List Receipt) (asc : ProofmarkASC) : Prop where
  configured : rs ≠ [] → asc.sourceContract ≠ 0
  mirrors : Mirrors asc.sourceContract (rs.flatMap Receipt.applied) asc
  processed : ∀ r ∈ rs, asc.processedQueries (asc.queryId env r) = true
  distinct : (rs.map fun r => (r.height, r.txIndex)).Nodup

theorem hubInv_deployed (env : HubEnv) (owner : Address) :
    HubInv env [] (ProofmarkASC.deployed owner) :=
  ⟨fun h => absurd rfl h, .empty ⟨rfl, fun _ => rfl, rfl, rfl, rfl, rfl, rfl⟩ (fun _ => rfl)
    fun _ => rfl, by simp, by simp⟩

/-- Accepting one more receipt. -/
theorem HubInv.execute {env : HubEnv} {rs : List Receipt} {asc asc' : ProofmarkASC} {now : ℕ}
    {x : ExecuteCall} {r : Receipt} (h : HubInv env rs asc) (he : Executed env now x r asc asc') :
    HubInv env (rs ++ [r]) asc' := by
  have hmark : Mirrors asc.sourceContract (rs.flatMap Receipt.applied) { asc with
      processedQueries := update asc.processedQueries (asc.queryId env r) true } :=
    h.mirrors.congr ⟨rfl, rfl, rfl, rfl, rfl, rfl, rfl, rfl, rfl⟩
  obtain ⟨hm, hcfg⟩ := applyLogs_mirrors hmark rfl he.applied
  have hsrc : asc'.sourceContract = asc.sourceContract := hcfg.sourceContract
  have hid (r' : Receipt) : asc'.queryId env r' = asc.queryId env r' := by
    simp [ProofmarkASC.queryId, hcfg.expectedChainKey]
  refine ⟨fun _ => hsrc ▸ he.configured, ?_, ?_, ?_⟩
  · rw [hsrc, List.flatMap_append]
    simpa [Receipt.applied] using hm
  · intro r' hr'
    rw [hid, hcfg.processedQueries]
    rcases List.mem_append.1 hr' with hr' | hr'
    · by_cases heq : asc.queryId env r' = asc.queryId env r
      · simp [heq]
      · simp [update_of_ne heq, h.processed r' hr']
    · rw [List.mem_singleton.1 hr']
      simp
  · rw [List.map_append, List.nodup_append]
    refine ⟨h.distinct, by simp, ?_⟩
    rintro _ hp _ hq rfl
    obtain ⟨r', hr', hpq⟩ := List.mem_map.1 hp
    rw [List.map_singleton, List.mem_singleton, ← hpq, Prod.mk.injEq] at hq
    -- a receipt at the same coordinates has the same query id
    have heq : asc.queryId env r' = asc.queryId env r := by
      rw [ProofmarkASC.queryId, hq.1, hq.2, ProofmarkASC.queryId]
    have hproc := h.processed r' hr'
    rw [heq, he.fresh] at hproc
    cases hproc

theorem HubInv.step {env : HubEnv} {rs : List Receipt} {e : HubEntry} (h : HubInv env rs e.pre)
    (hs : (ProofmarkASC.machine env).IsStep e) :
    HubInv env (rs ++ (e.act.2.receipt? env).toList) e.post := by
  obtain ⟨asc, ⟨msg, c⟩, _, asc'⟩ := e
  have hok : asc.call env msg c = .ok asc' := by
    simp only [Machine.IsStep, ProofmarkASC.machine] at hs
    cases hc : asc.call env msg c with
    | error e => rw [hc] at hs; cases hs
    | ok s => rw [hc] at hs; cases hs; rfl
  cases c with
  | ownership c =>
    simp only [ProofmarkASC.call, bind_ok, pure_ok] at hok
    obtain ⟨o, -, rfl⟩ := hok
    have hm : Mirrors asc.sourceContract (rs.flatMap Receipt.applied) { asc with ownable := o } :=
      h.mirrors.congr ⟨rfl, rfl, rfl, rfl, rfl, rfl, rfl, rfl, rfl⟩
    have hinv : HubInv env rs { asc with ownable := o } :=
      ⟨h.configured, hm, h.processed, h.distinct⟩
    simpa [ProofmarkASC.Call.receipt?] using hinv
  | configureSource chainKey source =>
    simp only [ProofmarkASC.call, ProofmarkASC.configureSource, bind_ok, revertIf_ok, pure_ok] at hok
    obtain ⟨_, -, _, hsrc, _, hnew, _, -, rfl⟩ := hok
    have hrs : rs = [] := by
      by_contra hne
      exact hsrc (h.configured hne)
    subst hrs
    have hm : Mirrors source [] { asc with expectedChainKey := chainKey, sourceContract := source } :=
      h.mirrors.change_source.congr ⟨rfl, rfl, rfl, rfl, rfl, rfl, rfl, rfl, rfl⟩
    have hinv : HubInv env [] { asc with expectedChainKey := chainKey, sourceContract := source } :=
      ⟨fun hne => absurd rfl hne, hm, by simp, by simp⟩
    simpa [ProofmarkASC.Call.receipt?] using hinv
  | execute x =>
    obtain ⟨r, hr, hx⟩ := execute_executed hok
    rw [hr]
    exact h.execute hx

/-- **Every run keeps the invariant.** -/
theorem hubInv_run {env : HubEnv} {owner : Address} {es : List HubEntry} {asc : ProofmarkASC}
    (h : (ProofmarkASC.machine env).Run (.deployed owner) es asc) :
    HubInv env (accepted env es) asc := by
  refine h.history (H := fun es asc => HubInv env (accepted env es) asc) (hubInv_deployed env owner) ?_
  intro es e _ hinv hstep
  have hnext := hinv.step hstep
  have happ : accepted env (es ++ [e]) = accepted env es ++ (e.act.2.receipt? env).toList := by
    cases hr : e.act.2.receipt? env <;> simp [accepted, hr]
  rwa [happ]

end Proofmark
