/-
  What an accepted epoch log does to the hub contract.

  The approvals of an epoch are the logs of the same receipt that name the epoch and
  its root.  `approvers` lists the issuers they name and `keyWords` the key epochs
  given for one issuer; the loops of `_onEpoch` succeed iff these lists are as they
  should be, and then record exactly them (`approvalLoop_ok`, `approvalLoop_total`).
-/
import Proofmark.Hub.LogEffects

namespace Proofmark

open Words Revert Function

/-! ## The approvals in a receipt -/

/-- The log is one of `source` with the given signature. -/
def LogEntry.hasSig (L : LogEntry) (source : Address) (sig : Bytes32) : Prop :=
  L.address_ = source ∧ L.topics.length ≠ 0 ∧ L.topic 0 = sig

instance (L : LogEntry) (source : Address) (sig : Bytes32) : Decidable (L.hasSig source sig) :=
  inferInstanceAs (Decidable (_ ∧ _))

/-- The issuer that a log authorises for an epoch. -/
def LogEntry.approver? (source : Address) (epoch : U32) (root : Bytes32) (L : LogEntry) :
    Option Address :=
  if L.hasSig source Sig.EPOCH_AUTH ∧ L.topic 1 = toWord epoch ∧ L.topic 2 = root then
    some (toAddress (L.topic 3)) else none

/-- The key epoch that a log gives for an issuer of an epoch. -/
def LogEntry.keyWord? (source : Address) (epoch : U32) (root : Bytes32) (issuer : Address)
    (L : LogEntry) : Option Bytes32 :=
  if L.hasSig source Sig.KEYED_EPOCH_AUTH ∧ L.topic 1 = toWord epoch ∧ L.topic 2 = root ∧
      toAddress (L.topic 3) = issuer then
    some (L.dataWord 1 0) else none

def approvers (source : Address) (epoch : U32) (root : Bytes32) (logs : List LogEntry) :
    List Address :=
  logs.filterMap (LogEntry.approver? source epoch root)

def keyWords (source : Address) (epoch : U32) (root : Bytes32) (issuer : Address)
    (logs : List LogEntry) : List Bytes32 :=
  logs.filterMap (LogEntry.keyWord? source epoch root issuer)

/-- The key epoch of an issuer: zero when none is given. -/
def keyEpochOf (source : Address) (epoch : U32) (root : Bytes32) (issuer : Address)
    (logs : List LogEntry) : U64 :=
  ((keyWords source epoch root issuer logs).getD 0 0).setWidth 64

/-- The guards that every authorization log of the receipt passes, whatever its epoch. -/
structure LogEntry.WellAuthorized (source : Address) (L : LogEntry) : Prop where
  auth : L.hasSig source Sig.EPOCH_AUTH → L.topics.length = 4 ∧ L.data.length = 0 ∧
    (L.topic 1).toNat ≤ 2 ^ 32 - 1 ∧ (L.topic 3).toNat ≤ 2 ^ 160 - 1
  keyed : L.hasSig source Sig.KEYED_EPOCH_AUTH → L.topics.length = 4 ∧ L.data.length = 32

section
variable {asc asc' : ProofmarkASC} {now : ℕ} {height : U64} {epoch : U32} {root : Bytes32}
  {issuer : Address} {receiptLogs logs : List LogEntry} {L : LogEntry}

theorem not_hasSig {source : Address} {sig : Bytes32} : ¬ L.hasSig source sig ↔
    L.address_ ≠ source ∨ L.topics.length = 0 ∨ L.topic 0 ≠ sig := by
  rw [LogEntry.hasSig]
  tauto

/-! ## The loop over the key epochs -/

/-- The inner loop ends with the only key epoch given, or the one it started with. -/
theorem keyEpochLoop_ok {k₀ k : U64} (h : asc.keyEpochLoop epoch root issuer logs k₀ = .ok k) :
    keyWords asc.sourceContract epoch root issuer logs = [] ∧ k = k₀ ∨
      ∃ w, keyWords asc.sourceContract epoch root issuer logs = [w] ∧ k₀ = 0 ∧
        k = w.setWidth 64 ∧ w ≠ 0 ∧ w.toNat ≤ 2 ^ 64 - 1 := by
  induction logs generalizing k₀ with
  | nil =>
    rw [ProofmarkASC.keyEpochLoop, pure_ok] at h
    exact .inl ⟨rfl, h.symm⟩
  | cons L logs ih =>
    rw [ProofmarkASC.keyEpochLoop] at h
    rw [keyWords, List.filterMap_cons, ← keyWords]
    split_ifs at h with h1 h2 h3 h4
    · rw [LogEntry.keyWord?, if_neg fun hc => not_hasSig.2 h1 hc.1]
      exact ih h
    · rw [LogEntry.keyWord?, if_neg (by tauto)]
      exact ih h
    · rw [LogEntry.keyWord?, if_neg (by tauto)]
      exact ih h
    · push Not at h1 h3 h4
      rw [LogEntry.keyWord?, if_pos ⟨h1, h3.1, h3.2, h4⟩]
      simp only [bind_ok, orRevert_ok, revertIf_ok, not_or, not_not, not_lt] at h
      obtain ⟨ws, hws, _, ⟨hk0, hw0, hw⟩, h⟩ := h
      rcases ih h with ⟨hn, rfl⟩ | ⟨w, hn, hz, -⟩
      · refine .inr ⟨_, by rw [hn], hk0, ?_, ?_, ?_⟩
        · rw [dataWord_of_abiWords hws]
        · rw [dataWord_of_abiWords hws]; exact hw0
        · rw [dataWord_of_abiWords hws]; exact hw
      · -- a second key epoch finds the first one already set
        refine absurd (congrArg BitVec.toNat hz) ?_
        intro h0
        rw [BitVec.toNat_setWidth, Nat.mod_eq_of_lt (by omega)] at h0
        exact hw0 (BitVec.eq_of_toNat_eq h0)

theorem keyEpochLoop_eq {k : U64} (h : asc.keyEpochLoop epoch root issuer logs 0 = .ok k) :
    k = keyEpochOf asc.sourceContract epoch root issuer logs := by
  rcases keyEpochLoop_ok h with ⟨hn, rfl⟩ | ⟨w, hn, -, rfl, -⟩ <;> simp [keyEpochOf, hn]

theorem keyEpochLoop_total {k₀ : U64} (hwell : ∀ L ∈ logs, L.WellAuthorized asc.sourceContract)
    (hkey : keyWords asc.sourceContract epoch root issuer logs = [] ∨
      k₀ = 0 ∧ ∃ w, keyWords asc.sourceContract epoch root issuer logs = [w] ∧ w ≠ 0 ∧
        w.toNat ≤ 2 ^ 64 - 1) :
    ∃ k, asc.keyEpochLoop epoch root issuer logs k₀ = .ok k := by
  induction logs generalizing k₀ with
  | nil => exact ⟨k₀, rfl⟩
  | cons L logs ih =>
    have hwell' : ∀ L ∈ logs, L.WellAuthorized asc.sourceContract := fun L hL =>
      hwell L (List.mem_cons_of_mem _ hL)
    rw [keyWords, List.filterMap_cons, ← keyWords] at hkey
    rw [ProofmarkASC.keyEpochLoop]
    split_ifs with h1 h2 h3 h4
    · rw [LogEntry.keyWord?, if_neg fun hc => not_hasSig.2 h1 hc.1] at hkey
      exact ih hwell' hkey
    · have := (hwell L (by simp)).keyed (by rw [LogEntry.hasSig]; tauto)
      tauto
    · rw [LogEntry.keyWord?, if_neg (by tauto)] at hkey
      exact ih hwell' hkey
    · rw [LogEntry.keyWord?, if_neg (by tauto)] at hkey
      exact ih hwell' hkey
    · push Not at h1 h2 h3 h4
      rw [LogEntry.keyWord?, if_pos ⟨h1, h3.1, h3.2, h4⟩] at hkey
      simp only [reduceCtorEq, List.cons.injEq, false_or] at hkey
      obtain ⟨rfl, w, ⟨hw, hn⟩, hw0, hwl⟩ := hkey
      have hlen : ¬ L.data.length < 32 := by omega
      obtain ⟨ws, hws⟩ : ∃ ws, abiWords 1 L.data = some ws := by
        simp only [abiWords, if_neg hlen]
        exact ⟨_, rfl⟩
      rw [dataWord_of_abiWords hws] at hw
      obtain ⟨k, hk⟩ : ∃ k, asc.keyEpochLoop epoch root issuer logs (w.setWidth 64) = .ok k :=
        ih hwell' (.inl hn)
      refine ⟨k, ?_⟩
      simp only [bind_ok, orRevert_ok, revertIf_ok]
      refine ⟨ws, hws, (), ?_, ?_⟩
      · rw [hw, not_or, not_or]; exact ⟨not_not.2 rfl, hw0, not_lt.2 hwl⟩
      · rw [hw]; exact hk

/-! ## The loop over the approvals -/

/-- What the outer loop does to the record of the epoch. -/
structure ApprovalsRecorded (source : Address) (height : U64) (epoch : U32) (root : Bytes32)
    (receiptLogs logs : List LogEntry) (st st' : EpochState) : Prop where
  root_eq : st'.root = st.root
  nodup : (approvers source epoch root logs).Nodup
  fresh : ∀ i ∈ approvers source epoch root logs, st.issuerApproved i = false ∧ i ≠ 0
  approved : ∀ i ∈ approvers source epoch root logs, st'.issuerApproved i = true ∧
    st'.issuerApprovalHeight i = height ∧
    st'.issuerKeyEpoch i = keyEpochOf source epoch root i receiptLogs
  other : ∀ i, i ∉ approvers source epoch root logs →
    st'.issuerApproved i = st.issuerApproved i ∧
    st'.issuerApprovalHeight i = st.issuerApprovalHeight i ∧
    st'.issuerKeyEpoch i = st.issuerKeyEpoch i

theorem approvalLoop_ok {st st' : EpochState} {n n' : ℕ}
    (h : asc.approvalLoop height epoch root receiptLogs logs st n = .ok (st', n')) :
    n' = n + (approvers asc.sourceContract epoch root logs).length ∧
      ApprovalsRecorded asc.sourceContract height epoch root receiptLogs logs st st' := by
  induction logs generalizing st n with
  | nil =>
    rw [ProofmarkASC.approvalLoop, pure_ok, Prod.mk.injEq] at h
    obtain ⟨rfl, rfl⟩ := h
    exact ⟨rfl, rfl, List.nodup_nil, by simp [approvers], by simp [approvers], by simp⟩
  | cons L logs ih =>
    rw [ProofmarkASC.approvalLoop] at h
    split_ifs at h with h1 h2 h3
    · have ha : approvers asc.sourceContract epoch root (L :: logs) =
          approvers asc.sourceContract epoch root logs := by
        rw [approvers, List.filterMap_cons, LogEntry.approver?,
          if_neg fun hc => not_hasSig.2 h1 hc.1, approvers]
      obtain ⟨hn, hr⟩ := ih h
      refine ⟨by rw [ha]; exact hn, hr.root_eq, ?_, ?_, ?_, ?_⟩ <;> rw [ha]
      exacts [hr.nodup, hr.fresh, hr.approved, hr.other]
    · have ha : approvers asc.sourceContract epoch root (L :: logs) =
          approvers asc.sourceContract epoch root logs := by
        rw [approvers, List.filterMap_cons, LogEntry.approver?, if_neg (by tauto), approvers]
      obtain ⟨hn, hr⟩ := ih h
      refine ⟨by rw [ha]; exact hn, hr.root_eq, ?_, ?_, ?_, ?_⟩ <;> rw [ha]
      exacts [hr.nodup, hr.fresh, hr.approved, hr.other]
    · push Not at h1 h3
      set i₀ := toAddress (L.topic 3) with hi₀
      have ha : approvers asc.sourceContract epoch root (L :: logs) =
          i₀ :: approvers asc.sourceContract epoch root logs := by
        rw [approvers, List.filterMap_cons, LogEntry.approver?, if_pos ⟨h1, h3⟩, approvers]
      simp only [bind_ok, revertIf_ok] at h
      obtain ⟨_, hguard, k, hk, h⟩ := h
      push Not at hguard
      obtain ⟨hn, hr⟩ := ih h
      have hnew : i₀ ∉ approvers asc.sourceContract epoch root logs := fun hm => by
        simpa using (hr.fresh i₀ hm).1
      obtain ⟨o1, o2, o3⟩ := hr.other i₀ hnew
      refine ⟨?_, hr.root_eq, ?_, ?_, ?_, ?_⟩ <;> rw [ha]
      · rw [hn, List.length_cons]; omega
      · exact List.nodup_cons.2 ⟨hnew, hr.nodup⟩
      · intro i hi
        rcases List.mem_cons.1 hi with rfl | hi
        · exact ⟨by simpa using hguard.2.1, hguard.1⟩
        · have hne : i ≠ i₀ := fun he => hnew (he ▸ hi)
          simpa [update_of_ne hne] using hr.fresh i hi
      · intro i hi
        rcases List.mem_cons.1 hi with rfl | hi
        · exact ⟨by simpa using o1, by simpa using o2, by simpa [keyEpochLoop_eq hk] using o3⟩
        · exact hr.approved i hi
      · intro i hi
        rw [List.mem_cons, not_or] at hi
        simpa [update_of_ne hi.1] using hr.other i hi.2

/-- **The outer loop goes through** a receipt whose authorization logs are well formed
    and whose approvers are distinct, new, at most 16, each with one key epoch or none. -/
theorem approvalLoop_total {st : EpochState} {n : ℕ}
    (hwell : ∀ L ∈ receiptLogs, L.WellAuthorized asc.sourceContract)
    (hlogs : ∀ L ∈ logs, L.WellAuthorized asc.sourceContract)
    (hnodup : (approvers asc.sourceContract epoch root logs).Nodup)
    (hnew : ∀ i ∈ approvers asc.sourceContract epoch root logs,
      st.issuerApproved i = false ∧ i ≠ 0)
    (hcount : n + (approvers asc.sourceContract epoch root logs).length ≤ 16)
    (hkeys : ∀ i ∈ approvers asc.sourceContract epoch root logs,
      keyWords asc.sourceContract epoch root i receiptLogs = [] ∨
        ∃ w, keyWords asc.sourceContract epoch root i receiptLogs = [w] ∧ w ≠ 0 ∧
          w.toNat ≤ 2 ^ 64 - 1) :
    ∃ r, asc.approvalLoop height epoch root receiptLogs logs st n = .ok r := by
  induction logs generalizing st n with
  | nil => exact ⟨(st, n), rfl⟩
  | cons L logs ih =>
    have hlogs' : ∀ L ∈ logs, L.WellAuthorized asc.sourceContract := fun L hL =>
      hlogs L (List.mem_cons_of_mem _ hL)
    rw [ProofmarkASC.approvalLoop]
    split_ifs with h1 h2 h3
    · have ha : approvers asc.sourceContract epoch root (L :: logs) =
          approvers asc.sourceContract epoch root logs := by
        rw [approvers, List.filterMap_cons, LogEntry.approver?,
          if_neg fun hc => not_hasSig.2 h1 hc.1, approvers]
      rw [ha] at hnodup hnew hcount hkeys
      exact ih hlogs' hnodup hnew hcount hkeys
    · have := (hlogs L (by simp)).auth (by rw [LogEntry.hasSig]; tauto)
      exfalso
      omega
    · have ha : approvers asc.sourceContract epoch root (L :: logs) =
          approvers asc.sourceContract epoch root logs := by
        rw [approvers, List.filterMap_cons, LogEntry.approver?, if_neg (by tauto), approvers]
      rw [ha] at hnodup hnew hcount hkeys
      exact ih hlogs' hnodup hnew hcount hkeys
    · push Not at h1 h3
      set i₀ := toAddress (L.topic 3) with hi₀
      have ha : approvers asc.sourceContract epoch root (L :: logs) =
          i₀ :: approvers asc.sourceContract epoch root logs := by
        rw [approvers, List.filterMap_cons, LogEntry.approver?, if_pos ⟨h1, h3⟩, approvers]
      rw [ha] at hnodup hnew hcount hkeys
      rw [List.length_cons] at hcount
      rw [List.nodup_cons] at hnodup
      obtain ⟨hi0, hi1⟩ := hnew i₀ (by simp)
      obtain ⟨k, hk⟩ : ∃ k, asc.keyEpochLoop epoch root i₀ receiptLogs 0 = .ok k := by
        refine keyEpochLoop_total hwell ?_
        rcases hkeys i₀ (by simp) with h | h
        exacts [.inl h, .inr ⟨rfl, h⟩]
      let st' : EpochState := { st with
        issuerApproved := update st.issuerApproved i₀ true
        issuerApprovalHeight := update st.issuerApprovalHeight i₀ height
        issuerKeyEpoch := update st.issuerKeyEpoch i₀ k }
      obtain ⟨r, hr⟩ : ∃ r, asc.approvalLoop height epoch root receiptLogs logs st' (n + 1) = .ok r :=
        ih hlogs' hnodup.2 (fun i hi => by
          have hne : i ≠ i₀ := fun he => hnodup.1 (he ▸ hi)
          simpa [st', update_of_ne hne] using hnew i (by simp [hi]))
        (by omega) (fun i hi => hkeys i (by simp [hi]))
      refine ⟨r, ?_⟩
      simp only [bind_ok, revertIf_ok]
      refine ⟨(), ?_, k, hk, hr⟩
      rw [not_or, not_or]
      exact ⟨hi1, by simp [hi0], by omega⟩

/-! ## The handler -/

/-- The publication that an epoch log carries. -/
def LogEntry.publication (L : LogEntry) : Publication where
  epoch := (L.topic 1).setWidth 32
  root := L.topic 2
  listVersion := (L.topic 3).setWidth 32
  validUntil := (L.dataWord 4 0).setWidth 40
  sourceCutoff := (L.dataWord 4 1).setWidth 40
  publishedAt := (L.dataWord 4 2).setWidth 40
  snapshotId := L.dataWord 4 3

/-- The hub contract after accepting an epoch whose record is `st`. -/
def ProofmarkASC.accept (asc : ProofmarkASC) (p : Publication) (st : EpochState) : ProofmarkASC :=
  { asc with
    epochs := update asc.epochs p.epoch { st with root := p.root }
    latestEpoch := p.epoch
    epochValidUntil := p.validUntil
    epochSourceCutoff := p.sourceCutoff
    epochPublishedAt := p.publishedAt
    epochListVersion := p.listVersion
    epochSnapshotId := p.snapshotId }

/-- What an epoch log does: nothing when it is stale, else it becomes the latest
    epoch, with the approvals of its receipt. -/
inductive EpochEffect (now : ℕ) (height : U64) (receiptLogs : List LogEntry) (L : LogEntry)
    (asc : ProofmarkASC) : ProofmarkASC → Prop
  | stale : L.publication.epoch ≤ asc.latestEpoch → EpochEffect now height receiptLogs L asc asc
  | accepted {st : EpochState} : asc.latestEpoch < L.publication.epoch → L.publication.Valid →
      L.publication.publishedAt.toNat ≤ now →
      approvers asc.sourceContract L.publication.epoch L.publication.root receiptLogs ≠ [] →
      ApprovalsRecorded asc.sourceContract height L.publication.epoch L.publication.root
        receiptLogs receiptLogs (asc.epochs L.publication.epoch) st →
      EpochEffect now height receiptLogs L asc (asc.accept L.publication st)

theorem onEpoch_effect (h : asc.onEpoch now height L receiptLogs = .ok asc') :
    EpochEffect now height receiptLogs L asc asc' := by
  simp only [ProofmarkASC.onEpoch, bind_ok, orRevert_ok, revertIf_ok] at h
  obtain ⟨_, -, _, hw, ws, hws, v, hv, x, hx, p, hp, _, hvalid, h⟩ := h
  rw [← dataWord_of_abiWords hws] at hv hx hp
  rw [← setWidth_of_toUInt? hv, ← setWidth_of_toUInt? hx, ← setWidth_of_toUInt? hp,
    ← dataWord_of_abiWords hws] at hvalid
  rw [← setWidth_of_toUInt? hv, ← setWidth_of_toUInt? hx, ← setWidth_of_toUInt? hp] at h
  push Not at hvalid
  split_ifs at h with hle
  · rw [← pure_ok.1 h]
    exact .stale hle
  · simp only [bind_ok, revertIf_ok, pure_ok, ← dataWord_of_abiWords hws] at h
    obtain ⟨⟨st, approved⟩, hloop, _, happroved, rfl⟩ := h
    obtain ⟨hn, hr⟩ := approvalLoop_ok hloop
    refine .accepted (BitVec.not_le.1 hle) hvalid.1 hvalid.2 (fun he => happroved ?_) hr
    rw [hn, Nat.zero_add]
    exact List.length_eq_zero_iff.2 he

/-- The guards that an epoch log passes on its own. -/
structure LogEntry.WellPublished (source : Address) (now : ℕ) (L : LogEntry) : Prop where
  address_eq : L.address_ = source
  topics_length : L.topics.length = 4
  epoch_le : (L.topic 1).toNat ≤ 2 ^ 32 - 1
  listVersion_le : (L.topic 3).toNat ≤ 2 ^ 32 - 1
  data_length : L.data.length = 128
  validUntil_lt : (L.dataWord 4 0).toNat < 2 ^ 40
  sourceCutoff_lt : (L.dataWord 4 1).toNat < 2 ^ 40
  publishedAt_lt : (L.dataWord 4 2).toNat < 2 ^ 40
  valid : L.publication.Valid
  published : L.publication.publishedAt.toNat ≤ now

theorem toUInt?_of_lt {n : ℕ} {w : Bytes32} (h : w.toNat < 2 ^ n) :
    toUInt? n w = some (w.setWidth n) := by
  rw [toUInt?, if_pos h]

/-- **The handler of an epoch log goes through** when the log is well formed and the
    approvals of its epoch are. -/
theorem onEpoch_total (hL : L.WellPublished asc.sourceContract now)
    (hloop : asc.latestEpoch < L.publication.epoch →
      approvers asc.sourceContract L.publication.epoch L.publication.root receiptLogs ≠ [] ∧
      ∃ r, asc.approvalLoop height L.publication.epoch L.publication.root receiptLogs receiptLogs
        (asc.epochs L.publication.epoch) 0 = .ok r) :
    ∃ asc', asc.onEpoch now height L receiptLogs = .ok asc' := by
  obtain ⟨ws, hws⟩ : ∃ ws, abiWords 4 L.data = some ws := by
    simp [abiWords, hL.data_length]
  have h0 := toUInt?_of_lt hL.validUntil_lt
  have h1 := toUInt?_of_lt hL.sourceCutoff_lt
  have h2 := toUInt?_of_lt hL.publishedAt_lt
  rw [dataWord_of_abiWords hws] at h0 h1 h2
  have hvalid := hL.valid
  have hpub := hL.published
  simp only [Publication.Valid, LogEntry.publication, dataWord_of_abiWords hws] at hvalid hpub
  simp only [ProofmarkASC.onEpoch, bind_ok, orRevert_ok, revertIf_ok, requireTrusted_ok]
  by_cases hle : L.publication.epoch ≤ asc.latestEpoch
  · refine ⟨asc, (), ⟨hL.address_eq, hL.topics_length⟩, (), ?_, ws, hws, _, h0, _, h1, _, h2, (),
      ?_, ?_⟩
    · have := hL.epoch_le
      have := hL.listVersion_le
      have := hL.data_length
      omega
    · rw [not_or, not_not, not_lt]
      exact ⟨hvalid, hpub⟩
    · exact if_pos hle
  · obtain ⟨hne, ⟨st, n⟩, hr⟩ := hloop (BitVec.not_le.1 hle)
    obtain ⟨hn, -⟩ := approvalLoop_ok hr
    refine ⟨asc.accept L.publication st, (), ⟨hL.address_eq, hL.topics_length⟩, (), ?_, ws, hws,
      _, h0, _, h1, _, h2, (), ?_, ?_⟩
    · have := hL.epoch_le
      have := hL.listVersion_le
      have := hL.data_length
      omega
    · rw [not_or, not_not, not_lt]
      exact ⟨hvalid, hpub⟩
    · refine (if_neg hle).trans ?_
      simp only [bind_ok, revertIf_ok, pure_ok]
      refine ⟨(st, n), hr, (), ?_, by
        simp [ProofmarkASC.accept, LogEntry.publication, dataWord_of_abiWords hws]⟩
      rw [hn, Nat.zero_add]
      exact fun h => hne (List.length_eq_zero_iff.1 h)

end

end Proofmark
