/-
  How the hub contract reads the logs of the source contract.

  `meaning_log` says what the log of each source event tells the hub, and `applyLogs_total`
  that the logs of a genuine receipt are never refused: what the source contract
  guarantees of its events implies every guard of the handlers.
-/
import Proofmark.Hub.ReceiptOrder
import Proofmark.Source.Chain

namespace Proofmark

open Words Revert Function

/-- What a source event tells the hub contract. -/
def SourceEvent.meaning : SourceEvent → LogMeaning
  | markIssued subject attrs issuer claimsRoot evidenceHash =>
    .lifecycle subject (.issued attrs issuer 0 claimsRoot evidenceHash)
  | keyedMarkIssued subject attrs issuer issuerKeyEpoch claimsRoot evidenceHash =>
    .lifecycle subject (.issued attrs issuer issuerKeyEpoch claimsRoot evidenceHash)
  | markRevoked subject _ _ => .lifecycle subject .revoked
  | sanctionDenied subject _ _ => .lifecycle subject .denied
  | sanctionDenialCorrected subject denialRevision correctionId reasonHash proposer approver =>
    .lifecycle subject (.corrected denialRevision correctionId reasonHash proposer approver)
  | rosterEpochPublished .. => .epoch
  | issuerKeyCompromised issuer issuerKeyEpoch lastTrustedBlock _ =>
    .compromise ⟨issuer, issuerKeyEpoch, lastTrustedBlock⟩
  | _ => .nothing

section
variable {self : Address}

/-- The data words of a source event are those of its log. -/
theorem dataWord_log (e : SourceEvent) {n : ℕ} (hn : n = e.words.length) (i : ℕ) :
    (e.log self).dataWord n i = e.words.getD i 0 :=
  dataWord_of_abiWords (by rw [hn]; exact abiWords_abiEncode e.words) i

theorem setWidth_toWord64 (x : U64) : (toWord x).setWidth 64 = x := setWidth_toWord x (by norm_num)

/-- **What the log of a source event means.** -/
theorem meaning_log (e : SourceEvent) : LogMeaning.ofLog self (e.log self) = e.meaning := by
  have hd := @dataWord_log self e
  cases e <;>
    simp +decide [LogMeaning.ofLog, LogEntry.topic, SourceEvent.topics, SourceEvent.meaning,
      SourceEvent.words, hd, setWidth_toWord64] at *

/-! ## Authorizations -/

theorem approver?_log (e : SourceEvent) (epoch : U32) (root : Bytes32) :
    (e.log self).approver? self epoch root = e.approver? epoch root := by
  have hw : (32 : ℕ) ≤ 256 := by norm_num
  cases e <;>
    simp +decide [LogEntry.approver?, LogEntry.hasSig, LogEntry.topic, SourceEvent.topics,
      SourceEvent.approver?, toWord_inj hw]

theorem keyWord?_log (e : SourceEvent) (epoch : U32) (root : Bytes32) (issuer : Address) :
    (e.log self).keyWord? self epoch root issuer = (e.keyEpoch? epoch root issuer).map toWord := by
  have hw : (32 : ℕ) ≤ 256 := by norm_num
  have hd := @dataWord_log self e
  cases e <;>
    simp +decide [LogEntry.keyWord?, LogEntry.hasSig, LogEntry.topic, SourceEvent.topics,
      SourceEvent.words, SourceEvent.keyEpoch?, toWord_inj hw, hd] at *

theorem toNat_toWord_le {w : ℕ} (x : BitVec w) (hw : w ≤ 256) : (toWord x).toNat ≤ 2 ^ w - 1 := by
  have := x.isLt
  rw [toNat_toWord x hw]
  omega

/-- Source events pass the guards on authorization logs. -/
theorem wellAuthorized_log (e : SourceEvent) : (e.log self).WellAuthorized self := by
  constructor
  · rintro ⟨-, -, h⟩
    cases e <;> simp +decide [LogEntry.topic, SourceEvent.topics] at h
    rename_i epoch root issuer
    exact ⟨rfl, rfl, toNat_toWord_le epoch (by norm_num), toNat_toWord_le issuer (by norm_num)⟩
  · rintro ⟨-, -, h⟩
    cases e <;> simp +decide [LogEntry.topic, SourceEvent.topics] at h
    exact ⟨rfl, by simp [SourceEvent.words]⟩

/-- The publication read from a log is the one that was emitted. -/
theorem publication_log (p : Publication) : (p.event.log self).publication = p := by
  have hd (i : ℕ) : (p.event.log self).dataWord 4 i = _ := dataWord_log p.event rfl i
  simp only [LogEntry.publication, hd]
  simp [LogEntry.topic, Publication.event, SourceEvent.topics, SourceEvent.words, setWidth_toWord]

end

/-! ## The logs of a transaction -/

section
variable {self : Address} {logs : List (TxLog self)}

theorem TxLog.meaning_log (l : TxLog self) :
    LogMeaning.ofLog self l.log = (l.own?.map SourceEvent.meaning).getD .nothing := by
  cases l with
  | own e => exact Proofmark.meaning_log e
  | foreign L hL => simp [LogMeaning.ofLog, TxLog.log, TxLog.own?, hL]

theorem TxLog.approver?_log (l : TxLog self) (epoch : U32) (root : Bytes32) :
    l.log.approver? self epoch root = l.own?.bind (SourceEvent.approver? epoch root) := by
  cases l with
  | own e => exact Proofmark.approver?_log e epoch root
  | foreign L hL => simp [LogEntry.approver?, LogEntry.hasSig, TxLog.log, TxLog.own?, hL]

theorem TxLog.keyWord?_log (l : TxLog self) (epoch : U32) (root : Bytes32) (issuer : Address) :
    l.log.keyWord? self epoch root issuer =
      (l.own?.bind (SourceEvent.keyEpoch? epoch root issuer)).map toWord := by
  cases l with
  | own e => exact Proofmark.keyWord?_log e epoch root issuer
  | foreign L hL => simp [LogEntry.keyWord?, LogEntry.hasSig, TxLog.log, TxLog.own?, hL]

theorem wellAuthorized_logs : ∀ L ∈ logs.map TxLog.log, L.WellAuthorized self := by
  intro L hL
  obtain ⟨l, -, rfl⟩ := List.mem_map.1 hL
  cases l with
  | own e => exact wellAuthorized_log e
  | foreign L hne => exact ⟨fun h => absurd h.1 hne, fun h => absurd h.1 hne⟩

theorem approvers_logs (logs : List (TxLog self)) (epoch : U32) (root : Bytes32) :
    approvers self epoch root (logs.map TxLog.log) =
      (ownEvents logs).filterMap (SourceEvent.approver? epoch root) := by
  rw [approvers, List.filterMap_map, ownEvents, List.filterMap_filterMap]
  exact List.filterMap_congr fun l _ => l.approver?_log epoch root

theorem keyWords_logs (epoch : U32) (root : Bytes32) (issuer : Address) :
    keyWords self epoch root issuer (logs.map TxLog.log) =
      ((ownEvents logs).filterMap (SourceEvent.keyEpoch? epoch root issuer)).map toWord := by
  rw [keyWords, List.filterMap_map, ownEvents, List.filterMap_filterMap, List.map_filterMap]
  exact List.filterMap_congr fun l _ => l.keyWord?_log epoch root issuer

end

/-! ## Genuine logs are never refused -/

section
variable {self : Address} {asc : ProofmarkASC} {now timestamp : ℕ} {c : Coord}
  {receiptLogs : List LogEntry}

/-- The log of a publication passes the guards of `_onEpoch`. -/
theorem wellPublished_log {p : Publication} (hs : p.event.Sound c.height timestamp)
    (hnow : timestamp ≤ now) : (p.event.log self).WellPublished self now := by
  obtain ⟨hvalid, htime⟩ := hs
  have hd (i : ℕ) : (p.event.log self).dataWord 4 i = _ := dataWord_log p.event rfl i
  have hlt (x : U40) : (toWord x).toNat < 2 ^ 40 := (toNat_toWord x (by norm_num)).symm ▸ x.isLt
  refine ⟨rfl, rfl, toNat_toWord_le p.epoch (by norm_num), toNat_toWord_le p.listVersion (by norm_num),
    by simp [Publication.event, SourceEvent.words], ?_, ?_, ?_, ?_, ?_⟩
  · rw [hd]; exact hlt p.validUntil
  · rw [hd]; exact hlt p.sourceCutoff
  · rw [hd]; exact hlt p.publishedAt
  · rw [publication_log]; exact hvalid
  · rw [publication_log, htime]; exact hnow

/-- The handler that the log of a source event goes to. -/
theorem applyLog_own (e : SourceEvent) (hsrc : asc.sourceContract = self) :
    asc.applyLog now c receiptLogs (e.log self) =
      match e with
      | .markIssued .. => asc.onIssued c (e.log self)
      | .keyedMarkIssued .. => asc.onKeyedIssued c (e.log self)
      | .markRevoked .. => asc.onTombstone c (e.log self) .revoked
      | .sanctionDenied .. => asc.onTombstone c (e.log self) .denied
      | .sanctionDenialCorrected .. => asc.onDenialCorrected c (e.log self)
      | .rosterEpochPublished .. => asc.onEpoch now c.height (e.log self) receiptLogs
      | .issuerKeyCompromised .. => asc.onKeyCompromised c.height (e.log self)
      | _ => pure asc := by
  subst hsrc
  cases e <;> simp +decide [ProofmarkASC.applyLog, LogEntry.topic, SourceEvent.topics]

theorem toWord_ne_zero {w : ℕ} {x : BitVec w} (hw : w ≤ 256) (h : x ≠ 0) : toWord x ≠ 0 := by
  intro h0
  refine h ((toWord_inj hw).1 (h0.trans ?_))
  simp [toWord]

theorem applyLog_total {l : TxLog self} (hsrc : asc.sourceContract = self)
    (hsound : ∀ e, l.own? = some e → e.Sound c.height timestamp) (hnow : timestamp ≤ now)
    (hepoch : ∀ p : Publication, l.own? = some p.event → asc.latestEpoch < p.epoch →
      approvers self p.epoch p.root receiptLogs ≠ [] ∧
        ∃ r, asc.approvalLoop c.height p.epoch p.root receiptLogs receiptLogs (asc.epochs p.epoch) 0 =
          .ok r) :
    ∃ asc', asc.applyLog now c receiptLogs l.log = .ok asc' := by
  rcases l with e | ⟨L, hL⟩
  · have hs := hsound e rfl
    rw [TxLog.log, applyLog_own e hsrc]
    cases e with
    | markIssued subject attrs issuer claimsRoot evidenceHash =>
      apply Exists.intro
      simp only [ProofmarkASC.onIssued, bind_ok, orRevert_ok, pure_ok]
      exact ⟨(), requireTrusted_ok.2 ⟨hsrc.symm, rfl⟩, _, abiWords_abiEncode [_, _], rfl⟩
    | keyedMarkIssued subject attrs issuer issuerKeyEpoch claimsRoot evidenceHash =>
      apply Exists.intro
      simp only [ProofmarkASC.onKeyedIssued, bind_ok, orRevert_ok, revertIf_ok, pure_ok]
      exact ⟨(), requireTrusted_ok.2 ⟨hsrc.symm, rfl⟩, (), by simp [SourceEvent.words], _,
        abiWords_abiEncode [_, _, _], _, toUInt?_toWord issuerKeyEpoch (by norm_num), (), hs.2.2.2, rfl⟩
    | markRevoked subject reasonCode epoch =>
      apply Exists.intro
      simp only [ProofmarkASC.onTombstone, bind_ok, pure_ok]
      exact ⟨(), requireTrusted_ok.2 ⟨hsrc.symm, rfl⟩, rfl⟩
    | sanctionDenied subject listVersion epoch =>
      apply Exists.intro
      simp only [ProofmarkASC.onTombstone, bind_ok, pure_ok]
      exact ⟨(), requireTrusted_ok.2 ⟨hsrc.symm, rfl⟩, rfl⟩
    | sanctionDenialCorrected subject denialRevision correctionId reasonHash proposer approver =>
      obtain ⟨h1, h2, h3, h4, h5, h6, h7⟩ := hs
      apply Exists.intro
      simp only [ProofmarkASC.onDenialCorrected, bind_ok, orRevert_ok, revertIf_ok, pure_ok, not_or]
      refine ⟨(), requireTrusted_ok.2 ⟨hsrc.symm, rfl⟩, (), ⟨by simp [SourceEvent.words], ?_, ?_, ?_, h3⟩,
        _, abiWords_abiEncode [_, _, _], _, toUInt?_toWord proposer (by norm_num), _,
        toUInt?_toWord approver (by norm_num), (), ⟨?_, h4, h5, h6, h7⟩, rfl⟩
      · exact not_lt.2 (toNat_toWord_le subject (by norm_num))
      · exact toWord_ne_zero (by norm_num) h2
      · exact not_lt.2 (toNat_toWord_le denialRevision (by norm_num))
      · exact (toAddress_toWord subject).symm ▸ h1
    | rosterEpochPublished epoch root listVersion validUntil sourceCutoff publishedAt snapshotId =>
      let p : Publication :=
        ⟨epoch, root, listVersion, validUntil, sourceCutoff, publishedAt, snapshotId⟩
      have hwell : (p.event.log self).WellPublished self now := wellPublished_log hs hnow
      refine onEpoch_total (hsrc ▸ hwell) fun hlt => ?_
      have hp : (p.event.log self).publication = p := publication_log p
      change asc.latestEpoch < (p.event.log self).publication.epoch at hlt
      change approvers asc.sourceContract (p.event.log self).publication.epoch
          (p.event.log self).publication.root receiptLogs ≠ [] ∧ ∃ r, asc.approvalLoop c.height
            (p.event.log self).publication.epoch (p.event.log self).publication.root receiptLogs
            receiptLogs (asc.epochs (p.event.log self).publication.epoch) 0 = .ok r
      rw [hp] at hlt ⊢
      rw [hsrc]
      exact hepoch p rfl hlt
    | issuerKeyCompromised issuer issuerKeyEpoch lastTrustedBlock reasonHash =>
      obtain ⟨h1, h2, h3, h4⟩ := hs
      have hif (b : Prop) [Decidable b] (x y : ProofmarkASC) :
          (if b then pure x else pure y : Except ASCError ProofmarkASC) = .ok (if b then x else y) := by
        split_ifs <;> rfl
      apply Exists.intro
      simp only [ProofmarkASC.onKeyCompromised, bind_ok, orRevert_ok, revertIf_ok, not_or]
      refine ⟨(), requireTrusted_ok.2 ⟨hsrc.symm, rfl⟩, (), ⟨by simp [SourceEvent.words], ?_, ?_⟩, _,
        abiWords_abiEncode [_, _], _, toUInt?_toWord lastTrustedBlock (by norm_num), (),
        ⟨?_, ?_, h3, BitVec.not_le.2 h4⟩, hif _ _ _⟩
      · exact not_lt.2 (toNat_toWord_le issuer (by norm_num))
      · exact not_lt.2 (toNat_toWord_le issuerKeyEpoch (by norm_num))
      · exact (toAddress_toWord issuer).symm ▸ h1
      · exact (setWidth_toWord64 issuerKeyEpoch).symm ▸ h2
    | _ => exact ⟨asc, rfl⟩
  · exact ⟨asc, by simp [ProofmarkASC.applyLog, TxLog.log, hsrc, hL]⟩

/-- A sound approval names a nonzero issuer. -/
theorem approver_ne_zero {events : List SourceEvent} {number : U64} {epoch : U32} {root : Bytes32}
    (hs : ∀ e ∈ events, e.Sound number timestamp) {i : Address}
    (hi : i ∈ events.filterMap (SourceEvent.approver? epoch root)) : i ≠ 0 := by
  obtain ⟨e, he, hei⟩ := List.mem_filterMap.1 hi
  have hsound := hs e he
  cases e with
  | rosterIssuerAuthorized epoch' root' issuer =>
    simp only [SourceEvent.approver?] at hei
    split_ifs at hei
    cases hei
    exact hsound
  | _ => cases hei

/-- The approvals of a publication pass the loops of `_onEpoch`. -/
theorem approvalLoop_genuine {s s' : ComplianceSource} {logs : List (TxLog self)}
    {pubs : List (Publication × List (Address × U64))} {number : U64}
    (hspec : TxSpec s s' (ownEvents logs) pubs number timestamp) (hinv : SourceInv s)
    (hsrc : asc.sourceContract = self) {p : Publication} (hp : p.event ∈ ownEvents logs)
    (hnew : asc.epochs p.epoch = .empty) (height : U64) :
    approvers self p.epoch p.root (logs.map TxLog.log) ≠ [] ∧
      ∃ r, asc.approvalLoop height p.epoch p.root (logs.map TxLog.log) (logs.map TxLog.log)
        (asc.epochs p.epoch) 0 = .ok r := by
  subst hsrc
  obtain ⟨approvals, hq⟩ := hspec.published p hp
  obtain ⟨hne, hlen, hnd, happ⟩ := hspec.approved _ hq
  have hlist := approvers_logs logs p.epoch p.root
  have heq := hlist.trans happ
  refine ⟨by rw [heq]; simpa using hne, ?_⟩
  refine approvalLoop_total wellAuthorized_logs wellAuthorized_logs (by rw [heq]; exact hnd)
    (fun i hi => ?_) (by rw [heq]; simpa using hlen) fun i _ => ?_
  · rw [hlist] at hi
    exact ⟨by rw [hnew]; rfl, approver_ne_zero (hspec.sound hinv).2 hi⟩
  · rw [keyWords_logs, hspec.keyed _ hq i]
    have hone := length_filter_issuer hnd i
    dsimp only at hone ⊢
    rcases hf : keyedApprovals approvals i with _ | ⟨a, l⟩
    · exact .inl rfl
    · rw [hf] at hone
      have hl : l = [] := List.eq_nil_of_length_eq_zero (by simpa using hone)
      have ha : a ∈ keyedApprovals approvals i := by rw [hf]; simp
      have hk : a.2 ≠ 0 := by
        have := (List.mem_filter.1 ha).2
        simp only [decide_eq_true_eq] at this
        exact this.2
      refine .inr ⟨toWord a.2, by rw [hl]; rfl, toWord_ne_zero (by norm_num) hk, ?_⟩
      exact toNat_toWord_le a.2 (by norm_num)

/-- **The logs of a genuine receipt are never refused.** -/
theorem applyLogs_total {s s' : ComplianceSource} {logs : List (TxLog self)}
    {pubs : List (Publication × List (Address × U64))} {r : Receipt}
    (hspec : TxSpec s s' (ownEvents logs) pubs r.height timestamp) (hinv : SourceInv s)
    (hr : r.logs = logs.map TxLog.log) (hnow : timestamp ≤ now) {rest : List (TxLog self)} {i : ℕ}
    {l : List Applied} (hrest : rest ⊆ logs) (hsrc : asc.sourceContract = self)
    (hm : Mirrors self l asc) :
    ∃ asc', ProofmarkASC.applyLogs now r.height r.txIndex r.logs asc i (rest.map TxLog.log) =
      .ok asc' := by
  induction rest generalizing asc i l with
  | nil => exact ⟨asc, rfl⟩
  | cons a rest ih =>
    obtain ⟨ha, hrest⟩ := List.cons_subset.1 hrest
    have hown (e : SourceEvent) (he : a.own? = some e) : e ∈ ownEvents logs :=
      List.mem_filterMap.2 ⟨a, ha, he⟩
    obtain ⟨asc₁, h1⟩ : ∃ asc₁, asc.applyLog now ⟨r.height, r.txIndex, i⟩ r.logs a.log = .ok asc₁ := by
      refine applyLog_total hsrc (fun e he => (hspec.sound hinv).2 e (hown e he)) hnow ?_
      intro p hp hlt
      rw [hr]
      exact approvalLoop_genuine hspec hinv hsrc (hown _ hp) (hm.future _ hlt) _
    have he := applyLog_effect h1
    have hm' : Mirrors self (l ++ [⟨r, i, a.log⟩]) asc₁ := hm.step hsrc he
    obtain ⟨asc', h2⟩ := ih (i := i + 1) hrest (he.sameConfig.sourceContract.trans hsrc) hm'
    refine ⟨asc', ?_⟩
    simp only [List.map_cons, ProofmarkASC.applyLogs, bind_ok]
    exact ⟨asc₁, h1, h2⟩

end

/-- **No genuine receipt is refused**: whatever the calls of a source transaction and
    whatever the hub accepted before, `execute` succeeds for its receipt. -/
theorem genuine_receipt_accepted {senv : SourceEnv} {sowner : Address} {ses : List SourceEntry}
    {s s' : ComplianceSource} {tx : SourceTx senv.self} {logs : List (TxLog senv.self)}
    {henv : HubEnv} {howner : Address} {hes : List HubEntry} {asc : ProofmarkASC} {msg : Msg}
    {x : ExecuteCall} {t : U8}
    (hsource : (ComplianceSource.machine senv).Run (.deployed sowner) ses s)
    (htx : runOps senv tx.height tx.timestamp s tx.ops = .ok (s', logs))
    (hhub : (ProofmarkASC.machine henv).Run (.deployed howner) hes asc)
    (hconf : asc.sourceContract = senv.self) (hset : asc.sourceContract ≠ 0)
    (hkey : x.chainKey = asc.expectedChainKey) (hproof : x.verifyProof = true)
    (hheight : x.blockHeight = tx.height)
    (htype : henv.decoder.getTransactionType x.encodedTransaction = some t)
    (hvalid : henv.decoder.isValidTransactionType t = true)
    (hdecode : henv.decoder.decodeReceiptFields x.encodedTransaction =
      some ⟨1, logs.map TxLog.log⟩)
    (hfresh : asc.processedQueries
      (ProofmarkASC.computeQueryId henv.keccak256 x.chainKey x.blockHeight x.txIndex) = false)
    (hclock : tx.timestamp ≤ msg.timestamp) (hle : x.action ≤ 5)
    (haction : (logs.map TxLog.log).any (ProofmarkASC.matchesAction senv.self x.action) = true) :
    ∃ asc', asc.call henv msg (.execute x) = .ok asc' := by
  have hinv := sourceInv_run hsource (sourceInv_deployed sowner)
  have hspec := runOps_spec htx
  have hmirror := (hubInv_run hhub).mirrors
  rw [hconf] at hmirror
  let marked : ProofmarkASC := { asc with
    processedQueries := update asc.processedQueries
      (ProofmarkASC.computeQueryId henv.keccak256 x.chainKey x.blockHeight x.txIndex) true }
  have hm : Mirrors senv.self ((accepted henv hes).flatMap Receipt.applied) marked :=
    hmirror.congr ⟨rfl, rfl, rfl, rfl, rfl, rfl, rfl, rfl, rfl⟩
  obtain ⟨asc', happly⟩ := applyLogs_total (r := ⟨tx.height, x.txIndex, logs.map TxLog.log⟩) (i := 0)
    hspec hinv rfl hclock (List.Subset.refl logs) (by exact hconf) hm
  refine ⟨asc', ?_⟩
  simp only [ProofmarkASC.call, ProofmarkASC.execute, ProofmarkASC.processAndEmitEvent, bind_ok,
    revertIf_ok, orRevert_ok, pure_ok]
  refine ⟨(), by simp [hfresh], (), by simp [hproof], (), hset, (), not_not.2 hkey, (),
    BitVec.not_lt.2 hle, t, htype, (), not_not.2 hvalid, _, hdecode, (), not_not.2 rfl, asc', ?_, (),
    ?_, rfl⟩
  · dsimp only at happly
    rw [← hheight] at happly
    exact happly
  · rw [not_not, hconf]
    exact haction

/-! A source contract at 80 with the issuer 3, and a transaction in which it issues a mark
and denies another account, with a foreign log in between. -/

def issuerEnv : SourceEnv := ⟨80, fun _ => 0, fun _ => 0, fun _ _ => none⟩

def issuerActions : List SourceAction :=
  [⟨fun _ => .eoa, ⟨1, 90, 1000, Sender.owner⟩, .setIssuer 3 true⟩]

/-- A log that looks like a denial, of another contract. -/
def foreignDenial : TxOp issuerEnv.self :=
  .foreign ((SourceEvent.sanctionDenied 7 1 1).log 81) (by decide)

def issuerTx : SourceTx issuerEnv.self where
  height := 101
  txIndex := 0
  timestamp := 2000
  ops :=
    [.call 3 Sender.issuer (fun _ => .eoa) (.issue 7 (MarkAttrs.pack 1 3 1 410 1 1500 9000 0) 11 12),
      foreignDenial,
      .call 3 Sender.issuer (fun _ => .eoa) (.deny 8 1 1)]

def issuerTxLogs : List LogEntry :=
  [(SourceEvent.markIssued 7 (MarkAttrs.pack 1 3 1 410 1 1500 9000 0) 3 11 12).log 80,
    (SourceEvent.sanctionDenied 7 1 1).log 81, (SourceEvent.sanctionDenied 8 1 1).log 80]

def configuredHub : ProofmarkASC :=
  (ProofmarkASC.machine (ReceiptFixture.env [issuerTxLogs])).final (.deployed 1)
    [(⟨1, 0, 100, Sender.owner⟩, .configureSource 2 80)]

theorem genuine_receipt_accepted_issuer :
    ∃ asc', configuredHub.call (ReceiptFixture.env [issuerTxLogs]) ⟨9, 0, 3000, Sender.outsider⟩
      (ReceiptFixture.deliver 2 2 ⟨101, 0, issuerTxLogs⟩) = .ok asc' := by
  have hlogs : (value? (runOps issuerEnv issuerTx.height issuerTx.timestamp ((ComplianceSource.machine issuerEnv).final
      (.deployed 1) issuerActions) issuerTx.ops)).map (fun r => r.2.map TxLog.log) =
        some issuerTxLogs := by decide +kernel
  obtain ⟨⟨s', logs⟩, hr, hl⟩ := Option.map_eq_some_iff.1 hlogs
  dsimp only at hl
  rw [value?_eq_some] at hr
  exact genuine_receipt_accepted (t := 2)
    ((ComplianceSource.machine issuerEnv).run_trace (.deployed 1) issuerActions) hr
    ((ProofmarkASC.machine (ReceiptFixture.env [issuerTxLogs])).run_trace (.deployed 1)
      [(⟨1, 0, 100, Sender.owner⟩, .configureSource 2 80)])
    (by decide +kernel) (by decide +kernel) (by decide +kernel) (by decide +kernel)
    (by decide +kernel) (by decide +kernel) (by decide +kernel)
    (by rw [hl]; decide +kernel) (by decide +kernel) (by decide +kernel) (by decide +kernel)
    (by rw [hl]; decide +kernel)

end Proofmark
