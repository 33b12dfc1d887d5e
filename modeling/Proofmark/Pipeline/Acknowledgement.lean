/-
  The acknowledgement of a propagated issuance.

  The transport decides it from what the hub holds of the wallet now; the receipts that the
  hub accepted decide what that is.

  `acknowledgement_exact`: the answer is yes exactly as long as the issuance is the latest
  event of the wallet, and never again after a later one.
  `materialized_acknowledged`: the journal calls an entry materialized only if some block of
  the hub showed this.
-/
import Proofmark.Hub.Verification
import Proofmark.Pipeline.AttrsAgree
import Proofmark.Pipeline.IssuanceEvm
import Proofmark.Pipeline.IssuanceSafety

namespace Proofmark

open Latest Revert

/-! ## The answer -/

/-- The key that the issuer of a rotating target used. -/
def EvmEntry.KeyTrusted (e : EvmEntry) (source : Address) (rs : List Receipt) (keyEpoch height : U64) : Prop :=
  e.target.issuerMode = some .rotating →
    (∃ t, checkedRotatingTarget e = some t ∧ keyEpoch.toNat = t.issuerKeyEpoch) ∧
      Trusted source (rs.flatMap Receipt.applied) e.target.issuer keyEpoch height

/-- The latest event of the wallet is the issuance `o`, from the confirmed transaction, and no
    denial is in force. -/
def Acknowledged (source : Address) (rs : List Receipt) (e : EvmEntry) (o : IssuedOutcome)
    (confirmation : SourceConfirmation) : Prop :=
  ∃ c keyEpoch, latest (receiptEvents source e.wallet rs) =
      some (c, .issued o.attrs e.target.issuer keyEpoch o.claimsRoot o.evidenceHash) ∧
    MarkAttrs.validSchema o.attrs = true ∧ denialInForce (receiptEvents source e.wallet rs) = false ∧
    c.height.toNat = confirmation.blockNumber ∧ c.txIndex.toNat = confirmation.transactionIndex ∧
    e.KeyTrusted source rs keyEpoch c.height

/-- The hub accepted an event of the wallet that is later than the confirmed transaction. -/
def Overtaken (source : Address) (rs : List Receipt) (e : EvmEntry)
    (confirmation : SourceConfirmation) : Prop :=
  ∃ m ∈ receiptEvents source e.wallet rs, confirmation.blockNumber < m.1.height.toNat ∨
    confirmation.blockNumber = m.1.height.toNat ∧ confirmation.transactionIndex < m.1.txIndex.toNat

section
variable {source : Address} {rs : List Receipt} {asc : ProofmarkASC} {e : EvmEntry} {o : IssuedOutcome}
  {confirmation : SourceConfirmation}

theorem Mark.packAttrs_eq (m : Mark) : m.packAttrs = some m.packed := by
  rw [Mark.packAttrs, packAttrs_ok]
  rfl

theorem sameMark_iff {reads : AckReads} {issuer : Address} : reads.sameMark o issuer = some true ↔
    reads.mark.packed = o.attrs ∧ reads.mark.claimsRoot = o.claimsRoot ∧
      reads.mark.evidenceHash = o.evidenceHash ∧ reads.mark.issuer = issuer := by
  simp [AckReads.sameMark, Mark.packAttrs_eq, and_assoc]

theorem issuer_of_checked {t : RotatingTarget} (h : checkedRotatingTarget e = some t) :
    t.issuer = e.target.issuer := by
  simp only [checkedRotatingTarget] at h
  split_ifs at h
  simp only [Option.bind_eq_bind, Option.bind_eq_some_iff] at h
  obtain ⟨k, -, n, -, h⟩ := h
  split_ifs at h
  cases h
  rfl

/-- What a positive answer was read from. -/
structure Standing (reads : AckReads) (e : EvmEntry) (o : IssuedOutcome)
    (confirmation : SourceConfirmation) : Prop where
  tombstone : reads.tombstone = false
  active : reads.mark.status = .active
  direct : reads.mark.origin = .direct
  height : reads.height.toNat = confirmation.blockNumber
  index : reads.index.toNat = confirmation.transactionIndex
  packed : reads.mark.packed = o.attrs
  claimsRoot : reads.mark.claimsRoot = o.claimsRoot
  evidenceHash : reads.mark.evidenceHash = o.evidenceHash
  issuer : reads.mark.issuer = e.target.issuer
  key : e.target.issuerMode = some .rotating → reads.usable = true ∧
    ∃ t, checkedRotatingTarget e = some t ∧ reads.keyEpoch.toNat = t.issuerKeyEpoch

theorem materialized_iff {reads : AckReads} : e.materialized reads confirmation = some true ↔
    ∃ o, e.outcome = some o ∧ Standing reads e o confirmation := by
  rw [EvmEntry.materialized]
  by_cases hmode : e.target.issuerMode = some .rotating
  · rw [if_pos hmode, RotatingIssuerEvmTransport.materialized]
    cases ho : e.outcome with
    | none => simp
    | some o =>
      simp only [Option.bind_eq_bind, Option.bind_eq_some_iff, Option.some.injEq, exists_eq_left']
      constructor
      · rintro ⟨t, ht, h⟩
        split at h
        · cases h
        next hg =>
        simp only [not_or, Bool.not_eq_true, Bool.not_eq_false, ne_eq, not_not] at hg
        obtain ⟨h1, h2, h3, h4, h5, h6, h7⟩ := hg
        obtain ⟨h8, h9, h10, h11⟩ := sameMark_iff.1 h
        have hissuer := h11.trans (issuer_of_checked ht)
        exact ⟨h1, h4, h5, h6, h7, h8, h9, h10, hissuer, fun _ => ⟨h2, t, ht, h3⟩⟩
      · intro h
        obtain ⟨h2, t, ht, h3⟩ := h.key hmode
        refine ⟨t, ht, ?_⟩
        rw [if_neg]
        · exact sameMark_iff.2 ⟨h.packed, h.claimsRoot, h.evidenceHash,
            h.issuer.trans (issuer_of_checked ht).symm⟩
        · simp [h.tombstone, h.active, h.direct, h.height, h.index, h2, h3]
  · rw [if_neg hmode, EvmIssuanceTransport.materialized]
    cases ho : e.outcome with
    | none => simp
    | some o =>
      simp only [Option.some.injEq, exists_eq_left']
      constructor
      · intro h
        split at h
        · cases h
        next hg =>
        simp only [not_or, Bool.not_eq_true, ne_eq, not_not] at hg
        obtain ⟨h1, h4, h5, h6, h7⟩ := hg
        obtain ⟨h8, h9, h10, h11⟩ := sameMark_iff.1 h
        exact ⟨h1, h4, h5, h6, h7, h8, h9, h10, h11, fun hm => absurd hm hmode⟩
      · intro h
        rw [if_neg]
        · exact sameMark_iff.2 ⟨h.packed, h.claimsRoot, h.evidenceHash, h.issuer⟩
        · simp [h.tombstone, h.active, h.direct, h.height, h.index]

/-- The mark of a valid issuance packs to its topic. -/
theorem packed_direct {attrs : Bytes32} {issuer : Address} {claimsRoot evidenceHash : Bytes32}
    (h : MarkAttrs.validSchema attrs = true) :
    (Mark.direct attrs issuer claimsRoot evidenceHash).packed = attrs :=
  MarkAttrs.pack_unpack (MarkAttrs.validSchema_reserved h)

/-- **What the hub shows** of the wallet, in terms of the receipts. -/
theorem standing_iff (hm : Mirrors source (rs.flatMap Receipt.applied) asc)
    (hheight : ∀ r ∈ rs, 1 ≤ r.height) :
    Standing (asc.ackReads e.wallet) e o confirmation ↔ Acknowledged source rs e o confirmation := by
  have ht : Tracks (receiptEvents source e.wallet rs) (asc.subjects e.wallet) := by
    rw [hm.subjects e.wallet]
    exact tracks_delivered fun m hm => bot_lt_events hheight hm
  have husable := isMarkIssuerUsable_iff hm e.wallet
  constructor
  · intro h
    obtain ⟨hd, c, attrs, issuer, keyEpoch, claimsRoot, evidenceHash, hl, hv⟩ := ht.active_iff.1 h.active
    obtain ⟨hmark, hkey, hlast, -⟩ := ht.mark_eq h.active hl hv
    have hpacked := h.packed
    have hclaims := h.claimsRoot
    have hevidence := h.evidenceHash
    have hissuer := h.issuer
    have hh := h.height
    have hi := h.index
    simp only [ProofmarkASC.ackReads, hmark, hlast, packed_direct hv] at hpacked hclaims hevidence hissuer hh hi
    subst hpacked
    change claimsRoot = o.claimsRoot at hclaims
    change evidenceHash = o.evidenceHash at hevidence
    change issuer = e.target.issuer at hissuer
    subst hclaims hevidence hissuer
    refine ⟨c, keyEpoch, hl, hv, hd, hh, hi, fun hmode => ?_⟩
    obtain ⟨hus, t, htarget, hepoch⟩ := h.key hmode
    simp only [ProofmarkASC.ackReads, hkey] at hepoch
    rw [hmark, hkey, hlast] at husable
    exact ⟨⟨t, htarget, hepoch⟩, husable.1 hus⟩
  · rintro ⟨c, keyEpoch, hl, hv, hd, hh, hi, hk⟩
    have hactive := ht.active_iff.2 ⟨hd, c, _, _, keyEpoch, _, _, hl, hv⟩
    obtain ⟨hmark, hkey, hlast, htomb⟩ := ht.mark_eq hactive hl hv
    rw [hmark, hkey, hlast] at husable
    refine ⟨htomb, hactive, ?_, ?_, ?_, ?_, ?_, ?_, ?_, fun hmode => ?_⟩
    · rw [ProofmarkASC.ackReads, hmark]
      rfl
    · rw [ProofmarkASC.ackReads, hlast]
      exact hh
    · rw [ProofmarkASC.ackReads, hlast]
      exact hi
    · rw [ProofmarkASC.ackReads, hmark]
      exact packed_direct hv
    · rw [ProofmarkASC.ackReads, hmark]
      rfl
    · rw [ProofmarkASC.ackReads, hmark]
      rfl
    · rw [ProofmarkASC.ackReads, hmark]
      rfl
    · obtain ⟨⟨t, htarget, hepoch⟩, htrust⟩ := hk hmode
      refine ⟨husable.2 htrust, t, htarget, ?_⟩
      rw [ProofmarkASC.ackReads, hkey]
      exact hepoch

/-- An event after the confirmed transaction hides the issuance. -/
theorem Acknowledged.not_overtaken (h : Acknowledged source rs e o confirmation) :
    ¬ Overtaken source rs e confirmation := by
  obtain ⟨c, keyEpoch, hl, -, -, hh, hi, -⟩ := h
  rintro ⟨m, hm, hlater⟩
  have hle : m.1 ≤ c := le_latest hl hm
  have hlt : c < m.1 := by
    rw [Coord.lt_iff, BitVec.lt_def, BitVec.lt_def, ← BitVec.toNat_inj]
    rcases hlater with hlt | ⟨heq, hlt⟩
    · exact .inl (by omega)
    · exact .inr ⟨by omega, .inl (by omega)⟩
  exact absurd hlt (not_lt.2 hle)

theorem Overtaken.append (h : Overtaken source rs e confirmation) (rs' : List Receipt) :
    Overtaken source (rs ++ rs') e confirmation := by
  obtain ⟨m, hm, hlater⟩ := h
  refine ⟨m, ?_, hlater⟩
  rw [receiptEvents, List.flatMap_append, events, List.filterMap_append]
  exact List.mem_append_left _ hm

end

theorem accepted_append (env : HubEnv) (es es' : List HubEntry) :
    accepted env (es ++ es') = accepted env es ++ accepted env es' := by
  rw [accepted, List.filterMap_append]
  rfl

/-- **The acknowledgement is exact**, and lost for good with the next event of the wallet. -/
theorem acknowledgement_exact {env : HubEnv} {owner : Address} {es es' : List HubEntry}
    {asc asc' : ProofmarkASC} (hrun : (ProofmarkASC.machine env).Run (.deployed owner) es asc)
    (hrun' : (ProofmarkASC.machine env).Run asc es' asc')
    (hheight : ∀ r ∈ accepted env (es ++ es'), 1 ≤ r.height) (e : EvmEntry)
    (confirmation : SourceConfirmation) :
    (e.materialized (asc'.ackReads e.wallet) confirmation = some true ↔
      ∃ o, e.outcome = some o ∧
        Acknowledged asc'.sourceContract (accepted env (es ++ es')) e o confirmation) ∧
    (Overtaken asc'.sourceContract (accepted env es) e confirmation →
      e.materialized (asc'.ackReads e.wallet) confirmation ≠ some true) := by
  have hm := (hubInv_run (hrun.append hrun')).mirrors
  have hiff : e.materialized (asc'.ackReads e.wallet) confirmation = some true ↔
      ∃ o, e.outcome = some o ∧
        Acknowledged asc'.sourceContract (accepted env (es ++ es')) e o confirmation := by
    rw [materialized_iff]
    exact exists_congr fun o => and_congr_right fun _ => standing_iff hm hheight
  refine ⟨hiff, fun hover hack => ?_⟩
  obtain ⟨o, -, hack⟩ := hiff.1 hack
  refine hack.not_overtaken ?_
  rw [accepted_append]
  exact hover.append _

/-! The issuance to wallet 7 and its denial in the next block. -/

def acknowledgedEntry : EvmEntry :=
  ⟨7, ⟨9, none, none, none⟩, some ⟨MarkAttrs.pack 1 3 1 410 1 1000 2000 0, 11, 12⟩⟩

def acknowledgedAt : SourceConfirmation := ⟨100, 9, 1, 0, some 21000⟩

/-- The hub accepts the issuance. -/
def issuedCalls : List (Msg × ProofmarkASC.Call) := [
  (⟨1, 0, 5000, Sender.owner⟩, .configureSource 2 80),
  (⟨3, 0, 5000, Sender.issuer⟩, ReceiptFixture.deliver 0 2 (lateDenialReceipts.getD 0 ⟨0, 0, []⟩))]

def deniedCalls : List (Msg × ProofmarkASC.Call) := [
  (⟨3, 0, 5000, Sender.issuer⟩, ReceiptFixture.deliver 2 2 (lateDenialReceipts.getD 1 ⟨0, 0, []⟩))]

def issuedHub : ProofmarkASC := (ProofmarkASC.machine lateDenialEnv).final (.deployed 1) issuedCalls

def deniedHub : ProofmarkASC := (ProofmarkASC.machine lateDenialEnv).final issuedHub deniedCalls

theorem acknowledgement_exact_denied :
    acknowledgedEntry.materialized (issuedHub.ackReads 7) acknowledgedAt = some true ∧
      acknowledgedEntry.materialized (deniedHub.ackReads 7) acknowledgedAt ≠ some true := by
  have hrun := (ProofmarkASC.machine lateDenialEnv).run_trace (.deployed 1) issuedCalls
  have hdenied := (ProofmarkASC.machine lateDenialEnv).run_trace issuedHub deniedCalls
  refine ⟨by decide +kernel, fun h => ?_⟩
  obtain ⟨o, -, c, keyEpoch, hlatest, -⟩ := (acknowledgement_exact hrun hdenied (by decide +kernel)
    acknowledgedEntry acknowledgedAt).1.1 h
  have hlast : (latest (receiptEvents deniedHub.sourceContract 7 (accepted lateDenialEnv
      ((ProofmarkASC.machine lateDenialEnv).trace (.deployed 1) issuedCalls ++
        (ProofmarkASC.machine lateDenialEnv).trace issuedHub deniedCalls)))).map Prod.snd =
      some .denied := by decide +kernel
  change latest (receiptEvents deniedHub.sourceContract 7 _) = _ at hlatest
  rw [hlatest] at hlast
  cases hlast

/-! ## Entries that are materialized -/

/-- A materialized payload was acknowledged for its confirmation. -/
def Acked (A : SourceConfirmation → Prop) (p : IssuanceEntry) : Prop :=
  p.phase = .materialized → ∃ c, p.sourceConfirmation = some c ∧ A c

section
variable {A : SourceConfirmation → Prop} {p q : IssuanceEntry} {w w' : AdvanceWork}
  {o : AdvanceOptions} {now : ℕ} {env : IssuanceEnv} {reply : AdvanceReply}

theorem Acked.mono {A' : SourceConfirmation → Prop} (h : Acked A p) (hA : ∀ c, A c → A' c) : Acked A' p := by
  intro hp
  obtain ⟨c, hc, ha⟩ := h hp
  exact ⟨c, hc, hA c ha⟩

theorem Acked.keep (h : Acked A p) (hp : q.phase = p.phase)
    (hc : q.sourceConfirmation = p.sourceConfirmation) : Acked A q := by
  intro hq
  rw [hc]
  exact h (hp ▸ hq)

theorem acked_of_ne (h : p.phase ≠ .materialized) : Acked A p := fun hp => absurd hp h

/-- An await before the confirmation, or one that relies on nothing. -/
def AdvanceAwait.plain : AdvanceAwait → Bool
  | .materialized _ | .activate false | .save (.confirmed _) | .saveReloaded _ => false
  | _ => true

/-- What a run relies on between the confirmation and the last save. -/
def AckFacts (A : SourceConfirmation → Prop) (w : AdvanceWork) : Prop :=
  match w.await with
  | .materialized c | .save (.confirmed c) => w.entry.sourceConfirmation = some c
  | .activate false => ∃ c, w.entry.sourceConfirmation = some c ∧ A c
  | .saveReloaded current => Acked A current.entry
  | _ => True

structure WorkAcked (A : SourceConfirmation → Prop) (w : AdvanceWork) : Prop where
  entry : Acked A w.entry
  facts : AckFacts A w

theorem WorkAcked.of_plain (h : Acked A w.entry) (ha : w.await.plain = true) : WorkAcked A w := by
  refine ⟨h, ?_⟩
  unfold AckFacts
  unfold AdvanceAwait.plain at ha
  split at ha
  · cases ha
  · cases ha
  · cases ha
  · cases ha
  · next h1 h2 h3 h4 =>
    split
    · next c hc => exact absurd hc (h1 c)
    · next c hc => exact absurd hc (h3 c)
    · next hc => exact absurd hc h2
    · next c hc => exact absurd hc (h4 c)
    · trivial

theorem WorkAcked.mono {A' : SourceConfirmation → Prop} (h : WorkAcked A w) (hA : ∀ c, A c → A' c) :
    WorkAcked A' w := by
  refine ⟨h.entry.mono hA, ?_⟩
  have hf := h.facts
  unfold AckFacts at hf ⊢
  split
  · next hc => simpa [hc] using hf
  · next hc => simpa [hc] using hf
  · next hc =>
    rw [hc] at hf
    obtain ⟨c, h1, h2⟩ := hf
    exact ⟨c, h1, hA c h2⟩
  · next hc =>
    rw [hc] at hf
    exact hf.mono hA
  · trivial

theorem workAcked_goto {a : AdvanceAwait} (h : Acked A w.entry) (ha : a.plain = true) :
    WorkAcked A (w.goto a) := .of_plain h ha

theorem workAcked_failWith (fault : IssuanceFault) : WorkAcked A (w.failWith fault) :=
  .of_plain (acked_of_ne fun h => by cases h) rfl

theorem workAcked_toReceipt (h : Acked A w.entry) : WorkAcked A (w.toReceipt o) := by
  rw [AdvanceWork.toReceipt]
  split
  · exact workAcked_goto h rfl
  · exact workAcked_goto h rfl

theorem workAcked_toTransaction (h : Acked A w.entry) : WorkAcked A (w.toTransaction o now) := by
  rw [AdvanceWork.toTransaction]
  split
  · split
    · exact workAcked_failWith _
    · exact workAcked_goto h rfl
  · exact workAcked_toReceipt h

theorem workAcked_toTarget (h : Acked A w.entry) : WorkAcked A w.toTarget := by
  rw [AdvanceWork.toTarget]
  split
  · exact workAcked_goto h rfl
  · exact workAcked_failWith _

theorem workAcked_begin (h : Acked A w.entry) : WorkAcked A (w.begin_ o now) := by
  rw [AdvanceWork.begin_]
  split
  · exact workAcked_goto h rfl
  · split
    · exact workAcked_failWith _
    · split
      · exact workAcked_goto h rfl
      · exact workAcked_toTarget h

theorem workAcked_afterTarget (h : Acked A w.entry) : WorkAcked A (w.afterTarget o now) := by
  rw [AdvanceWork.afterTarget]
  split
  · exact workAcked_goto h rfl
  · split
    · exact .of_plain (acked_of_ne fun h => by cases h) rfl
    · exact workAcked_toTransaction h

theorem workAcked_prepared (h : Acked A w.entry) (t : SignedIssuance) : WorkAcked A (w.prepared o t) := by
  rw [AdvanceWork.prepared]
  split
  · exact workAcked_goto h rfl
  · split
    · exact workAcked_goto h rfl
    · exact .of_plain (h.keep rfl rfl) rfl

theorem workAcked_conclude (h : Acked A w.entry) (r : IssuanceReceipt) : WorkAcked A (w.conclude r) := by
  cases r with
  | pending => exact workAcked_goto h rfl
  | reverted c => exact .of_plain (acked_of_ne fun h => by cases h) rfl
  | success c => exact workAcked_goto h rfl

theorem workAcked_afterReceipt (h : Acked A w.entry) (r : IssuanceReceipt) :
    WorkAcked A (w.afterReceipt o r) := by
  have hbudget (c : SourceConfirmation) : WorkAcked A (if o.budget = true then
      if c.gasUsed.isNone = true then w.goto .release else w.goto (.reconcile r) else w.conclude r) := by
    split
    · split
      · exact workAcked_goto h rfl
      · exact workAcked_goto h rfl
    · exact workAcked_conclude h r
  cases r with
  | pending => exact workAcked_goto h rfl
  | reverted c => exact hbudget c
  | success c => exact hbudget c

theorem workAcked_onReceipt {a : AdvanceAwait} (h : Acked A w.entry) (ha : a.plain = true)
    (r : Option IssuanceReceipt) : WorkAcked A (w.onReceipt o (w.goto a) r) := by
  match r with
  | none => exact workAcked_goto h rfl
  | some .pending => exact workAcked_goto h ha
  | some (.reverted c) => exact workAcked_afterReceipt h (.reverted c)
  | some (.success c) => exact workAcked_afterReceipt h (.success c)

theorem workAcked_afterSourceConfirmed (h : Acked A w.entry) (c : SourceConfirmation) :
    WorkAcked A (w.afterSourceConfirmed c) := by
  rw [AdvanceWork.afterSourceConfirmed]
  split
  · exact workAcked_goto h rfl
  · exact ⟨acked_of_ne (fun h => by cases h), rfl⟩

/-- **A run goes on from a service's answer.** -/
theorem receive_acked (hi : WorkAcked A w)
    (hyes : ∀ c, w.await = .materialized c → reply = .answer true → A c)
    (h : w.receive o now env reply = some w') : WorkAcked A w' := by
  have he := hi.entry
  have hf := hi.facts
  unfold AdvanceWork.receive at h
  unfold AckFacts at hf
  split at h <;> cases h
  · exact .of_plain (he.keep rfl rfl) rfl
  · exact workAcked_afterTarget he
  · exact workAcked_failWith _
  · exact workAcked_goto he rfl
  · exact workAcked_goto he rfl
  · exact workAcked_prepared he _
  · exact .of_plain (he.keep rfl rfl) rfl
  · exact workAcked_goto he rfl
  · exact workAcked_onReceipt he rfl _
  · exact .of_plain (acked_of_ne fun h => by cases h) rfl
  · exact workAcked_goto he rfl
  · exact .of_plain (he.keep rfl rfl) rfl
  · exact .of_plain (he.keep rfl rfl) rfl
  · exact .of_plain (he.keep rfl rfl) rfl
  · exact workAcked_onReceipt he rfl _
  · exact workAcked_conclude he _
  · exact workAcked_afterSourceConfirmed he _
  · next c ha =>
    rw [ha] at hf
    exact ⟨he, c, hf, hyes c ha rfl⟩
  · exact workAcked_goto he rfl
  · exact workAcked_goto he rfl
  · next ha =>
    rw [ha] at hf
    exact .of_plain (fun _ => hf) rfl
  · exact workAcked_goto he rfl
  · exact workAcked_goto he rfl

theorem workAcked_afterSave {k : AfterSave} (h : Acked A w.entry)
    (hk : ∀ c, k = .confirmed c → w.entry.sourceConfirmation = some c) :
    WorkAcked A (w.afterSave o now k) := by
  cases k with
  | return_ => exact workAcked_goto h rfl
  | evidenceStored => exact workAcked_toTarget h
  | retried => exact workAcked_toTransaction h
  | signed => exact workAcked_toReceipt h
  | submitted => exact workAcked_goto h rfl
  | broadcast => exact workAcked_goto h rfl
  | confirmed c => exact ⟨h, hk c rfl⟩

end

/-! ## The journal -/

section
variable {A : RequestId → SourceConfirmation → Prop} {redis redis' : IssuanceRedis} {id : RequestId}
  {c : IssuanceCall} {r : Except IssuanceJournalError (Option JournalSnapshot)}

/-- Every materialized request was acknowledged. -/
def StoreAcked (A : RequestId → SourceConfirmation → Prop) (redis : IssuanceRedis) : Prop :=
  ∀ id h, redis.requests id = some h → Acked (A id) h.payload

theorem StoreAcked.update (hs : StoreAcked A redis) {h : IssuanceHash} (hh : Acked (A id) h.payload) :
    ∀ id' g, Function.update redis.requests id (some h) id' = some g → Acked (A id') g.payload := by
  intro id' g hg
  rw [Function.update_apply] at hg
  split at hg
  · next he =>
    cases hg
    exact he ▸ hh
  · exact hs id' g hg

/-- The calls of the journal keep this, and answer with acknowledged payloads. -/
theorem StoreAcked.call (hs : StoreAcked A redis) (heff : redis.CallEffect id c redis' r)
    (hsave : ∀ o snapshot, c = .save o snapshot → Acked (A id) snapshot.entry) :
    StoreAcked A redis' ∧ ∀ x, (∀ o, c ≠ .release o) → r = .ok (some x) → Acked (A id) x.entry := by
  cases heff with
  | failed _ e => exact ⟨hs, fun x _ hx => by cases hx⟩
  | kept _ => exact ⟨hs, fun x _ hx => by cases hx⟩
  | read h hh =>
    refine ⟨hs, fun x _ hx => ?_⟩
    cases hx
    exact hs id h hh
  | acquired owner h _ hh hfree hgate hr =>
    refine ⟨hs.update (hs id h hh), fun x _ hx => ?_⟩
    cases hr _ hx
    exact hs id h hh
  | saved owner u snapshot h h' _ hh hlease hlive hsigner hgate hp hn hs' hl hr =>
    have hentry : Acked (A id) h'.payload := hp ▸ hsave owner snapshot rfl
    refine ⟨hs.update hentry, fun x _ hx => ?_⟩
    cases hr _ hx
    exact hentry
  | released owner h _ hh hlease =>
    exact ⟨hs.update (hs id h hh), fun x hn _ => absurd rfl (hn owner)⟩

end

namespace IssuanceHost

variable {A : RequestId → SourceConfirmation → Prop} {s s' : IssuanceHost} {env : IssuanceEnv}

/-- Every materialized payload, stored or worked on, was acknowledged. -/
structure HostAcked (A : RequestId → SourceConfirmation → Prop) (s : IssuanceHost) : Prop where
  stored : StoreAcked A s.redis
  runs : ∀ o run w, s.runs o = some run → run.stage = .advance w → WorkAcked (A run.requestId) w

/-- The request and the confirmation that the run of an owner asks the hub about. -/
def asks (s : IssuanceHost) (owner : ℕ) : Option (RequestId × SourceConfirmation) :=
  (s.runs owner).bind fun run =>
    match run.stage with
    | .advance w =>
      match w.await with
      | .materialized c => some (run.requestId, c)
      | _ => none
    | _ => none

theorem HostAcked.mono {A' : RequestId → SourceConfirmation → Prop} (h : HostAcked A s)
    (hA : ∀ id c, A id c → A' id c) : HostAcked A' s :=
  ⟨fun id x hx => (h.stored id x hx).mono (hA id), fun o run w hr hw => (h.runs o run w hr hw).mono (hA _)⟩

theorem HostAcked.setRun (h : HostAcked A s) {o : ℕ} {run : Option AdvanceRun}
    (hrun : ∀ x w, run = some x → x.stage = .advance w → WorkAcked (A x.requestId) w) :
    HostAcked A (s.setRun o run) := by
  refine ⟨h.stored, fun o' x w hx hw => ?_⟩
  rw [IssuanceHost.setRun] at hx
  dsimp only at hx
  rw [Function.update_apply] at hx
  split at hx
  · exact hrun x w hx hw
  · exact h.runs o' x w hx hw

/-- A run goes on from the response of the journal. -/
theorem respond_acked {run x : AdvanceRun} {now : ℕ} {c : IssuanceCall} {o : ℕ} {redis redis' : IssuanceRedis}
    {r : Except IssuanceJournalError (Option JournalSnapshot)} {w' : AdvanceWork}
    (hi : ∀ w, run.stage = .advance w → WorkAcked (A run.requestId) w)
    (hc : callOf o run.stage = some c) (heff : redis.CallEffect run.requestId c redis' r)
    (hresp : ∀ y, (∀ o, c ≠ .release o) → r = .ok (some y) → Acked (A run.requestId) y.entry)
    (hx : run.respond now r = some x) (hw : x.stage = .advance w') : WorkAcked (A x.requestId) w' := by
  obtain ⟨id, options, stage⟩ := run
  cases stage with
  | lookup =>
    match r with
    | .error e => cases hx
    | .ok none => cases hx
    | .ok (some y) =>
      cases hx
      cases hw
  | acquire signer =>
    cases hc
    match r with
    | .error e => cases hx
    | .ok none => cases hx
    | .ok (some y) =>
      cases hx
      cases hw
      exact workAcked_begin (hresp y (fun _ h => by cases h) rfl)
  | advance w =>
    have hwork := hi w rfl
    change w.call o = some c at hc
    obtain ⟨revision, entry, reserved, await⟩ := w
    have hreleased : WorkAcked (A id) (AdvanceWork.goto ⟨revision, entry, reserved, await⟩ .release) :=
      workAcked_goto hwork.entry rfl
    cases await with
    | save k =>
      cases hx
      cases hw
      match r with
      | .error e => exact hreleased
      | .ok none => exact hreleased
      | .ok (some y) =>
        cases hc
        refine workAcked_afterSave (hresp y (fun _ h => by cases h) rfl) fun conf hk => ?_
        cases heff with
        | saved owner u _ h h' _ hh hlease hlive hsigner hgate hp hn hs' hl hr =>
          cases hr _ rfl
          subst hk
          exact (congrArg IssuanceEntry.sourceConfirmation hp).trans hwork.facts
    | reload =>
      cases hx
      cases hw
      match r with
      | .error e => exact hreleased
      | .ok none => exact hreleased
      | .ok (some y) =>
        cases hc
        have hy := hresp y (fun _ h => by cases h) rfl
        change WorkAcked _ (if _ then _ else _)
        split
        · exact ⟨hwork.entry, hy.keep rfl rfl⟩
        · exact hreleased
    | saveReloaded current =>
      cases hx
      cases hw
      exact hreleased
    | release => cases hx
    | _ => cases hc

/-- **Every step keeps it**, when a positive answer of the hub is recorded. -/
theorem HostAcked.step {e : IssuanceStep} (hi : HostAcked A e.pre) (hs : (machine env).IsStep e)
    (hyes : ∀ o now, e.act = .settle o now (.answer true) → ∀ q ∈ e.pre.asks o, A q.1 q.2) :
    HostAcked A e.post := by
  obtain ⟨s, a, out, s'⟩ := e
  rw [Machine.IsStep] at hs
  dsimp only at hi hyes ⊢
  cases a with
  | tick ms =>
    simp only [machine, pure_ok, Prod.mk.injEq] at hs
    obtain ⟨rfl, rfl⟩ := hs
    exact ⟨hi.stored, hi.runs⟩
  | create entry =>
    simp only [machine, bind_ok, revertIf_ok, pure_ok, Prod.mk.injEq] at hs
    obtain ⟨_, hf, rfl, rfl⟩ := hs
    rw [not_not] at hf
    refine ⟨?_, hi.runs⟩
    rcases IssuanceRedis.create_effect s.redis entry with heq | ⟨-, h, heq, hp, -⟩
    · dsimp only
      rw [heq]
      exact hi.stored
    · dsimp only
      rw [heq]
      refine hi.stored.update (acked_of_ne ?_)
      rw [hp, hf.1]
      exact fun h => by cases h
  | expire id =>
    simp only [machine, bind_ok, revertIf_ok, pure_ok, Prod.mk.injEq] at hs
    obtain ⟨_, -, rfl, rfl⟩ := hs
    refine ⟨fun id' h hh => ?_, hi.runs⟩
    dsimp only at hh
    rw [Function.update_apply] at hh
    split at hh
    · cases hh
    · exact hi.stored id' h hh
  | start id options =>
    simp only [machine, pure_ok, Prod.mk.injEq] at hs
    obtain ⟨rfl, rfl⟩ := hs
    refine ⟨hi.stored, fun o run w hr hw => ?_⟩
    dsimp only at hr
    rw [Function.update_apply] at hr
    split at hr
    · cases hr
      cases hw
    · exact hi.runs o run w hr hw
  | crash o =>
    simp only [machine, pure_ok, Prod.mk.injEq] at hs
    obtain ⟨rfl, rfl⟩ := hs
    exact hi.setRun fun x w hx => by cases hx
  | settle o now reply =>
    simp only [machine, bind_ok, orRevert_ok] at hs
    obtain ⟨run, hrun, hres⟩ := hs
    rcases resume_cases hres with ⟨c, d, hc, rfl, he⟩ | ⟨w, w', hst, hserv, hw', he⟩
    · cases he
      have heff := IssuanceRedis.call_effect s.redis run.requestId c d
      have hwork := fun w hw => hi.runs o run w hrun hw
      obtain ⟨hstore, hresp⟩ := hi.stored.call heff fun owner snapshot hsave => by
        subst hsave
        unfold callOf AdvanceWork.call at hc
        split at hc
        · cases hc
        · cases hc
        · next w hst =>
          split at hc
          · cases hc
            exact (hwork w hst).entry
          · cases hc
          · next current ha =>
            cases hc
            have hf := (hwork w hst).facts
            rw [AckFacts, ha] at hf
            exact hf
          · cases hc
          · cases hc
      have hbase : HostAcked A { s with redis := (s.redis.call run.requestId c d).1 } :=
        ⟨hstore, hi.runs⟩
      exact hbase.setRun fun x w hx hw => respond_acked hwork hc heff hresp hx hw
    · cases he
      refine hi.setRun fun x y hx hy => ?_
      cases hx
      cases hy
      refine receive_acked (hi.runs o run w hrun hst) (fun c ha hreply => ?_) hw'
      refine hyes o now (by rw [hreply]) (run.requestId, c) ?_
      simp [asks, hrun, hst, ha]

end IssuanceHost

/-! ## The hub and the journal -/

/-- The hub with its blocks so far, and the journal with its runs. -/
structure AckSystem where
  hub : ProofmarkASC
  blocks : List ProofmarkASC
  host : IssuanceHost

inductive AckAction where
  /-- A block of the hub with these transactions. -/
  | mine (calls : List (Msg × ProofmarkASC.Call))
  | host (a : IssuanceAction)

inductive AckError where
  | untruthful
  | host (e : IssuanceHostError)

namespace AckSystem

variable (henv : HubEnv) (env : IssuanceEnv) (issued : RequestId → EvmEntry)

/-- Some block of the hub shows the entry of the request as it was confirmed. -/
def Shown (blocks : List ProofmarkASC) (id : RequestId) (c : SourceConfirmation) : Prop :=
  ∃ asc ∈ blocks, (issued id).materialized (asc.ackReads (issued id).wallet) c = some true

/-- The hub is asked at one of its blocks, not always the last one. -/
def Truthful (s : AckSystem) : IssuanceAction → Prop
  | .settle owner _ (.answer b) => ∀ q ∈ s.host.asks owner, ∃ asc ∈ s.blocks,
    (issued q.1).materialized (asc.ackReads (issued q.1).wallet) q.2 = some b
  | _ => True

instance (s : AckSystem) (a : IssuanceAction) : Decidable (s.Truthful issued a) := by
  unfold Truthful
  split <;> infer_instance

def initial (owner : Address) : AckSystem := ⟨.deployed owner, [], .initial⟩

def machine : Machine AckSystem AckAction IssuanceOutput AckError where
  step s
    | .mine calls =>
      let hub := (ProofmarkASC.machine henv).final s.hub calls
      pure ({ s with hub, blocks := s.blocks ++ [hub] }, .done)
    | .host a => do
      revertIf (¬ s.Truthful issued a) .untruthful
      let r ← ((IssuanceHost.machine env).step s.host a).mapError .host
      pure ({ s with host := r.1 }, r.2)

variable {henv env issued} {owner : Address} {s : AckSystem}
  {es : List (Machine.Entry AckSystem AckAction IssuanceOutput)}

/-- A state of the hub, with receipts above block 0. -/
def HubReached (henv : HubEnv) (owner : Address) (asc : ProofmarkASC) : Prop :=
  ∃ hes, (ProofmarkASC.machine henv).Run (.deployed owner) hes asc ∧ ∀ r ∈ accepted henv hes, 1 ≤ r.height

structure AckInv (henv : HubEnv) (issued : RequestId → EvmEntry) (owner : Address) (s : AckSystem) :
    Prop where
  hub : HubReached henv owner s.hub
  blocks : ∀ asc ∈ s.blocks, HubReached henv owner asc
  host : s.host.HostAcked (Shown issued s.blocks)

/-- Block 0 of the source chain has no transactions, so no receipt of it is ever proved. -/
def AboveZero (henv : HubEnv) (e : Machine.Entry AckSystem AckAction IssuanceOutput) : Prop :=
  ∀ calls, e.act = .mine calls → ∀ a ∈ calls, ∀ r ∈ a.2.receipt? henv, 1 ≤ r.height

theorem HubReached.final {asc : ProofmarkASC} (h : HubReached henv owner asc)
    {calls : List (Msg × ProofmarkASC.Call)} (hz : ∀ a ∈ calls, ∀ r ∈ a.2.receipt? henv, 1 ≤ r.height) :
    HubReached henv owner ((ProofmarkASC.machine henv).final asc calls) := by
  obtain ⟨hes, hrun, hacc⟩ := h
  refine ⟨_, hrun.append ((ProofmarkASC.machine henv).run_trace asc calls), fun r hr => ?_⟩
  rw [accepted_append] at hr
  rcases List.mem_append.1 hr with hr | hr
  · exact hacc r hr
  · obtain ⟨x, hx, hxr⟩ := List.mem_filterMap.1 hr
    exact hz x.act (Machine.act_mem_of_trace hx) r hxr

theorem ackInv_run (hrun : (machine henv env issued).Run (.initial owner) es s)
    (hz : ∀ e ∈ es, AboveZero henv e) : AckInv henv issued owner s := by
  refine hrun.invariant_where (P := AboveZero henv) ?_ ?_ hz
  · refine ⟨⟨[], .nil, ?_⟩, ?_, ?_, ?_⟩
    · intro r hr
      cases hr
    · intro asc h
      cases h
    · intro id h hh
      cases hh
    · intro o run w hr
      cases hr
  · rintro ⟨s, a, out, s'⟩ hpos hi hs
    rw [Machine.IsStep] at hs
    dsimp only at hpos hi ⊢
    cases a with
    | mine calls =>
      simp only [machine, pure_ok, Prod.mk.injEq] at hs
      obtain ⟨rfl, -⟩ := hs
      have hnext := hi.hub.final (hpos calls rfl)
      refine ⟨hnext, fun asc h => ?_, hi.host.mono fun id c => ?_⟩
      · rcases List.mem_append.1 h with h | h
        · exact hi.blocks asc h
        · rw [List.mem_singleton.1 h]
          exact hnext
      · rintro ⟨asc, hasc, hyes⟩
        exact ⟨asc, List.mem_append_left _ hasc, hyes⟩
    | host a =>
      simp only [machine, bind_ok, revertIf_ok, pure_ok, mapError_ok, Prod.mk.injEq] at hs
      obtain ⟨_, htruth, r, hstep, rfl, rfl⟩ := hs
      rw [not_not] at htruth
      refine ⟨hi.hub, hi.blocks, ?_⟩
      refine hi.host.step (e := ⟨s.host, a, r.2, r.1⟩) hstep fun o now hact q hq => ?_
      change a = _ at hact
      subst hact
      exact htruth q hq

end AckSystem

/-- **A materialized entry was shown by the hub**, at some block, whichever transactions came
    in whichever order, and whichever runs worked on the journal. -/
theorem materialized_acknowledged {henv : HubEnv} {env : IssuanceEnv} {issued : RequestId → EvmEntry}
    {owner : Address} {s : AckSystem} {es : List (Machine.Entry AckSystem AckAction IssuanceOutput)}
    (hrun : (AckSystem.machine henv env issued).Run (.initial owner) es s)
    (hz : ∀ e ∈ es, AckSystem.AboveZero henv e) {id : RequestId} {h : IssuanceHash}
    (hstored : s.host.redis.requests id = some h) (hphase : h.payload.phase = .materialized) :
    ∃ confirmation o hes, ∃ asc ∈ s.blocks, h.payload.sourceConfirmation = some confirmation ∧
      (issued id).outcome = some o ∧ (ProofmarkASC.machine henv).Run (.deployed owner) hes asc ∧
      Acknowledged asc.sourceContract (accepted henv hes) (issued id) o confirmation := by
  have hi := AckSystem.ackInv_run hrun hz
  obtain ⟨confirmation, hconf, asc, hasc, hyes⟩ := hi.host.stored id h hstored hphase
  obtain ⟨hes, hreach, hacc⟩ := hi.blocks asc hasc
  obtain ⟨o, ho, hack⟩ := (acknowledgement_exact hreach .nil
    (by rw [List.append_nil]; exact hacc) (issued id) confirmation).1.1 hyes
  rw [List.append_nil] at hack
  exact ⟨confirmation, o, hes, asc, hasc, hconf, ho, hreach, hack⟩

/-! The issuance is delivered and shown. -/

def confirmedReads : ReceiptReads := ⟨some ⟨50, 6, some 5, 1, 100, 9, 1, 21000⟩, 6, some 9, true⟩

def acknowledgedDelivery : List AckAction :=
  ((.create issuanceEntry :: (toSignature 0 false ++ toBroadcast 0 50 ++
    [.settle 0 0 (.receipt confirmedReads), .settle 0 0 .done, answeredCall 0])).map AckAction.host) ++
    .mine issuedCalls :: ([.settle 0 0 (.answer true), .settle 0 0 .done, answeredCall 0,
      answeredCall 0].map AckAction.host)

theorem materialized_acknowledged_delivered :
    ∃ confirmation o hes, ∃ asc, confirmation.blockNumber = 100 ∧
      (ProofmarkASC.machine lateDenialEnv).Run (.deployed 1) hes asc ∧
      Acknowledged asc.sourceContract (accepted lateDenialEnv hes) acknowledgedEntry o confirmation := by
  let M := AckSystem.machine lateDenialEnv issuanceEnv fun _ => acknowledgedEntry
  have hany : ((M.final (.initial 1) acknowledgedDelivery).host.redis.requests 1).any (fun h =>
      decide (h.payload.phase = .materialized) &&
        h.payload.sourceConfirmation.any fun c => c.blockNumber == 100) = true := by decide +kernel
  obtain ⟨h, hstored, hh⟩ := (Option.any_eq_true _ _).1 hany
  obtain ⟨hphase, hblock⟩ := Bool.and_eq_true_iff.1 hh
  have hz : ∀ e ∈ M.trace (.initial 1) acknowledgedDelivery, AckSystem.AboveZero lateDenialEnv e := by
    intro e he calls hact
    have hmem := Machine.act_mem_of_trace he
    rw [hact, acknowledgedDelivery] at hmem
    obtain rfl : calls = issuedCalls := by simpa using hmem
    decide +kernel
  obtain ⟨confirmation, o, hes, asc, -, hconf, -, hreach, hack⟩ := materialized_acknowledged
    (M.run_trace (.initial 1) acknowledgedDelivery) hz hstored (of_decide_eq_true hphase)
  rw [hconf, Option.any_some, beq_iff_eq] at hblock
  exact ⟨confirmation, o, hes, asc, hblock, hreach, hack⟩

end Proofmark
