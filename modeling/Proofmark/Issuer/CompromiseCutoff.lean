/-
  How far the cutoff of a declared compromise reaches (src/RotatingIssuer.sol,
  `declareCompromise`; src/ProofmarkASC.sol, `isMarkIssuerUsable` and `isEpochIssuerUsable`).

  A declaration names the key epoch of the day.  While a key is operating this is the epoch of
  that key (`compromise_cutoff_reaches`).  After `suspend` it is an epoch without a key, and the
  marks of the suspended key stay usable (`compromise_after_suspension`).
-/
import Proofmark.Issuer.IssuerChain
import Proofmark.Hub.Convergence
import Proofmark.Hub.Verification

namespace Proofmark

open Words Revert Function Latest

deriving instance DecidableEq for Issuance

section
variable {env : IssuerEnv}

/-- The key that was active last, before the last of the operations. -/
def lastActive (l : List (OpEntry env)) : Address :=
  ((l.map fun e => e.pre.issuer.operatingKey).filter fun key => key ≠ 0).getLast?.getD 0

/-- The last trusted block of the compromise that an operation declares. -/
def OpEntry.declares? (e : OpEntry env) : Option U64 :=
  match e.act.op with
  | .issuer _ _ _ (.declareCompromise _ lastTrustedBlock) => some lastTrustedBlock
  | _ => none

/-- The mark that an operation issues with the operating key. -/
def OpEntry.issues? (e : OpEntry env) : Option Issuance :=
  match e.act.op with
  | .issuer _ _ _ (.issueOnce _ _ subject attrs claimsRoot evidenceHash) =>
    some ⟨subject, attrs, claimsRoot, evidenceHash⟩
  | _ => none

/-- The epoch that an operation publishes with an approval of the issuer. -/
def OpEntry.approves? (e : OpEntry env) : Option U32 :=
  match e.act.op with
  | .source _ _ _ _ (.publishEpochForIssuers epoch _ _ _ _ _ approvals) =>
    if (approvals.map RootApproval.issuer).contains env.self then some epoch else none
  | _ => none

/-- The stored mark of a subject is the given one, issued in a key epoch of the issuer. -/
structure SubjectState.Stores (st : SubjectState) (issuer : Address) (keyEpoch : U64)
    (item : Issuance) : Prop where
  mark : { st.mark with status := .active } =
    Mark.direct item.attrs issuer item.claimsRoot item.evidenceHash
  keyEpoch : st.markIssuerKeyEpoch = keyEpoch

/-- After the block `lastTrustedBlock`, nothing that the key authorised is usable. -/
structure CutoffReaches (ops : List (OpEntry env)) (key : Address) (lastTrustedBlock : U64)
    (asc : ProofmarkASC) : Prop where
  marks : ∀ m ∈ ops, ∀ item, m.issues? = some item → m.pre.issuer.operatingKey = key →
    lastTrustedBlock < m.act.height →
    (asc.subjects item.subject).Stores env.self m.pre.issuer.keyEpoch item →
    asc.isMarkIssuerUsable item.subject = false
  epochs : ∀ p ∈ ops, ∀ epoch, p.approves? = some epoch → p.pre.issuer.operatingKey = key →
    lastTrustedBlock < p.act.height → asc.isEpochIssuerUsable epoch env.self = false

/-! ## The operations -/

variable {d m p : OpEntry env} {s₀ s : IssuerSource} {l : List (OpEntry env)}

theorem lastActive_concat (h : d.pre.issuer.operatingKey ≠ 0) :
    lastActive (l ++ [d]) = d.pre.issuer.operatingKey := by
  have hlast : [d.pre.issuer.operatingKey].filter (fun key => key ≠ 0) = [d.pre.issuer.operatingKey] :=
    List.filter_cons_of_pos (decide_eq_true h)
  rw [lastActive, List.map_append, List.filter_append, List.map_singleton, hlast,
    List.getLast?_concat, Option.getD_some]

/-- An issuer that is not suspended has a key. -/
theorem operatingKey_ne_zero {x y : RotatingIssuer} {ρ : Type} {es : List (IssuerEntry ρ)}
    (h₀ : x.suspended = false → x.operatingKey ≠ 0) (h : (RotatingIssuer.machine ρ).Run x es y) :
    y.suspended = false → y.operatingKey ≠ 0 := by
  refine h.invariant (I := fun s => s.suspended = false → s.operatingKey ≠ 0) h₀ fun e ih he => ?_
  have heff := RotatingIssuer.isStep_effect he
  generalize e.post = post, e.act.call = call at heff
  cases heff with
  | accepted _ h0 _ => exact fun _ => h0
  | suspended _ _ _ => exact fun h => nomatch h
  | proposed | cancelled | offered | succeeded | operated => exact ih

/-- **A declaration names the key epoch of the day.** -/
theorem declared_event (h : (IssuerSource.machine env).IsStep d) {lastTrustedBlock : U64}
    (hd : d.declares? = some lastTrustedBlock) :
    d.pre.issuer.keyEpoch ≠ 0 ∧ ∃ reasonHash, .own (.issuerKeyCompromised env.self
      d.pre.issuer.keyEpoch lastTrustedBlock reasonHash) ∈ d.out := by
  rw [OpEntry.declares?] at hd
  split at hd
  · rename_i sender hne accounts reasonHash L hop
    cases hd
    obtain ⟨out, hcall, hout⟩ := step_issuer h hop
    obtain ⟨r, hr, rfl⟩ := RotatingIssuer.call_source hcall
    simp only [IssuerSource.asSource, ComplianceSource.call, ComplianceSource.declareIssuerKeyCompromise,
      bind_ok, revertIf_ok, pure_ok] at hr
    obtain ⟨_, -, _, hk, _, -, _, -, rfl⟩ := hr
    refine ⟨hk, reasonHash, ?_⟩
    rw [hout.2]
    exact List.mem_singleton.2 rfl
  · cases hd

/-- A mark of the operating key bears its epoch. -/
theorem issued_event (h : (IssuerSource.machine env).IsStep m) {item : Issuance}
    (hm : m.issues? = some item) :
    m.pre.issuer.keyEpoch ≠ 0 ∧ .own (.keyedMarkIssued item.subject item.attrs env.self
      m.pre.issuer.keyEpoch item.claimsRoot item.evidenceHash) ∈ m.out := by
  rw [OpEntry.issues?] at hm
  split at hm
  · rename_i sender hne accounts expectedEpoch requestId subject attrs claimsRoot evidenceHash hop
    cases hm
    obtain ⟨out, hcall, hout⟩ := step_issuer h hop
    have hepoch : expectedEpoch = m.pre.issuer.keyEpoch := by
      have heff := RotatingIssuer.call_effect hcall
      generalize m.post.issuer = post at heff
      cases heff with
      | operated _ _ hc => exact Option.some.inj hc
      | suspended _ hc _ => cases hc
    obtain ⟨r, hr, rfl⟩ := RotatingIssuer.call_source hcall
    simp only [IssuerSource.asSource, ComplianceSource.call, ComplianceSource.issueOnceWithKey,
      bind_ok, revertIf_ok, pure_ok] at hr
    obtain ⟨_, -, _, -, _, -, _, -, _, hk, _, -, _, -, rfl⟩ := hr
    rw [hepoch] at hk hout
    refine ⟨hk, ?_⟩
    rw [hout.2]
    exact List.mem_singleton.2 rfl
  · cases hm

/-- The issuer reports its key epoch. -/
theorem currentKeyEpoch_account (i : RotatingIssuer) (isIssuer : Bool) :
    (i.account env isIssuer).currentKeyEpoch = i.keyEpoch := by
  have hversion : (i.account env isIssuer).issuerKeyVersion.bind (abiWords 1) = some [1] :=
    abiWords_abiEncode [1]
  have hepoch : (i.account env isIssuer).keyEpoch.bind (abiWords 1) = some [toWord i.keyEpoch] :=
    abiWords_abiEncode [toWord i.keyEpoch]
  rw [Account.currentKeyEpoch, ComplianceSource.currentIssuerKeyEpoch, hversion, hepoch]
  by_cases h0 : i.keyEpoch = 0
  · simp [RotatingIssuer.account, orRevert, revertIf, value?, h0, toWord]
  · have hcond : ¬ (toWord i.keyEpoch = 0 ∨ (toWord i.keyEpoch).toNat > 2 ^ 64 - 1) :=
      not_or.2 ⟨toWord_ne_zero (by norm_num) h0, not_lt.2 (toNat_toWord_le i.keyEpoch (by norm_num))⟩
    show (value? (revertIf (toWord i.keyEpoch = 0 ∨ (toWord i.keyEpoch).toNat > 2 ^ 64 - 1)
      SourceError.invalidIssuerKeyProvenance >>= fun _ => pure ((toWord i.keyEpoch).setWidth 64))).getD
        0 = i.keyEpoch
    rw [revertIf, if_neg hcond]
    exact setWidth_toWord64 i.keyEpoch

/-- A publication with an approval of the issuer bears its key epoch. -/
theorem approved_publication {epoch : U32} (hp : p.approves? = some epoch) :
    ∃ t q, p.txOp? = some t ∧ t.publication? p.act.height p.act.timestamp = some q ∧
      q.1.epoch = epoch ∧ (env.self, p.pre.issuer.keyEpoch) ∈ q.2 := by
  rw [OpEntry.approves?] at hp
  split at hp
  · rename_i sender hne hother accounts epoch' root listVersion validUntil sourceCutoff snapshotId
      approvals hop
    split_ifs at hp with hmem
    cases hp
    have ht : p.txOp? = some (.call sender hne (p.pre.answers env accounts)
        (.publishEpochForIssuers epoch root listVersion validUntil sourceCutoff snapshotId approvals)) := by
      rw [OpEntry.txOp?, hop]
    refine ⟨_, _, ht, rfl, rfl, ?_⟩
    obtain ⟨a, ha, hself⟩ := List.mem_map.1 (List.contains_iff_mem.1 hmem)
    refine List.mem_map.2 ⟨a, ha, ?_⟩
    rw [hself, IssuerSource.answers, update_self, currentKeyEpoch_account]
  · cases hp

end

/-! ## The hub -/

section
variable {source : Address} {l : List Applied} {a : Applied}

theorem mem_cutoffs {k : Compromise} (ha : a ∈ l) (hm : LogMeaning.ofLog source a.log = .compromise k) :
    k.lastTrustedBlock ∈ cutoffs source (k.issuer, k.keyEpoch) l := by
  refine List.mem_filterMap.2 ⟨a, ha, ?_⟩
  rw [Applied.cutoff?, LogEntry.compromise?, hm]
  simp

theorem mem_events_of {x : Address} {ev : LifecycleEvent} (ha : a ∈ l)
    (hm : LogMeaning.ofLog source a.log = .lifecycle x ev) : (a.coord, ev) ∈ events source x l := by
  refine List.mem_filterMap.2 ⟨a, ha, ?_⟩
  rw [Applied.event?, LogEntry.lifecycle?, hm]
  simp

variable {asc : ProofmarkASC} {issuer : Address} {keyEpoch lastTrustedBlock : U64}

/-- A cutoff reaches a stored mark when a later event of the subject was applied. -/
theorem mark_unusable {x : Address} {ev : LifecycleEvent} (h : Mirrors source l asc)
    (hpos : ∀ m ∈ events source x l, ⊥ < m.1)
    (hcut : lastTrustedBlock ∈ cutoffs source (issuer, keyEpoch) l) (ha : a ∈ l)
    (hm : LogMeaning.ofLog source a.log = .lifecycle x ev) (hlt : lastTrustedBlock < a.receipt.height)
    (hissuer : (asc.subjects x).mark.issuer = issuer)
    (hkey : (asc.subjects x).markIssuerKeyEpoch = keyEpoch) (h0 : keyEpoch ≠ 0) :
    asc.isMarkIssuerUsable x = false := by
  have hle : a.coord ≤ (asc.subjects x).lastApplied := by
    rw [h.subjects, (tracks_delivered hpos).lastApplied]
    exact le_position (mem_events_of ha hm)
  have hheight : a.receipt.height ≤ (asc.subjects x).lastApplied.height :=
    BitVec.not_lt.1 fun hlt' => not_lt_of_ge hle (Coord.lt_iff.2 (.inl hlt'))
  refine Bool.eq_false_iff.2 fun huse => ?_
  rcases (isMarkIssuerUsable_iff h x).1 huse with hz | hall
  · exact h0 (hkey.symm.trans hz)
  · rw [hissuer, hkey] at hall
    exact BitVec.lt_irrefl _ (Std.lt_of_lt_of_le hlt (BitVec.le_trans hheight (hall _ hcut)))

/-- A cutoff reaches an epoch that was approved after it. -/
theorem epoch_unusable {epoch : U32} {height : U64} (h : Mirrors source l asc)
    (hcut : lastTrustedBlock ∈ cutoffs source (issuer, keyEpoch) l) (hlt : lastTrustedBlock < height)
    (h0 : keyEpoch ≠ 0) (happ : (asc.epochs epoch).issuerApproved issuer = true →
      (asc.epochs epoch).issuerKeyEpoch issuer = keyEpoch ∧
        (asc.epochs epoch).issuerApprovalHeight issuer = height) :
    asc.isEpochIssuerUsable epoch issuer = false := by
  refine Bool.eq_false_iff.2 fun huse => ?_
  simp only [ProofmarkASC.isEpochIssuerUsable] at huse
  split_ifs at huse with happroved
  obtain ⟨hkey, hheight⟩ := happ happroved
  have hadmits : (asc.issuerKeys (issuer, keyEpoch)).admits height := by
    intro hcomp
    rw [hkey, hheight, hcomp] at huse
    have hor : keyEpoch = 0 ∨ height ≤ (asc.issuerKeys (issuer, keyEpoch)).lastTrustedBlock := by
      simpa using huse
    exact hor.resolve_left h0
  exact BitVec.lt_irrefl _ (Std.lt_of_lt_of_le hlt ((h.admits_iff _ _).1 hadmits _ hcut))

end

section
variable {senv : SourceEnv} {sowner : Address} {ces : List (ChainEntry senv)} {chain : SourceChain}

/-- The log of a source event is in the receipt of its transaction. -/
theorem applied_of_own {e : ChainEntry senv} (he : e ∈ ces) {ev : SourceEvent}
    (hev : .own ev ∈ e.out) (hmean : ev.meaning ≠ .nothing) :
    chainReceipt e ∈ (receipts ces).filter (Receipt.carries senv.self) ∧
      ∃ a ∈ (chainReceipt e).applied, LogMeaning.ofLog senv.self a.log = ev.meaning ∧
        a.receipt = chainReceipt e := by
  have hmem : ev.log senv.self ∈ (chainReceipt e).logs := List.mem_map_of_mem hev
  have hlog : LogMeaning.ofLog senv.self (ev.log senv.self) = ev.meaning := meaning_log ev
  obtain ⟨a, ha, hal, har⟩ := exists_applied hmem
  refine ⟨List.mem_filter.2 ⟨List.mem_map_of_mem he, ?_⟩, a, ha, hal ▸ hlog, har⟩
  exact List.any_eq_true.2 ⟨_, hmem, carries_of_meaning (hlog ▸ hmean)⟩

/-- One epoch is published in one transaction, once. -/
theorem publication_unique (h : (SourceChain.machine senv).Run (.deployed sowner) ces chain)
    {e e' : ChainEntry senv} (he : e ∈ ces) (he' : e' ∈ ces)
    {q q' : Publication × List (Address × U64)} (hq : q ∈ txPublications e.act)
    (hq' : q' ∈ txPublications e'.act) (hepoch : q.1.epoch = q'.1.epoch) : e = e' ∧ q = q' := by
  let placed := ces.flatMap fun e => (txPublications e.act).map fun q => (e, q)
  have hmap : placed.map (fun x => x.2.1.epoch) = (publications ces).map fun q => q.1.epoch := by
    simp only [placed, publications, List.map_flatMap, List.map_map]
    rfl
  have hnodup : (placed.map fun x => x.2.1.epoch).Nodup := by
    rw [hmap]
    exact (chainInv_run h).increasing.imp fun hlt => BitVec.ne_of_lt hlt
  have hmem {x : ChainEntry senv} {y : Publication × List (Address × U64)} (hx : x ∈ ces)
      (hy : y ∈ txPublications x.act) : (x, y) ∈ placed :=
    List.mem_flatMap.2 ⟨x, hx, List.mem_map_of_mem hy⟩
  exact Prod.mk.inj (List.inj_on_of_nodup_map hnodup (hmem he hq) (hmem he' hq') hepoch)

/-- What the hub records of an approval is what the source published. -/
theorem recorded_approval (h : (SourceChain.machine senv).Run (.deployed sowner) ces chain)
    {rs : List Receipt} (hrs : ∀ r ∈ rs, r ∈ receipts ces) {asc : ProofmarkASC}
    (hm : Mirrors senv.self (rs.flatMap Receipt.applied) asc) {e : ChainEntry senv} (he : e ∈ ces)
    {q : Publication × List (Address × U64)} (hq : q ∈ txPublications e.act) {b : Address × U64}
    (hb : b ∈ q.2) (happ : (asc.epochs q.1.epoch).issuerApproved b.1 = true) :
    (asc.epochs q.1.epoch).issuerKeyEpoch b.1 = b.2 ∧
      (asc.epochs q.1.epoch).issuerApprovalHeight b.1 = e.act.height := by
  rcases hm.recorded q.1.epoch with hempty | ⟨a, ha, hrec, hepoch⟩
  · rw [hempty] at happ
    cases happ
  · obtain ⟨e', he', q', hq', hrecv, hpub⟩ := publication_of_applied h hrs ha hrec.isEpoch
    obtain ⟨rfl, rfl⟩ := publication_unique h he he' hq hq' (by rw [← hepoch, hpub])
    constructor
    · rw [hrec.keyEpoch _ happ, hrecv, hpub]
      exact keyEpochOf_publication (chainEntry_spec h he).2 hq hb
    · rw [hrec.height _ happ, hrecv]
      rfl

end

/-! ## Runs -/

section
variable {env : IssuerEnv} {henv : HubEnv} {sowner howner recoveryOwner initialKey : Address}
  {codeLength : ℕ} {v : SourceVersions} {ces₀ : List (ChainEntry env.source)} {i₀ : RotatingIssuer}
  {c₀ : SourceChain} {es : List (IssuerChainEntry env)} {c : IssuerChain} {hes : List HubEntry}
  {asc : ProofmarkASC}

/-- A new issuer has a key. -/
theorem construct_key (h : RotatingIssuer.construct recoveryOwner initialKey codeLength v = .ok i₀) :
    i₀.operatingKey ≠ 0 := by
  simp only [RotatingIssuer.construct, bind_ok, revertIf_ok, pure_ok, not_or] at h
  obtain ⟨_, -, _, -, _, -, _, ⟨hk, -⟩, rfl⟩ := h
  exact hk

/-- **The cutoff reaches the key.**  The source contract ran to `c₀` before the issuer was
    deployed.  Once the hub has accepted the receipts that carry lifecycle events, in whatever
    order, a cutoff that was declared while a key was operating reaches the key that was active
    last. -/
theorem compromise_cutoff_reaches
    (hi : RotatingIssuer.construct recoveryOwner initialKey codeLength v = .ok i₀)
    (hc₀ : (SourceChain.machine env.source).Run (.deployed sowner) ces₀ c₀)
    (h : (IssuerChain.machine env).Run ⟨i₀, c₀⟩ es c)
    (hhub : (ProofmarkASC.machine henv).Run (.deployed howner) hes asc)
    (hconf : asc.sourceContract = env.source.self)
    (hall : (accepted henv hes).Perm
      ((receipts (ces₀ ++ es.map sourceEntry)).filter (Receipt.carries env.source.self))) :
    ∀ l₁ d l₂ lastTrustedBlock, opEntries es = l₁ ++ d :: l₂ →
      d.declares? = some lastTrustedBlock → d.pre.issuer.suspended = false →
      CutoffReaches (opEntries es) (lastActive (l₁ ++ [d])) lastTrustedBlock asc := by
  have hchain := hc₀.append (source_run h)
  have hops := opEntries_run h
  have hsep := RotatingIssuer.separate_construct hi
  have hmir := (hubInv_run hhub).mirrors
  rw [hconf] at hmir
  have hacc (r : Receipt) (hr : r ∈ accepted henv hes) : r ∈ receipts (ces₀ ++ es.map sourceEntry) :=
    (List.mem_filter.1 (hall.mem_iff.1 hr)).1
  -- the hub has applied every event that the operations emitted
  have happ (o : OpEntry env) (ho : o ∈ opEntries es) (ev : SourceEvent) (hev : .own ev ∈ o.out)
      (hmean : ev.meaning ≠ .nothing) : ∃ a ∈ (accepted henv hes).flatMap Receipt.applied,
        LogMeaning.ofLog env.source.self a.log = ev.meaning ∧ a.receipt.height = o.act.height := by
    obtain ⟨e, he, hheight, -, hout, -⟩ := exists_entry h ho
    obtain ⟨hr, a, ha, hlog, har⟩ := applied_of_own (List.mem_append_right ces₀ he) (hout hev) hmean
    exact ⟨a, List.mem_flatMap.2 ⟨_, hall.mem_iff.2 hr, ha⟩, hlog, har ▸ hheight⟩
  intro l₁ d l₂ lastTrustedBlock hl hd hactive
  have hdmem : d ∈ opEntries es := hl ▸ List.mem_append_right l₁ List.mem_cons_self
  have hsplit := hops
  rw [hl] at hsplit
  obtain ⟨h₁, hstep, -⟩ := hsplit.split
  have hkey : d.pre.issuer.operatingKey ≠ 0 :=
    operatingKey_ne_zero (fun _ => construct_key hi) (issuer_run h₁) hactive
  obtain ⟨hk0, reasonHash, hev⟩ := declared_event hstep hd
  obtain ⟨a, ha, hlog, -⟩ := happ d hdmem _ hev (by simp [SourceEvent.meaning])
  have hcut := mem_cutoffs ha hlog
  dsimp only at hcut
  rw [lastActive_concat hkey]
  constructor
  · intro m hm item hissue hkeym hlt hstores
    obtain ⟨-, -, -, -, hmstep, -⟩ := hops.of_mem hm
    obtain ⟨hmk, hmev⟩ := issued_event hmstep hissue
    have hepoch := keyEpoch_eq hsep hops hdmem hm hkey hkeym
    obtain ⟨b, hb, hblog, hbh⟩ := happ m hm _ hmev (by simp [SourceEvent.meaning])
    have hpos : ∀ x ∈ events env.source.self item.subject ((accepted henv hes).flatMap Receipt.applied),
        ⊥ < x.1 := fun x hx =>
      bot_lt_events (fun r hr => (chainInv_run hchain).height r (hacc r hr)) hx
    have hissuer : (asc.subjects item.subject).mark.issuer = env.self :=
      congrArg Mark.issuer hstores.mark
    exact mark_unusable hmir hpos (hepoch ▸ hcut) hb hblog (hbh ▸ hlt) hissuer hstores.keyEpoch hmk
  · intro p hp epoch happrove hkeyp hlt
    obtain ⟨t, q, ht, hq, rfl, happroval⟩ := approved_publication happrove
    obtain ⟨e, he, hheight, htime, -, htx⟩ := exists_entry h hp
    have hqe : q ∈ txPublications e.act := by
      refine List.mem_filterMap.2 ⟨t, htx t ht, ?_⟩
      rw [hheight, htime]
      exact hq
    have hepoch := keyEpoch_eq hsep hops hdmem hp hkey hkeyp
    refine epoch_unusable hmir hcut hlt hk0 fun happ' => ?_
    rw [← hepoch, ← hheight]
    exact recorded_approval hchain hacc hmir (List.mem_append_right ces₀ he) hqe happroval happ'

end

/-! The issuer 3 with the key 2, whose owner declares a compromise after a mark of the key:
at once, or after suspending the key. -/

def stableEnv : IssuerEnv := ⟨issuerEnv, 3, by decide, fun _ => 0⟩

def stableIssuer : RotatingIssuer := ⟨⟨1, 0⟩, 2, 0, 1, false, update (fun _ => false) 2 true⟩

def markAttrs : Bytes32 := MarkAttrs.pack 1 3 1 410 1 1500 9000 0

def compromiseTxs (suspension : List (IssuerOp stableEnv)) : List (IssuerTx stableEnv) :=
  let eoa : Address → Account := fun _ => .eoa
  [⟨50, 0, 1000, [.source 1 Sender.owner (by decide) eoa (.setIssuer 3 true)]⟩,
    ⟨100, 1, 2000, [.issuer 2 (by decide) eoa (.issueOnce 1 21 8 markAttrs 11 12)]⟩,
    ⟨101, 0, 2500, suspension⟩,
    ⟨102, 3, 3000, [.issuer 1 Sender.owner eoa (.declareCompromise 6 99)]⟩]

def compromiseRun (suspension : List (IssuerOp stableEnv)) : List (IssuerChainEntry stableEnv) :=
  (IssuerChain.machine stableEnv).trace ⟨stableIssuer, .deployed 1⟩ (compromiseTxs suspension)

def compromiseReceipts (suspension : List (IssuerOp stableEnv)) : List Receipt :=
  receipts ((compromiseRun suspension).map sourceEntry)

def compromiseEnv (suspension : List (IssuerOp stableEnv)) : HubEnv :=
  ReceiptFixture.env ((compromiseReceipts suspension).map Receipt.logs)

/-- The declaration arrives before the mark. -/
def compromiseCalls (suspension : List (IssuerOp stableEnv)) : List (Msg × ProofmarkASC.Call) :=
  let msg (sender : Address) (h : sender ≠ 0) : Msg := ⟨sender, 0, 5000, h⟩
  (msg 1 Sender.owner, .configureSource 2 80) ::
    ([(4, 3), (0, 1)] : List (U8 × ℕ)).map fun p =>
      (msg 3 Sender.issuer,
        ReceiptFixture.deliver p.1 2 ((compromiseReceipts suspension).getD p.2 ⟨0, 0, []⟩))

def compromiseEntries (suspension : List (IssuerOp stableEnv)) : List HubEntry :=
  (ProofmarkASC.machine (compromiseEnv suspension)).trace (.deployed 1) (compromiseCalls suspension)

def compromiseHub (suspension : List (IssuerOp stableEnv)) : ProofmarkASC :=
  (ProofmarkASC.machine (compromiseEnv suspension)).final (.deployed 1) (compromiseCalls suspension)

/-- The run of the two contracts. -/
theorem compromise_run (suspension : List (IssuerOp stableEnv)) :
    (IssuerChain.machine stableEnv).Run ⟨stableIssuer, .deployed 1⟩ (compromiseRun suspension)
      ((IssuerChain.machine stableEnv).final ⟨stableIssuer, .deployed 1⟩ (compromiseTxs suspension)) :=
  (IssuerChain.machine stableEnv).run_trace _ _

/-- The run of the hub. -/
theorem compromise_hub_run (suspension : List (IssuerOp stableEnv)) :
    (ProofmarkASC.machine (compromiseEnv suspension)).Run (.deployed 1)
      (compromiseEntries suspension) (compromiseHub suspension) :=
  (ProofmarkASC.machine (compromiseEnv suspension)).run_trace _ _

theorem active_ne_nil : opEntries (compromiseRun []) ≠ [] :=
  List.ne_nil_of_length_pos (by decide +kernel)

theorem compromise_cutoff_reaches_active :
    ∃ l₁ d, opEntries (compromiseRun []) = l₁ ++ [d] ∧ d.declares? = some 99 ∧
      CutoffReaches (opEntries (compromiseRun [])) (lastActive (l₁ ++ [d])) 99 (compromiseHub []) := by
  have hi : RotatingIssuer.construct 1 2 1 ⟨0, 2, 1, 1⟩ = .ok stableIssuer := rfl
  have hc₀ : (SourceChain.machine stableEnv.source).Run (.deployed 1) [] (.deployed 1) := .nil
  have hl := (List.dropLast_append_getLast active_ne_nil).symm
  have hd : ((opEntries (compromiseRun [])).getLast active_ne_nil).declares? = some 99 := by
    decide +kernel
  refine ⟨_, _, hl, hd, ?_⟩
  exact compromise_cutoff_reaches hi hc₀ (compromise_run []) (compromise_hub_run [])
    (by decide +kernel) (by decide +kernel) _ _ [] 99 hl hd (by decide +kernel)

def suspension : List (IssuerOp stableEnv) := [.issuer 1 Sender.owner (fun _ => .eoa) (.suspend 5)]

theorem one_lt_suspension : 1 < (opEntries (compromiseRun suspension)).length := by decide +kernel

theorem suspension_ne_nil : opEntries (compromiseRun suspension) ≠ [] :=
  List.ne_nil_of_length_pos (Nat.zero_lt_of_lt one_lt_suspension)

/-- **After a suspension the cutoff misses the key.**  The owner suspends the key 2, then
    declares its compromise with the last trusted block 99.  The mark of block 100 stays usable. -/
theorem compromise_after_suspension :
    RotatingIssuer.construct 1 2 1 ⟨0, 2, 1, 1⟩ = .ok stableIssuer ∧
      (∃ c, (IssuerChain.machine stableEnv).Run ⟨stableIssuer, .deployed 1⟩
        (compromiseRun suspension) c) ∧
      (ProofmarkASC.machine (compromiseEnv suspension)).Run (.deployed 1)
        (compromiseEntries suspension) (compromiseHub suspension) ∧
      (compromiseHub suspension).sourceContract = stableEnv.source.self ∧
      (accepted (compromiseEnv suspension) (compromiseEntries suspension)).Perm
        ((compromiseReceipts suspension).filter (Receipt.carries stableEnv.source.self)) ∧
      ∃ l₁ d, opEntries (compromiseRun suspension) = l₁ ++ [d] ∧ d.declares? = some 99 ∧
        lastActive (l₁ ++ [d]) = 2 ∧
        ¬ CutoffReaches (opEntries (compromiseRun suspension)) 2 99 (compromiseHub suspension) := by
  refine ⟨rfl, ⟨_, compromise_run suspension⟩, compromise_hub_run suspension, by decide +kernel,
    by decide +kernel, _, _, (List.dropLast_append_getLast suspension_ne_nil).symm, by decide +kernel,
    by decide +kernel, fun h => ?_⟩
  have hmark := h.marks _ (List.getElem_mem one_lt_suspension) ⟨8, markAttrs, 11, 12⟩ (by decide +kernel)
    (by decide +kernel) (by decide +kernel) ⟨by decide +kernel, by decide +kernel⟩
  have husable : (compromiseHub suspension).isMarkIssuerUsable 8 = true := by decide +kernel
  rw [husable] at hmark
  cases hmark

end Proofmark
