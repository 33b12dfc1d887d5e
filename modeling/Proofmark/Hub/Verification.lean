/-
  What the registry answers.

  `direct_verification`: without a roster, `isVerified` says what the accepted source
  events of the subject say.  `witness_mode_agrees`: with a roster, it says what
  `verifyWithRoster` says for the proof with which the witness was cached.
-/
import Proofmark.Contract.ProofmarkRegistry
import Proofmark.Hub.ReceiptFixture
import Proofmark.Hub.ReceiptOrder

namespace Proofmark

open Revert Function Latest

/-! ## Policies -/

/-- The attributes and the issuer of a mark satisfy a policy of the given kind. -/
structure Satisfies (p : Policy) (kind : U8) (now : ℕ) (attrs : Bytes32) (issuer : Address) :
    Prop where
  kind : MarkAttrs.kind attrs = kind
  methods : ∀ i, p.requireAll.getLsbD i = true → (MarkAttrs.methods attrs).getLsbD i = true
  assurance : p.minAssurance ≤ MarkAttrs.assurance attrs
  regime : p.requiredRegime ≠ 0 → MarkAttrs.regime attrs = p.requiredRegime
  jurisdiction : p.requiredJurisdiction ≠ 0 → MarkAttrs.jurisdiction attrs = p.requiredJurisdiction
  trustedIssuer : p.trustedIssuer ≠ 0 → issuer = p.trustedIssuer
  issuer_ne : issuer ≠ 0
  issued : (MarkAttrs.issuedAt attrs).toNat ≤ now
  unexpired : now < (MarkAttrs.expiry attrs).toNat
  age : p.maxAge ≠ 0 → now - (MarkAttrs.issuedAt attrs).toNat ≤ p.maxAge.toNat

theorem and_eq_right_iff {w : ℕ} {x y : BitVec w} :
    x &&& y = y ↔ ∀ i, y.getLsbD i = true → x.getLsbD i = true := by
  constructor
  · intro h i hi
    have := congrArg (fun z => z.getLsbD i) h
    simpa [hi] using this
  · intro h
    refine BitVec.eq_of_getLsbD_eq fun i _ => ?_
    rw [BitVec.getLsbD_and]
    cases hy : y.getLsbD i with
    | false => simp
    | true => simp [h i hy]

theorem lt_of_validSchema {attrs : Bytes32} (h : MarkAttrs.validSchema attrs = true) :
    MarkAttrs.issuedAt attrs < MarkAttrs.expiry attrs := by
  simp only [MarkAttrs.validSchema, Bool.and_eq_true, decide_eq_true_eq] at h
  exact h.2

/-- **The decoder of `_policyHolds` agrees with the fields of the attributes.** -/
theorem policyHolds_iff {now : ℕ} {attrs : Bytes32} {issuer : Address} {p : Policy} {kind : U8} :
    ProofmarkRegistry.policyHolds now attrs issuer p kind = true ↔
      MarkAttrs.validSchema attrs = true ∧ Satisfies p kind now attrs issuer := by
  simp only [ProofmarkRegistry.policyHolds]
  constructor
  · intro h
    split_ifs at h with h1 h2 h3 h4 h5 h6 h7 h8 h9
    rw [not_or, not_or, not_not, not_not] at h1
    rw [not_not, and_eq_right_iff] at h2
    refine ⟨h1.1, h1.2.1, h2, BitVec.not_lt.1 h3, ?_, ?_, ?_, h1.2.2, ?_, not_le.1 h7, ?_⟩
    · exact fun h0 => not_not.1 fun hne => h4 ⟨h0, hne⟩
    · exact fun h0 => not_not.1 fun hne => h5 ⟨h0, hne⟩
    · exact fun h0 => not_not.1 fun hne => h6 ⟨h0, hne⟩
    · exact not_lt.1 fun hlt => h8 (.inl hlt)
    · exact fun h0 => not_lt.1 fun hlt => h9 ⟨h0, hlt⟩
  · rintro ⟨hv, hs⟩
    have hlt := lt_of_validSchema hv
    rw [if_neg, if_neg, if_neg, if_neg, if_neg, if_neg, if_neg, if_neg, if_neg]
    · exact fun h => Nat.not_lt.2 (hs.age h.1) h.2
    · rintro (h | h)
      · exact Nat.not_lt.2 hs.issued h
      · exact BitVec.not_le.2 hlt h
    · exact Nat.not_le.2 hs.unexpired
    · exact fun h => h.2 (hs.trustedIssuer h.1)
    · exact fun h => h.2 (hs.jurisdiction h.1)
    · exact fun h => h.2 (hs.regime h.1)
    · exact BitVec.not_lt.2 hs.assurance
    · exact not_not.2 (and_eq_right_iff.2 hs.methods)
    · rintro (h | h | h)
      · exact h hv
      · exact h hs.kind
      · exact hs.issuer_ne h

/-! ## Cutoffs -/

/-- A cutoff lets an event of block `height` count. -/
def KeyCutoff.admits (k : KeyCutoff) (height : U64) : Prop :=
  k.compromised = true → height ≤ k.lastTrustedBlock

theorem tighten_admits {k : KeyCutoff} {b height : U64} :
    (k.tighten b).admits height ↔ k.admits height ∧ height ≤ b := by
  rw [KeyCutoff.tighten]
  cases hk : k.compromised with
  | false => simp [KeyCutoff.admits, hk]
  | true =>
    by_cases hlt : b < k.lastTrustedBlock
    · simp only [hlt, KeyCutoff.admits, hk, or_true, if_true, forall_const]
      exact ⟨fun h => ⟨BitVec.le_of_lt (Std.lt_of_le_of_lt h hlt), h⟩, And.right⟩
    · simp only [hlt, KeyCutoff.admits, hk, not_true, or_false, if_false, forall_const]
      exact ⟨fun h => ⟨h, BitVec.le_trans h (BitVec.not_lt.1 hlt)⟩, And.left⟩

/-- **The recorded cutoff is the tightest declared one.** -/
theorem foldl_tighten_admits {bs : List U64} {k : KeyCutoff} {height : U64} :
    (bs.foldl KeyCutoff.tighten k).admits height ↔ k.admits height ∧ ∀ b ∈ bs, height ≤ b := by
  induction bs generalizing k with
  | nil => simp
  | cons b bs ih =>
    rw [List.foldl_cons, ih, tighten_admits, List.forall_mem_cons, and_assoc]

section
variable {source : Address} {l : List Applied} {asc : ProofmarkASC}

/-- No accepted declaration has a last trusted block before `height`. -/
def Trusted (source : Address) (l : List Applied) (issuer : Address) (keyEpoch height : U64) : Prop :=
  keyEpoch = 0 ∨ ∀ b ∈ cutoffs source (issuer, keyEpoch) l, height ≤ b

theorem Mirrors.admits_iff (h : Mirrors source l asc) (key : Address × U64) (height : U64) :
    (asc.issuerKeys key).admits height ↔ ∀ b ∈ cutoffs source key l, height ≤ b := by
  rw [h.issuerKeys, foldl_tighten_admits]
  simp [KeyCutoff.admits]

theorem isMarkIssuerUsable_iff (h : Mirrors source l asc) (subject : Address) :
    asc.isMarkIssuerUsable subject = true ↔
      Trusted source l (asc.subjects subject).mark.issuer (asc.subjects subject).markIssuerKeyEpoch
        (asc.subjects subject).lastApplied.height := by
  rw [Trusted, ← h.admits_iff, ProofmarkASC.isMarkIssuerUsable, KeyCutoff.admits]
  cases (asc.issuerKeys ((asc.subjects subject).mark.issuer,
    (asc.subjects subject).markIssuerKeyEpoch)).compromised <;> simp

/-- The status says who is neither denied nor revoked. -/
theorem Tracks.active_iff {l : List Event} {st : SubjectState} (h : Tracks l st) :
    st.mark.status = .active ↔ denialInForce l = false ∧
      ∃ c attrs issuer keyEpoch claimsRoot evidenceHash,
        latest l = some (c, .issued attrs issuer keyEpoch claimsRoot evidenceHash) ∧
        MarkAttrs.validSchema attrs = true := by
  constructor
  · intro ha
    rcases hm : latest l with _ | ⟨c, ev⟩
    · rw [h.untouched (latest_eq_none.1 hm)] at ha
      cases ha
    · have hs := h.status _ hm
      rw [ha] at hs
      cases hd : denialInForce l with
      | true => simp [hd] at hs
      | false =>
        simp only [hd, Bool.false_eq_true, if_false] at hs
        refine ⟨rfl, ?_⟩
        cases ev with
        | issued attrs issuer keyEpoch claimsRoot evidenceHash =>
          refine ⟨c, attrs, issuer, keyEpoch, claimsRoot, evidenceHash, rfl, ?_⟩
          by_contra hv
          simp [LifecycleEvent.status, hv] at hs
        | _ => cases hs
  · rintro ⟨hd, c, attrs, issuer, keyEpoch, claimsRoot, evidenceHash, hm, hv⟩
    rw [h.status _ hm, hd]
    simp [LifecycleEvent.status, hv]

/-- An active subject stores the mark of its last event. -/
theorem Tracks.mark_eq {l : List Event} {st : SubjectState} {c : Coord} {attrs : Bytes32}
    {issuer : Address} {keyEpoch : U64} {claimsRoot evidenceHash : Bytes32} (h : Tracks l st)
    (ha : st.mark.status = .active)
    (hm : latest l = some (c, .issued attrs issuer keyEpoch claimsRoot evidenceHash))
    (hv : MarkAttrs.validSchema attrs = true) :
    st.mark = Mark.direct attrs issuer claimsRoot evidenceHash ∧ st.markIssuerKeyEpoch = keyEpoch ∧
      st.lastApplied = c ∧ st.tombstone = false := by
  obtain ⟨h1, h2⟩ := h.stored _ _ _ _ _ _ hm hv
  refine ⟨?_, h2, ?_, ?_⟩
  · rw [← h1, ← ha]
  · rw [h.lastApplied, position_of_latest hm]
  · rw [h.tombstone _ hm, ha]
    rfl

end

/-! ## The hub chain -/

abbrev HubChainEntry := Machine.Entry Hub (Msg × Hub.Call) Unit

/-- The step of the hub contract in a step of the hub chain. -/
def ascEntry (e : HubChainEntry) : Option HubEntry :=
  match e.act.2 with
  | .asc c => some ⟨e.pre.asc, (e.act.1, c), (), e.post.asc⟩
  | .registry _ => none

/-- The receipts accepted in a run of the hub chain. -/
def Hub.accepted (env : HubEnv) (es : List HubChainEntry) : List Receipt :=
  Proofmark.accepted env (es.filterMap ascEntry)

section
variable {env : HubEnv} {owner : Address} {es : List HubChainEntry} {h : Hub}

/-- A step is a transaction to one of the two contracts. -/
theorem Hub.step_cases {e : HubChainEntry} (hs : (Hub.machine env).IsStep e) :
    (∃ c, e.act.2 = .asc c ∧ e.pre.asc.call env e.act.1 c = .ok e.post.asc ∧
      e.post.registry = e.pre.registry) ∨
    ∃ c, e.act.2 = .registry c ∧
      e.pre.registry.call env.keccak256 e.pre.asc e.act.1 c = .ok e.post.registry ∧
      e.post.asc = e.pre.asc := by
  obtain ⟨h, ⟨msg, c⟩, _, h'⟩ := e
  simp only [Machine.IsStep, Hub.machine] at hs
  cases c with
  | asc c =>
    left
    cases hc : h.asc.call env msg c with
    | error e => simp [hc, Except.map, Except.mapError] at hs
    | ok asc =>
      simp only [hc, Except.map, Except.mapError, Except.ok.injEq, Prod.mk.injEq] at hs
      obtain ⟨rfl, -⟩ := hs
      exact ⟨c, rfl, hc, rfl⟩
  | registry c =>
    right
    cases hc : h.registry.call env.keccak256 h.asc msg c with
    | error e => simp [hc, Except.map, Except.mapError] at hs
    | ok r =>
      simp only [hc, Except.map, Except.mapError, Except.ok.injEq, Prod.mk.injEq] at hs
      obtain ⟨rfl, -⟩ := hs
      exact ⟨c, rfl, hc, rfl⟩

theorem isStep_asc {asc asc' : ProofmarkASC} {msg : Msg} {c : ProofmarkASC.Call}
    (h : asc.call env msg c = .ok asc') :
    (ProofmarkASC.machine env).IsStep ⟨asc, (msg, c), (), asc'⟩ := by
  simp [Machine.IsStep, ProofmarkASC.machine, h, Except.map]

/-- Seen from the hub contract, a run of the hub chain is one of its runs. -/
theorem Hub.run_asc (hrun : (Hub.machine env).Run (.deployed owner) es h) :
    (ProofmarkASC.machine env).Run (.deployed owner) (es.filterMap ascEntry) h.asc := by
  refine hrun.project (f := Hub.asc) (g := ascEntry) fun e hs => ?_
  rcases Hub.step_cases hs with ⟨c, hc, hok, -⟩ | ⟨c, hc, -, hasc⟩
  · exact .inr ⟨_, by rw [ascEntry, hc], isStep_asc hok, rfl, rfl⟩
  · exact .inl ⟨by rw [ascEntry, hc], hasc⟩

end

/-! ## Verification without a roster -/

/-- What makes a subject pass a policy without a roster: no denial is in force, the
    latest event is a valid issuance under a trusted key, and its attributes satisfy the
    policy. -/
def PassesDirectly (source subject : Address) (rs : List Receipt) (p : Policy) (kind : U8)
    (now : ℕ) : Prop :=
  denialInForce (receiptEvents source subject rs) = false ∧
    ∃ c attrs issuer keyEpoch claimsRoot evidenceHash,
      latest (receiptEvents source subject rs) =
        some (c, .issued attrs issuer keyEpoch claimsRoot evidenceHash) ∧
      MarkAttrs.validSchema attrs = true ∧
      Trusted source (rs.flatMap Receipt.applied) issuer keyEpoch c.height ∧
      Satisfies p kind now attrs issuer

theorem isVerified_direct {r : ProofmarkRegistry} {asc : ProofmarkASC} {now : ℕ} {subject : Address}
    {policyId : U256} (hreg : (r.policies policyId).exists = true)
    (hroster : (r.policies policyId).requireRoster = false) :
    r.isVerified asc now subject policyId = true ↔
      (asc.subjects subject).tombstone = false ∧ (asc.subjects subject).mark.status = .active ∧
      asc.isMarkIssuerUsable subject = true ∧
      (let m := (asc.subjects subject).mark
       ProofmarkRegistry.policyHolds now (MarkAttrs.pack m.kind m.assurance m.regime m.jurisdiction
          m.methods m.issuedAt m.expiry m.epoch) m.issuer (r.policies policyId)
          (r.policyKind policyId) = true ∧
        ProofmarkRegistry.fresh asc now m (r.policies policyId) = true) := by
  simp only [ProofmarkRegistry.isVerified, hreg, hroster, not_true, if_false]
  split_ifs with h1 h2 h3 h4 <;> simp_all

/-- **Direct verification**: `isVerified` holds exactly when the accepted source events of
    the subject, read in source order, make it pass the policy.  Block 0 of the source
    chain has no transactions, so no receipt of it is ever proved. -/
theorem direct_verification {env : HubEnv} {owner : Address} {es : List HubChainEntry} {h : Hub}
    (hrun : (Hub.machine env).Run (.deployed owner) es h)
    (hheight : ∀ r ∈ Hub.accepted env es, 1 ≤ r.height) (subject : Address) (policyId : U256)
    (now : ℕ) (hreg : (h.registry.policies policyId).exists = true)
    (hroster : (h.registry.policies policyId).requireRoster = false) :
    h.registry.isVerified h.asc now subject policyId = true ↔
      PassesDirectly h.asc.sourceContract subject (Hub.accepted env es)
        (h.registry.policies policyId) (h.registry.policyKind policyId) now := by
  have hm := (hubInv_run (Hub.run_asc hrun)).mirrors
  have ht : Tracks (receiptEvents h.asc.sourceContract subject (Hub.accepted env es))
      (h.asc.subjects subject) := by
    rw [hm.subjects subject]
    exact tracks_delivered fun m hm => bot_lt_events hheight hm
  rw [isVerified_direct hreg hroster, isMarkIssuerUsable_iff hm, ht.active_iff, PassesDirectly]
  constructor
  · rintro ⟨-, ⟨hd, c, attrs, issuer, keyEpoch, claimsRoot, evidenceHash, hl, hv⟩, huse, hpol, -⟩
    have ha := ht.active_iff.2 ⟨hd, c, attrs, issuer, keyEpoch, claimsRoot, evidenceHash, hl, hv⟩
    obtain ⟨hmark, hkey, hlast, -⟩ := ht.mark_eq ha hl hv
    refine ⟨hd, c, attrs, issuer, keyEpoch, claimsRoot, evidenceHash, hl, hv, ?_, ?_⟩
    · rwa [hmark, hkey, hlast] at huse
    · rw [hmark] at hpol
      -- packing the stored fields gives the topic back
      simp only [Mark.direct, MarkAttrs.pack_unpack (MarkAttrs.validSchema_reserved hv)] at hpol
      exact (policyHolds_iff.1 hpol).2
  · rintro ⟨hd, c, attrs, issuer, keyEpoch, claimsRoot, evidenceHash, hl, hv, htrust, hsat⟩
    have ha := ht.active_iff.2 ⟨hd, c, attrs, issuer, keyEpoch, claimsRoot, evidenceHash, hl, hv⟩
    obtain ⟨hmark, hkey, hlast, htomb⟩ := ht.mark_eq ha hl hv
    refine ⟨htomb, ⟨hd, c, attrs, issuer, keyEpoch, claimsRoot, evidenceHash, hl, hv⟩, ?_, ?_, ?_⟩
    · rwa [hmark, hkey, hlast]
    · rw [hmark]
      simp only [Mark.direct, MarkAttrs.pack_unpack (MarkAttrs.validSchema_reserved hv)]
      exact policyHolds_iff.2 ⟨hv, hsat⟩
    · simp [hmark, Mark.direct, ProofmarkRegistry.fresh, hroster]

/-! The receipts of the late denial, delivered to a hub with a policy for the marks of
issuer 9. -/

def directCalls : List (Msg × Hub.Call) :=
  (⟨9, 0, 1500, Sender.outsider⟩,
      .registry (.registerPolicyForKind ⟨1, 2, 900, 1, 410, 9, false, false⟩ 1)) ::
    lateDenialCalls.map fun c => (c.1, .asc c.2)

def directHub : Hub := (Hub.machine lateDenialEnv).final (.deployed 1) directCalls

theorem direct_verification_late_denial :
    PassesDirectly directHub.asc.sourceContract 7
      (Hub.accepted lateDenialEnv ((Hub.machine lateDenialEnv).trace (.deployed 1) directCalls))
      (directHub.registry.policies 1) (directHub.registry.policyKind 1) 1500 := by
  have h := (direct_verification ((Hub.machine lateDenialEnv).run_trace (.deployed 1) directCalls)
    (by decide +kernel) 7 1 1500 (by decide +kernel) (by decide +kernel)).1 (by decide +kernel)
  rwa [← directHub] at h

/-! ## Verification with a cached witness -/

/-- Epochs that were accepted keep their record. -/
structure KeepsEpochs (asc asc' : ProofmarkASC) : Prop where
  latestEpoch : asc.latestEpoch ≤ asc'.latestEpoch
  epochs : ∀ e ≤ asc.latestEpoch, asc'.epochs e = asc.epochs e

theorem KeepsEpochs.refl (asc : ProofmarkASC) : KeepsEpochs asc asc :=
  ⟨BitVec.le_refl _, fun _ _ => rfl⟩

theorem KeepsEpochs.trans {a b c : ProofmarkASC} (h : KeepsEpochs a b) (h' : KeepsEpochs b c) :
    KeepsEpochs a c :=
  ⟨BitVec.le_trans h.1 h'.1, fun e he => (h'.2 e (BitVec.le_trans he h.1)).trans (h.2 e he)⟩

section
variable {env : HubEnv} {asc asc' : ProofmarkASC} {now : ℕ} {receiptLogs : List LogEntry}

theorem LogEffect.keepsEpochs {c : Coord} {L : LogEntry}
    (h : LogEffect now c receiptLogs L asc asc') : KeepsEpochs asc asc' := by
  cases h with
  | nothing _ => exact .refl _
  | lifecycle _ => exact ⟨BitVec.le_refl _, fun _ _ => rfl⟩
  | compromise _ => exact ⟨BitVec.le_refl _, fun _ _ => rfl⟩
  | epoch _ he =>
    cases onEpoch_effect he with
    | stale _ => exact .refl _
    | accepted hlt _ _ _ _ =>
      refine ⟨BitVec.le_of_lt hlt, fun e hle => ?_⟩
      exact update_of_ne (BitVec.ne_of_lt (Std.lt_of_le_of_lt hle hlt)) ..

theorem applyLogs_keepsEpochs {height txIndex : U64} {i : ℕ} {logs : List LogEntry}
    (h : ProofmarkASC.applyLogs now height txIndex receiptLogs asc i logs = .ok asc') :
    KeepsEpochs asc asc' := by
  induction logs generalizing asc i with
  | nil =>
    rw [ProofmarkASC.applyLogs, pure_ok] at h
    exact h ▸ .refl _
  | cons L logs ih =>
    simp only [ProofmarkASC.applyLogs, bind_ok] at h
    obtain ⟨asc₁, h1, h2⟩ := h
    exact (applyLog_effect h1).keepsEpochs.trans (ih h2)

/-- No transaction rewrites an accepted epoch. -/
theorem call_keepsEpochs {msg : Msg} {c : ProofmarkASC.Call} (h : asc.call env msg c = .ok asc') :
    KeepsEpochs asc asc' := by
  cases c with
  | ownership c =>
    simp only [ProofmarkASC.call, bind_ok, pure_ok] at h
    obtain ⟨o, -, rfl⟩ := h
    exact ⟨BitVec.le_refl _, fun _ _ => rfl⟩
  | configureSource chainKey source =>
    simp only [ProofmarkASC.call, ProofmarkASC.configureSource, bind_ok, pure_ok] at h
    obtain ⟨_, -, _, -, _, -, _, -, rfl⟩ := h
    exact ⟨BitVec.le_refl _, fun _ _ => rfl⟩
  | execute x =>
    obtain ⟨r, -, hx⟩ := execute_executed h
    obtain ⟨h1, h2⟩ := applyLogs_keepsEpochs hx.applied
    exact ⟨h1, h2⟩

end

/-- The leaf of a subject in the roster. -/
def rosterLeaf (keccak256 : Bytes → Bytes32) (subject : Address) (mark : RosterMark) : Bytes32 :=
  RosterProof.leafOf keccak256
    (RosterProof.subjectKey keccak256 ProofmarkRegistry.NAMESPACE subject)
    (RosterProof.markHash keccak256 mark.attrs mark.claimsRoot mark.evidenceHash mark.issuer)

/-- The inclusion proof holds against the root of the epoch. -/
structure Included (keccak256 : Bytes → Bytes32) (asc : ProofmarkASC) (subject : Address)
    (w : RosterWitness) (inclusion : RosterProof.Inclusion) : Prop where
  subject_ne : subject ≠ 0
  root_ne : (asc.epochs w.epoch).root ≠ 0
  included : RosterProof.verifyInclusion keccak256 (asc.epochs w.epoch).root
    (rosterLeaf keccak256 subject w.mark) inclusion = true

theorem rosterContains_iff {keccak256 : Bytes → Bytes32} {asc : ProofmarkASC} {now : ℕ}
    {subject : Address} {mark : RosterMark} {inclusion : RosterProof.Inclusion} :
    ProofmarkRegistry.rosterContains keccak256 asc now subject mark inclusion = true ↔
      (asc.subjects subject).tombstone = false ∧ asc.isRosterFresh now = true ∧
      asc.isEpochIssuerUsable asc.latestEpoch mark.issuer = true ∧
      Included keccak256 asc subject ⟨asc.latestEpoch, mark⟩ inclusion := by
  simp only [ProofmarkRegistry.rosterContains]
  constructor
  · intro h
    split_ifs at h with h1 h2 h3 h4 h5
    exact ⟨Bool.not_eq_true _ ▸ h2, h3, h4, h1, h5, h⟩
  · rintro ⟨h2, h3, h4, h1, h5, h⟩
    rw [if_neg h1, if_neg (by simp [h2]), if_neg (not_not.2 h3), if_neg (not_not.2 h4), if_neg h5]
    exact h

/-- The witness that a transaction caches for a subject, with its proof. -/
def cached? (subject : Address) (e : HubChainEntry) :
    Option (RosterWitness × RosterProof.Inclusion) :=
  match e.act.2 with
  | .registry (.cacheRosterWitness subject' mark inclusion) =>
    if subject' = subject then some (⟨e.pre.asc.latestEpoch, mark⟩, inclusion) else none
  | _ => none

/-- The witness that a run cached last for a subject, with its proof. -/
def lastCached (es : List HubChainEntry) (subject : Address) :
    Option (RosterWitness × RosterProof.Inclusion) :=
  (es.filterMap (cached? subject)).getLast?

/-- The stored witnesses are those cached last, and their proofs still hold. -/
structure WitnessInv (keccak256 : Bytes → Bytes32) (es : List HubChainEntry) (h : Hub) : Prop where
  stored : ∀ subject, h.registry.rosterWitnesses subject =
    ((lastCached es subject).map Prod.fst).getD .empty
  past : ∀ subject w inclusion, lastCached es subject = some (w, inclusion) →
    w.epoch ≤ h.asc.latestEpoch
  included : ∀ subject w inclusion, lastCached es subject = some (w, inclusion) →
    Included keccak256 h.asc subject w inclusion

section
variable {env : HubEnv} {owner : Address} {es : List HubChainEntry} {h : Hub}

theorem lastCached_concat (es : List HubChainEntry) (e : HubChainEntry) (subject : Address) :
    lastCached (es ++ [e]) subject = (cached? subject e).or (lastCached es subject) := by
  rw [lastCached, List.filterMap_append, lastCached]
  cases hc : cached? subject e <;> simp [hc]

theorem Included.keep {keccak256 : Bytes → Bytes32} {asc asc' : ProofmarkASC} {subject : Address}
    {w : RosterWitness} {inclusion : RosterProof.Inclusion} (hk : KeepsEpochs asc asc')
    (hw : w.epoch ≤ asc.latestEpoch) (hi : Included keccak256 asc subject w inclusion) :
    Included keccak256 asc' subject w inclusion := by
  have he := hk.epochs w.epoch hw
  exact ⟨hi.subject_ne, he ▸ hi.root_ne, he ▸ hi.included⟩

/-- A step that caches nothing keeps the witnesses. -/
theorem WitnessInv.keep {e : HubChainEntry} (hi : WitnessInv env.keccak256 es e.pre)
    (hk : KeepsEpochs e.pre.asc e.post.asc) (hc : ∀ subject, cached? subject e = none)
    (hw : e.post.registry.rosterWitnesses = e.pre.registry.rosterWitnesses) :
    WitnessInv env.keccak256 (es ++ [e]) e.post := by
  have hlast (subject : Address) : lastCached (es ++ [e]) subject = lastCached es subject := by
    rw [lastCached_concat, hc, Option.none_or]
  refine ⟨fun subject => ?_, fun subject w inclusion hl => ?_, fun subject w inclusion hl => ?_⟩
  · rw [hw, hlast, hi.stored]
  · rw [hlast] at hl
    exact BitVec.le_trans (hi.past _ _ _ hl) hk.latestEpoch
  · rw [hlast] at hl
    exact (hi.included _ _ _ hl).keep hk (hi.past _ _ _ hl)

theorem WitnessInv.step {e : HubChainEntry} (hi : WitnessInv env.keccak256 es e.pre)
    (hs : (Hub.machine env).IsStep e) : WitnessInv env.keccak256 (es ++ [e]) e.post := by
  rcases Hub.step_cases hs with ⟨c, hc, hok, hr⟩ | ⟨c, hc, hok, hasc⟩
  · exact hi.keep (call_keepsEpochs hok) (fun subject => by rw [cached?, hc]) (by rw [hr])
  · have hk : KeepsEpochs e.pre.asc e.post.asc := hasc ▸ .refl _
    cases c with
    | cacheRosterWitness subject mark inclusion =>
      simp only [ProofmarkRegistry.call, ProofmarkRegistry.cacheRosterWitness, bind_ok, revertIf_ok,
        not_not, pure_ok] at hok
      obtain ⟨_, hcont, hpost⟩ := hok
      obtain ⟨-, -, -, hincl⟩ := rosterContains_iff.1 hcont
      have hnew : cached? subject e = some (⟨e.pre.asc.latestEpoch, mark⟩, inclusion) := by
        rw [cached?, hc]
        simp
      have hold (x : Address) (hx : x ≠ subject) : cached? x e = none := by
        rw [cached?, hc]
        simp [hx.symm]
      refine ⟨fun x => ?_, fun x w p hl => ?_, fun x w p hl => ?_⟩
      · rw [lastCached_concat, ← hpost]
        by_cases hx : x = subject
        · subst hx
          simp [hnew]
        · simp [update_of_ne hx, hold x hx, hi.stored]
      all_goals
        rw [lastCached_concat] at hl
        rw [hasc]
        by_cases hx : x = subject
      · subst hx
        rw [hnew, Option.some_or, Option.some.injEq, Prod.mk.injEq] at hl
        exact hl.1 ▸ BitVec.le_refl _
      · rw [hold x hx, Option.none_or] at hl
        exact hi.past _ _ _ hl
      · subst hx
        rw [hnew, Option.some_or, Option.some.injEq, Prod.mk.injEq] at hl
        obtain ⟨rfl, rfl⟩ := hl
        exact hincl
      · rw [hold x hx, Option.none_or] at hl
        exact hi.included _ _ _ hl
    | registerPolicy p =>
      simp only [ProofmarkRegistry.call, ProofmarkRegistry.registerPolicy,
        ProofmarkRegistry.registerPolicyKind, bind_ok, pure_ok] at hok
      obtain ⟨_, -, _, -, _, -, hpost⟩ := hok
      exact hi.keep hk (fun subject => by rw [cached?, hc]) (by rw [← hpost])
    | registerPolicyForKind p kind =>
      simp only [ProofmarkRegistry.call, ProofmarkRegistry.registerPolicyForKind,
        ProofmarkRegistry.registerPolicyKind, bind_ok, pure_ok] at hok
      obtain ⟨_, -, _, -, _, -, hpost⟩ := hok
      exact hi.keep hk (fun subject => by rw [cached?, hc]) (by rw [← hpost])
    | updatePolicy policyId p =>
      simp only [ProofmarkRegistry.call, ProofmarkRegistry.updatePolicy, bind_ok, pure_ok] at hok
      obtain ⟨_, -, _, -, _, -, _, -, hpost⟩ := hok
      exact hi.keep hk (fun subject => by rw [cached?, hc]) (by rw [← hpost])
    | transferPolicyOwner policyId newOwner =>
      simp only [ProofmarkRegistry.call, ProofmarkRegistry.transferPolicyOwner, bind_ok, pure_ok] at hok
      obtain ⟨_, -, _, -, hpost⟩ := hok
      exact hi.keep hk (fun subject => by rw [cached?, hc]) (by rw [← hpost])
    | freezePolicy policyId =>
      simp only [ProofmarkRegistry.call, ProofmarkRegistry.freezePolicy, bind_ok, pure_ok] at hok
      obtain ⟨_, -, _, -, hpost⟩ := hok
      exact hi.keep hk (fun subject => by rw [cached?, hc]) (by rw [← hpost])

theorem witnessInv_run (hrun : (Hub.machine env).Run (.deployed owner) es h) :
    WitnessInv env.keccak256 es h := by
  refine hrun.history (H := WitnessInv env.keccak256) ?_ fun es e _ hi hs => hi.step hs
  refine ⟨fun _ => rfl, ?_, ?_⟩ <;> simp [lastCached]

theorem isVerified_witness {r : ProofmarkRegistry} {asc : ProofmarkASC} {now : ℕ} {subject : Address}
    {policyId : U256} (hroster : (r.policies policyId).requireRoster = true) :
    r.isVerified asc now subject policyId = true ↔
      (r.policies policyId).exists = true ∧ (asc.subjects subject).tombstone = false ∧
      (r.rosterWitnesses subject).epoch = asc.latestEpoch ∧ asc.latestEpoch ≠ 0 ∧
      asc.isRosterFresh now = true ∧
      asc.isEpochIssuerUsable asc.latestEpoch (r.rosterWitnesses subject).mark.issuer = true ∧
      ProofmarkRegistry.policyHolds now (r.rosterWitnesses subject).mark.attrs
        (r.rosterWitnesses subject).mark.issuer (r.policies policyId) (r.policyKind policyId) =
          true := by
  simp only [ProofmarkRegistry.isVerified, hroster, if_true]
  split_ifs with h1 h2 h3 h4
  · simp [h2]
  · -- the cached epoch is not the latest one, or its roster is stale
    refine iff_of_false (by simp) ?_
    rintro ⟨-, -, h5, h6, h7, -⟩
    rcases h3 with h3 | h3 | h3
    exacts [h6 (h5 ▸ h3), h3 h5, h3 h7]
  · rw [not_or, not_or, not_not, not_not] at h3
    rw [h3.2.1] at h4
    have h5 : asc.latestEpoch ≠ 0#32 := h3.2.1 ▸ h3.1
    simp [h1, h2, h3, h4, h5]
  · refine iff_of_false (by simp) ?_
    rintro ⟨-, -, h5, -, -, h6, -⟩
    exact h4 (h5 ▸ h6)
  · simp [h1]

/-- **Witness mode agrees with proof mode**: a cached witness verifies a subject exactly
    when the proof it was cached with does, now and for the latest epoch. -/
theorem witness_mode_agrees (hrun : (Hub.machine env).Run (.deployed owner) es h)
    (subject : Address) (policyId : U256) (now : ℕ)
    (hroster : (h.registry.policies policyId).requireRoster = true) :
    h.registry.isVerified h.asc now subject policyId = true ↔
      ∃ w inclusion, lastCached es subject = some (w, inclusion) ∧
        h.registry.rosterWitnesses subject = w ∧ w.epoch = h.asc.latestEpoch ∧
        h.asc.latestEpoch ≠ 0 ∧
        h.registry.verifyWithRoster env.keccak256 h.asc now subject policyId w.mark inclusion =
          true := by
  have hi := witnessInv_run hrun
  have hproof (mark : RosterMark) (inclusion : RosterProof.Inclusion) :
      h.registry.verifyWithRoster env.keccak256 h.asc now subject policyId mark inclusion = true ↔
        (h.registry.policies policyId).exists = true ∧
        ProofmarkRegistry.rosterContains env.keccak256 h.asc now subject mark inclusion = true ∧
        ProofmarkRegistry.policyHolds now mark.attrs mark.issuer (h.registry.policies policyId)
          (h.registry.policyKind policyId) = true := by
    simp only [ProofmarkRegistry.verifyWithRoster]
    split_ifs with h1 <;> simp_all
  rw [isVerified_witness hroster]
  constructor
  · rintro ⟨h1, h2, h3, h4, h5, h6, h7⟩
    rcases hl : lastCached es subject with _ | ⟨w, inclusion⟩
    · -- a subject without a witness has epoch zero
      rw [hi.stored, hl] at h3
      exact absurd h3.symm h4
    · have hw : h.registry.rosterWitnesses subject = w := by rw [hi.stored, hl]; rfl
      have hincl := hi.included _ _ _ hl
      rw [hw] at h3 h6 h7
      refine ⟨w, inclusion, rfl, hw, h3, h4, (hproof _ _).2 ⟨h1, rosterContains_iff.2 ⟨h2, h5, h6, ?_⟩, h7⟩⟩
      rw [← h3]
      exact hincl
  · rintro ⟨w, inclusion, -, hw, h3, h4, hv⟩
    obtain ⟨h1, hcont, h7⟩ := (hproof _ _).1 hv
    obtain ⟨h2, h5, h6, -⟩ := rosterContains_iff.1 hcont
    rw [hw]
    exact ⟨h1, h2, h3, h4, h5, h6, h7⟩

end

/-! The epoch 1 of a roster with the one entry of subject 7, whose witness anyone caches. -/

def rosterMark : RosterMark := ⟨MarkAttrs.pack 1 3 1 410 1 1500 9000 0, 11, 12, 3⟩

def rosterRoot : Bytes32 := 0xe29a4411f9786c766c061427c00ceb865417dd047365a31cbe02dc023b3b25f8

/-- The leaf of the lower sentinel, and the node above the upper one. -/
def rosterInclusion : RosterProof.Inclusion :=
  ⟨1, 3, [0xae61b77b3e4cbac1353bfa4c59274e3ae531285c24e3cf57c11771ecbf72d9bf,
    0x6bdebc48add0843090eff238c07744471faeca1d7c8569be7ed005f1f12b4244]⟩

/-- The hashes on the way from the entry to the root. -/
def rosterHashes : List (Bytes × Bytes32) :=
  let key := 0xdbff39efb3f5f77a362278c9d355fe4170df7687bc9cfa3e2e69f775a1db6cf3
  let mark := 0xd0b62c2a0a3fba0d7c41c44ee8ed2ab7e261b7bc1f19792cb5a937fef60e0c98
  let leaf := 0x04f2281716b37b24212653c865e192e70da7e418687cfdaecefa1e4be1869463
  let below := 0xa099cb6e8a85e2faeaf8cc131950cabb869953d75d0bd0268c339ca6f2ea3316
  let top := 0xbace859d83a80cda2aac080105329883ca01c0e2ca5ec40cbcafd816e7e553c0
  [(RosterProof.encodeSubject ProofmarkRegistry.NAMESPACE 7, key),
    (Words.abiEncode [rosterMark.attrs, 11, 12, 3], mark),
    (0x00 :: Words.abiEncode [key, mark], leaf),
    (0x01 :: Words.abiEncode [rosterInclusion.siblings.getD 0 0, leaf], below),
    (0x01 :: Words.abiEncode [below, rosterInclusion.siblings.getD 1 0], top),
    (0x02 :: Words.abiEncode [3, top], rosterRoot)]

def rosterReceipt : Receipt :=
  ⟨101, 0, [(SourceEvent.rosterIssuerAuthorized 1 rosterRoot 3).log 80,
    (SourceEvent.rosterEpochPublished 1 rosterRoot 1 9000 2500 3000 5).log 80]⟩

def rosterEnv : HubEnv :=
  { ReceiptFixture.env [rosterReceipt.logs] with
    keccak256 := fun bs => (rosterHashes.lookup bs).getD (ReceiptFixture.queryKeccak bs) }

def rosterCalls : List (Msg × Hub.Call) :=
  [(⟨1, 0, 4000, Sender.owner⟩, .asc (.configureSource 2 80)),
    (⟨9, 0, 4000, Sender.outsider⟩, .registry (.registerPolicy ⟨1, 2, 0, 1, 410, 3, true, false⟩)),
    (⟨9, 0, 4000, Sender.outsider⟩, .asc (ReceiptFixture.deliver 3 2 rosterReceipt)),
    (⟨9, 0, 4500, Sender.outsider⟩,
      .registry (.cacheRosterWitness 7 rosterMark rosterInclusion))]

def rosterHub : Hub := (Hub.machine rosterEnv).final (.deployed 1) rosterCalls

theorem witness_mode_agrees_cached :
    ∃ w inclusion,
      lastCached ((Hub.machine rosterEnv).trace (.deployed 1) rosterCalls) 7 = some (w, inclusion) ∧
      rosterHub.registry.rosterWitnesses 7 = w ∧ w.epoch = rosterHub.asc.latestEpoch ∧
      rosterHub.asc.latestEpoch ≠ 0 ∧
      rosterHub.registry.verifyWithRoster rosterEnv.keccak256 rosterHub.asc 5000 7 1 w.mark
        inclusion = true := by
  have h := (witness_mode_agrees ((Hub.machine rosterEnv).run_trace (.deployed 1) rosterCalls) 7 1
    5000 (by decide +kernel)).1 (by decide +kernel)
  rwa [← rosterHub] at h

end Proofmark
