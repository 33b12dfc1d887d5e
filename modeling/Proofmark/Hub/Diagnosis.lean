/-
  The diagnosis of the hub state against the registry.

  `onchain_diagnosis`: for every reachable hub, `readOnchainState` names no reason for an
  observed policy exactly when `isVerified` holds, unless the policy requires a roster and the
  cached witness fails it for its reserved bits alone: the state packs the fields of the
  witness again before it checks the schema, and `packAttrs` leaves those bits zero.
-/
import Proofmark.Hub.Verification
import Proofmark.Pipeline.OnchainState

namespace Proofmark

open Revert Function

/-! ## What the diagnosis relies on -/

/-- An active mark was stored by an issuance, and a correction reactivates only such a mark. -/
def SubjectState.DirectWhenActive (st : SubjectState) : Prop :=
  st.mark.origin = .direct ∨ st.mark.status ≠ .active ∧ st.latestOrdinaryStatus ≠ .active

theorem SubjectState.DirectWhenActive.apply {st : SubjectState} (h : st.DirectWhenActive) (c : Coord)
    (ev : LifecycleEvent) : (st.apply c ev).DirectWhenActive := by
  have hsuspended : MarkStatus.suspended ≠ .active := by decide
  have hrevoked : MarkStatus.revoked ≠ .active := by decide
  have hdenied : MarkStatus.denied ≠ .active := by decide
  cases ev with
  | issued attrs issuer keyEpoch claimsRoot evidenceHash =>
    by_cases hc : st.lastApplied < c
    · rw [SubjectState.apply, SubjectState.onIssued, SubjectState.advance_of_lt hc]
      simp only
      split_ifs with h1 h2 h3
      · exact .inl rfl
      · rcases h with h | h
        · exact .inl h
        · exact .inr ⟨h.1, hsuspended⟩
      · exact .inl rfl
      · exact .inr ⟨hsuspended, hsuspended⟩
    · rw [SubjectState.apply, SubjectState.onIssued, SubjectState.advance_of_not_lt hc]
      exact h
  | revoked =>
    by_cases hc : st.lastApplied < c
    · rw [SubjectState.apply, SubjectState.onRevoked, SubjectState.advance_of_lt hc]
      refine .inr ⟨?_, hrevoked⟩
      simp only [SubjectState.setStatus]
      split_ifs
      exacts [hdenied, hrevoked]
    · rw [SubjectState.apply, SubjectState.onRevoked, SubjectState.advance_of_not_lt hc]
      exact h
  | denied =>
    by_cases hc : st.lastDenialDecision < c
    · rw [SubjectState.apply, SubjectState.onDenied, SubjectState.advanceDenialDecision_of_lt hc]
      simp only [SubjectState.advance]
      split_ifs <;> exact h.imp id fun h => ⟨hdenied, h.2⟩
    · rw [SubjectState.apply, SubjectState.onDenied, SubjectState.advanceDenialDecision_of_not_lt hc]
      exact h
  | corrected denialRevision correctionId reasonHash proposer approver =>
    by_cases hc : st.lastDenialDecision < c
    · rw [SubjectState.apply, SubjectState.onDenialCorrected,
        SubjectState.advanceDenialDecision_of_lt hc]
      simp only
      by_cases hl : st.lastApplied < c
      · rw [SubjectState.advance_of_lt (by exact hl)]
        exact h.imp id fun h => ⟨hsuspended, h.2⟩
      · rw [SubjectState.advance_of_not_lt (by exact hl)]
        simp only
        split_ifs with h2
        · exact h.imp id fun h => absurd h2 h.2
        · exact h.imp id fun h => ⟨hrevoked, h.2⟩
        · exact h.imp id fun h => ⟨hsuspended, h.2⟩
    · rw [SubjectState.apply, SubjectState.onDenialCorrected,
        SubjectState.advanceDenialDecision_of_not_lt hc]
      exact h

theorem directWhenActive_delivered (l : List Event) : (delivered l).DirectWhenActive := by
  induction l using List.reverseRecOn with
  | nil => exact .inr ⟨by decide, by decide⟩
  | append_singleton l m ih =>
    rw [delivered_concat]
    exact ih.apply _ _

/-- Every policy requires supported methods only. -/
def SupportedPolicies (r : ProofmarkRegistry) : Prop :=
  ∀ id, (r.policies id).requireAll &&& ~~~MarkAttrs.SUPPORTED_METHODS = 0

theorem SupportedPolicies.update {r : ProofmarkRegistry} {p : Policy} {id : U256} {u : Unit}
    (h : SupportedPolicies r) (hp : ProofmarkRegistry.validatePolicy p = .ok u) :
    ∀ id', ((update r.policies id { p with «exists» := true }) id').requireAll &&&
      ~~~MarkAttrs.SUPPORTED_METHODS = 0 := by
  simp only [ProofmarkRegistry.validatePolicy, revertIf_ok, not_or, not_not] at hp
  intro id'
  by_cases he : id' = id
  · rw [he, update_self]
    exact hp.1
  · rw [update_of_ne he]
    exact h id'

theorem SupportedPolicies.call {keccak256 : Bytes → Bytes32} {asc : ProofmarkASC} {msg : Msg}
    {r r' : ProofmarkRegistry} {c : ProofmarkRegistry.Call} (h : SupportedPolicies r)
    (hok : r.call keccak256 asc msg c = .ok r') : SupportedPolicies r' := by
  cases c with
  | registerPolicy p =>
    simp only [ProofmarkRegistry.call, ProofmarkRegistry.registerPolicy,
      ProofmarkRegistry.registerPolicyKind, bind_ok, pure_ok] at hok
    obtain ⟨_, -, _, hp, _, -, rfl⟩ := hok
    exact h.update hp
  | registerPolicyForKind p kind =>
    simp only [ProofmarkRegistry.call, ProofmarkRegistry.registerPolicyForKind,
      ProofmarkRegistry.registerPolicyKind, bind_ok, pure_ok] at hok
    obtain ⟨_, -, _, hp, _, -, rfl⟩ := hok
    exact h.update hp
  | updatePolicy policyId p =>
    simp only [ProofmarkRegistry.call, ProofmarkRegistry.updatePolicy, bind_ok, pure_ok] at hok
    obtain ⟨_, -, _, -, _, -, _, hp, rfl⟩ := hok
    exact h.update hp
  | transferPolicyOwner policyId newOwner =>
    simp only [ProofmarkRegistry.call, ProofmarkRegistry.transferPolicyOwner, bind_ok, pure_ok] at hok
    obtain ⟨_, -, _, -, rfl⟩ := hok
    exact h
  | freezePolicy policyId =>
    simp only [ProofmarkRegistry.call, ProofmarkRegistry.freezePolicy, bind_ok, pure_ok] at hok
    obtain ⟨_, -, _, -, rfl⟩ := hok
    exact h
  | cacheRosterWitness subject mark inclusion =>
    simp only [ProofmarkRegistry.call, ProofmarkRegistry.cacheRosterWitness, bind_ok, pure_ok] at hok
    obtain ⟨_, -, rfl⟩ := hok
    exact h

section
variable {env : HubEnv} {owner : Address} {es : List HubChainEntry} {h : Hub}

theorem supportedPolicies_run (hrun : (Hub.machine env).Run (.deployed owner) es h) :
    SupportedPolicies h.registry := by
  refine hrun.invariant (I := fun h => SupportedPolicies h.registry) (fun _ => BitVec.zero_and) ?_
  intro e hi hs
  rcases Hub.step_cases hs with ⟨c, -, -, hr⟩ | ⟨c, -, hok, -⟩
  · exact hr ▸ hi
  · exact hi.call hok

theorem directWhenActive_run (hrun : (Hub.machine env).Run (.deployed owner) es h)
    (subject : Address) : (h.asc.subjects subject).DirectWhenActive := by
  rw [(hubInv_run (Hub.run_asc hrun)).mirrors.subjects subject]
  exact directWhenActive_delivered _

end

/-! ## Reasons -/

/-- The word with its reserved bits cleared. -/
def MarkAttrs.clearReserved (a : Bytes32) : Bytes32 := (a >>> 64) <<< 64

theorem MarkAttrs.pack_fields (a : Bytes32) :
    pack (kind a) (assurance a) (regime a) (jurisdiction a) (methods a) (issuedAt a) (expiry a)
      (epoch a) = clearReserved a := by
  obtain ⟨h1, h2, h3, h4, h5, h6, h7, h8, h9⟩ := unpack_pack (kind a) (assurance a) (regime a)
    (jurisdiction a) (methods a) (issuedAt a) (expiry a) (epoch a)
  have hshift (n s : ℕ) (hs : 64 ≤ s) : ((clearReserved a) >>> s).setWidth n = (a >>> s).setWidth n := by
    refine BitVec.eq_of_getLsbD_eq fun i hi => ?_
    simp only [clearReserved, BitVec.getLsbD_setWidth, BitVec.getLsbD_ushiftRight,
      BitVec.getLsbD_shiftLeft]
    by_cases h : s + i < 256
    · simp [h, hi, show ¬ s + i < 64 by omega, show 64 + (s + i - 64) = s + i by omega]
    · simp [h, BitVec.getLsbD_of_ge a (s + i) (by omega)]
  have hres : reserved (clearReserved a) = 0 := by
    refine BitVec.eq_of_getLsbD_eq fun i hi => ?_
    simp [reserved, clearReserved, hi]
  have hpack := pack_unpack hres
  simp only [kind, assurance, regime, jurisdiction, methods, issuedAt, expiry, epoch,
    hshift _ _ (show 64 ≤ 248 by omega), hshift _ _ (show 64 ≤ 240 by omega),
    hshift _ _ (show 64 ≤ 224 by omega), hshift _ _ (show 64 ≤ 208 by omega),
    hshift _ _ (show 64 ≤ 176 by omega), hshift _ _ (show 64 ≤ 136 by omega),
    hshift _ _ (show 64 ≤ 96 by omega), hshift _ _ (show 64 ≤ 64 by omega)] at hpack
  exact hpack
theorem pushIf_eq_nil {c : Prop} [Decidable c] {code : ReasonCode} : pushIf c code = [] ↔ ¬ c := by
  rw [pushIf]
  split_ifs with h <;> simp [h]

/-- Selecting supported methods with `&` gives them all exactly when they are all there. -/
theorem bitAnd_eq_iff {m p : U32} (hp : p &&& ~~~ MarkAttrs.SUPPORTED_METHODS = 0) :
    bitAnd (toInt32 m.toNat) (toInt32 p.toNat) = p.toNat ↔ m &&& p = p := by
  have hlt : p.toNat < 2 ^ 31 := by
    have hmsb : p.msb = false := by
      by_contra h
      have := congrArg (fun w => w.getLsbD 31) hp
      simp [MarkAttrs.SUPPORTED_METHODS, BitVec.msb_eq_getLsbD_last] at this h
      simp [this] at h
    have := BitVec.toNat_lt_of_msb_false hmsb
    omega
  have hint : p.toInt = p.toNat := BitVec.toInt_eq_toNat_of_lt (by omega)
  rw [toInt32_toNat, toInt32_toNat, bitAnd, ← hint, BitVec.toInt_inj]

/-- **The reasons in a mark** are none exactly when the policy holds of its packing. -/
theorem decisionReasons_ok (reads : HubReads) (subject : Address) {id : U256} (timestamp : ℕ)
    (d : DecisionMark) {k a : U8} {r j : U16} {m : U32} {i e : U40} {ep : U32}
    (hall : (reads.policies id).requireAll &&& ~~~ MarkAttrs.SUPPORTED_METHODS = 0)
    (hd : d.attrs = ⟨k.toNat, a.toNat, r.toNat, j.toNat, m.toNat, i.toNat, e.toNat, ep.toNat⟩) :
    ∃ l, decisionReasons timestamp (observedPolicy reads subject id)
        (some (reads.policyKind id).toNat) d = .ok l ∧
      (l = [] ↔ ProofmarkRegistry.policyHolds timestamp (MarkAttrs.pack k a r j m i e ep) d.issuer
        (reads.policies id) (reads.policyKind id) = true) := by
  refine ⟨_, by rw [decisionReasons, hd, packAttrs_ok, ok_bind]; rfl, ?_⟩
  obtain ⟨h1, h2, h3, h4, h5, h6, h7, -, -⟩ := MarkAttrs.unpack_pack k a r j m i e ep
  rw [policyHolds_iff]
  simp only [List.append_eq_nil_iff, pushIf_eq_nil]
  simp only [observedPolicy, bitAnd_eq_iff hall, validCredentialAttrs_eq, not_not, not_lt, not_le,
    not_or, not_and, ne_eq]
  constructor
  · rintro ⟨⟨⟨⟨⟨⟨⟨⟨⟨hv, hk⟩, hm⟩, ha⟩, hr⟩, hj⟩, hi⟩, he⟩, hn⟩, hage⟩
    refine ⟨hv, ?_, ?_, ?_, ?_, ?_, ?_, hi.1, ?_, ?_, ?_⟩
    · rw [h1]
      exact BitVec.eq_of_toNat_eq (Option.some.inj hk)
    · rw [h5]
      exact and_eq_right_iff.1 hm
    · rw [h2]
      exact BitVec.le_def.2 ha
    · rw [h3]
      exact fun h0 => BitVec.eq_of_toNat_eq (hr fun hz => h0 (BitVec.eq_of_toNat_eq hz))
    · rw [h4]
      exact fun h0 => BitVec.eq_of_toNat_eq (hj fun hz => h0 (BitVec.eq_of_toNat_eq hz))
    · exact hi.2
    · rwa [h6]
    · rwa [h7]
    · rw [h6]
      intro h0
      have := hage fun hz => h0 (BitVec.eq_of_toNat_eq hz)
      omega
  · rintro ⟨hv, hs⟩
    have hzero {n : ℕ} {x : BitVec n} (h0 : ¬ x.toNat = 0) : x ≠ 0 := fun hz => h0 (by simp [hz])
    refine ⟨⟨⟨⟨⟨⟨⟨⟨⟨hv, ?_⟩, ?_⟩, ?_⟩, ?_⟩, ?_⟩, ?_⟩, ?_⟩, ?_⟩, ?_⟩
    · rw [← hs.kind, h1]
    · exact and_eq_right_iff.2 (h5 ▸ hs.methods)
    · exact BitVec.le_def.1 (h2 ▸ hs.assurance)
    · exact fun h0 => congrArg BitVec.toNat (h3 ▸ hs.regime (hzero h0))
    · exact fun h0 => congrArg BitVec.toNat (h4 ▸ hs.jurisdiction (hzero h0))
    · exact ⟨hs.issuer_ne, hs.trustedIssuer⟩
    · exact h7 ▸ hs.unexpired
    · exact h6 ▸ hs.issued
    · intro h0
      have := hs.age (hzero h0)
      have := hs.issued
      rw [h6] at *
      omega

section
variable {env : HubEnv} {owner : Address} {es : List HubChainEntry} {h : Hub} {config : OnchainConfig}
  {block : BlockHeader}

/-- What makes the cached witness of a subject pass a policy, were `attrs` its attributes. -/
structure WitnessPasses (h : Hub) (now : ℕ) (subject : Address) (policyId : U256)
    (attrs : Bytes32) : Prop where
  registered : (h.registry.policies policyId).exists = true
  tombstone : (h.asc.subjects subject).tombstone = false
  current : (h.registry.rosterWitnesses subject).epoch = h.asc.latestEpoch
  accepted : h.asc.latestEpoch ≠ 0
  fresh : h.asc.isRosterFresh now = true
  usable : h.asc.isEpochIssuerUsable h.asc.latestEpoch
    (h.registry.rosterWitnesses subject).mark.issuer = true
  holds : ProofmarkRegistry.policyHolds now attrs (h.registry.rosterWitnesses subject).mark.issuer
    (h.registry.policies policyId) (h.registry.policyKind policyId) = true

theorem witnessPasses_iff {now : ℕ} {subject : Address} {policyId : U256}
    (hroster : (h.registry.policies policyId).requireRoster = true) :
    h.registry.isVerified h.asc now subject policyId = true ↔
      WitnessPasses h now subject policyId (h.registry.rosterWitnesses subject).mark.attrs := by
  rw [isVerified_witness hroster]
  constructor
  · rintro ⟨h1, h2, h3, h4, h5, h6, h7⟩
    exact ⟨h1, h2, h3, h4, h5, h6, h7⟩
  · rintro ⟨h1, h2, h3, h4, h5, h6, h7⟩
    exact ⟨h1, h2, h3, h4, h5, h6, h7⟩

/-- The witness passes the policy but for its reserved bits. -/
structure HidesReservedBits (h : Hub) (now : ℕ) (subject : Address) (policyId : U256) : Prop where
  requireRoster : (h.registry.policies policyId).requireRoster = true
  reserved : MarkAttrs.reserved (h.registry.rosterWitnesses subject).mark.attrs ≠ 0
  passes : WitnessPasses h now subject policyId
    (MarkAttrs.clearReserved (h.registry.rosterWitnesses subject).mark.attrs)

/-- The state has no reasons besides those in the mark: without a roster. -/
theorem stateReasons_direct {subject : Address} {id : U256}
    (hroster : (h.registry.policies id).requireRoster = false) (hs : subject = config.subject) :
    stateReasons (observe (h.reads config.asc block) config block) (some 1)
        (observedPolicy (h.reads config.asc block) subject id) = [] ↔
      (h.registry.policies id).exists = true ∧ (h.asc.subjects subject).tombstone = false ∧
      (h.asc.subjects subject).mark.status = .active ∧ h.asc.isMarkIssuerUsable subject = true := by
  have hstatus (st : MarkStatus) : st.toNumber = 1 ↔ st = .active := by
    cases st <;> simp [MarkStatus.toNumber]
  subst hs
  have hdirect : (observedPolicy (h.reads config.asc block) config.subject id).requireRoster = false :=
    hroster
  rw [stateReasons, if_neg (by rw [hdirect]; exact Bool.false_ne_true)]
  simp only [List.append_eq_nil_iff, pushIf_eq_nil]
  simp only [observedPolicy, observe, directMark, Hub.reads, ne_eq, not_not, hstatus,
    Bool.not_eq_false, Bool.not_eq_true, and_assoc]

theorem observe_witness_zero (h0 : (h.registry.rosterWitnesses config.subject).epoch = 0) :
    (observe (h.reads config.asc block) config block).witness.filter (·.epoch ≠ 0) = none := by
  rw [show (observe (h.reads config.asc block) config block).witness =
    some (observedWitness (h.reads config.asc block) config.subject) from rfl, Option.filter_some,
    if_neg]
  simp [observedWitness, Hub.reads, h0]

theorem observe_witness (h0 : (h.registry.rosterWitnesses config.subject).epoch ≠ 0) :
    (observe (h.reads config.asc block) config block).witness.filter (·.epoch ≠ 0) =
      some (observedWitness (h.reads config.asc block) config.subject) := by
  rw [show (observe (h.reads config.asc block) config block).witness =
    some (observedWitness (h.reads config.asc block) config.subject) from rfl, Option.filter_some,
    if_pos]
  exact decide_eq_true fun hz => h0 (BitVec.eq_of_toNat_eq hz)

/-- The state has no reasons besides those in the mark: with a roster. -/
theorem stateReasons_witness {subject : Address} {id : U256}
    (hroster : (h.registry.policies id).requireRoster = true) (hs : subject = config.subject) :
    stateReasons (observe (h.reads config.asc block) config block) (some 1)
        (observedPolicy (h.reads config.asc block) subject id) = [] ↔
      (h.registry.policies id).exists = true ∧ (h.asc.subjects subject).tombstone = false ∧
      (h.registry.rosterWitnesses subject).epoch = h.asc.latestEpoch ∧ h.asc.latestEpoch ≠ 0 ∧
      h.asc.isRosterFresh block.timestamp = true ∧
      h.asc.isEpochIssuerUsable h.asc.latestEpoch
        (h.registry.rosterWitnesses subject).mark.issuer = true := by
  subst hs
  have hcached : (observedPolicy (h.reads config.asc block) config.subject id).requireRoster = true :=
    hroster
  rw [stateReasons, if_pos hcached, if_neg (by simp)]
  by_cases h0 : (h.registry.rosterWitnesses config.subject).epoch = 0
  · rw [observe_witness_zero h0]
    refine iff_of_false (by simp) ?_
    rintro ⟨-, -, hcur, hacc, -⟩
    exact hacc (hcur ▸ h0)
  · rw [observe_witness h0]
    simp only [List.append_eq_nil_iff, pushIf_eq_nil]
    have hepoch : (h.registry.rosterWitnesses config.subject).epoch.toNat = h.asc.latestEpoch.toNat ↔
        (h.registry.rosterWitnesses config.subject).epoch = h.asc.latestEpoch := BitVec.toNat_inj
    have hpos : 0 < (h.registry.rosterWitnesses config.subject).epoch.toNat :=
      Nat.pos_of_ne_zero fun hz => h0 (BitVec.eq_of_toNat_eq hz)
    simp only [observedPolicy, observe, observedWitness, Hub.reads, ascVersions, ne_eq, not_not,
      Bool.not_eq_false, Bool.not_eq_true, and_assoc, hepoch, hpos, decide_true, BEq.rfl,
      Bool.true_and]
    constructor
    · rintro ⟨h1, h2, h3, h4, h5⟩
      exact ⟨h1, h2, h3, h3 ▸ h0, h5, h3 ▸ h4⟩
    · rintro ⟨h1, h2, h3, -, h5, h4⟩
      exact ⟨h1, h2, h3, h3 ▸ h4, h5⟩

/-- The mark that decides. -/
def decisionMarkOf (s : OnchainState) (p : ObservedPolicy) : Option DecisionMark :=
  if p.requireRoster then (s.witness.filter (·.epoch ≠ 0)).map (·.mark) else some s.mark

/-- A diagnosis of compatible contracts, from the reasons `l` in the mark that decides. -/
theorem diagnose_ok {s : OnchainState} (policySchema kind : Option ℕ) {p : ObservedPolicy}
    {l : List ReasonCode} (hc : s.compatible = true)
    (hl : decisionMarkOf s p = none ∧ l = [] ∨
      ∃ d, decisionMarkOf s p = some d ∧ decisionReasons s.block.timestamp p kind d = .ok l) :
    ∃ dg, diagnose s (some 1) policySchema kind p = .ok dg ∧ dg.policy = p ∧
      dg.reasonCodes = stateReasons s (some 1) p ++ l ∧
      (dg.diagnosis ≠ .unexplained ↔ (p.verified = true ↔ dg.reasonCodes = [])) := by
  have hdiag (codes : List ReasonCode) :
      (if ¬ s.compatible = true then Diagnosis.unavailable
        else if p.verified = (codes.length == 0) then .consistent else .unexplained) ≠ .unexplained ↔
        (p.verified = true ↔ codes = []) := by
    rw [if_neg (not_not.2 hc)]
    have hlen : (codes.length == 0) = true ↔ codes = [] := by simp
    rw [← hlen, ← Bool.eq_iff_iff]
    split_ifs with hv <;> simp [hv]
  have hmark : (if p.requireRoster = true then
      if some 1 = some 1 then (s.witness.filter (·.epoch ≠ 0)).map (·.mark) else none
      else some s.mark) = decisionMarkOf s p := rfl
  refine ⟨⟨p, kind, policySchema, decisionMarkOf s p, stateReasons s (some 1) p ++ l, _⟩, ?_, rfl,
    rfl, hdiag _⟩
  rw [diagnose, hmark]
  rcases hl with ⟨hd, rfl⟩ | ⟨d, hd, hl⟩
  · rw [hd, if_neg (not_not.2 hc)]
    rfl
  · rw [hd, if_neg (not_not.2 hc)]
    simp only [hl]
    rfl

/-- The word a hub packs from the fields of a witness passes when the unpacked one does. -/
theorem witnessPasses_clear {now : ℕ} {subject : Address} {id : U256} :
    (WitnessPasses h now subject id (MarkAttrs.clearReserved
        (h.registry.rosterWitnesses subject).mark.attrs) ↔
      WitnessPasses h now subject id (h.registry.rosterWitnesses subject).mark.attrs) ↔
      ¬ (MarkAttrs.reserved (h.registry.rosterWitnesses subject).mark.attrs ≠ 0 ∧
        WitnessPasses h now subject id (MarkAttrs.clearReserved
          (h.registry.rosterWitnesses subject).mark.attrs)) := by
  by_cases hres : MarkAttrs.reserved (h.registry.rosterWitnesses subject).mark.attrs = 0
  · have hclear := MarkAttrs.pack_fields (h.registry.rosterWitnesses subject).mark.attrs
    rw [MarkAttrs.pack_unpack hres] at hclear
    rw [← hclear]
    exact iff_of_true Iff.rfl fun hp => hp.1 hres
  · have hno : ¬ WitnessPasses h now subject id (h.registry.rosterWitnesses subject).mark.attrs :=
      fun hp => hres (MarkAttrs.validSchema_reserved (policyHolds_iff.1 hp.holds).1)
    simp only [hno, iff_false, ne_eq, hres, not_false_eq_true, true_and]

/-- **One diagnosis of a reachable hub.** -/
theorem diagnose_hub (hrun : (Hub.machine env).Run (.deployed owner) es h)
    (config : OnchainConfig) (block : BlockHeader) (id : U256) :
    ∃ dg, diagnose (observe (h.reads config.asc block) config block) (some 1) (some 2)
        ((h.reads config.asc block).kind id)
        (observedPolicy (h.reads config.asc block) config.subject id) = .ok dg ∧
      dg.policy.id = id ∧
      ((dg.reasonCodes = [] ↔
          h.registry.isVerified h.asc block.timestamp config.subject id = true) ∧
        dg.diagnosis ≠ .unexplained ↔
        ¬ HidesReservedBits h block.timestamp config.subject id) := by
  have hcompat : (observe (h.reads config.asc block) config block).compatible = true := rfl
  have hsupported : ((h.reads config.asc block).policies id).requireAll &&&
      ~~~MarkAttrs.SUPPORTED_METHODS = 0 := supportedPolicies_run hrun id
  cases hroster : (h.registry.policies id).requireRoster with
  | false =>
    have hdirect : ¬ (observedPolicy (h.reads config.asc block) config.subject id).requireRoster =
        true := ne_true_of_eq_false hroster
    let m := (h.asc.subjects config.subject).mark
    obtain ⟨l, hl, hnil⟩ := decisionReasons_ok (h.reads config.asc block) config.subject
      block.timestamp (directMark m) hsupported rfl
    obtain ⟨dg, hdg, hp, hcodes, hdiag⟩ := diagnose_ok (some 2) ((h.reads config.asc block).kind id)
      hcompat (.inr ⟨_, if_neg hdirect, hl⟩)
    have hreasons : dg.reasonCodes = [] ↔
        h.registry.isVerified h.asc block.timestamp config.subject id = true := by
      rw [hcodes, List.append_eq_nil_iff, stateReasons_direct hroster rfl, hnil]
      cases hreg : (h.registry.policies id).exists with
      | false => simp [ProofmarkRegistry.isVerified, hreg]
      | true =>
        rw [isVerified_direct hreg hroster]
        constructor
        · rintro ⟨⟨-, ht, ha, hu⟩, hp⟩
          have horigin : m.origin = .direct :=
            (directWhenActive_run hrun config.subject).resolve_right fun hn => hn.1 ha
          have hfresh : ProofmarkRegistry.fresh h.asc block.timestamp m (h.registry.policies id) =
              true := by
            rw [ProofmarkRegistry.fresh, horigin, if_neg (by decide), hroster]
            rfl
          exact ⟨ht, ha, hu, hp, hfresh⟩
        · rintro ⟨ht, ha, hu, hp, -⟩
          exact ⟨⟨rfl, ht, ha, hu⟩, hp⟩
    refine ⟨dg, hdg, by rw [hp]; rfl, iff_of_true ⟨hreasons, hdiag.2 hreasons.symm⟩ ?_⟩
    intro hh
    rw [hh.requireRoster] at hroster
    cases hroster
  | true =>
    have hcached : (observedPolicy (h.reads config.asc block) config.subject id).requireRoster =
        true := hroster
    let w := h.registry.rosterWitnesses config.subject
    have hreasons : ∃ dg, diagnose (observe (h.reads config.asc block) config block) (some 1) (some 2)
        ((h.reads config.asc block).kind id)
        (observedPolicy (h.reads config.asc block) config.subject id) = .ok dg ∧
        dg.policy = observedPolicy (h.reads config.asc block) config.subject id ∧
        (dg.reasonCodes = [] ↔ WitnessPasses h block.timestamp config.subject id
          (MarkAttrs.clearReserved w.mark.attrs)) ∧
        (dg.diagnosis ≠ .unexplained ↔
          (h.registry.isVerified h.asc block.timestamp config.subject id = true ↔
            dg.reasonCodes = [])) := by
      by_cases h0 : w.epoch = 0
      · -- a subject without a witness
        have hmark : decisionMarkOf (observe (h.reads config.asc block) config block)
            (observedPolicy (h.reads config.asc block) config.subject id) = none := by
          rw [decisionMarkOf, if_pos hcached, observe_witness_zero h0]
          rfl
        obtain ⟨dg, hdg, hp, hcodes, hdiag⟩ := diagnose_ok (some 2)
          ((h.reads config.asc block).kind id) hcompat (.inl ⟨hmark, rfl⟩)
        refine ⟨dg, hdg, hp, ?_, hdiag⟩
        rw [hcodes, List.append_nil, stateReasons_witness hroster rfl]
        refine iff_of_false ?_ fun hp => hp.accepted (hp.current ▸ h0)
        rintro ⟨-, -, hcur, hacc, -⟩
        exact hacc (hcur ▸ h0)
      · have hmark : decisionMarkOf (observe (h.reads config.asc block) config block)
            (observedPolicy (h.reads config.asc block) config.subject id) =
            some (observedWitness (h.reads config.asc block) config.subject).mark := by
          rw [decisionMarkOf, if_pos hcached, observe_witness h0]
          rfl
        obtain ⟨l, hl, hnil⟩ := decisionReasons_ok (h.reads config.asc block) config.subject
          block.timestamp (observedWitness (h.reads config.asc block) config.subject).mark
          hsupported (unpackAttrs_eq _)
        rw [MarkAttrs.pack_fields] at hnil
        obtain ⟨dg, hdg, hp, hcodes, hdiag⟩ := diagnose_ok (some 2)
          ((h.reads config.asc block).kind id) hcompat (.inr ⟨_, hmark, hl⟩)
        refine ⟨dg, hdg, hp, ?_, hdiag⟩
        rw [hcodes, List.append_eq_nil_iff, stateReasons_witness hroster rfl, hnil]
        constructor
        · rintro ⟨⟨h1, h2, h3, h4, h5, h6⟩, h7⟩
          exact ⟨h1, h2, h3, h4, h5, h6, h7⟩
        · rintro ⟨h1, h2, h3, h4, h5, h6, h7⟩
          exact ⟨⟨h1, h2, h3, h4, h5, h6⟩, h7⟩
    obtain ⟨dg, hdg, hp, hreasons, hdiag⟩ := hreasons
    refine ⟨dg, hdg, by rw [hp]; rfl, ?_⟩
    have hhides : HidesReservedBits h block.timestamp config.subject id ↔
        MarkAttrs.reserved w.mark.attrs ≠ 0 ∧ WitnessPasses h block.timestamp config.subject id
          (MarkAttrs.clearReserved w.mark.attrs) :=
      ⟨fun hh => ⟨hh.reserved, hh.passes⟩, fun hh => ⟨hroster, hh.1, hh.2⟩⟩
    rw [hdiag, hhides, hreasons, witnessPasses_iff hroster, ← witnessPasses_clear]
    exact ⟨fun hh => hh.1, fun hh => ⟨hh, hh.symm⟩⟩

/-- **The diagnosis agrees with the registry**, for every reachable hub, block and subject and
    both observed policies, exactly when it does not overlook reserved bits of a witness: the
    state repacks the fields of the witness, whose reserved bits are lost. -/
theorem onchain_diagnosis (hrun : (Hub.machine env).Run (.deployed owner) es h)
    (config : OnchainConfig) (block : BlockHeader) (observationBlock : Option ℕ)
    (hnumber : block.number ≤ MAX_SAFE_INTEGER)
    (hblock : observationBlock = none ∨ observationBlock = some block.number)
    (hkey : h.asc.expectedChainKey = 1) :
    ∃ s, readOnchainState (h.reads config.asc block) config observationBlock = .ok s ∧
      s.policies.map (·.policy.id) = [1, 2] ∧
      ∀ dg ∈ s.policies,
        (dg.reasonCodes = [] ↔
            h.registry.isVerified h.asc block.timestamp config.subject dg.policy.id = true) ∧
          dg.diagnosis ≠ .unexplained ↔
        ¬ HidesReservedBits h block.timestamp config.subject dg.policy.id := by
  obtain ⟨dg1, hdg1, hid1, hiff1⟩ := diagnose_hub hrun config block 1
  obtain ⟨dg2, hdg2, hid2, hiff2⟩ := diagnose_hub hrun config block 2
  have hsafe : ¬ (observationBlock.any fun n => decide (MAX_SAFE_INTEGER < n)) = true := by
    rcases hblock with rfl | rfl <;> simp [hnumber]
  have hget : (h.reads config.asc block).getBlock observationBlock = some block := by
    rcases hblock with rfl | rfl <;> simp [Hub.reads]
  have hmatch : ¬ (observationBlock.any fun n => decide (block.number ≠ n)) = true := by
    rcases hblock with rfl | rfl <;> simp
  have hbound : ¬ ((h.reads config.asc block).ASC ≠ config.asc ∨
      (h.reads config.asc block).expectedChainKey.toNat ≠ 1) := by
    simp [Hub.reads, hkey]
  have hall : diagnoseAll (observe (h.reads config.asc block) config block) (some 1) (some 2)
      ([1, 2].map fun id => ((h.reads config.asc block).kind id,
        observedPolicy (h.reads config.asc block) config.subject id)) = .ok [dg1, dg2] := by
    simp only [List.map_cons, List.map_nil, diagnoseAll, hdg1, hdg2, ok_bind]
    rfl
  refine ⟨{ observe (h.reads config.asc block) config block with policies := [dg1, dg2] }, ?_, ?_, ?_⟩
  · simp only [readOnchainState, bind_ok, revertIf_ok, orRevert_ok, mapError_ok, pure_ok]
    exact ⟨(), hsafe, (), fun hne => hne rfl, block, hget, (), hmatch, (), hbound, _, hall, (),
      fun hne => hne rfl, rfl⟩
  · rw [List.map_cons, List.map_cons, List.map_nil, hid1, hid2]
  · intro dg hdg
    rcases List.mem_pair.1 hdg with rfl | rfl
    · rw [hid1]
      exact hiff1
    · rw [hid2]
      exact hiff2

end

/-! The epoch 1 of a roster whose one entry, of subject 7, has a reserved bit set. -/

def reservedMark : RosterMark := ⟨MarkAttrs.pack 1 3 1 410 1 1500 9000 0 ||| 1, 11, 12, 3⟩

def reservedRoot : Bytes32 := 0x90d70e350a27cd1c632b42c7e88cf51464523f231c812fb847c982bc8ec9c469

/-- The hashes on the way from the entry to the root, and of the receipt of chain 1. -/
def reservedHashes : List (Bytes × Bytes32) :=
  let key := 0xdbff39efb3f5f77a362278c9d355fe4170df7687bc9cfa3e2e69f775a1db6cf3
  let mark := 0xbbf313cc53a298fd1271643c18678d56c3eef67fac171d6a124f29cdd2fd2778
  let leaf := 0x6eb289f27d99906e226859d120ff26ab7af489c6cb40fe834121ef962fcfcfc6
  let below := 0x1a156d61f664d9e68f4d1fb1b6fb07b69673dbc1f2b3187be0652991f4dcb876
  let top := 0x48b53f37be141767acf51323294fcb7597f6e679b118e0490de82655a893118d
  [(RosterProof.encodeSubject ProofmarkRegistry.NAMESPACE 7, key),
    (Words.abiEncode [reservedMark.attrs, 11, 12, 3], mark),
    (0x00 :: Words.abiEncode [key, mark], leaf),
    (0x01 :: Words.abiEncode [rosterInclusion.siblings.getD 0 0, leaf], below),
    (0x01 :: Words.abiEncode [below, rosterInclusion.siblings.getD 1 0], top),
    (0x02 :: Words.abiEncode [3, top], reservedRoot)]

def reservedReceipt : Receipt :=
  ⟨101, 0, [(SourceEvent.rosterIssuerAuthorized 1 reservedRoot 3).log 80,
    (SourceEvent.rosterEpochPublished 1 reservedRoot 1 9000 2500 3000 5).log 80]⟩

def reservedEnv : HubEnv :=
  { ReceiptFixture.env [reservedReceipt.logs] with
    keccak256 := fun bs => (reservedHashes.lookup bs).getD
      0xf6dabe05310139912a260d8056ff0f04462fe3de6a49c4fc5ce5e5bd4282682c }

def reservedCalls : List (Msg × Hub.Call) :=
  [(⟨1, 0, 4000, Sender.owner⟩, .asc (.configureSource 1 80)),
    (⟨9, 0, 4000, Sender.outsider⟩, .registry (.registerPolicy ⟨1, 2, 0, 1, 410, 3, true, false⟩)),
    (⟨9, 0, 4000, Sender.outsider⟩, .asc (ReceiptFixture.deliver 3 1 reservedReceipt)),
    (⟨9, 0, 4500, Sender.outsider⟩,
      .registry (.cacheRosterWitness 7 reservedMark rosterInclusion))]

def reservedHub : Hub := (Hub.machine reservedEnv).final (.deployed 1) reservedCalls

def reservedBlock : BlockHeader := ⟨100, 77, 5000⟩

/-- Anyone caches the witness; the registry rejects its reserved bit, and the diagnosis of
    policy 1 names no reason. -/
theorem onchain_diagnosis_unexplained :
    ∃ es h, (Hub.machine reservedEnv).Run (.deployed 1) es h ∧ h.asc.expectedChainKey = 1 ∧
      h.registry.isVerified h.asc reservedBlock.timestamp 7 1 = false ∧
      ∃ s, readOnchainState (h.reads 17 reservedBlock) ⟨17, 34, 7⟩ none = .ok s ∧
        (s.policies.map fun dg => (dg.policy.id, dg.reasonCodes, dg.diagnosis)) =
          [(1, [], .unexplained), (2, [.UNKNOWN_POLICY, .NO_ACTIVE_DIRECT_MARK,
            .INVALID_CREDENTIAL_SCHEMA, .WRONG_ISSUER, .CREDENTIAL_EXPIRED], .consistent)] := by
  refine ⟨_, _, (Hub.machine reservedEnv).run_trace (.deployed 1) reservedCalls, ?_, ?_, ?_⟩
  · decide +kernel
  · decide +kernel
  · have hread : (value? (readOnchainState (reservedHub.reads 17 reservedBlock) ⟨17, 34, 7⟩ none)).map
        (fun s => s.policies.map fun dg => (dg.policy.id, dg.reasonCodes, dg.diagnosis)) =
        some [(1, [], .unexplained), (2, [.UNKNOWN_POLICY, .NO_ACTIVE_DIRECT_MARK,
          .INVALID_CREDENTIAL_SCHEMA, .WRONG_ISSUER, .CREDENTIAL_EXPIRED], .consistent)] := by decide +kernel
    obtain ⟨s, hs, hp⟩ := Option.map_eq_some_iff.1 hread
    exact ⟨s, value?_eq_some.1 hs, hp⟩

/-- The policy that was never registered is diagnosed as it is verified. -/
theorem onchain_diagnosis_unregistered :
    ∃ s, readOnchainState (reservedHub.reads 17 reservedBlock) ⟨17, 34, 7⟩ (some 100) = .ok s ∧
      s.policies.map (·.policy.id) = [1, 2] ∧
      ∀ dg ∈ s.policies,
        (dg.reasonCodes = [] ↔ reservedHub.registry.isVerified reservedHub.asc
            reservedBlock.timestamp 7 dg.policy.id = true) ∧ dg.diagnosis ≠ .unexplained ↔
        ¬ HidesReservedBits reservedHub reservedBlock.timestamp 7 dg.policy.id :=
  onchain_diagnosis ((Hub.machine reservedEnv).run_trace (.deployed 1) reservedCalls)
    ⟨17, 34, 7⟩ reservedBlock (some 100) (by decide) (.inr rfl) (by decide +kernel)
end Proofmark
