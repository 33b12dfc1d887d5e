/-
  The safety of the zk gate.

  `zk_gate_safety`: in every run at most one root can be presented at a time, every
  presentation uses the root that was anchored for the current epoch, in time, once, and in
  the gate's own context; and a revoked root is not presented again as long as no root is
  anchored while its record is revoked.
-/
import Proofmark.Contract.ZkKycPolicyGate

namespace Proofmark

open Revert Function

namespace ZkGateEntry

/-- The root that the step revokes. -/
def revoked? (e : ZkGateEntry) : Option U256 :=
  match e.act.2 with
  | .revokeRoot root => some root
  | _ => none

/-- The presentation that the step accepts. -/
def consumed? (e : ZkGateEntry) : Option PublicSignals :=
  match e.act.2 with
  | .verifyAndConsume _ _ publicSignals => some publicSignals
  | _ => none

/-- The step anchors no root whose record is revoked. -/
def AnchorsUnrevoked (e : ZkGateEntry) : Prop :=
  match e.act.2 with
  | .anchorRoot root _ _ => (e.pre.roots root).revoked = false
  | _ => True

instance (e : ZkGateEntry) : Decidable e.AnchorsUnrevoked :=
  match h : e.act.2 with
  | .anchorRoot root _ _ =>
    decidable_of_iff ((e.pre.roots root).revoked = false) (by simp only [AnchorsUnrevoked, h])
  | .revokeRoot _ => isTrue (by simp only [AnchorsUnrevoked, h])
  | .verifyAndConsume _ _ _ => isTrue (by simp only [AnchorsUnrevoked, h])

end ZkGateEntry

/-- Some call that presents `root` succeeds. -/
def ZkKycPolicyGate.Acceptable (env : ZkGateEnv) (g : ZkKycPolicyGate) (root : U256) : Prop :=
  ∃ m verifyProof proof publicSignals g', publicSignals.root = root ∧
    g.verifyAndConsume env m verifyProof proof publicSignals = .ok g'

/-- What the constructor fixed. -/
structure SameGate (g g' : ZkKycPolicyGate) : Prop where
  authority : g'.sourceRootAuthority = g.sourceRootAuthority
  policyId : g'.policyId = g.policyId
  allowedCountryA : g'.allowedCountryA = g.allowedCountryA
  allowedCountryB : g'.allowedCountryB = g.allowedCountryB
  maxBirthDay : g'.maxBirthDay = g.maxBirthDay
  actionDomain : g'.actionDomain = g.actionDomain

/-- A presentation `s` that the gate accepts from `m` after the steps `es`. -/
structure Presented (env : ZkGateEnv) (g₀ : ZkKycPolicyGate) (es : List ZkGateEntry)
    (g : ZkKycPolicyGate) (m : Msg) (s : PublicSignals) : Prop where
  anchored : ∃ e ∈ es, ∃ validUntil, e.act.2 = .anchorRoot s.root g.currentEpoch validUntil ∧
    e.act.1.sender = g₀.sourceRootAuthority ∧
    m.timestamp ≤ s.deadline.toNat ∧ s.deadline.toNat ≤ validUntil.toNat
  unrevoked : (g.roots s.root).revoked = false
  epoch : s.epoch = toWord g.currentEpoch
  nullifier : ∀ e ∈ es, ∀ s', e.consumed? = some s' → s'.nullifier ≠ s.nullifier
  policyId : s.policyId = toWord g₀.policyId
  countryA : s.countryA = toWord g₀.allowedCountryA
  countryB : s.countryB = toWord g₀.allowedCountryB
  maxBirthDay : s.maxBirthDay = toWord g₀.maxBirthDay
  applicationId : s.applicationId.toNat = g₀.expectedApplicationId env
  holder : s.holder = toWord m.sender

/-! ## The effect of a call -/

section
variable {env : ZkGateEnv} {g g' : ZkKycPolicyGate} {m : Msg}

/-- The guards that a successful presentation passed. -/
structure Accepts (env : ZkGateEnv) (g : ZkKycPolicyGate) (m : Msg) (s : PublicSignals) : Prop where
  anchored : (g.roots s.root).anchored = true
  revoked : (g.roots s.root).revoked = false
  fresh : m.timestamp ≤ (g.roots s.root).validUntil.toNat
  epoch : s.epoch = toWord g.currentEpoch
  current : (g.roots s.root).epoch = g.currentEpoch
  policyId : s.policyId = toWord g.policyId
  countryA : s.countryA = toWord g.allowedCountryA
  countryB : s.countryB = toWord g.allowedCountryB
  maxBirthDay : s.maxBirthDay = toWord g.maxBirthDay
  holder : s.holder = toWord m.sender
  applicationId : s.applicationId.toNat = g.expectedApplicationId env
  deadline : m.timestamp ≤ s.deadline.toNat
  lifetime : s.deadline.toNat ≤ (g.roots s.root).validUntil.toNat
  nullifier : g.nullifierUsed s.nullifier = false

theorem verifyAndConsume_ok {verifyProof : Groth16Proof → PublicSignals → Bool} {proof : Groth16Proof}
    {s : PublicSignals} (h : g.verifyAndConsume env m verifyProof proof s = .ok g') :
    Accepts env g m s ∧ verifyProof proof s = true ∧
      g' = { g with nullifierUsed := update g.nullifierUsed s.nullifier true } := by
  simp only [ZkKycPolicyGate.verifyAndConsume, bind_ok, revertIf_ok, pure_ok, not_not, not_or,
    not_lt] at h
  obtain ⟨_, h1, _, h2, _, h3, _, ⟨h4, h5⟩, _, ⟨h6, h7, h8, h9⟩, _, h10, _, h11, _, h12, _, h13,
    _, h14, _, h15, rfl⟩ := h
  rw [Bool.not_eq_true] at h2 h14
  exact ⟨⟨h1, h2, h3, h4, h5, h6, h7, h8, h9, h10, h11, h12, h13, h14⟩, h15, rfl⟩

theorem anchorRoot_ok {root : U256} {epoch validUntil : U64}
    (h : g.anchorRoot m root epoch validUntil = .ok g') :
    m.sender = g.sourceRootAuthority ∧ g.currentEpoch < epoch ∧
      g' = { g with roots := update g.roots root ⟨epoch, validUntil, true, false⟩,
                    currentEpoch := epoch } := by
  simp only [ZkKycPolicyGate.anchorRoot, bind_ok, revertIf_ok, pure_ok, not_not, BitVec.not_le] at h
  obtain ⟨_, h1, _, -, _, h2, _, -, rfl⟩ := h
  exact ⟨h1, h2, rfl⟩

theorem revokeRoot_ok {root : U256} (h : g.revokeRoot m root = .ok g') :
    (g.roots root).anchored = true ∧
      g' = { g with roots := update g.roots root { g.roots root with revoked := true } } := by
  simp only [ZkKycPolicyGate.revokeRoot, bind_ok, revertIf_ok, pure_ok, not_not] at h
  obtain ⟨_, -, _, h1, rfl⟩ := h
  exact ⟨h1, rfl⟩

/-- What a step can do. -/
inductive GateEffect (env : ZkGateEnv) : ZkGateEntry → Prop
  | anchored {g : ZkKycPolicyGate} {m : Msg} {root : U256} {epoch validUntil : U64} {out : Unit} :
      m.sender = g.sourceRootAuthority → g.currentEpoch < epoch →
      GateEffect env ⟨g, (m, .anchorRoot root epoch validUntil), out,
        { g with roots := update g.roots root ⟨epoch, validUntil, true, false⟩,
                 currentEpoch := epoch }⟩
  | revoked {g : ZkKycPolicyGate} {m : Msg} {root : U256} {out : Unit} :
      (g.roots root).anchored = true →
      GateEffect env ⟨g, (m, .revokeRoot root), out,
        { g with roots := update g.roots root { g.roots root with revoked := true } }⟩
  | consumed {g : ZkKycPolicyGate} {m : Msg} {verifyProof : Groth16Proof → PublicSignals → Bool}
      {proof : Groth16Proof} {s : PublicSignals} {out : Unit} :
      Accepts env g m s →
      GateEffect env ⟨g, (m, .verifyAndConsume verifyProof proof s), out,
        { g with nullifierUsed := update g.nullifierUsed s.nullifier true }⟩

theorem gateEffect_of_step {e : ZkGateEntry} (h : (ZkKycPolicyGate.machine env).IsStep e) :
    GateEffect env e := by
  obtain ⟨g, ⟨m, call⟩, out, g'⟩ := e
  cases call with
  | anchorRoot root epoch validUntil =>
    simp only [Machine.IsStep, ZkKycPolicyGate.machine, bind_ok, pure_ok, Prod.mk.injEq] at h
    obtain ⟨g₁, hok, rfl, -⟩ := h
    obtain ⟨h1, h2, rfl⟩ := anchorRoot_ok hok
    exact .anchored h1 h2
  | revokeRoot root =>
    simp only [Machine.IsStep, ZkKycPolicyGate.machine, bind_ok, pure_ok, Prod.mk.injEq] at h
    obtain ⟨g₁, hok, rfl, -⟩ := h
    obtain ⟨h1, rfl⟩ := revokeRoot_ok hok
    exact .revoked h1
  | verifyAndConsume verifyProof proof s =>
    simp only [Machine.IsStep, ZkKycPolicyGate.machine, bind_ok, pure_ok, Prod.mk.injEq] at h
    obtain ⟨g₁, hok, rfl, -⟩ := h
    obtain ⟨h1, -, rfl⟩ := verifyAndConsume_ok hok
    exact .consumed h1

end

/-! ## The invariant -/

/-- The gate `g` after the steps `es`. -/
structure GateInv (g₀ : ZkKycPolicyGate) (es : List ZkGateEntry) (g : ZkKycPolicyGate) : Prop where
  same : SameGate g₀ g
  epoch_le : ∀ r, (g.roots r).anchored = true → (g.roots r).epoch ≤ g.currentEpoch
  unique : ∀ r r', (g.roots r).anchored = true → (g.roots r).epoch = g.currentEpoch →
    (g.roots r').anchored = true → (g.roots r').epoch = g.currentEpoch → r = r'
  source : ∀ r, (g.roots r).anchored = true → ∃ e ∈ es,
    e.act.2 = .anchorRoot r (g.roots r).epoch (g.roots r).validUntil ∧
      e.act.1.sender = g₀.sourceRootAuthority
  nullifiers : ∀ e ∈ es, ∀ s, e.consumed? = some s → g.nullifierUsed s.nullifier = true

/-- Every root that was revoked is marked so. -/
def RevokedKept (es : List ZkGateEntry) (g : ZkKycPolicyGate) : Prop :=
  ∀ e ∈ es, ∀ root, e.revoked? = some root → (g.roots root).revoked = true

section
variable {env : ZkGateEnv} {g₀ g : ZkKycPolicyGate} {es : List ZkGateEntry}

theorem GateInv.step {e : ZkGateEntry} (hi : GateInv g₀ es e.pre) (h : GateEffect env e) :
    GateInv g₀ (es ++ [e]) e.post := by
  cases h with
  | @anchored g m root epoch validUntil out hauth hlt =>
    have hpast : ∀ r, r ≠ root → (g.roots r).anchored = true → (g.roots r).epoch ≠ epoch := by
      rintro r - ha rfl
      exact BitVec.not_lt.2 (hi.epoch_le r ha) hlt
    refine ⟨⟨hi.same.1, hi.same.2, hi.same.3, hi.same.4, hi.same.5, hi.same.6⟩, ?_, ?_, ?_, ?_⟩
    · intro r ha
      by_cases hr : r = root
      · subst hr; simp
      · simp only [update_of_ne hr] at ha ⊢
        have hle := hi.epoch_le r ha
        rw [BitVec.le_def] at hle ⊢
        exact hle.trans (BitVec.lt_def.1 hlt).le
    · intro r r' ha he ha' he'
      have hroot : ∀ x, (update g.roots root ⟨epoch, validUntil, true, false⟩ x).anchored = true →
          (update g.roots root ⟨epoch, validUntil, true, false⟩ x).epoch = epoch → x = root := by
        intro x hx hxe
        by_contra hne
        rw [update_of_ne hne] at hx hxe
        exact hpast x hne hx hxe
      rw [hroot r ha he, hroot r' ha' he']
    · intro r ha
      by_cases hr : r = root
      · subst hr
        refine ⟨_, List.mem_append_right _ (List.mem_singleton_self _), ?_,
          hauth.trans hi.same.authority⟩
        simp
      · simp only [update_of_ne hr] at ha ⊢
        obtain ⟨e, he, hact⟩ := hi.source r ha
        exact ⟨e, by simp [he], hact⟩
    · intro e he s hs
      rcases List.mem_append.1 he with he | he
      · exact hi.nullifiers e he s hs
      · rw [List.mem_singleton.1 he] at hs
        cases hs
  | @revoked g m root out hanch =>
    have hkeep : ∀ r, (update g.roots root { g.roots root with revoked := true } r).anchored =
          (g.roots r).anchored ∧
        (update g.roots root { g.roots root with revoked := true } r).epoch = (g.roots r).epoch ∧
        (update g.roots root { g.roots root with revoked := true } r).validUntil =
          (g.roots r).validUntil := by
      intro r
      by_cases hr : r = root
      · subst hr; simp
      · simp [update_of_ne hr]
    refine ⟨⟨hi.same.1, hi.same.2, hi.same.3, hi.same.4, hi.same.5, hi.same.6⟩, ?_, ?_, ?_, ?_⟩
    · intro r
      simp only [hkeep r]
      exact hi.epoch_le r
    · intro r r'
      simp only [hkeep r, hkeep r']
      exact hi.unique r r'
    · intro r
      simp only [hkeep r]
      intro ha
      obtain ⟨e, he, hact⟩ := hi.source r ha
      exact ⟨e, by simp [he], hact⟩
    · intro e he s hs
      rcases List.mem_append.1 he with he | he
      · exact hi.nullifiers e he s hs
      · rw [List.mem_singleton.1 he] at hs
        cases hs
  | @consumed g m verifyProof proof s out hacc =>
    refine ⟨⟨hi.same.1, hi.same.2, hi.same.3, hi.same.4, hi.same.5, hi.same.6⟩, hi.epoch_le,
      hi.unique, ?_, ?_⟩
    · intro r ha
      obtain ⟨e, he, hact⟩ := hi.source r ha
      exact ⟨e, by simp [he], hact⟩
    · intro e he s' hs
      by_cases hn : s'.nullifier = s.nullifier
      · simp [hn]
      · dsimp only
        rw [update_of_ne hn]
        rcases List.mem_append.1 he with he | he
        · exact hi.nullifiers e he s' hs
        · rw [List.mem_singleton.1 he] at hs
          cases hs
          exact absurd rfl hn

theorem RevokedKept.step {e : ZkGateEntry} (hi : RevokedKept es e.pre) (h : GateEffect env e)
    (hu : e.AnchorsUnrevoked) : RevokedKept (es ++ [e]) e.post := by
  intro x hx root hr
  cases h with
  | @anchored g m root' epoch validUntil out hauth hlt =>
    rcases List.mem_append.1 hx with hx | hx
    · have hrev := hi x hx root hr
      have hne : root ≠ root' := by
        rintro rfl
        have hroot : (g.roots root).revoked = false := hu
        rw [hroot] at hrev
        cases hrev
      dsimp only
      rw [update_of_ne hne]
      exact hrev
    · rw [List.mem_singleton.1 hx] at hr
      cases hr
  | @revoked g m root' out hanch =>
    by_cases hne : root = root'
    · simp [hne]
    · dsimp only
      rw [update_of_ne hne]
      rcases List.mem_append.1 hx with hx | hx
      · exact hi x hx root hr
      · rw [List.mem_singleton.1 hx] at hr
        cases hr
        exact absurd rfl hne
  | @consumed g m verifyProof proof s out hacc =>
    rcases List.mem_append.1 hx with hx | hx
    · exact hi x hx root hr
    · rw [List.mem_singleton.1 hx] at hr
      cases hr

theorem gateInv_run {codeLength : ℕ} {verifier authority : Address} {policyId : U64}
    {countryA countryB : U16} {maxBirthDay : U32} {actionDomain : Bytes32}
    (hc : ZkKycPolicyGate.construct codeLength verifier authority policyId countryA countryB
      maxBirthDay actionDomain = .ok g₀)
    (hrun : (ZkKycPolicyGate.machine env).Run g₀ es g) : GateInv g₀ es g := by
  simp only [ZkKycPolicyGate.construct, bind_ok, revertIf_ok, pure_ok] at hc
  obtain ⟨_, -, _, -, rfl⟩ := hc
  refine hrun.history ⟨⟨rfl, rfl, rfl, rfl, rfl, rfl⟩, ?_, ?_, ?_, ?_⟩ fun es e _ hi hs =>
    hi.step (gateEffect_of_step hs)
  · intro r ha
    cases ha
  · intro r r' ha
    cases ha
  · intro r ha
    cases ha
  · intro e he
    cases he

theorem revokedKept_run (hrun : (ZkKycPolicyGate.machine env).Run g₀ es g)
    (hu : ∀ e ∈ es, e.AnchorsUnrevoked) : RevokedKept es g := by
  induction hrun with
  | nil => intro e he; cases he
  | @snoc es s a s' w hrun hstep ih =>
    have hi := ih fun e he => hu e (by simp [he])
    exact hi.step (e := ⟨s, a, w, s'⟩) (gateEffect_of_step hstep) (hu _ (by simp))

/-- **What an accepted presentation uses.** -/
theorem GateInv.presented {m : Msg} {s : PublicSignals} (hi : GateInv g₀ es g)
    (ha : Accepts env g m s) : Presented env g₀ es g m s := by
  obtain ⟨e, he, hact, hauth⟩ := hi.source s.root ha.anchored
  rw [ha.current] at hact
  refine ⟨⟨e, he, _, hact, hauth, ha.deadline, ha.lifetime⟩, ha.revoked, ha.epoch, ?_, ?_, ?_, ?_, ?_,
    ?_, ha.holder⟩
  · intro x hx s' hs heq
    have hused := hi.nullifiers x hx s' hs
    rw [heq, ha.nullifier] at hused
    cases hused
  · exact ha.policyId.trans (by rw [hi.same.policyId])
  · exact ha.countryA.trans (by rw [hi.same.allowedCountryA])
  · exact ha.countryB.trans (by rw [hi.same.allowedCountryB])
  · exact ha.maxBirthDay.trans (by rw [hi.same.maxBirthDay])
  · rw [ha.applicationId, ZkKycPolicyGate.expectedApplicationId, hi.same.actionDomain]
    rfl

theorem GateInv.acceptable_unique {r r' : U256} (hi : GateInv g₀ es g) (h : g.Acceptable env r)
    (h' : g.Acceptable env r') : r = r' := by
  obtain ⟨m, _, _, s, _, rfl, hok⟩ := h
  obtain ⟨m', _, _, s', _, rfl, hok'⟩ := h'
  have ha := (verifyAndConsume_ok hok).1
  have ha' := (verifyAndConsume_ok hok').1
  exact hi.unique _ _ ha.anchored ha.current ha'.anchored ha'.current

theorem acceptable_of_consumed {e : ZkGateEntry} (hs : (ZkKycPolicyGate.machine env).IsStep e)
    {s : PublicSignals} (h : e.consumed? = some s) :
    e.pre.Acceptable env s.root ∧ Accepts env e.pre e.act.1 s := by
  obtain ⟨g, ⟨m, call⟩, out, g'⟩ := e
  cases call with
  | verifyAndConsume verifyProof proof s' =>
    cases h
    simp only [Machine.IsStep, ZkKycPolicyGate.machine, bind_ok, pure_ok, Prod.mk.injEq] at hs
    obtain ⟨g₁, hok, -, -⟩ := hs
    exact ⟨⟨m, verifyProof, proof, s, g₁, rfl, hok⟩, (verifyAndConsume_ok hok).1⟩
  | anchorRoot | revokeRoot => cases h

theorem RevokedKept.not_acceptable {e : ZkGateEntry} {root : U256} (hi : RevokedKept es g)
    (he : e ∈ es) (hr : e.revoked? = some root) : ¬ g.Acceptable env root := by
  rintro ⟨m, _, _, s, _, rfl, hok⟩
  have hrev := hi e he _ hr
  rw [(verifyAndConsume_ok hok).1.revoked] at hrev
  cases hrev

end

/-! ## Runs -/

/-- No root that a step revoked is presented in a later step. -/
def NeverPresentedAgain (es : List ZkGateEntry) : Prop :=
  ∀ es₁ e es₂, es = es₁ ++ e :: es₂ → ∀ root, e.revoked? = some root →
    ∀ x ∈ es₂, ∀ s, x.consumed? = some s → s.root ≠ root

/-- A run from `g₀` with the steps `es` to `g`. -/
structure GateSafe (env : ZkGateEnv) (g₀ : ZkKycPolicyGate) (es : List ZkGateEntry)
    (g : ZkKycPolicyGate) : Prop where
  single : ∀ r r', g.Acceptable env r → g.Acceptable env r' → r = r'
  presented : ∀ es₁ e es₂, es = es₁ ++ e :: es₂ → ∀ s, e.consumed? = some s →
    Presented env g₀ es₁ e.pre e.act.1 s
  reverted : ∀ act err, (ZkKycPolicyGate.machine env).step g act = .error err →
    (ZkKycPolicyGate.machine env).final g [act] = g

/-- **The zk gate is safe.**  The revocation of a root lasts while no step anchors a root
    whose record is revoked. -/
theorem zk_gate_safety {env : ZkGateEnv} {g₀ g : ZkKycPolicyGate} {es : List ZkGateEntry}
    {codeLength : ℕ} {verifier authority : Address} {policyId : U64} {countryA countryB : U16}
    {maxBirthDay : U32} {actionDomain : Bytes32}
    (hc : ZkKycPolicyGate.construct codeLength verifier authority policyId countryA countryB
      maxBirthDay actionDomain = .ok g₀)
    (hrun : (ZkKycPolicyGate.machine env).Run g₀ es g) :
    GateSafe env g₀ es g ∧
      ((∀ e ∈ es, e.AnchorsUnrevoked) →
        NeverPresentedAgain es ∧
        ∀ e ∈ es, ∀ root, e.revoked? = some root → ¬ g.Acceptable env root) := by
  refine ⟨⟨?_, ?_, ?_⟩, fun hu => ⟨?_, ?_⟩⟩
  · intro r r'
    exact (gateInv_run hc hrun).acceptable_unique
  · rintro es₁ e es₂ rfl s hs
    obtain ⟨hrun₁, hstep, -⟩ := hrun.split
    exact (gateInv_run hc hrun₁).presented (acceptable_of_consumed hstep hs).2
  · intro act err herr
    simp only [Machine.final, herr]
  · rintro es₁ e es₂ rfl root hr x hx s hs rfl
    obtain ⟨es₂, es₃, rfl⟩ := List.append_of_mem hx
    rw [← List.cons_append, ← List.append_assoc] at hrun hu
    obtain ⟨hrun₁, hstep, -⟩ := hrun.split
    have hkept := revokedKept_run hrun₁ fun y hy => hu y (List.mem_append_left _ hy)
    exact hkept.not_acceptable (by simp) hr (acceptable_of_consumed hstep hs).1
  · intro e he root hr
    exact (revokedKept_run hrun hu).not_acceptable he hr

/-! A gate with two anchored roots. -/

def zkGateEnv : ZkGateEnv := ⟨fun bs => BitVec.ofNat 256 (Words.ofBytes bs), 31337, 0xA11⟩

def zkGate : ZkKycPolicyGate := {
  verifier := 0x6001, sourceRootAuthority := 1, policyId := 7, allowedCountryA := 410,
  allowedCountryB := 840, maxBirthDay := 14000, actionDomain := 0xD0, currentEpoch := 0,
  roots := fun _ => ⟨0, 0, false, false⟩, nullifierUsed := fun _ => false }

def zkSignals (root : U256) (epoch : U64) (nullifier : U256) : PublicSignals := {
  nullifier, root, policyId := 7, countryA := 410, countryB := 840, maxBirthDay := 14000
  holder := 9, applicationId := BitVec.ofNat 256 (zkGate.expectedApplicationId zkGateEnv)
  epoch := toWord epoch, deadline := 150 }

def zkProof : Groth16Proof := ⟨(1, 2), ((3, 4), (5, 6)), (7, 8)⟩

def zkAuthority (timestamp : ℕ) : Msg := ⟨1, 10, timestamp, Sender.owner⟩

def zkHolder (timestamp : ℕ) : Msg := ⟨9, 10, timestamp, Sender.outsider⟩

/-- A root is presented, superseded and revoked; the next root is presented. -/
def supersededRoot : List (Msg × ZkGateCall) := [
  (zkAuthority 100, .anchorRoot 5 1 200),
  (zkHolder 110, .verifyAndConsume (fun _ _ => true) zkProof (zkSignals 5 1 60)),
  (zkAuthority 120, .revokeRoot 5),
  (zkHolder 121, .verifyAndConsume (fun _ _ => true) zkProof (zkSignals 5 1 61)),
  (zkAuthority 130, .anchorRoot 6 2 200),
  (zkHolder 140, .verifyAndConsume (fun _ _ => true) zkProof (zkSignals 6 2 61))]

theorem zk_gate_safety_superseded :
    GateSafe zkGateEnv zkGate ((ZkKycPolicyGate.machine zkGateEnv).trace zkGate supersededRoot)
      ((ZkKycPolicyGate.machine zkGateEnv).final zkGate supersededRoot) ∧
    NeverPresentedAgain ((ZkKycPolicyGate.machine zkGateEnv).trace zkGate supersededRoot) := by
  have hc : ZkKycPolicyGate.construct 1 0x6001 1 7 410 840 14000 0xD0 = .ok zkGate := rfl
  obtain ⟨hsafe, hnever⟩ :=
    zk_gate_safety hc ((ZkKycPolicyGate.machine zkGateEnv).run_trace zkGate supersededRoot)
  refine ⟨hsafe, (hnever ?_).1⟩
  have hall : ((ZkKycPolicyGate.machine zkGateEnv).trace zkGate supersededRoot).all
      (fun e => decide (ZkGateEntry.AnchorsUnrevoked e)) = true := by decide +kernel
  simpa using hall

/-- Anchored again at a later epoch, a revoked root is presented. -/
def reanchoredRoot : List (Msg × ZkGateCall) := [
  (zkAuthority 100, .anchorRoot 5 1 200),
  (zkAuthority 120, .revokeRoot 5),
  (zkAuthority 130, .anchorRoot 5 2 200),
  (zkHolder 140, .verifyAndConsume (fun _ _ => true) zkProof (zkSignals 5 2 60))]

theorem zk_gate_revoked_root_returns :
    ∃ g₀ es g, ZkKycPolicyGate.construct 1 0x6001 1 7 410 840 14000 0xD0 = .ok g₀ ∧
      (ZkKycPolicyGate.machine zkGateEnv).Run g₀ es g ∧ ¬ NeverPresentedAgain es := by
  refine ⟨zkGate, _, _, rfl, (ZkKycPolicyGate.machine zkGateEnv).run_trace zkGate reanchoredRoot, ?_⟩
  have hshow : ((ZkKycPolicyGate.machine zkGateEnv).trace zkGate reanchoredRoot).map
      (fun e => (ZkGateEntry.revoked? e, ZkGateEntry.consumed? e)) =
      [(none, none), (some 5, none), (none, none), (none, some (zkSignals 5 2 60))] := by
    decide +kernel
  generalize (ZkKycPolicyGate.machine zkGateEnv).trace zkGate reanchoredRoot = es at hshow ⊢
  simp only [List.map_eq_cons_iff, List.map_eq_nil_iff, Prod.mk.injEq] at hshow
  obtain ⟨a, _, rfl, -, b, _, rfl, ⟨hb, -⟩, c, _, rfl, -, d, _, rfl, ⟨-, hd⟩, rfl⟩ := hshow
  intro h
  exact h [a] b [c, d] rfl 5 hb d (by simp) _ hd rfl

end Proofmark
