/-
  Presentations at the gate, down to the credentials.

  The proof system is assumed to be sound: who has a proof accepted knows a solution.  So is
  Poseidon: no two of the lists that were hashed collide.

  `presentations_sound`: what the gate accepts shows a credential of the anchored set to its own
  holder, and no secret is shown twice for one epoch and one deadline.
  `presentation_accepted`: nobody else can keep a holder from such a presentation.
-/
import Proofmark.Zk.GateSafety
import Proofmark.Zk.KycStatement

namespace Proofmark

open Revert Function Words

/-- The authority commits to the credentials `cs` under `root`. -/
structure Commits (lib : Circomlib) (inputs : Set (List Fr)) (cs : List Credential) (root : U256) : Prop where
  four : cs.length = 4
  top : Merkle.top? lib.node (cs.map lib.leaf) = some (scalar root)
  openings : ∀ c ∈ cs, c.opening ∈ inputs
  nodes : ∀ p ∈ Merkle.treePairs lib.node (cs.map lib.leaf), [p.1, p.2] ∈ inputs

/-- The lists that a solution hashes. -/
def KycSignals.hashed (x : KycPublic) (w : KycPrivate) (g : KycSignals) : List (List Fr) :=
  w.opening x :: (List.ofFn fun i => [g.left i, g.right i]) ++ [x.context, [w.secret, g.contextHash]]

/-- The gate runs with the generated verifier, over committed sets.  `inputs` holds what was
    hashed. -/
structure PresentationRun (lib : Circomlib) (checkPairing : Groth16Proof → KycPublic → Bool)
    (inputs : Set (List Fr)) (sets : U256 → List Credential) (es : List ZkGateEntry) : Prop where
  documented : lib.Documented
  noCollision : Set.InjOn lib.Poseidon inputs
  verifier : ∀ e ∈ es, ∀ verifyProof proof s, e.act.2 = .verifyAndConsume verifyProof proof s →
    verifyProof = KycPolicyGroth16Verifier.verifyProof checkPairing
  extracted : ∀ e ∈ es, ∀ verifyProof proof s, e.act.2 = .verifyAndConsume verifyProof proof s →
    checkPairing proof s.scalars = true →
    ∃ w g, KycPolicy lib s.scalars w g ∧ ∀ l ∈ g.hashed s.scalars w, l ∈ inputs
  committed : ∀ e ∈ es, ∀ root epoch validUntil, e.act.2 = .anchorRoot root epoch validUntil →
    Commits lib inputs (sets root) root

/-- The presentation `s` in the step `e` shows the credential `c`. -/
structure ShowsCredential (lib : Circomlib) (g₀ : ZkKycPolicyGate) (sets : U256 → List Credential)
    (e : ZkGateEntry) (s : PublicSignals) (c : Credential) : Prop where
  mem : c ∈ sets s.root
  holder : c.holder = e.act.1.sender
  country : c.country = g₀.allowedCountryA ∨ c.country = g₀.allowedCountryB
  oldEnough : c.birthDay ≤ g₀.maxBirthDay
  unexpired : e.act.1.timestamp ≤ s.deadline.toNat ∧ s.deadline.toNat ≤ c.credentialExpiry.toNat
  nullifier : scalar s.nullifier = lib.nullifier s.scalars c.secret

/-- What the presentations of a run show. -/
structure PresentationsSound (lib : Circomlib) (g₀ : ZkKycPolicyGate) (sets : U256 → List Credential)
    (es : List ZkGateEntry) : Prop where
  shown : ∀ e ∈ es, ∀ s, e.consumed? = some s → ∃ c, ShowsCredential lib g₀ sets e s c
  once : ∀ es₁ e es₂ e' es₃, es = es₁ ++ e :: es₂ ++ e' :: es₃ → ∀ s s' c c',
    e.consumed? = some s → e'.consumed? = some s' → ShowsCredential lib g₀ sets e s c →
    ShowsCredential lib g₀ sets e' s' c' → c.secret = c'.secret → c.holder = c'.holder →
    s.epoch = s'.epoch → s.deadline ≠ s'.deadline

/-- The signals of a presentation to the gate. -/
def ZkKycPolicyGate.request (env : ZkGateEnv) (g : ZkKycPolicyGate) (root nullifier : U256)
    (holder : Address) (deadline : U64) : PublicSignals where
  nullifier := nullifier
  root := root
  policyId := toWord g.policyId
  countryA := toWord g.allowedCountryA
  countryB := toWord g.allowedCountryB
  maxBirthDay := toWord g.maxBirthDay
  holder := toWord holder
  applicationId := BitVec.ofNat 256 (g.expectedApplicationId env)
  epoch := toWord g.currentEpoch
  deadline := toWord deadline

/-- The nullifier does not depend on the nullifier of the signals. -/
def ZkKycPolicyGate.present (env : ZkGateEnv) (g : ZkKycPolicyGate) (lib : Circomlib) (root : U256)
    (c : Credential) (deadline : U64) : PublicSignals :=
  g.request env root
    (word 256 (lib.nullifier (g.request env root 0 c.holder deadline).scalars c.secret)) c.holder deadline

/-- `c` may be presented to the gate from `m`, with this deadline. -/
structure Entitled (g : ZkKycPolicyGate) (sets : U256 → List Credential) (m : Msg) (root : U256)
    (c : Credential) (deadline : U64) : Prop where
  anchored : (g.roots root).anchored = true
  unrevoked : (g.roots root).revoked = false
  current : (g.roots root).epoch = g.currentEpoch
  mem : c ∈ sets root
  holder : c.holder = m.sender
  country : c.country = g.allowedCountryA ∨ c.country = g.allowedCountryB
  oldEnough : c.birthDay ≤ g.maxBirthDay
  timely : m.timestamp ≤ deadline.toNat
  lifetime : deadline ≤ (g.roots root).validUntil
  unexpired : deadline ≤ c.credentialExpiry

/-! ## Signals -/

theorem Credential.opening_injective : Injective Credential.opening := by
  rintro ⟨secret, holder, country, birthDay, expiry, id⟩
    ⟨secret', holder', country', birthDay', expiry', id'⟩ h
  simp only [Credential.opening, List.cons.injEq, and_true] at h
  obtain ⟨rfl, h1, h2, h3, h4, h5⟩ := h
  have hinj : ∀ {n : ℕ} {v v' : BitVec n}, n ≤ 253 → scalar v = scalar v' → v = v' := by
    intro n v v' hn
    exact scalar_inj (toNat_lt_field hn v) (toNat_lt_field hn v')
  rw [hinj (by norm_num) h1, hinj (by norm_num) h2, hinj (by norm_num) h3, hinj (by norm_num) h4,
    hinj (by norm_num) h5]

/-- Every signal is below the order of the field. -/
def PublicSignals.Canonical (s : PublicSignals) : Prop := ∀ v ∈ s.toList, v.toNat < SNARK_SCALAR_FIELD

namespace PublicSignals

variable {s : PublicSignals}

theorem canonical_iff : s.toList.all KycPolicyGroth16Verifier.checkField = true ↔ s.Canonical := by
  simp [KycPolicyGroth16Verifier.checkField, Canonical]

theorem Canonical.lt (h : s.Canonical) {v : U256} (hv : v ∈ s.toList := by simp [PublicSignals.toList]) :
    v.toNat < SNARK_SCALAR_FIELD := h v hv

end PublicSignals

theorem verifyProof_true {checkPairing : Groth16Proof → KycPublic → Bool} {proof : Groth16Proof}
    {s : PublicSignals} : KycPolicyGroth16Verifier.verifyProof checkPairing proof s = true ↔
      s.Canonical ∧ checkPairing proof s.scalars = true := by
  rw [KycPolicyGroth16Verifier.verifyProof, Bool.and_eq_true, PublicSignals.canonical_iff]

/-! ## The gate -/

section
variable {env : ZkGateEnv} {g₀ g : ZkKycPolicyGate} {es : List ZkGateEntry} {lib : Circomlib}
  {checkPairing : Groth16Proof → KycPublic → Bool} {inputs : Set (List Fr)}
  {sets : U256 → List Credential}

theorem verifyAndConsume_of_accepts {m : Msg} {verifyProof : Groth16Proof → PublicSignals → Bool}
    {proof : Groth16Proof} {s : PublicSignals} (ha : Accepts env g m s)
    (hv : verifyProof proof s = true) : ∃ g', g.verifyAndConsume env m verifyProof proof s = .ok g' := by
  have hrevoked := Bool.eq_false_iff.1 ha.revoked
  have hunused := Bool.eq_false_iff.1 ha.nullifier
  simp only [ZkKycPolicyGate.verifyAndConsume, bind_ok, revertIf_ok, pure_ok, not_not, not_or, not_lt]
  exact ⟨_, (), ha.anchored, (), hrevoked, (), ha.fresh, (), ⟨ha.epoch, ha.current⟩, (),
    ⟨ha.policyId, ha.countryA, ha.countryB, ha.maxBirthDay⟩, (), ha.holder, (), ha.applicationId, (),
    ha.deadline, (), ha.lifetime, (), hunused, (), hv, rfl⟩

/-- The call behind an accepted presentation. -/
theorem call_of_consumed {e : ZkGateEntry} (hs : (ZkKycPolicyGate.machine env).IsStep e)
    {s : PublicSignals} (h : e.consumed? = some s) :
    ∃ verifyProof proof, e.act.2 = .verifyAndConsume verifyProof proof s ∧ verifyProof proof s = true := by
  obtain ⟨g, ⟨m, call⟩, out, g'⟩ := e
  cases call with
  | verifyAndConsume verifyProof proof s' =>
    cases h
    simp only [Machine.IsStep, ZkKycPolicyGate.machine, bind_ok, pure_ok, Prod.mk.injEq] at hs
    obtain ⟨g₁, hok, -, -⟩ := hs
    exact ⟨verifyProof, proof, rfl, (verifyAndConsume_ok hok).2.1⟩
  | anchorRoot | revokeRoot => cases h

/-- An anchored root is a scalar. -/
theorem root_lt_of_anchored {e : ZkGateEntry} {root : U256} {epoch validUntil : U64}
    (hs : (ZkKycPolicyGate.machine env).IsStep e) (h : e.act.2 = .anchorRoot root epoch validUntil) :
    root.toNat < SNARK_SCALAR_FIELD := by
  obtain ⟨g, ⟨m, call⟩, out, g'⟩ := e
  cases h
  simp only [Machine.IsStep, ZkKycPolicyGate.machine, bind_ok, pure_ok, Prod.mk.injEq,
    ZkKycPolicyGate.anchorRoot, revertIf_ok, not_or, not_le] at hs
  obtain ⟨_, ⟨_, -, _, ⟨-, hlt⟩, -⟩, -⟩ := hs
  exact hlt

/-- A used nullifier was presented. -/
theorem consumed_of_used (hused : ∀ n, g₀.nullifierUsed n = false)
    (hrun : (ZkKycPolicyGate.machine env).Run g₀ es g) (n : U256) (h : g.nullifierUsed n = true) :
    ∃ e ∈ es, ∃ s, e.consumed? = some s ∧ s.nullifier = n := by
  revert n
  refine hrun.history (H := fun (es : List ZkGateEntry) g => ∀ n, g.nullifierUsed n = true →
    ∃ e ∈ es, ∃ s, e.consumed? = some s ∧ s.nullifier = n) ?_ ?_
  · intro n h
    rw [hused] at h
    cases h
  · intro es e _ hi hs n h
    have hpast : e.pre.nullifierUsed n = true →
        ∃ x ∈ es ++ [e], ∃ s, ZkGateEntry.consumed? x = some s ∧ s.nullifier = n := by
      intro hp
      obtain ⟨x, hx, hs⟩ := hi n hp
      exact ⟨x, List.mem_append_left _ hx, hs⟩
    cases gateEffect_of_step hs with
    | anchored => exact hpast h
    | revoked => exact hpast h
    | @consumed g m verifyProof proof s out hacc =>
      by_cases hn : n = s.nullifier
      · exact ⟨_, List.mem_append_right _ (List.mem_singleton_self _), s, rfl, hn.symm⟩
      · dsimp only at h
        rw [update_of_ne hn] at h
        exact hpast h

namespace PresentationRun

/-- What is known of an accepted presentation. -/
theorem solution (hr : PresentationRun lib checkPairing inputs sets es) {e : ZkGateEntry} (he : e ∈ es)
    (hs : (ZkKycPolicyGate.machine env).IsStep e) {s : PublicSignals} (h : e.consumed? = some s) :
    s.Canonical ∧ ∃ w g, KycPolicy lib s.scalars w g ∧ ∀ l ∈ g.hashed s.scalars w, l ∈ inputs := by
  obtain ⟨verifyProof, proof, hact, hv⟩ := call_of_consumed hs h
  rw [hr.verifier e he _ _ _ hact, verifyProof_true] at hv
  exact ⟨hv.1, hr.extracted e he _ _ _ hact hv.2⟩

/-- **What is opened below a committed root is committed.** -/
theorem mem_of_opens (hr : PresentationRun lib checkPairing inputs sets es) {cs : List Credential}
    {x : KycPublic} {root : U256} (hcs : Commits lib inputs cs root) (hx : x.root = scalar root)
    {c : Credential} {idx : ℕ} {ss : List Fr} (h : Opens lib x c idx ss)
    (hin : ∀ l ∈ lib.hashed x c idx ss, l ∈ inputs) : c ∈ cs := by
  have hlen : (cs.map lib.leaf).length = 4 := by rw [List.length_map, hcs.four]
  have hpath := h.path
  have hidx : idx < (cs.map lib.leaf).length := by
    rw [hlen]
    exact (climb?_four.1 hpath).1
  rw [hx, ← hlen] at hpath
  have hinj : ∀ p ∈ Merkle.climbPairs lib.node (lib.leaf c) idx ss,
      ∀ q ∈ Merkle.treePairs lib.node (cs.map lib.leaf),
        Merkle.hash lib.node p = Merkle.hash lib.node q → p = q := by
    intro p hp q hq heq
    have hp' : [p.1, p.2] ∈ inputs := by
      refine hin _ ?_
      simp only [Circomlib.hashed, List.cons_append, List.mem_cons, List.mem_append, List.mem_map]
      exact .inr (.inl ⟨p, hp, rfl⟩)
    have hpq := hr.noCollision hp' (hcs.nodes q hq) heq
    simp only [List.cons.injEq, and_true] at hpq
    exact Prod.ext hpq.1 hpq.2
  obtain ⟨hget, -⟩ := Merkle.eq_of_climb? lib.node (cs.map lib.leaf) hidx hcs.top hpath hinj
  rw [List.getElem?_map, Option.map_eq_some_iff] at hget
  obtain ⟨c', hc', heq⟩ := hget
  have hmem := List.mem_of_getElem? hc'
  have hopen := hr.noCollision (hcs.openings c' hmem) (hin c.opening (by simp [Circomlib.hashed])) heq
  rw [← Credential.opening_injective hopen]
  exact hmem

end PresentationRun

/-! ## Soundness -/

/-- **An accepted presentation shows a committed credential.** -/
theorem shows_of_consumed (hr : PresentationRun lib checkPairing inputs sets es) {past : List ZkGateEntry}
    (hpast : ∀ x ∈ past, x ∈ es) {e : ZkGateEntry} (he : e ∈ es) (hi : GateInv g₀ past e.pre)
    (hs : (ZkKycPolicyGate.machine env).IsStep e) {s : PublicSignals} (h : e.consumed? = some s) :
    ∃ c, ShowsCredential lib g₀ sets e s c := by
  obtain ⟨hcan, w, sig, hsol, hin⟩ := hr.solution he hs h
  have ha := (acceptable_of_consumed hs h).2
  have hp := hi.presented ha
  obtain ⟨a, hae, validUntil, hact, -⟩ := hp.anchored
  obtain ⟨idx, ss, hopens, hhash⟩ := hsol.opens hr.documented
  have hmem := hr.mem_of_opens (hr.committed a (hpast a hae) _ _ _ hact) rfl hopens (by rw [hhash]; exact hin)
  refine ⟨_, hmem, ?_, ?_, ?_, ⟨ha.deadline, ?_⟩, hopens.nullifier⟩
  · apply BitVec.eq_of_toNat_eq
    rw [hopens.holder]
    change (scalar s.holder).val = _
    rw [val_scalar hcan.lt, hp.holder, toNat_toWord _ (by norm_num)]
  · refine hopens.country.imp ?_ ?_
    · intro hc
      apply BitVec.eq_of_toNat_eq
      rw [hc]
      change (scalar s.countryA).val = _
      rw [val_scalar hcan.lt, hp.countryA, toNat_toWord _ (by norm_num)]
    · intro hc
      apply BitVec.eq_of_toNat_eq
      rw [hc]
      change (scalar s.countryB).val = _
      rw [val_scalar hcan.lt, hp.countryB, toNat_toWord _ (by norm_num)]
  · rw [BitVec.le_def]
    refine hopens.oldEnough.trans_eq ?_
    change (scalar s.maxBirthDay).val = _
    rw [val_scalar hcan.lt, hp.maxBirthDay, toNat_toWord _ (by norm_num)]
  · refine le_of_eq_of_le ?_ hopens.unexpired
    exact (val_scalar hcan.lt).symm

/-- Presentations of one secret in one context have one nullifier. -/
theorem nullifier_eq_of_context {s s' : PublicSignals} {secret : Fr} (hcan : s.Canonical)
    (hcan' : s'.Canonical) (hn : scalar s.nullifier = lib.nullifier s.scalars secret)
    (hn' : scalar s'.nullifier = lib.nullifier s'.scalars secret)
    (hctx : s.scalars.context = s'.scalars.context) : s.nullifier = s'.nullifier := by
  apply scalar_inj hcan.lt hcan'.lt
  rw [hn, hn', Circomlib.nullifier, Circomlib.nullifier, hctx]

end

/-! The fixture of test/ZkKycPolicyGate.t.sol. -/

def fixtureEnv : ZkGateEnv where
  keccak256 bs :=
    if bs = abiEncode [31337, 0x2e234DAe75C793f67A35089C9d99245E1C58470b,
        0xc0b472e378ce06212d6c3e5d4b02760e689abadc607ee67fa608ea77da70af39] then
      0x67f823b0e3df678d03052b4594f0b1db49ac320ca9b9a5ce43abe23b4ba16226
    else 0
  chainid := 31337
  self := 0x2e234DAe75C793f67A35089C9d99245E1C58470b

def fixtureGate : ZkKycPolicyGate where
  verifier := 0x5615dEB798BB3E4dFa0139dFa1b3D433Cc23b72f
  sourceRootAuthority := 1
  policyId := 20260910
  allowedCountryA := 410
  allowedCountryB := 392
  maxBirthDay := 13949
  actionDomain := 0xc0b472e378ce06212d6c3e5d4b02760e689abadc607ee67fa608ea77da70af39
  currentEpoch := 0
  roots _ := ⟨0, 0, false, false⟩
  nullifierUsed _ := false

def fixtureProof : Groth16Proof where
  a := (0x16631bc14518c5f9e0dfce574e663bcf748524407dae03ad9dcbc1a229631ce0,
    0x1cb1b0282f4846c04d36141202bc84fc8b62e12f4c55471e5d43d37b5e6bda46)
  b := ((0x2583044455024938bd12e754368bae490bd787245eb1e186837c8d3530df525b,
      0x0ec66ee1b8fb66b4c29e371f8ccd8d31dd97b2730f645f3df417871498b12ff8),
    (0x0d291b90a27e8695413ac167c930bd9247c8e8a7e272e5f7df96f191efd2fe62,
      0x1cf7382eaea8b7f941f466f5db8a7f4e6eef155b339a00e005e1d8cab1a00ff6))
  c := (0x1a559a9d00520d074378e134ac21e445f91f566d2ee818c37b59941598e83134,
    0x090fe199841f8cdd4748b30477842cfa1885be0da411700eb4d70083170445a1)

/-- The pairing accepts the fixture's proof of the fixture's signals. -/
def fixturePairing (proof : Groth16Proof) (x : KycPublic) : Bool :=
  decide ((proof.a, proof.b, proof.c) = (fixtureProof.a, fixtureProof.b, fixtureProof.c)) &&
    decide (x = fixtureSignals.scalars)

def fixtureSets (_ : U256) : List Credential :=
  [fixtureCredential, ⟨41, 42, 43, 44, 45, 46⟩, ⟨51, 52, 53, 54, 55, 56⟩, ⟨61, 62, 63, 64, 65, 66⟩]

def fixtureInputs : Set (List Fr) := {l | ∃ p ∈ fixtureHashes, l = p.1.map Nat.cast}

def fixtureAnchor : Msg × ZkGateCall :=
  (⟨1, 10, 1900000000, Sender.owner⟩, .anchorRoot fixtureSignals.root 7 2100000000)

def fixtureHolder : Msg := ⟨0xa11ce, 10, 1900000000, by decide⟩

/-- The proof, and the proof again. -/
def fixtureCalls : List (Msg × ZkGateCall) :=
  let call := ZkGateCall.verifyAndConsume (KycPolicyGroth16Verifier.verifyProof fixturePairing)
    fixtureProof fixtureSignals
  [fixtureAnchor, (fixtureHolder, call), (fixtureHolder, call)]

/-- What the fixture hashes, and that its hashes differ. -/
theorem hashing_fixture :
    (∀ p ∈ fixtureHashes, ∀ q ∈ fixtureHashes, fixtureLib.Poseidon (p.1.map Nat.cast) =
      fixtureLib.Poseidon (q.1.map Nat.cast) → p.1.map (Nat.cast : ℕ → Fr) = q.1.map Nat.cast) ∧
    Merkle.treePairs fixtureLib.node ((fixtureSets fixtureSignals.root).map fixtureLib.leaf) = [
      (5866208638174066336034731847238875370513740239096072505411708073243348271032,
        19545050505924082824213885009734294110919686920751166133075861669993365715659),
      (20515474615467721212431755289579851234155947538643627493575486358735636461767,
        14967970119032767189214252614300909310826565832591946898121156962536977533549),
      (13468067488607079849926918726197937811362398391937414628435230298484064409890,
        54962651673503462751720231871047179347150084679705549162976073806010165291)] ∧
    ((fixtureCredential.toPrivate 0 fixtureSiblings[0] fixtureSiblings[1]).signals fixtureLib
        fixtureSignals.scalars).hashed fixtureSignals.scalars
      (fixtureCredential.toPrivate 0 fixtureSiblings[0] fixtureSiblings[1]) =
      [fixtureHashes[0].1.map Nat.cast, fixtureHashes[4].1.map Nat.cast, fixtureHashes[6].1.map Nat.cast,
        fixtureHashes[7].1.map Nat.cast, fixtureHashes[8].1.map Nat.cast] := by
  refine ⟨?_, ?_, ?_⟩ <;> decide +kernel

theorem mem_fixtureInputs {i : ℕ} (h : i < fixtureHashes.length) :
    fixtureHashes[i].1.map Nat.cast ∈ fixtureInputs :=
  ⟨fixtureHashes[i], List.getElem_mem h, rfl⟩

theorem noCollision_fixture : Set.InjOn fixtureLib.Poseidon fixtureInputs := by
  rintro _ ⟨p, hp, rfl⟩ _ ⟨q, hq, rfl⟩
  exact hashing_fixture.1 p hp q hq

theorem commits_fixture :
    Commits fixtureLib fixtureInputs (fixtureSets fixtureSignals.root) fixtureSignals.root where
  four := rfl
  top := by decide +kernel
  openings := by
    simp only [fixtureSets, List.forall_mem_cons]
    exact ⟨mem_fixtureInputs (i := 0) (by decide), mem_fixtureInputs (i := 1) (by decide),
      mem_fixtureInputs (i := 2) (by decide), mem_fixtureInputs (i := 3) (by decide), by simp⟩
  nodes := by
    rw [hashing_fixture.2.1]
    simp only [List.forall_mem_cons]
    exact ⟨mem_fixtureInputs (i := 4) (by decide), mem_fixtureInputs (i := 5) (by decide),
      mem_fixtureInputs (i := 6) (by decide), by simp⟩

theorem hashed_fixture :
    ∀ l ∈ ((fixtureCredential.toPrivate 0 fixtureSiblings[0] fixtureSiblings[1]).signals fixtureLib
        fixtureSignals.scalars).hashed fixtureSignals.scalars
      (fixtureCredential.toPrivate 0 fixtureSiblings[0] fixtureSiblings[1]), l ∈ fixtureInputs := by
  rw [hashing_fixture.2.2]
  simp only [List.forall_mem_cons]
  exact ⟨mem_fixtureInputs _, mem_fixtureInputs _, mem_fixtureInputs _, mem_fixtureInputs _,
    mem_fixtureInputs _, by simp⟩

/-- The calls of the fixture make such a run. -/
theorem presentationRun_fixture {calls : List (Msg × ZkGateCall)} (h : ∀ a ∈ calls, a ∈ fixtureCalls) :
    PresentationRun fixtureLib fixturePairing fixtureInputs fixtureSets
      ((ZkKycPolicyGate.machine fixtureEnv).trace fixtureGate calls) := by
  have hact : ∀ e ∈ (ZkKycPolicyGate.machine fixtureEnv).trace fixtureGate calls,
      e.act.2 = .anchorRoot fixtureSignals.root 7 2100000000 ∨
        e.act.2 = .verifyAndConsume (KycPolicyGroth16Verifier.verifyProof fixturePairing) fixtureProof
          fixtureSignals := by
    intro e he
    have hmem := h _ (Machine.act_mem_of_trace he)
    simp only [fixtureCalls, List.mem_cons, List.not_mem_nil, or_false] at hmem
    rcases hmem with hmem | hmem | hmem
    · exact .inl (by rw [hmem]; rfl)
    · exact .inr (by rw [hmem])
    · exact .inr (by rw [hmem])
  refine ⟨documented_fixtureLib, noCollision_fixture, ?_, ?_, ?_⟩
  · intro e he verifyProof proof s hcall
    rcases hact e he with heq | heq
    · rw [heq] at hcall
      cases hcall
    · rw [heq] at hcall
      cases hcall
      rfl
  · intro e he verifyProof proof s hcall _
    rcases hact e he with heq | heq
    · rw [heq] at hcall
      cases hcall
    · rw [heq] at hcall
      cases hcall
      exact ⟨_, _, opens_fixture.2.solves documented_fixtureLib opens_fixture.1, hashed_fixture⟩
  · intro e he root epoch validUntil hcall
    rcases hact e he with heq | heq
    · rw [heq] at hcall
      cases hcall
      exact commits_fixture
    · rw [heq] at hcall
      cases hcall

/-- **Presentations are sound.** -/
theorem presentations_sound {env : ZkGateEnv} {g₀ g : ZkKycPolicyGate} {es : List ZkGateEntry}
    {codeLength : ℕ} {verifier authority : Address} {policyId : U64} {countryA countryB : U16}
    {maxBirthDay : U32} {actionDomain : Bytes32} {lib : Circomlib}
    {checkPairing : Groth16Proof → KycPublic → Bool} {inputs : Set (List Fr)}
    {sets : U256 → List Credential}
    (hc : ZkKycPolicyGate.construct codeLength verifier authority policyId countryA countryB
      maxBirthDay actionDomain = .ok g₀)
    (hrun : (ZkKycPolicyGate.machine env).Run g₀ es g)
    (hr : PresentationRun lib checkPairing inputs sets es) : PresentationsSound lib g₀ sets es := by
  constructor
  · intro e he s hs
    obtain ⟨es₁, es₂, rfl, hrun₁, hstep, -⟩ := hrun.of_mem he
    exact shows_of_consumed hr (fun x hx => List.mem_append_left _ hx) he (gateInv_run hc hrun₁) hstep hs
  · rintro es₁ e es₂ e' es₃ rfl s s' c c' hs hs' hshow hshow' hsecret hholder hepoch hdeadline
    obtain ⟨hrun', hstep', -⟩ := hrun.split
    obtain ⟨hrun₁, hstep, -⟩ := hrun'.split
    have hp := (gateInv_run hc hrun₁).presented (acceptable_of_consumed hstep hs).2
    have hp' := (gateInv_run hc hrun').presented (acceptable_of_consumed hstep' hs').2
    obtain ⟨hcan, -⟩ := hr.solution (by simp) hstep hs
    obtain ⟨hcan', -⟩ := hr.solution (by simp) hstep' hs'
    have happ : s.applicationId = s'.applicationId := by
      apply BitVec.eq_of_toNat_eq
      rw [hp.applicationId, hp'.applicationId]
    have hctx : s.scalars.context = s'.scalars.context := by
      simp only [KycPublic.context, PublicSignals.scalars, hp.holder, hp'.holder, ← hshow.holder,
        ← hshow'.holder, hholder, happ, hp.policyId, hp'.policyId, hepoch, hdeadline]
    have hn' := hshow'.nullifier
    rw [← hsecret] at hn'
    exact hp'.nullifier e (by simp) s hs
      (nullifier_eq_of_context hcan hcan' hshow.nullifier hn' hctx)

theorem presentations_sound_fixture :
    ((ZkKycPolicyGate.machine fixtureEnv).trace fixtureGate fixtureCalls).map ZkGateEntry.consumed? =
      [none, some fixtureSignals] ∧
    PresentationsSound fixtureLib fixtureGate fixtureSets
      ((ZkKycPolicyGate.machine fixtureEnv).trace fixtureGate fixtureCalls) := by
  have hc : ZkKycPolicyGate.construct 1 0x5615dEB798BB3E4dFa0139dFa1b3D433Cc23b72f 1 20260910 410 392 13949
      0xc0b472e378ce06212d6c3e5d4b02760e689abadc607ee67fa608ea77da70af39 = .ok fixtureGate := rfl
  refine ⟨by decide +kernel, ?_⟩
  exact presentations_sound hc ((ZkKycPolicyGate.machine fixtureEnv).run_trace fixtureGate fixtureCalls)
    (presentationRun_fixture fun _ h => h)

/-! ## Acceptance -/

section
variable {env : ZkGateEnv} {g : ZkKycPolicyGate} {es : List ZkGateEntry} {lib : Circomlib}
  {checkPairing : Groth16Proof → KycPublic → Bool} {inputs : Set (List Fr)}
  {sets : U256 → List Credential} {m : Msg} {root : U256} {c : Credential} {deadline : U64}

theorem toWord_lt_field {n : ℕ} (v : BitVec n) (hn : n ≤ 253) : (toWord v).toNat < SNARK_SCALAR_FIELD := by
  rw [toNat_toWord v (by omega)]
  exact toNat_lt_field hn v

theorem scalar_toWord {n : ℕ} (hn : n ≤ 256) (v : BitVec n) : scalar (toWord v) = scalar v := by
  rw [scalar, scalar, toNat_toWord v hn]

theorem val_scalar_toWord {n : ℕ} (hn : n ≤ 253) (v : BitVec n) : (scalar (toWord v)).val = v.toNat := by
  rw [scalar_toWord (by omega), val_scalar_small hn]

theorem val_lt_word (a : Fr) : a.val < 2 ^ 256 :=
  calc a.val < SNARK_SCALAR_FIELD := ZMod.val_lt a
    _ < 2 ^ 256 := by rw [SNARK_SCALAR_FIELD]; norm_num

theorem expectedApplicationId_lt : g.expectedApplicationId env < SNARK_SCALAR_FIELD :=
  Nat.mod_lt _ prime_SNARK_SCALAR_FIELD.pos

theorem toNat_applicationId :
    (BitVec.ofNat 256 (g.expectedApplicationId env)).toNat = g.expectedApplicationId env := by
  have hlt : g.expectedApplicationId env < 2 ^ 256 :=
    calc g.expectedApplicationId env < SNARK_SCALAR_FIELD := expectedApplicationId_lt
      _ < 2 ^ 256 := by rw [SNARK_SCALAR_FIELD]; norm_num
  rw [BitVec.toNat_ofNat, Nat.mod_eq_of_lt hlt]

/-- The scalars of a presentation. -/
theorem scalar_nullifier_present : scalar (g.present env lib root c deadline).nullifier =
    lib.nullifier (g.present env lib root c deadline).scalars c.secret :=
  scalar_word (val_lt_word _)

theorem canonical_present (hroot : root.toNat < SNARK_SCALAR_FIELD) :
    (g.present env lib root c deadline).Canonical := by
  intro v hv
  simp only [PublicSignals.toList, ZkKycPolicyGate.present, ZkKycPolicyGate.request, List.mem_cons,
    List.not_mem_nil, or_false] at hv
  rcases hv with rfl | rfl | rfl | rfl | rfl | rfl | rfl | rfl | rfl | rfl
  · rw [toNat_word (val_lt_word _)]
    exact ZMod.val_lt _
  · exact hroot
  · exact toWord_lt_field g.policyId (by norm_num)
  · exact toWord_lt_field g.allowedCountryA (by norm_num)
  · exact toWord_lt_field g.allowedCountryB (by norm_num)
  · exact toWord_lt_field g.maxBirthDay (by norm_num)
  · exact toWord_lt_field c.holder (by norm_num)
  · rw [toNat_applicationId]
    exact expectedApplicationId_lt
  · exact toWord_lt_field g.currentEpoch (by norm_num)
  · exact toWord_lt_field deadline (by norm_num)

theorem ranged_present : (g.present env lib root c deadline).scalars.Ranged where
  holder := (val_scalar_toWord (by norm_num) c.holder).trans_lt c.holder.isLt
  policyId := (val_scalar_toWord (by norm_num) g.policyId).trans_lt g.policyId.isLt
  allowedCountryA := (val_scalar_toWord (by norm_num) g.allowedCountryA).trans_lt g.allowedCountryA.isLt
  allowedCountryB := (val_scalar_toWord (by norm_num) g.allowedCountryB).trans_lt g.allowedCountryB.isLt
  maxBirthDay := (val_scalar_toWord (by norm_num) g.maxBirthDay).trans_lt g.maxBirthDay.isLt
  epoch := (val_scalar_toWord (by norm_num) g.currentEpoch).trans_lt g.currentEpoch.isLt
  deadline := (val_scalar_toWord (by norm_num) deadline).trans_lt deadline.isLt

/-- The credential opens its own presentation. -/
theorem Entitled.opens (env : ZkGateEnv) (h : Entitled g sets m root c deadline)
    (hcs : Commits lib inputs (sets root) root) :
    ∃ idx ss, Opens lib (g.present env lib root c deadline).scalars c idx ss := by
  obtain ⟨idx, hidx⟩ := List.getElem?_of_mem h.mem
  have hlen : ((sets root).map lib.leaf).length = 4 := by rw [List.length_map, hcs.four]
  have hleaf : ((sets root).map lib.leaf)[idx]? = some (lib.leaf c) := by
    rw [List.getElem?_map, hidx]
    rfl
  have hclimb := Merkle.climb?_siblings lib.node _ hleaf
  rw [hlen, hcs.top] at hclimb
  refine ⟨idx, _, hclimb, ?_, ?_, ?_, ?_, scalar_nullifier_present⟩
  · exact (val_scalar_toWord (by norm_num) c.holder).symm
  · refine h.country.imp ?_ ?_
    · intro he
      rw [he]
      exact (val_scalar_toWord (by norm_num) g.allowedCountryA).symm
    · intro he
      rw [he]
      exact (val_scalar_toWord (by norm_num) g.allowedCountryB).symm
  · exact (BitVec.le_def.1 h.oldEnough).trans_eq (val_scalar_toWord (by norm_num) g.maxBirthDay).symm
  · exact (val_scalar_toWord (by norm_num) deadline).trans_le (BitVec.le_def.1 h.unexpired)

/-- The nullifier of a presentation belongs to its holder, epoch and deadline. -/
theorem PresentationRun.context_of_nullifier (hr : PresentationRun lib checkPairing inputs sets es)
    (hown : (g.present env lib root c deadline).scalars.context ∈ inputs)
    (hown' : [c.secret, lib.Poseidon (g.present env lib root c deadline).scalars.context] ∈ inputs)
    {e : ZkGateEntry} (he : e ∈ es) (hs : (ZkKycPolicyGate.machine env).IsStep e) {s : PublicSignals}
    (h : e.consumed? = some s) (hn : s.nullifier = (g.present env lib root c deadline).nullifier) :
    e.act.1.sender = c.holder ∧ s.epoch = toWord g.currentEpoch ∧ s.deadline = toWord deadline := by
  obtain ⟨hcan, w, sig, hsol, hin⟩ := hr.solution he hs h
  have hcontext : sig.contextHash = lib.Poseidon s.scalars.context := hsol.contextHash
  have hnull : lib.Poseidon [w.secret, sig.contextHash] =
      lib.Poseidon [c.secret, lib.Poseidon (g.present env lib root c deadline).scalars.context] := by
    rw [← hsol.nullifierHash]
    exact (congrArg scalar hn).trans scalar_nullifier_present
  have hpair := hr.noCollision (hin _ (by simp [KycSignals.hashed])) hown' hnull
  simp only [List.cons.injEq, and_true, hcontext] at hpair
  have hctx := hr.noCollision (hin s.scalars.context (by simp [KycSignals.hashed])) hown hpair.2
  simp only [KycPublic.context, List.cons.injEq, and_true] at hctx
  obtain ⟨hholder, -, -, hepoch, hdeadline⟩ := hctx
  have hsender := (acceptable_of_consumed hs h).2.holder
  refine ⟨?_, ?_, ?_⟩
  · have heq := scalar_inj hcan.lt (toWord_lt_field c.holder (by norm_num)) hholder
    exact (toWord_inj (by norm_num)).1 (hsender.symm.trans heq)
  · exact scalar_inj hcan.lt (toWord_lt_field g.currentEpoch (by norm_num)) hepoch
  · exact scalar_inj hcan.lt (toWord_lt_field deadline (by norm_num)) hdeadline

end

/-- **An entitled holder is served**, unless it was already, for this epoch and deadline. -/
theorem presentation_accepted {env : ZkGateEnv} {g₀ g : ZkKycPolicyGate} {es : List ZkGateEntry}
    {codeLength : ℕ} {verifier authority : Address} {policyId : U64} {countryA countryB : U16}
    {maxBirthDay : U32} {actionDomain : Bytes32} {lib : Circomlib}
    {checkPairing : Groth16Proof → KycPublic → Bool} {inputs : Set (List Fr)}
    {sets : U256 → List Credential} {m : Msg} {root : U256} {c : Credential} {deadline : U64}
    (hc : ZkKycPolicyGate.construct codeLength verifier authority policyId countryA countryB
      maxBirthDay actionDomain = .ok g₀)
    (hrun : (ZkKycPolicyGate.machine env).Run g₀ es g)
    (hr : PresentationRun lib checkPairing inputs sets es)
    (hent : Entitled g sets m root c deadline)
    (hown : (g.present env lib root c deadline).scalars.context ∈ inputs)
    (hown' : [c.secret, lib.Poseidon (g.present env lib root c deadline).scalars.context] ∈ inputs)
    (hprove : (∃ w sig, KycPolicy lib (g.present env lib root c deadline).scalars w sig) →
      ∃ proof, checkPairing proof (g.present env lib root c deadline).scalars = true)
    (hfirst : ∀ e ∈ es, ∀ s, e.consumed? = some s → e.act.1.sender = c.holder →
      s.epoch = toWord g.currentEpoch → s.deadline ≠ toWord deadline) :
    ∃ proof g', g.verifyAndConsume env m (KycPolicyGroth16Verifier.verifyProof checkPairing) proof
      (g.present env lib root c deadline) = .ok g' := by
  obtain ⟨a, hae, hact, -⟩ := (gateInv_run hc hrun).source root hent.anchored
  obtain ⟨_, _, -, -, hstep, -⟩ := hrun.of_mem hae
  have hcan : (g.present env lib root c deadline).Canonical :=
    canonical_present (root_lt_of_anchored hstep hact)
  obtain ⟨idx, ss, hopens⟩ := hent.opens env (hr.committed a hae _ _ _ hact)
  obtain ⟨proof, hproof⟩ := hprove (hopens.solution hr.documented ranged_present)
  have hunused : g.nullifierUsed (g.present env lib root c deadline).nullifier = false := by
    by_contra hused
    have hfresh : ∀ n, g₀.nullifierUsed n = false := by
      simp only [ZkKycPolicyGate.construct, bind_ok, revertIf_ok, pure_ok] at hc
      obtain ⟨_, -, _, -, rfl⟩ := hc
      intro n
      rfl
    obtain ⟨e, he, s, hs, hn⟩ := consumed_of_used hfresh hrun _ (Bool.not_eq_false _ ▸ hused)
    obtain ⟨_, _, -, -, hstep, -⟩ := hrun.of_mem he
    obtain ⟨hsender, hepoch, hdeadline⟩ := hr.context_of_nullifier hown hown' he hstep hs hn
    exact hfirst e he s hs hsender hepoch hdeadline
  have hlife := BitVec.le_def.1 hent.lifetime
  have hdeadline : (toWord deadline).toNat = deadline.toNat := toNat_toWord deadline (by norm_num)
  refine ⟨proof, verifyAndConsume_of_accepts ⟨hent.anchored, hent.unrevoked, ?_, rfl, hent.current, rfl,
    rfl, rfl, rfl, ?_, toNat_applicationId, ?_, ?_, hunused⟩ (verifyProof_true.2 ⟨hcan, hproof⟩)⟩
  · exact hent.timely.trans hlife
  · exact congrArg toWord hent.holder
  · exact hent.timely.trans_eq hdeadline.symm
  · exact hdeadline.trans_le hlife

theorem presentation_accepted_fixture :
    ∃ proof g', ((ZkKycPolicyGate.machine fixtureEnv).final fixtureGate [fixtureAnchor]).verifyAndConsume
      fixtureEnv fixtureHolder (KycPolicyGroth16Verifier.verifyProof fixturePairing) proof
      fixtureSignals = .ok g' := by
  have hc : ZkKycPolicyGate.construct 1 0x5615dEB798BB3E4dFa0139dFa1b3D433Cc23b72f 1 20260910 410 392 13949
      0xc0b472e378ce06212d6c3e5d4b02760e689abadc607ee67fa608ea77da70af39 = .ok fixtureGate := rfl
  have hsignals : fixtureSignals = ((ZkKycPolicyGate.machine fixtureEnv).final fixtureGate
      [fixtureAnchor]).present fixtureEnv fixtureLib fixtureSignals.root fixtureCredential 2000000000 := by
    decide +kernel
  have hent : Entitled ((ZkKycPolicyGate.machine fixtureEnv).final fixtureGate [fixtureAnchor]) fixtureSets
      fixtureHolder fixtureSignals.root fixtureCredential 2000000000 := by
    constructor <;> decide +kernel
  have hconsumed : ∀ e ∈ (ZkKycPolicyGate.machine fixtureEnv).trace fixtureGate [fixtureAnchor],
      ZkGateEntry.consumed? e = none := by decide +kernel
  rw [hsignals]
  refine presentation_accepted hc
    ((ZkKycPolicyGate.machine fixtureEnv).run_trace fixtureGate [fixtureAnchor])
    (presentationRun_fixture ?_) hent ?_ ?_ ?_ ?_
  · intro a ha
    rw [List.mem_singleton.1 ha]
    exact List.mem_cons_self
  · rw [← hsignals]
    exact mem_fixtureInputs (i := 7) (by decide)
  · rw [← hsignals]
    have hinput : [fixtureCredential.secret, fixtureLib.Poseidon fixtureSignals.scalars.context] =
        fixtureHashes[8].1.map Nat.cast := by decide +kernel
    rw [hinput]
    exact mem_fixtureInputs _
  · intro _
    exact ⟨fixtureProof, by rw [← hsignals]; decide +kernel⟩
  · intro e he s hs
    rw [hconsumed e he] at hs
    cases hs

end Proofmark
