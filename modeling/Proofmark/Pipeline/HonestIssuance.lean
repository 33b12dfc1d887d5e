/-
  An issued attestation is honest.

  `honest_issuance`: every gate passed, the attributes unpack to what was computed from the
  results, every bit of the method mask is justified by its own result (`Justified`), and the
  commitments are those of the claims and of the evidence that are handed out.
-/
import Mathlib.Data.Nat.Bitwise
import Proofmark.Aml.Retrieval
import Proofmark.Pipeline.Issue

namespace Proofmark

open Revert

/-! ## Packing -/

theorem le_of_checkLimits {l : List (String × ℕ × ℕ)} (h : checkLimits l = .ok ()) :
    ∀ f ∈ l, f.2.1 ≤ f.2.2 := by
  induction l with
  | nil =>
    intro f hf
    cases hf
  | cons f l ih =>
    obtain ⟨field, value, max⟩ := f
    simp only [checkLimits, bind_ok, revertIf_ok] at h
    obtain ⟨_, -, _, hmax, hl⟩ := h
    intro g hg
    rcases List.mem_cons.1 hg with rfl | hg
    · exact Nat.le_of_not_lt hmax
    · exact ih hl g hg

/-- **Unpacking** gives back the fields that were packed. -/
theorem unpackAttrs_of_packAttrs {a : MarkAttrsInput} {attrs : Bytes32}
    (h : packAttrs a = .ok attrs) : unpackAttrs attrs = a := by
  have hlim : ∀ f ∈ a.limits, f.2.1 ≤ f.2.2 := by
    simp only [packAttrs, bind_ok] at h
    obtain ⟨_, hc, -⟩ := h
    exact le_of_checkLimits hc
  obtain ⟨k, s, r, j, m, i, e, p⟩ := a
  simp only [MarkAttrsInput.limits, List.forall_mem_cons, List.not_mem_nil, false_imp_iff,
    implies_true, and_true] at hlim
  obtain ⟨hk, hs, hr, hj, hm, hi, he, hp⟩ := hlim
  have hof {n v : ℕ} (hv : v < 2 ^ n) : (BitVec.ofNat n v).toNat = v := by
    rw [BitVec.toNat_ofNat, Nat.mod_eq_of_lt hv]
  have hpack := packAttrs_ok (BitVec.ofNat 8 k) (BitVec.ofNat 8 s) (BitVec.ofNat 16 r)
    (BitVec.ofNat 16 j) (BitVec.ofNat 32 m) (BitVec.ofNat 40 i) (BitVec.ofNat 40 e)
    (BitVec.ofNat 32 p)
  rw [hof (by omega), hof (by omega), hof (by omega), hof (by omega), hof (by omega),
    hof (by omega), hof (by omega), hof (by omega), h] at hpack
  obtain ⟨h1, h2, h3, h4, h5, h6, h7, h8, -⟩ := MarkAttrs.unpack_pack (BitVec.ofNat 8 k)
    (BitVec.ofNat 8 s) (BitVec.ofNat 16 r) (BitVec.ofNat 16 j) (BitVec.ofNat 32 m)
    (BitVec.ofNat 40 i) (BitVec.ofNat 40 e) (BitVec.ofNat 32 p)
  rw [Except.ok.inj hpack, unpackAttrs_eq, h1, h2, h3, h4, h5, h6, h7, h8]
  simp only [MarkAttrsInput.mk.injEq]
  exact ⟨hof (by omega), hof (by omega), hof (by omega), hof (by omega), hof (by omega),
    hof (by omega), hof (by omega), hof (by omega)⟩

namespace Issue

open Kr IdentityPolicy

/-! ## The bits of the method mask -/

theorem testBit_bit {c : Bool} {k i : ℕ} :
    (Adapter.bit c (1 <<< k)).testBit i = true ↔ c = true ∧ i = k := by
  cases c <;> simp [Adapter.bit, Nat.one_shiftLeft, Nat.testBit_two_pow, eq_comm]

theorem performed_of_testBit {r : Requirement} {name : String} {k methods : ℕ}
    (hr : r.method = some (name, 1 <<< k)) (h : methods.testBit k = true) :
    performed r methods = true := by
  rw [performed, hr, Option.any_some, beq_iff_eq, Nat.one_shiftLeft, Nat.and_two_pow, h,
    Bool.toNat_true, Nat.one_mul]

/-- The biometric part of a policy is kept. -/
theorem biometrics_of_define {p p' : IdentityPolicy.Policy} (h : defineIdentityPolicy p = .ok p') :
    p'.biometrics = p.biometrics := by
  simp only [defineIdentityPolicy, bind_ok, pure_ok] at h
  obtain ⟨_, -, _, -, _, -, _, -, _, -, _, -, _, -, _, -, b, hb, rfl⟩ := h
  show b = p.biometrics
  cases hp : p.biometrics with
  | prohibited =>
    rw [hp] at hb
    exact (pure_ok.1 hb).symm
  | authorized checks r₁ r₂ r₃ =>
    rw [hp] at hb
    simp only [checkBiometrics, uniqueRequirements, bind_ok, pure_ok] at hb
    obtain ⟨_, ⟨_, -, rfl⟩, _, -, _, -, _, -, _, -, rfl⟩ := hb
    rfl

variable {keccak256 : Bytes → Bytes32} {u : Unicode} {nfkc : Str → Str}
  {req : IssueRequest} {adapter : Adapter} {aml : AmlEngine} {salt : ℕ → Bytes32} {now : ℕ}
  {out : Issued}

/-- What stands behind a bit. -/
inductive Justified (u : Unicode) (req : IssueRequest) (adapter : Adapter) (aml : AmlEngine) :
    ℕ → Prop
  | walletControl (h : req.walletControlProven = true) : Justified u req adapter aml 0
  | idDocImage {d : IdDocumentResult} (hd : req.idDocument = some d) : Justified u req adapter aml 1
  | idDocAuthenticity {d : IdDocumentResult} (hd : req.idDocument = some d)
    (hchecked : d.authenticityChecked = true) (hauthentic : d.authentic = true)
    (hlive : d.live = true ∨ adapter.sandboxBits = true) : Justified u req adapter aml 2
  | faceMatch {d : IdDocumentResult} (hd : req.idDocument = some d) (hface : d.faceMatched = true)
    (hlive : d.live = true ∨ adapter.sandboxBits = true)
    (hadapter : adapter.biometricAllowed .FACE_MATCH = true)
    (hpolicy : .FACE_MATCH ∈ req.identityPolicy.biometrics.checks) : Justified u req adapter aml 3
  | liveness {d : IdDocumentResult} (hd : req.idDocument = some d)
    (hliveness : d.livenessPassed = true) (hlive : d.live = true ∨ adapter.sandboxBits = true)
    (hadapter : adapter.biometricAllowed .LIVENESS = true)
    (hpolicy : .LIVENESS ∈ req.identityPolicy.biometrics.checks) : Justified u req adapter aml 4
  | bankAccount {b : BankAccountResult} (hb : req.bankAccount = some b)
    (hholder : b.holderVerified = true) (honeWon : b.oneWonVerified = true)
    (hlive : b.live = true ∨ adapter.sandboxBits = true) : Justified u req adapter aml 5
  | sanctionsScreened (h : aml.nameScreened u req.subject = true) : Justified u req adapter aml 16
  | jurisdictionCheck (h : aml.jurisdictionChecked u req.subject = true) :
    Justified u req adapter aml 19

/-- The adapter's part of the mask. -/
theorem adapter_bits {i : ℕ}
    (hpolicy : ∀ r ∈ Requirement.BIOMETRICS, ∀ name, r.method = some (name, 1 <<< i) →
      r ∈ req.identityPolicy.biometrics.checks)
    (h : (adapter.run req.walletControlProven req.idDocument req.bankAccount).methods.testBit i =
      true) : Justified u req adapter aml i := by
  simp only [Adapter.run, Nat.testBit_or, Bool.or_eq_true] at h
  rcases h with (h | h) | h
  · obtain ⟨hw, rfl⟩ := testBit_bit.1 h
    exact .walletControl hw
  · cases hd : req.idDocument with
    | none => simp [hd] at h
    | some d =>
      simp only [hd, Option.map_some, Option.getD_some, Adapter.idMethods, Nat.testBit_or,
        Bool.or_eq_true] at h
      rcases h with ((h | h) | h) | h
      · obtain ⟨-, rfl⟩ := testBit_bit.1 (show (Adapter.bit true (1 <<< 1)).testBit i = true from h)
        exact .idDocImage hd
      · obtain ⟨hc, rfl⟩ := testBit_bit.1 h
        simp only [Adapter.counts, Bool.and_eq_true, Bool.or_eq_true] at hc
        exact .idDocAuthenticity hd hc.1.2 hc.2 hc.1.1
      · obtain ⟨hc, rfl⟩ := testBit_bit.1 h
        simp only [Adapter.counts, Bool.and_eq_true, Bool.or_eq_true] at hc
        exact .faceMatch hd hc.1.2 hc.1.1 hc.2
          (hpolicy .FACE_MATCH (by decide) "FACE_MATCH" rfl)
      · obtain ⟨hc, rfl⟩ := testBit_bit.1 h
        simp only [Adapter.counts, Bool.and_eq_true, Bool.or_eq_true] at hc
        exact .liveness hd hc.1.2 hc.1.1 hc.2 (hpolicy .LIVENESS (by decide) "LIVENESS" rfl)
  · cases hb : req.bankAccount with
    | none => simp [hb] at h
    | some b =>
      simp only [hb, Option.map_some, Option.getD_some] at h
      obtain ⟨hc, rfl⟩ := testBit_bit.1 h
      simp only [Adapter.counts, Bool.and_eq_true, Bool.or_eq_true] at hc
      exact .bankAccount hb hc.1.2 hc.2 hc.1.1

/-- The engine's part of the mask. -/
theorem screening_bits {s : Screening} (hs : aml.screen u req.subject = .ok s) {i : ℕ}
    (h : s.methodsApplied.testBit i = true) : Justified u req adapter aml i := by
  cases aml with
  | listBacked corpus versions keyId rest =>
    simp only [AmlEngine.screen, bind_ok, pure_ok] at hs
    obtain ⟨r, -, rfl⟩ := hs
    rw [Nat.testBit_or, Bool.or_eq_true] at h
    rcases h with h | h
    · obtain ⟨hc, rfl⟩ := testBit_bit.1 h
      exact .sanctionsScreened hc
    · obtain ⟨hc, rfl⟩ := testBit_bit.1 h
      exact .jurisdictionCheck hc
  | mock keyId rest =>
    simp only [AmlEngine.screen, pure_ok] at hs
    subst hs
    obtain ⟨-, rfl⟩ := testBit_bit.1 (show (Adapter.bit true (1 <<< 19)).testBit i = true from h)
    exact .jurisdictionCheck rfl

/-! ## Inversion -/

/-- The parts of a run that issues. -/
structure IssuedBy (keccak256 : Bytes → Bytes32) (u : Unicode) (nfkc : Str → Str)
    (req : IssueRequest) (adapted : AdapterResult) (aml : AmlEngine) (salt : ℕ → Bytes32)
    (now : ℕ) (out : Issued) (s : Screening) (ev : Evaluation) : Prop where
  proven : req.walletControlProven = true
  rejected : adapted.rejected = none
  reconciled : (reconciliation keccak256 u nfkc req adapted).passed = true
  screened : aml.screen u req.subject = .ok s
  allowed : s.decision = .ALLOW
  methods : out.methods = adapted.methods ||| s.methodsApplied
  evaluated : evaluateIdentityPolicy req.identityPolicy out.methods req.kindOf = .ok ev
  passed : ev.passed = true
  assurance : ∀ a ∈ req.assurance, a = ev.assurance
  expiry : out.expiry = now / 1000 + EXPIRY_DAYS_BY_BAND s.riskBand * 86400
  regime : out.regime = adapted.regime
  packed : packAttrs ⟨req.kindOf, ev.assurance, adapted.regime, req.jurisdiction, out.methods,
    now / 1000, out.expiry, 0⟩ = .ok out.attrs
  valid : validCredentialAttrs out.attrs (some (now / 1000)) = true
  claims : out.claims = claimsOf salt (req.claimValues adapted)
  claimsRoot : out.claimsRoot = Claims.claimsRoot keccak256 out.claims
  evidenceHash : out.evidenceHash = EvidenceChain.recompute keccak256 out.evidence
  evidence : out.evidence =
    ((openingChain keccak256 u req now).steps ++ req.policySteps now) ++
      [⟨"jurisdiction_adapter", now, adapted.evidence⟩,
        ⟨"reconcile", now, (reconciliation keccak256 u nfkc req adapted).toJson⟩,
        ⟨"aml", now, s.toJson⟩, ⟨"identity_policy", now, ev.toJson⟩,
        ⟨"commitment", now, .obj [("claimsRoot", .str (hex32 out.claimsRoot)),
          ("claimCount", .num out.claims.length)]⟩,
        ⟨"issue", now, .obj [("attrs", .str (hex32 out.attrs)),
          ("claimsRoot", .str (hex32 out.claimsRoot))]⟩]

theorem steps_foldl (c : EvidenceChain keccak256) (l : List EvidenceStep) :
    (l.foldl EvidenceChain.append c).steps = c.steps ++ l := by
  induction l generalizing c with
  | nil => simp
  | cons s l ih => rw [List.foldl_cons, ih, EvidenceChain.steps_append, List.append_assoc]; rfl

theorem issued_by (h : runIssuance keccak256 u nfkc req adapter aml salt now = .ok (.ISSUED out)) :
    ∃ s ev, IssuedBy keccak256 u nfkc req
      (adapter.run req.walletControlProven req.idDocument req.bankAccount) aml salt now out s
      ev := by
  unfold runIssuance at h
  dsimp only at h
  by_cases hproven : req.walletControlProven = false
  · rw [if_pos hproven] at h
    simp at h
  rw [if_neg hproven] at h
  cases hrejected : (adapter.run req.walletControlProven req.idDocument
      req.bankAccount).rejected with
  | some reason =>
    rw [hrejected] at h
    simp at h
  | none =>
  rw [hrejected] at h
  dsimp only at h
  by_cases hrec : (reconciliation keccak256 u nfkc req (adapter.run req.walletControlProven
      req.idDocument req.bankAccount)).passed = false
  · rw [if_pos hrec] at h
    simp at h
  rw [if_neg hrec, decideScreening] at h
  simp only [bind_ok, mapError_ok] at h
  obtain ⟨s, hs, h⟩ := h
  cases hallow : s.decision <;> rw [hallow] at h <;> dsimp only at h
  case REVIEW => simp at h
  case BLOCK => simp at h
  simp only [decideIdentity, bind_ok, mapError_ok] at h
  obtain ⟨ev, hev, h⟩ := h
  by_cases hpassed : ev.passed = false
  · rw [if_pos hpassed] at h
    simp at h
  rw [if_neg hpassed] at h
  by_cases hassurance : req.assurance.any (· != ev.assurance) = true
  · rw [if_pos hassurance] at h
    simp at h
  rw [if_neg hassurance] at h
  simp only [issue, bind_ok, mapError_ok, revertIf_ok, pure_ok, IssueOutcome.ISSUED.injEq] at h
  obtain ⟨attrs, hpack, _, hvalid, rfl⟩ := h
  refine ⟨s, ev, by simpa using hproven, hrejected, by simpa using hrec, hs, hallow, rfl, hev,
    by simpa using hpassed, ?_, rfl, rfl, hpack, by simpa using hvalid, rfl, rfl,
    EvidenceChain.recomputed _, ?_⟩
  · intro a ha
    have hsome : req.assurance = some a := ha
    simpa [hsome] using hassurance
  · simp only [EvidenceChain.steps_append, steps_foldl, List.append_assoc, List.cons_append,
      List.nil_append]

/-! ## Honest issuance -/

/-- **An honest attestation.** -/
structure HonestlyIssued (keccak256 : Bytes → Bytes32) (u : Unicode) (nfkc : Str → Str)
    (req : IssueRequest) (adapter : Adapter) (aml : AmlEngine) (now : ℕ) (out : Issued) :
    Prop where
  /-- the wallet, the adapter, the reconciliation -/
  wallet : req.walletControlProven = true
  notRejected :
    (adapter.run req.walletControlProven req.idDocument req.bankAccount).rejected = none
  reconciled : (reconciliation keccak256 u nfkc req
    (adapter.run req.walletControlProven req.idDocument req.bankAccount)).passed = true
  /-- the screening, the identity policy, and the attributes computed from them -/
  computed : ∃ s ev, aml.screen u req.subject = .ok s ∧ s.decision = .ALLOW ∧
    evaluateIdentityPolicy req.identityPolicy out.methods req.kindOf = .ok ev ∧ ev.passed = true ∧
    (∀ a ∈ req.assurance, a = ev.assurance) ∧
    out.methods = (adapter.run req.walletControlProven req.idDocument req.bankAccount).methods |||
      s.methodsApplied ∧
    out.regime = (adapter.run req.walletControlProven req.idDocument req.bankAccount).regime ∧
    out.expiry = now / 1000 + EXPIRY_DAYS_BY_BAND s.riskBand * 86400 ∧
    unpackAttrs out.attrs = ⟨req.kindOf, ev.assurance, out.regime, req.jurisdiction, out.methods,
      now / 1000, out.expiry, 0⟩
  valid : validCredentialAttrs out.attrs (some (now / 1000)) = true
  bits : ∀ i, out.methods.testBit i = true → Justified u req adapter aml i
  production : out.regime = KR_FSC_NONFACE → adapter.sandboxBits = false ∧
    (∃ d, req.idDocument = some d ∧ d.live = true ∧ d.authenticityChecked = true ∧
      d.authentic = true) ∧
    ∃ b, req.bankAccount = some b ∧ b.live = true ∧ b.holderVerified = true ∧
      b.oneWonVerified = true
  /-- the commitments -/
  claimsRoot : out.claimsRoot = Claims.claimsRoot keccak256 out.claims
  claims : out.claims.map (fun c => (c.key, c.value)) =
    req.claimValues (adapter.run req.walletControlProven req.idDocument req.bankAccount)
  evidenceHash : out.evidenceHash = EvidenceChain.recompute keccak256 out.evidence
  committed : ⟨"issue", now, .obj [("attrs", .str (hex32 out.attrs)),
    ("claimsRoot", .str (hex32 out.claimsRoot))]⟩ ∈ out.evidence

theorem map_claimsOf (values : List (String × String)) :
    (claimsOf salt values).map (fun c => (c.key, c.value)) = values := by
  rw [claimsOf, List.map_map]
  exact List.zipIdx_map_fst 0 values

theorem realResults_eq_true {id : Option IdDocumentResult} {bank : Option BankAccountResult}
    (h : Adapter.realResults id bank = true) :
    (∃ d, id = some d ∧ d.live = true ∧ d.authenticityChecked = true ∧ d.authentic = true) ∧
      ∃ b, bank = some b ∧ b.live = true ∧ b.holderVerified = true ∧ b.oneWonVerified = true := by
  simp only [Adapter.realResults, Bool.and_eq_true, Option.any_eq_true] at h
  obtain ⟨⟨d, hd, ⟨h1, h2⟩, h3⟩, b, hb, ⟨h4, h5⟩, h6⟩ := h
  exact ⟨⟨d, hd, h1, h2, h3⟩, b, hb, h4, h5, h6⟩

/-- **Every issuance is honest.** -/
theorem honest_issuance
    (h : runIssuance keccak256 u nfkc req adapter aml salt now = .ok (.ISSUED out)) :
    HonestlyIssued keccak256 u nfkc req adapter aml now out := by
  obtain ⟨s, ev, hi⟩ := issued_by h
  have hpacked := hi.packed
  rw [← hi.regime] at hpacked
  -- a biometric bit was authorised by the policy that was evaluated
  have hpolicy {i : ℕ} (hbit : out.methods.testBit i = true) : ∀ r ∈ Requirement.BIOMETRICS,
      ∀ name, r.method = some (name, 1 <<< i) → r ∈ req.identityPolicy.biometrics.checks := by
    intro r hr name hname
    have hev := hi.evaluated
    simp only [evaluateIdentityPolicy, bind_ok, pure_ok] at hev
    obtain ⟨p, hp, rfl⟩ := hev
    rw [← biometrics_of_define hp]
    exact authorized_of_passed hi.passed hr (performed_of_testBit hname hbit)
  refine ⟨hi.proven, hi.rejected, hi.reconciled, ⟨s, ev, hi.screened, hi.allowed, hi.evaluated,
    hi.passed, hi.assurance, hi.methods, hi.regime, hi.expiry,
    unpackAttrs_of_packAttrs hpacked⟩, hi.valid, fun i hbit => ?_, fun hone => ?_, hi.claimsRoot,
    ?_, hi.evidenceHash, ?_⟩
  · have hor := hbit
    rw [hi.methods, Nat.testBit_or, Bool.or_eq_true] at hor
    rcases hor with hor | hor
    · exact adapter_bits (hpolicy hbit) hor
    · exact screening_bits hi.screened hor
  · rw [hi.regime] at hone
    obtain ⟨-, hsandbox, hreal⟩ := (adapter.regimeOf_eq_one req.idDocument req.bankAccount).1 hone
    exact ⟨hsandbox, realResults_eq_true hreal⟩
  · rw [hi.claims, map_claimsOf]
  · rw [hi.evidence]
    simp

/-! ## A live issuance -/

def issued? : Except IssueError IssueOutcome → Option Issued
  | .ok (.ISSUED out) => some out
  | _ => none

theorem eq_of_issued? {r : Except IssueError IssueOutcome} (h : issued? r = some out) :
    r = .ok (.ISSUED out) := by
  unfold issued? at h
  split at h
  · rw [Option.some.inj h]
  · cases h

/-- `SYNTHETIC_INDIVIDUAL_NONFACE_POLICY` -/
def SYNTHETIC_INDIVIDUAL_NONFACE_POLICY : IdentityPolicy.Policy where
  policyId := "proofmark-synthetic-individual-nonface-v1"
  customerRiskId := "synthetic-demo-only"
  status := .synthetic
  approvalRef := none
  subjectKind := .individual
  required := [.WALLET_CONTROL, .DOCUMENT_AUTHENTICITY, .ACCOUNT_CONTROL]
  assuranceBands :=
    [⟨1, [.WALLET_CONTROL], "wallet challenge only".toList⟩,
      ⟨2, [.WALLET_CONTROL, .DOCUMENT_AUTHENTICITY],
        "wallet challenge and document authenticity".toList⟩,
      ⟨3, [.WALLET_CONTROL, .DOCUMENT_AUTHENTICITY, .ACCOUNT_CONTROL],
        "wallet challenge, document authenticity, and account control".toList⟩]
  biometrics := .prohibited

/-- A request with a document and an account that were both confirmed. -/
def confirmedRequest (live : Bool) : IssueRequest where
  wallet := "0x00000000000000000000000000000000000000aa".toList
  fullName := "Kim Minsu".toList
  dateOfBirth := "1990-01-02".toList
  nationality := "KR".toList
  residence := "KR".toList
  idDocument := some ⟨.DL, "KIM MINSU".toList, "1990-01-02".toList, "0x11", true, true, false,
    false, "codef", live, some "ref-1", some "CF-00000"⟩
  bankAccount := some ⟨"004", "Kim Min Su".toList, true, true, "openbanking", live, some "ref-2"⟩
  walletControlProven := true
  jurisdiction := 410
  kind := none
  assurance := some 3
  identityPolicy := SYNTHETIC_INDIVIDUAL_NONFACE_POLICY
  processingPolicy := none
  consentStatementHash := none
  retentionPolicy := none

/-- A toy hash. -/
def sumHash (bs : Bytes) : Bytes32 := BitVec.ofNat 256 (bs.map BitVec.toNat).sum

def issuedLive : Option Issued :=
  issued? (runIssuance sumHash Aml.asciiTables id (confirmedRequest true)
    ⟨some true, some true, false, none⟩ (.mock none fun _ => []) (fun i => BitVec.ofNat 256 i)
    1700000000000)

theorem honest_issuance_live : ∃ out, issuedLive = some out ∧ out.regime = KR_FSC_NONFACE ∧
    HonestlyIssued sumHash Aml.asciiTables id (confirmedRequest true)
      ⟨some true, some true, false, none⟩ (.mock none fun _ => []) 1700000000000 out := by
  have hregime : issuedLive.map Issued.regime = some 1 := by decide +kernel
  cases hout : issuedLive with
  | none =>
    rw [hout] at hregime
    cases hregime
  | some out =>
    rw [hout] at hregime
    exact ⟨out, rfl, Option.some.inj hregime, honest_issuance (eq_of_issued? hout)⟩

end Issue

end Proofmark
