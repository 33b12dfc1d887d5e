/-
  The orchestration of an issuance (`runIssuance` of src/pipeline/issue.ts) with the engines
  that screen for it (src/aml/engine.ts, `MockAmlEngine` of src/pipeline/aml.ts).

  The keyed digests, the list of checks and the snapshot in the evidence of an engine are a
  parameter of the engine; the salts of the claims are a parameter of the run.
-/
import Proofmark.Aml.Engine
import Proofmark.Pipeline.Attrs
import Proofmark.Pipeline.KrAdapter

namespace Proofmark

namespace Issue

open Revert Kr IdentityPolicy

/-! ## Screening -/

/-- What the orchestration reads of a `ScreeningResult`. -/
structure Screening where
  decision : Aml.Decision
  reviewReason : Option Aml.ReviewReason
  /-- 1 to 5 -/
  riskBand : ℕ
  hitCount : ℕ
  methodsApplied : ℕ
  listVersions : List (String × ℕ)
  engineVersion : String
  evidence : Json

def decisionText : Aml.Decision → String
  | .ALLOW => "ALLOW"
  | .REVIEW => "REVIEW"
  | .BLOCK => "BLOCK"

def reviewReasonText : Aml.ReviewReason → String
  | .NAME_SIMILARITY => "NAME_SIMILARITY"
  | .IDENTITY_CONFLICT => "IDENTITY_CONFLICT"
  | .DOB_MISSING => "DOB_MISSING"
  | .HIGH_RISK_JURISDICTION => "HIGH_RISK_JURISDICTION"
  | .SCREENING_UNAVAILABLE => "SCREENING_UNAVAILABLE"
  | .SCREENING_INPUT_INVALID => "SCREENING_INPUT_INVALID"

def versionsJson (l : List (String × ℕ)) : Json := .obj (l.map fun v => (v.1, .num v.2))

/-- The payload of the step `aml`. -/
def Screening.toJson (s : Screening) : Json :=
  .ofFields [("decision", some (.str (decisionText s.decision))),
    ("riskBand", some (.num s.riskBand)), ("hitCount", some (.num s.hitCount)),
    ("listVersions", some (versionsJson s.listVersions)),
    ("engineVersion", some (.str s.engineVersion)),
    ("reviewReason", s.reviewReason.map fun r => .str (reviewReasonText r)),
    ("methodsApplied", some (.num s.methodsApplied)), ("evidence", some s.evidence)]

/-- `ENGINE_VERSION` -/
def ENGINE_VERSION : String := "aml-1.4.0"

inductive AmlEngine where
  /-- `ListBackedAmlEngine` -/
  | listBacked (corpus : Aml.Corpus) (versions : List (String × ℕ)) (keyId : Option String)
    (rest : Aml.ScreeningSubject → List (String × Json))
  /-- `MockAmlEngine` -/
  | mock (keyId : Option String) (rest : Aml.ScreeningSubject → List (String × Json))

/-- The evidence of a screening. -/
def screeningEvidence (engineVersion : String) (versions : List (String × ℕ)) (keyId : String)
    (rest : List (String × Json)) : Json :=
  .obj (("engineVersion", .str engineVersion) :: ("listVersions", versionsJson versions) ::
    ("keyId", .str keyId) :: rest)

namespace AmlEngine

variable (u : Unicode)

/-- The name was screened against the lists. -/
def nameScreened (subject : Aml.ScreeningSubject) : AmlEngine → Bool
  | listBacked corpus .. => Aml.nameApplied u corpus subject
  | mock .. => false

/-- The declared jurisdictions were checked. -/
def jurisdictionChecked (subject : Aml.ScreeningSubject) : AmlEngine → Bool
  | listBacked .. => Aml.jurisdictionApplied u subject
  | mock .. => true

/-- `highRisk` of the mock engine -/
def mockHighRisk (subject : Aml.ScreeningSubject) : Bool :=
  ["KP", "IR", "SY", "CU"].any fun c =>
    subject.residence == c.toList || subject.nationality == c.toList

def screen (subject : Aml.ScreeningSubject) (e : AmlEngine) : Except Aml.MatchError Screening :=
  match e with
  | listBacked corpus versions keyId rest => do
    let r ← Aml.screen u corpus subject
    pure
      { decision := r.decision
        reviewReason := r.reviewReason
        riskBand := r.riskBand
        hitCount := r.hits.length
        methodsApplied :=
          (if Aml.nameApplied u corpus subject then Methods.SANCTIONS_SCREENED else 0) |||
            if Aml.jurisdictionApplied u subject then Methods.JURISDICTION_CHECK else 0
        listVersions := versions
        engineVersion := ENGINE_VERSION
        evidence :=
          screeningEvidence ENGINE_VERSION versions (keyId.getD "default") (rest subject) }
  | mock keyId rest =>
    pure
      { decision := if mockHighRisk subject then .BLOCK else .ALLOW
        reviewReason := none
        riskBand := if mockHighRisk subject then 5 else 2
        hitCount := 0
        methodsApplied := Methods.JURISDICTION_CHECK
        listVersions := []
        engineVersion := "mock-0.1.0"
        evidence := screeningEvidence "mock-0.1.0" [] (keyId.getD "mock-k1") (rest subject) }

end AmlEngine

/-- `EXPIRY_DAYS_BY_BAND`, for the bands 1 to 5. -/
def EXPIRY_DAYS_BY_BAND : ℕ → ℕ
  | 1 => 365
  | 2 => 180
  | 3 => 90
  | 4 => 60
  | _ => 30

/-! ## The request -/

/-- `ProcessingPolicyEvidenceV1` -/
structure ProcessingPolicyEvidence where
  policyId : String
  customerId : String
  operatingModel : String
  noticeVersion : String
  approvalRef : Option String
  legalReviewRef : Option String
  fingerprint : String
  consentStatementHash : String
deriving DecidableEq

/-- `RetentionPolicyBindingV1` -/
structure RetentionPolicyBinding where
  policyId : String
  customerId : String
  jurisdiction : String
  fingerprint : String
deriving DecidableEq

def ProcessingPolicyEvidence.toJson (p : ProcessingPolicyEvidence) : Json :=
  .obj [("schema", .str "proofmark-processing-policy-evidence-v1"), ("policyId", .str p.policyId),
    ("customerId", .str p.customerId), ("operatingModel", .str p.operatingModel),
    ("noticeVersion", .str p.noticeVersion), ("approvalRef", .ofOption p.approvalRef),
    ("legalReviewRef", .ofOption p.legalReviewRef), ("fingerprint", .str p.fingerprint),
    ("consentStatementHash", .str p.consentStatementHash)]

def RetentionPolicyBinding.toJson (p : RetentionPolicyBinding) : Json :=
  .obj [("schema", .str "proofmark-retention-policy-binding-v1"), ("policyId", .str p.policyId),
    ("customerId", .str p.customerId), ("jurisdiction", .str p.jurisdiction),
    ("fingerprint", .str p.fingerprint)]

structure IssueRequest where
  wallet : Str
  fullName : Str
  dateOfBirth : Str
  nationality : Str
  residence : Str
  idDocument : Option IdDocumentResult
  bankAccount : Option BankAccountResult
  walletControlProven : Bool
  jurisdiction : ℕ
  kind : Option ℕ
  assurance : Option ℕ
  identityPolicy : IdentityPolicy.Policy
  processingPolicy : Option ProcessingPolicyEvidence
  consentStatementHash : Option String
  retentionPolicy : Option RetentionPolicyBinding

/-- The outcome `ISSUED`. -/
structure Issued where
  attrs : Bytes32
  claimsRoot : Bytes32
  evidenceHash : Bytes32
  methods : ℕ
  expiry : ℕ
  regime : ℕ
  claims : List Claim
  evidence : List EvidenceStep

inductive IssueOutcome where
  | ISSUED (out : Issued)
  | DENIED (reason : String) (evidenceHash : Bytes32) (evidence : List EvidenceStep)
  | REVIEW (reason : String) (evidenceHash : Bytes32) (evidence : List EvidenceStep)
  | REJECTED (reason : String) (evidenceHash : Bytes32) (evidence : List EvidenceStep)

/-- What `runIssuance` throws. -/
inductive IssueError where
  | screening (e : Aml.MatchError)
  | policy (message : String)
  | attrs (e : AttrsError)
  | unsupportedCredentialSchema

/-! ## `runIssuance` -/

namespace IssueRequest

variable (req : IssueRequest)

/-- `req.kind ?? 1` -/
def kindOf : ℕ := req.kind.getD 1

def subject : Aml.ScreeningSubject where
  fullName := req.fullName
  romanizedName := none
  dateOfBirth := req.dateOfBirth
  nationality := req.nationality
  residence := req.residence
  walletAddress := req.wallet

def processingStep : Option Json :=
  req.processingPolicy.map fun p => ProcessingPolicyEvidence.toJson
    { p with consentStatementHash := req.consentStatementHash.getD p.consentStatementHash }

/-- The steps `processing_policy` and `retention_policy`, where they apply. -/
def policySteps (at_ : ℕ) : List EvidenceStep :=
  (req.processingStep.map fun j => ⟨"processing_policy", at_, j⟩).toList ++
    (req.retentionPolicy.map fun p => ⟨"retention_policy", at_, p.toJson⟩).toList

/-- The keys and values of the claims. -/
def claimValues (adapted : AdapterResult) : List (String × String) :=
  [("fullName", String.ofList req.fullName), ("dateOfBirth", String.ofList req.dateOfBirth),
      ("nationality", String.ofList req.nationality), ("residence", String.ofList req.residence)] ++
    (adapted.idDocument.map fun d => ("idDocHash", d.docHash)).toList ++
    (adapted.bankAccount.map fun b => ("accountHolder", String.ofList b.holderName)).toList

end IssueRequest

variable (keccak256 : Bytes → Bytes32) (u : Unicode) (nfkc : Str → Str)

/-- `reconcile(recInput)` -/
def reconciliation (req : IssueRequest) (adapted : AdapterResult) : Reconcile.Result :=
  Reconcile.reconcile keccak256 u nfkc ⟨req.fullName, req.dateOfBirth⟩
    (adapted.idDocument.map fun d => ⟨d.fullName, d.dateOfBirth⟩)
    (adapted.bankAccount.map BankAccountResult.holderName)

/-- `reconciliation failed: ${JSON.stringify(rec.axes)}` -/
def reconciliationFailed (a : Reconcile.Axes) : String :=
  "reconciliation failed: \x7b\x22declaredVsIdDoc\x22:\x22" ++ a.declaredVsIdDoc.text ++
    "\x22,\x22declaredVsBank\x22:\x22" ++ a.declaredVsBank.text ++
    "\x22,\x22idDocVsBank\x22:\x22" ++ a.idDocVsBank.text ++ "\x22\x7d"

/-- The claims, each with its own salt. -/
def claimsOf (salt : ℕ → Bytes32) (values : List (String × String)) : List Claim :=
  values.zipIdx.map fun v => ⟨v.1.1, v.1.2, salt v.2⟩

/-- Steps 5 and 6: the commitment and the attributes. -/
def issue (req : IssueRequest) (adapted : AdapterResult) (screening : Screening) (assurance : ℕ)
    (salt : ℕ → Bytes32) (now : ℕ) (chain : EvidenceChain keccak256) :
    Except IssueError IssueOutcome := do
  let methods := adapted.methods ||| screening.methodsApplied
  let claims := claimsOf salt (req.claimValues adapted)
  let root := Claims.claimsRoot keccak256 claims
  let chain := chain.append ⟨"commitment", now,
    .obj [("claimsRoot", .str (hex32 root)), ("claimCount", .num claims.length)]⟩
  let issuedAt := now / 1000
  let expiry := issuedAt + EXPIRY_DAYS_BY_BAND screening.riskBand * 86400
  let attrs ← (packAttrs ⟨req.kindOf, assurance, adapted.regime, req.jurisdiction, methods,
    issuedAt, expiry, 0⟩).mapError .attrs
  revertIf (validCredentialAttrs attrs (some issuedAt) = false) .unsupportedCredentialSchema
  let chain := chain.append ⟨"issue", now,
    .obj [("attrs", .str (hex32 attrs)), ("claimsRoot", .str (hex32 root))]⟩
  pure (.ISSUED ⟨attrs, root, chain.hash, methods, expiry, adapted.regime, claims, chain.steps⟩)

/-- The identity policy, and what follows an `ALLOW`. -/
def decideIdentity (req : IssueRequest) (adapted : AdapterResult) (screening : Screening)
    (salt : ℕ → Bytes32) (now : ℕ) (chain : EvidenceChain keccak256) :
    Except IssueError IssueOutcome := do
  let methods := adapted.methods ||| screening.methodsApplied
  let identity ← (evaluateIdentityPolicy req.identityPolicy methods req.kindOf).mapError .policy
  let chain := chain.append ⟨"identity_policy", now, identity.toJson⟩
  if identity.passed = false then
    pure (.REJECTED ("identity policy requirements not met: " ++
      ",".intercalate (identity.missing.map Requirement.code ++ identity.violations))
      chain.hash chain.steps)
  else if req.assurance.any (· != identity.assurance) then
    pure (.REJECTED
      ("assurance does not match policy-local performed-check basis: expected " ++
        toString identity.assurance) chain.hash chain.steps)
  else issue keccak256 req adapted screening identity.assurance salt now chain

/-- The screening, and what follows it. -/
def decideScreening (req : IssueRequest) (adapted : AdapterResult) (aml : AmlEngine)
    (salt : ℕ → Bytes32) (now : ℕ) (chain : EvidenceChain keccak256) :
    Except IssueError IssueOutcome := do
  let screening ← (aml.screen u req.subject).mapError .screening
  let chain := chain.append ⟨"aml", now, screening.toJson⟩
  match screening.decision with
  | .BLOCK =>
    pure (.DENIED ("sanctions or high-risk decision (band " ++ toString screening.riskBand ++ ")")
      chain.hash chain.steps)
  | .REVIEW =>
    pure (.REVIEW ((screening.reviewReason.map reviewReasonText).getD "MANUAL_FLAG") chain.hash
      chain.steps)
  | .ALLOW => decideIdentity keccak256 req adapted screening salt now chain

/-- The chain of a request up to its policies. -/
def openingChain (req : IssueRequest) (now : ℕ) : EvidenceChain keccak256 :=
  (EvidenceChain.empty keccak256).append ⟨"wallet_control", now,
    .obj [("wallet", .str (String.ofList (u.toLowerCase req.wallet))),
      ("proven", .bool req.walletControlProven)]⟩

def runIssuance (req : IssueRequest) (adapter : Adapter) (aml : AmlEngine) (salt : ℕ → Bytes32)
    (now : ℕ) : Except IssueError IssueOutcome :=
  let chain := openingChain keccak256 u req now
  if req.walletControlProven = false then
    pure (.REJECTED "wallet control not proven" chain.hash chain.steps)
  else
    let chain := (req.policySteps now).foldl EvidenceChain.append chain
    let adapted := adapter.run req.walletControlProven req.idDocument req.bankAccount
    let chain := chain.append ⟨"jurisdiction_adapter", now, adapted.evidence⟩
    match adapted.rejected with
    | some reason => pure (.REJECTED reason chain.hash chain.steps)
    | none =>
      let rec_ := reconciliation keccak256 u nfkc req adapted
      let chain := chain.append ⟨"reconcile", now, rec_.toJson⟩
      if rec_.passed = false then
        pure (.REJECTED (reconciliationFailed rec_.axes) chain.hash chain.steps)
      else decideScreening keccak256 u req adapted aml salt now chain

end Issue

end Proofmark
