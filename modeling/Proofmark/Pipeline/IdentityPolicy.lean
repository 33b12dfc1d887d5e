/-
  The identity policy of a customer (src/pipeline/identity-policy.ts) over the bitmap of
  performed checks (src/pipeline/methods.ts).
-/
import Proofmark.Aml.Normalize
import Proofmark.Lib.Json
import Proofmark.Lib.Revert

namespace Proofmark

open Revert

namespace Methods

def WALLET_CONTROL : ℕ := 1 <<< 0
def ID_DOC_IMAGE : ℕ := 1 <<< 1
def ID_DOC_AUTHENTICITY : ℕ := 1 <<< 2
def FACE_MATCH : ℕ := 1 <<< 3
def LIVENESS : ℕ := 1 <<< 4
def BANK_ACCOUNT : ℕ := 1 <<< 5
def SANCTIONS_SCREENED : ℕ := 1 <<< 16
def JURISDICTION_CHECK : ℕ := 1 <<< 19

end Methods

/-- `/^[A-Za-z0-9][A-Za-z0-9<extra>]{2,max}$/` -/
def opaqueRef (extra : List Char) (max : ℕ) (s : String) : Bool :=
  match s.toList with
  | [] => false
  | c :: l =>
    c.isAlphanum && decide (2 ≤ l.length) && decide (l.length ≤ max) &&
      l.all fun c => c.isAlphanum || extra.contains c

namespace IdentityPolicy

def IDENTIFIER : String → Bool := opaqueRef ['.', '_', ':', '/', '-'] 127
def REFERENCE : String → Bool := opaqueRef ['.', '_', ':', '/', '#', '-'] 255

/-- `IdentityRequirement` -/
inductive Requirement where
  | WALLET_CONTROL
  | DOCUMENT_AUTHENTICITY
  | ACCOUNT_CONTROL
  | FACE_MATCH
  | LIVENESS
  | AUTHORIZED_REPRESENTATIVE
  | BENEFICIAL_OWNER_IDENTITY
deriving DecidableEq

namespace Requirement

/-- `REQUIREMENTS` -/
def all : List Requirement :=
  [WALLET_CONTROL, DOCUMENT_AUTHENTICITY, ACCOUNT_CONTROL, FACE_MATCH, LIVENESS,
    AUTHORIZED_REPRESENTATIVE, BENEFICIAL_OWNER_IDENTITY]

/-- `BIOMETRICS` -/
def BIOMETRICS : List Requirement := [FACE_MATCH, LIVENESS]

def code : Requirement → String
  | WALLET_CONTROL => "wallet_control"
  | DOCUMENT_AUTHENTICITY => "document_authenticity"
  | ACCOUNT_CONTROL => "account_control"
  | FACE_MATCH => "face_match"
  | LIVENESS => "liveness"
  | AUTHORIZED_REPRESENTATIVE => "authorized_representative"
  | BENEFICIAL_OWNER_IDENTITY => "beneficial_owner_identity"

/-- `METHOD_BY_REQUIREMENT`, the name of a method with its bit. -/
def method : Requirement → Option (String × ℕ)
  | WALLET_CONTROL => some ("WALLET_CONTROL", Methods.WALLET_CONTROL)
  | DOCUMENT_AUTHENTICITY => some ("ID_DOC_AUTHENTICITY", Methods.ID_DOC_AUTHENTICITY)
  | ACCOUNT_CONTROL => some ("BANK_ACCOUNT", Methods.BANK_ACCOUNT)
  | FACE_MATCH => some ("FACE_MATCH", Methods.FACE_MATCH)
  | LIVENESS => some ("LIVENESS", Methods.LIVENESS)
  | AUTHORIZED_REPRESENTATIVE => none
  | BENEFICIAL_OWNER_IDENTITY => none

/-- `UNAUTHORIZED_<REQUIREMENT>` -/
def unauthorized : Requirement → String
  | FACE_MATCH => "UNAUTHORIZED_FACE_MATCH"
  | LIVENESS => "UNAUTHORIZED_LIVENESS"
  | r => r.code

end Requirement

/-- `BiometricPolicyV1` -/
inductive BiometricPolicy where
  | prohibited
  | authorized (checks : List Requirement) (necessityRef legalBasisRef approvalRef : String)
deriving DecidableEq

namespace BiometricPolicy

def mode : BiometricPolicy → String
  | prohibited => "prohibited"
  | authorized .. => "authorized"

def isAuthorized : BiometricPolicy → Bool
  | prohibited => false
  | authorized .. => true

/-- The checks that are authorised. -/
def checks : BiometricPolicy → List Requirement
  | prohibited => []
  | authorized checks .. => checks

end BiometricPolicy

/-- `IdentityAssuranceBandV1` -/
structure Band where
  level : ℕ
  required : List Requirement
  basis : Str
deriving DecidableEq

inductive Status where
  | synthetic
  | approved
deriving DecidableEq

def Status.text : Status → String
  | .synthetic => "synthetic"
  | .approved => "approved"

inductive SubjectKind where
  | individual
  | organization
deriving DecidableEq

def SubjectKind.text : SubjectKind → String
  | .individual => "individual"
  | .organization => "organization"

/-- The bit of the attributes: 1 for an individual, 2 for an entity. -/
def SubjectKind.kind : SubjectKind → ℕ
  | .individual => 1
  | .organization => 2

/-- `IdentityPolicyV1` -/
structure Policy where
  policyId : String
  customerRiskId : String
  status : Status
  approvalRef : Option String
  subjectKind : SubjectKind
  required : List Requirement
  assuranceBands : List Band
  biometrics : BiometricPolicy
deriving DecidableEq

/-! ## `defineIdentityPolicy` -/

/-- `s.length`, in UTF-16 code units. -/
def utf16Length (s : Str) : ℕ := s.length + s.countP fun c => 0xffff < c.toNat

def uniqueRequirements (l : List Requirement) (field : String) :
    Except String (List Requirement) := do
  revertIf (¬ l.Nodup) (field ++ " contains duplicate identity requirements")
  pure l

def trim (s : Str) : Str := ((s.dropWhile Aml.isSpace).reverse.dropWhile Aml.isSpace).reverse

/-- The bands in the given order, after the levels in `seen`. -/
def checkBands (seen : List ℕ) : List Band → Except String (List Band)
  | [] => pure []
  | b :: l => do
    revertIf (b.level < 1 ∨ 5 < b.level ∨ b.level ∈ seen)
      "identity assurance levels must be unique integers from 1 to 5"
    let required ← uniqueRequirements b.required
      ("identity assuranceBands[" ++ toString seen.length ++ "].required")
    revertIf (.WALLET_CONTROL ∉ required) "each identity assurance band must require wallet_control"
    revertIf (trim b.basis = [] ∨ 240 < utf16Length b.basis)
      "each identity assurance band needs a bounded basis"
    let l ← checkBands (seen ++ [b.level]) l
    pure (⟨b.level, required, trim b.basis⟩ :: l)

/-- Every band requires what the one before it does. -/
def preserves : List Band → Bool
  | b :: b' :: l => b.required.all (b'.required.contains ·) && preserves (b' :: l)
  | _ => true

def checkBiometrics : BiometricPolicy → Except String BiometricPolicy
  | .prohibited => pure .prohibited
  | .authorized checks necessityRef legalBasisRef approvalRef => do
    let checks ← uniqueRequirements checks "identity biometrics.checks"
    revertIf (checks = [] ∨ ∃ r ∈ checks, r ∉ Requirement.BIOMETRICS)
      "authorized biometrics must name face_match and/or liveness"
    revertIf (REFERENCE necessityRef = false)
      "identity biometric necessityRef must be a prior decision reference"
    revertIf (REFERENCE legalBasisRef = false)
      "identity biometric legalBasisRef must be a prior decision reference"
    revertIf (REFERENCE approvalRef = false)
      "identity biometric approvalRef must be a prior decision reference"
    pure (.authorized checks necessityRef legalBasisRef approvalRef)

/-- Validates and snapshots a policy. -/
def defineIdentityPolicy (p : Policy) : Except String Policy := do
  revertIf (IDENTIFIER p.policyId = false) "identity policyId must be a stable opaque identifier"
  revertIf (IDENTIFIER p.customerRiskId = false)
    "identity customerRiskId must be a stable opaque identifier"
  revertIf (p.status = .approved ∧ p.approvalRef.any REFERENCE = false)
    "approved identity policy requires an opaque approvalRef"
  revertIf (p.status = .synthetic ∧ p.approvalRef ≠ none)
    "synthetic identity policy cannot claim approval"
  let required ← uniqueRequirements p.required "identity required"
  revertIf (p.assuranceBands = []) "identity assuranceBands are required"
  let bands ← checkBands [] p.assuranceBands
  let bands := bands.insertionSort fun a b => a.level ≤ b.level
  revertIf (preserves bands = false)
    "higher identity assurance bands must preserve every lower-band requirement"
  let biometrics ← checkBiometrics p.biometrics
  pure { p with required, assuranceBands := bands, biometrics }

/-! ## `evaluateIdentityPolicy` -/

def performed (r : Requirement) (methods : ℕ) : Bool :=
  r.method.any fun m => methods &&& m.2 == m.2

inductive RequirementOutcome where
  | pass
  | missing
  | notRequired
  | unsupported
deriving DecidableEq

def RequirementOutcome.text : RequirementOutcome → String
  | .pass => "pass"
  | .missing => "missing"
  | .notRequired => "not-required"
  | .unsupported => "unsupported"

/-- `IdentityRequirementResultV1` -/
structure RequirementResult where
  requirement : Requirement
  required : Bool
  performed : Bool
  outcome : RequirementOutcome
deriving DecidableEq

/-- `IdentityPolicyEvaluationV1`, with the policy that was evaluated. -/
structure Evaluation where
  policy : Policy
  assurance : ℕ
  assuranceBasis : Option Str
  passed : Bool
  missing : List Requirement
  violations : List String
  requirements : List RequirementResult
deriving DecidableEq

section
variable (p : Policy) (methods kind : ℕ)

def resultOf (r : Requirement) : RequirementResult where
  requirement := r
  required := p.required.contains r
  performed := performed r methods
  outcome :=
    if p.required.contains r = false then .notRequired
    else if r.method = none then .unsupported
    else if performed r methods then .pass
    else .missing

def missingOf : List Requirement :=
  ((Requirement.all.map (resultOf p methods)).filter fun x => x.required && x.outcome != .pass).map
    RequirementResult.requirement

/-- `biometricReferenced.size` is not 0. -/
def biometricReferenced : Bool :=
  (p.required ++ p.assuranceBands.flatMap Band.required).any (Requirement.BIOMETRICS.contains ·)

def violationsOf : List String :=
  (if p.subjectKind.kind = kind then [] else ["SUBJECT_KIND_MISMATCH"]) ++
    (if biometricReferenced p && !p.biometrics.isAuthorized then ["BIOMETRIC_AUTHORIZATION_MISSING"]
      else []) ++
    (Requirement.BIOMETRICS.filter fun r =>
      performed r methods && !p.biometrics.checks.contains r).map Requirement.unauthorized

/-- `earned` -/
def earnedBand : Option Band :=
  (p.assuranceBands.filter fun b => b.required.all (performed · methods)).getLast?

/-- The evaluation of a policy that was defined. -/
def evaluate : Evaluation where
  policy := p
  assurance := ((earnedBand p methods).map Band.level).getD 0
  assuranceBasis := (earnedBand p methods).map Band.basis
  passed := decide (missingOf p methods = []) && decide (violationsOf p methods kind = []) &&
    (earnedBand p methods).isSome
  missing := missingOf p methods
  violations := violationsOf p methods kind
  requirements := Requirement.all.map (resultOf p methods)

end

def evaluateIdentityPolicy (p : Policy) (methods kind : ℕ) : Except String Evaluation := do
  let p ← defineIdentityPolicy p
  pure (evaluate p methods kind)

def RequirementResult.toJson (x : RequirementResult) : Json :=
  .obj [("requirement", .str x.requirement.code),
    ("method", .ofOption (x.requirement.method.map Prod.fst)), ("required", .bool x.required),
    ("performed", .bool x.performed), ("outcome", .str x.outcome.text)]

/-- The payload of the step `identity_policy`. -/
def Evaluation.toJson (e : Evaluation) : Json :=
  .obj [("schema", .str "proofmark-identity-evaluation-v1"), ("policyId", .str e.policy.policyId),
    ("customerRiskId", .str e.policy.customerRiskId),
    ("policyStatus", .str e.policy.status.text), ("approvalRef", .ofOption e.policy.approvalRef),
    ("subjectKind", .str e.policy.subjectKind.text), ("assurance", .num e.assurance),
    ("assuranceScale", .str "policy-local"),
    ("assuranceBasis", .ofOption (e.assuranceBasis.map String.ofList)), ("passed", .bool e.passed),
    ("missing", .strings (e.missing.map Requirement.code)), ("violations", .strings e.violations),
    ("requirements", .arr (e.requirements.map RequirementResult.toJson)),
    ("biometrics", .obj [("mode", .str e.policy.biometrics.mode),
      ("authorizedChecks", .strings (e.policy.biometrics.checks.map Requirement.code))])]

/-! ## What an evaluation that passes means -/

section
variable {p : Policy} {methods kind : ℕ}

/-- A performed biometric check was authorised. -/
theorem authorized_of_passed (h : (evaluate p methods kind).passed = true) {r : Requirement}
    (hr : r ∈ Requirement.BIOMETRICS) (hp : performed r methods = true) :
    r ∈ p.biometrics.checks := by
  have hv : violationsOf p methods kind = [] := by
    simp only [evaluate, Bool.and_eq_true, decide_eq_true_eq] at h
    exact h.1.2
  have hf := (List.append_eq_nil_iff.1 hv).2
  rw [List.map_eq_nil_iff, List.filter_eq_nil_iff] at hf
  by_contra hn
  exact hf r hr (by simp [hp, hn])

/-- The policy is for the kind that is issued. -/
theorem kind_of_passed (h : (evaluate p methods kind).passed = true) :
    p.subjectKind.kind = kind := by
  have hv : violationsOf p methods kind = [] := by
    simp only [evaluate, Bool.and_eq_true, decide_eq_true_eq] at h
    exact h.1.2
  have hf := (List.append_eq_nil_iff.1 (List.append_eq_nil_iff.1 hv).1).1
  by_contra hn
  rw [if_neg hn] at hf
  cases hf

/-- Every requirement of the policy was performed. -/
theorem performed_of_passed (h : (evaluate p methods kind).passed = true) {r : Requirement}
    (hr : r ∈ p.required) : performed r methods = true := by
  have hm : missingOf p methods = [] := by
    simp only [evaluate, Bool.and_eq_true, decide_eq_true_eq] at h
    exact h.1.1
  rw [missingOf, List.map_eq_nil_iff, List.filter_eq_nil_iff] at hm
  have hall : r ∈ Requirement.all := by cases r <;> decide
  have hres := hm _ (List.mem_map_of_mem hall)
  by_contra hn
  have hout : (resultOf p methods r).outcome ≠ .pass := by
    rw [Bool.not_eq_true] at hn
    simp only [resultOf, hn, Bool.false_eq_true, if_false]
    split_ifs <;> decide
  have hreq : (resultOf p methods r).required = true := List.contains_iff_mem.2 hr
  exact hres (by simp [hreq, hout])

end

end IdentityPolicy

end Proofmark
