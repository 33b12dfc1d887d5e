/-
  The Korean adapter and the reconciliation of names (src/pipeline/adapters/kr.ts,
  src/pipeline/reconcile.ts).

  The results of the vendors are data.  `nfkc` and the tables of `u` are the normalisation and
  the upper case of the language.
-/
import Proofmark.Pipeline.Evidence
import Proofmark.Pipeline.IdentityPolicy

namespace Proofmark

/-! ## Reconciliation -/

namespace Reconcile

/-- `'match' | 'mismatch' | 'unavailable'` -/
inductive Axis where
  | match_
  | mismatch
  | unavailable
deriving DecidableEq

def Axis.text : Axis → String
  | .match_ => "match"
  | .mismatch => "mismatch"
  | .unavailable => "unavailable"

structure Axes where
  declaredVsIdDoc : Axis
  declaredVsBank : Axis
  idDocVsBank : Axis
deriving DecidableEq

def Axes.list (a : Axes) : List Axis := [a.declaredVsIdDoc, a.declaredVsBank, a.idDocVsBank]

structure Digests where
  declaredName : Bytes32
  idDocName : Option Bytes32
  bankHolderName : Option Bytes32
  dobMatch : Bool
deriving DecidableEq

structure Result where
  passed : Bool
  axes : Axes
  digests : Digests
deriving DecidableEq

def Axes.toJson (a : Axes) : Json :=
  .obj [("declaredVsIdDoc", .str a.declaredVsIdDoc.text),
    ("declaredVsBank", .str a.declaredVsBank.text), ("idDocVsBank", .str a.idDocVsBank.text)]

def Digests.toJson (d : Digests) : Json :=
  .ofFields [("declaredName", some (.str (hex32 d.declaredName))),
    ("idDocName", d.idDocName.map fun w => .str (hex32 w)),
    ("bankHolderName", d.bankHolderName.map fun w => .str (hex32 w)),
    ("dobMatch", some (.bool d.dobMatch))]

/-- The payload of the step `reconcile`. -/
def Result.toJson (r : Result) : Json :=
  .obj [("axes", r.axes.toJson), ("digests", r.digests.toJson), ("passed", .bool r.passed)]

/-- `/[\s.,''-]/` and the backtick -/
def stripped (c : Char) : Bool :=
  Aml.isSpace c || [0x2e, 0x2c, 0x27, 0x60, 0x2d].contains c.toNat

/-- `cmp` -/
def cmp : Option Str → Option Str → Axis
  | some a, some b => if a = b then .match_ else .mismatch
  | _, _ => .unavailable

structure DeclaredIdentity where
  fullName : Str
  dateOfBirth : Str
deriving DecidableEq

section
variable (keccak256 : Bytes → Bytes32) (u : Unicode) (nfkc : Str → Str)

def normalizeName (s : Str) : Str := u.toUpperCase ((nfkc s).filter fun c => !stripped c)

def digest (s : Str) : Bytes32 := keccak256 (utf8 (String.ofList s))

/-- An empty name has no digest. -/
def digest? (s : Option Str) : Option Bytes32 :=
  (s.filter fun s => decide (s ≠ [])).map (digest keccak256)

def reconcile (declared : DeclaredIdentity) (idDocument : Option DeclaredIdentity)
    (holderName : Option Str) : Result :=
  let dn := normalizeName u nfkc declared.fullName
  let idn := idDocument.map fun d => normalizeName u nfkc d.fullName
  let bn := holderName.map (normalizeName u nfkc)
  let axes : Axes := ⟨cmp (some dn) idn, cmp (some dn) bn, cmp idn bn⟩
  let dobMatch := idDocument.any fun d => declared.dateOfBirth == d.dateOfBirth
  { passed := axes.list.all (· != .mismatch) && (idDocument.isNone || dobMatch)
    axes
    digests := ⟨digest keccak256 dn, digest? keccak256 idn, digest? keccak256 bn, dobMatch⟩ }

variable {keccak256 u nfkc}

/-- Names that are all supplied and pass agree. -/
theorem names_of_passed {declared d : DeclaredIdentity} {holder : Option Str}
    (h : (reconcile keccak256 u nfkc declared (some d) holder).passed = true) :
    normalizeName u nfkc declared.fullName = normalizeName u nfkc d.fullName ∧
      declared.dateOfBirth = d.dateOfBirth := by
  simp only [reconcile, Axes.list, Bool.and_eq_true, List.all_cons, Option.map_some, cmp,
    Option.isNone_some, Bool.false_or, Option.any_some, beq_iff_eq] at h
  refine ⟨?_, h.2⟩
  by_contra hne
  rw [if_neg hne] at h
  exact absurd h.1.1 (by decide)

theorem holder_of_passed {declared : DeclaredIdentity} {id : Option DeclaredIdentity}
    {holder : Str} (h : (reconcile keccak256 u nfkc declared id (some holder)).passed = true) :
    normalizeName u nfkc declared.fullName = normalizeName u nfkc holder := by
  simp only [reconcile, Axes.list, Bool.and_eq_true, List.all_cons, Option.map_some, cmp] at h
  by_contra hne
  rw [if_neg hne] at h
  exact absurd h.1.2.1 (by decide)

end

end Reconcile

/-! ## The adapter -/

namespace Kr

open IdentityPolicy

/-- `Regime` -/
def KR_FSC_NONFACE : ℕ := 1
def KR_FSC_NONFACE_SANDBOX : ℕ := 2

inductive IdDocType where
  | RRC
  | DL
deriving DecidableEq

def IdDocType.text : IdDocType → String
  | .RRC => "RRC"
  | .DL => "DL"

structure IdDocumentResult where
  docType : IdDocType
  fullName : Str
  dateOfBirth : Str
  docHash : String
  authenticityChecked : Bool
  authentic : Bool
  faceMatched : Bool
  livenessPassed : Bool
  vendor : String
  /-- the lookup went to the real issuing authority -/
  live : Bool
  ref : Option String
  code : Option String
deriving DecidableEq

structure BankAccountResult where
  bankCode : String
  holderName : Str
  holderVerified : Bool
  oneWonVerified : Bool
  vendor : String
  /-- real banking rails -/
  live : Bool
  ref : Option String
deriving DecidableEq

/-- `KrAdapter`: whether the vendors are there and live, and the options. -/
structure Adapter where
  idVendor : Option Bool
  bankVendor : Option Bool
  sandboxBits : Bool
  biometrics : Option BiometricPolicy
deriving DecidableEq

structure AdapterResult where
  regime : ℕ
  methods : ℕ
  rejected : Option String
  idDocument : Option IdDocumentResult
  bankAccount : Option BankAccountResult
  evidence : Json

namespace Adapter

variable (a : Adapter) (walletControlProven : Bool) (idDocument : Option IdDocumentResult)
  (bankAccount : Option BankAccountResult)

def connected : Bool := a.idVendor.isSome && a.bankVendor.isSome

def live : Bool := a.idVendor.any id && a.bankVendor.any id

/-- `get regime()` -/
def configuredRegime : ℕ := if a.live then KR_FSC_NONFACE else KR_FSC_NONFACE_SANDBOX

def realResults : Bool :=
  (idDocument.any fun d => d.live && d.authenticityChecked && d.authentic) &&
    bankAccount.any fun b => b.live && b.holderVerified && b.oneWonVerified

def regimeOf : ℕ :=
  if a.live && !a.sandboxBits && realResults idDocument bankAccount then KR_FSC_NONFACE
  else KR_FSC_NONFACE_SANDBOX

/-- A result counts when it came from real rails, or when the demo switch is on. -/
def counts (live : Bool) : Bool := live || a.sandboxBits

def biometricAllowed (check : Requirement) : Bool :=
  a.biometrics.any fun p => p.checks.contains check

/-- `methods |= bit` under a condition -/
def bit (condition : Bool) (method : ℕ) : ℕ := if condition then method else 0

/-- The bits of the document. -/
def idMethods (d : IdDocumentResult) : ℕ :=
  Methods.ID_DOC_IMAGE |||
    bit (a.counts d.live && d.authenticityChecked && d.authentic) Methods.ID_DOC_AUTHENTICITY |||
    bit (a.counts d.live && d.faceMatched && a.biometricAllowed .FACE_MATCH) Methods.FACE_MATCH |||
    bit (a.counts d.live && d.livenessPassed && a.biometricAllowed .LIVENESS) Methods.LIVENESS

/-- The bit of the account. -/
def bankMethods (b : BankAccountResult) : ℕ :=
  bit (a.counts b.live && b.holderVerified && b.oneWonVerified) Methods.BANK_ACCOUNT

/-- The last check that failed. -/
def rejectedOf (d : IdDocumentResult) : Option String :=
  if d.livenessPassed && !a.biometricAllowed .LIVENESS then
    some "liveness result was not authorized before biometric processing"
  else if d.faceMatched && !a.biometricAllowed .FACE_MATCH then
    some "face match result was not authorized before biometric processing"
  else if d.authenticityChecked && !d.authentic then
    some "the issuing authority did not confirm the document"
  else none

def idEvidence : Json :=
  match idDocument with
  | some d =>
    .obj [("docType", .str d.docType.text), ("docHash", .str d.docHash), ("vendor", .str d.vendor),
      ("live", .bool d.live), ("ref", .ofOption d.ref), ("code", .ofOption d.code),
      ("authenticityChecked", .bool d.authenticityChecked), ("authentic", .bool d.authentic),
      ("faceMatched", .bool d.faceMatched), ("livenessPassed", .bool d.livenessPassed)]
  | none =>
    .obj [("skipped", .bool true), ("reason", .str
      (if a.idVendor.isSome then "no document verified" else "no vendor connected"))]

def bankEvidence : Json :=
  match bankAccount with
  | some b =>
    .obj [("bankCode", .str b.bankCode), ("vendor", .str b.vendor), ("live", .bool b.live),
      ("ref", .ofOption b.ref), ("holderVerified", .bool b.holderVerified),
      ("oneWonVerified", .bool b.oneWonVerified)]
  | none =>
    .obj [("skipped", .bool true), ("reason", .str
      (if a.bankVendor.isSome then "no account verified" else "no vendor connected"))]

def run : AdapterResult where
  regime := a.regimeOf idDocument bankAccount
  methods := bit walletControlProven Methods.WALLET_CONTROL |||
    (idDocument.map a.idMethods).getD 0 ||| (bankAccount.map a.bankMethods).getD 0
  rejected := idDocument.bind a.rejectedOf
  idDocument := idDocument
  bankAccount := bankAccount
  evidence := .obj [("regime", .num (a.regimeOf idDocument bankAccount)),
    ("configuredRegime", .num a.configuredRegime), ("regimeRule", .str "kr-results-v2"),
    ("vendorsConnected", .bool a.connected), ("sandboxBits", .bool a.sandboxBits),
    ("liveResultsComplete", .bool (realResults idDocument bankAccount)),
    ("idDocument", a.idEvidence idDocument), ("bankAccount", a.bankEvidence bankAccount)]

/-- The production regime needs both results, live and confirmed, and no demo switch. -/
theorem regimeOf_eq_one : a.regimeOf idDocument bankAccount = KR_FSC_NONFACE ↔
    a.live = true ∧ a.sandboxBits = false ∧ realResults idDocument bankAccount = true := by
  rw [regimeOf]
  split_ifs with h
  · simp only [Bool.and_eq_true, Bool.not_eq_true'] at h
    exact ⟨fun _ => ⟨h.1.1, h.1.2, h.2⟩, fun _ => rfl⟩
  · simp only [Bool.and_eq_true, Bool.not_eq_true'] at h
    exact ⟨fun he => absurd he (by decide), fun ⟨h1, h2, h3⟩ => absurd ⟨⟨h1, h2⟩, h3⟩ h⟩

theorem regimeOf_cases : a.regimeOf idDocument bankAccount = 1 ∨
    a.regimeOf idDocument bankAccount = 2 := by
  rw [regimeOf]
  split_ifs
  · exact .inl rfl
  · exact .inr rfl

end Adapter

end Kr

end Proofmark
