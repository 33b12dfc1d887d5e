/-
  External credentials (src/pipeline/external-credential.ts): the compact JWS adapter and the
  consumption of a credential.

  `present` authenticates a token and normalises it.  Calls of `consume` run interleaved on
  one replay store, which executes a claim as one atomic operation: the machine at the end.
  The recovery of a signer and the hashes are the fields of `CredentialEnv`; the clock gives
  whole seconds.
-/
import Mathlib.Data.List.Sort
import Mathlib.Logic.Function.Basic
import Proofmark.Lib.Machine
import Proofmark.Pipeline.Attrs
import Proofmark.Pipeline.WireText

namespace Proofmark

open Words Revert HexText Utf8 Function
open JsValue (Numbers)
open Canonical (ascii)

def EXTERNAL_CREDENTIAL_SCHEMA : JsString := ascii "proofmark-external-jwt-v1"

/-- The codes of `ExternalCredentialError`, and the error of `packAttrs`. -/
inductive CredentialError where
  | tokenInvalid
  | signatureInvalid
  | configInvalid
  | headerInvalid
  | payloadInvalid
  | issuerMismatch
  | audienceMismatch
  | subjectMismatch
  | credentialIdInvalid
  | timeInvalid
  | clockInvalid
  | issuedInFuture
  | credentialExpired
  | environmentMismatch
  | assuranceUnsupported
  | regimeUnsupported
  | jurisdictionUnsupported
  | requiredCheckMissing
  | providerResponseInvalid
  | providerUnavailable
  | statusUnknown
  | replayUnavailable
  | replayConflict
  | attrs (e : AttrsError)
deriving DecidableEq

inductive CredentialEnvironment where
  | production
  | sandbox
deriving DecidableEq

def CredentialEnvironment.text : CredentialEnvironment → JsString
  | .production => ascii "production"
  | .sandbox => ascii "sandbox"

inductive PublicationModel where
  | provider
  | adapter
deriving DecidableEq

/-- `ExternalCredentialAdapterConfig`; a record is the list of its own properties. -/
structure CredentialConfig where
  id : JsString
  issuerId : JsString
  issuerAddress : JsString
  keyId : JsString
  audience : JsString
  product : JsString
  environment : CredentialEnvironment
  model : PublicationModel
  sourceIssuer : JsString
  assurance : List (JsString × ℕ)
  regimes : List (JsString × ℕ)
  jurisdictions : List (JsString × ℕ)
  methods : List (JsString × ℕ)
  requiredChecks : List JsString
  maxCredentialAgeSeconds : ℕ
  credentialIdHmacKey : JsString
deriving DecidableEq

/-- `ExternalCredentialJwtClaims` without the fields that are equal to the adapter's. -/
structure CredentialClaims where
  sub : Address
  jti : JsString
  iat : ℕ
  exp : ℕ
  assurance : JsString
  regime : JsString
  jurisdiction : JsString
  checks : List JsString
  evidenceDigest : JsString
deriving DecidableEq

/-- `ExternalCredentialEnvelopeV1` -/
structure CredentialEnvelope extends CredentialClaims where
  credentialDigest : Bytes32
deriving DecidableEq

/-- `NormalizedExternalCredentialV1` -/
structure NormalizedCredential where
  subject : Address
  issuer : Option JsString
  methods : ℕ
  assurance : ℕ
  regime : ℕ
  jurisdiction : ℕ
  issuedAt : ℕ
  expiry : ℕ
  providerCredentialIdHash : Bytes32
  evidenceHash : Bytes32
  requestId : Bytes32
  attrs : Bytes32
  claimsRoot : Bytes32
deriving DecidableEq

structure CredentialEnv (ν : Type) where
  numbers : Numbers ν
  /-- The value of a number that is a safe integer. -/
  safeInteger? : ν → Option ℤ
  addresses : Addresses
  keccak256 : Bytes → Bytes32
  sha256 : Bytes → Bytes32
  /-- The hash with a key. -/
  hmacSha256 : Bytes → Bytes → Bytes32
  /-- `recoverAddress` of a digest, `r`, `s` and `yParity`; `none` where it throws. -/
  recoverAddress : Bytes32 → Bytes32 → Bytes32 → Bool → Option Address

/-! ## Tokens -/

def isControl (u : BitVec 16) : Bool := decide (u.toNat < 0x20) || decide (u.toNat = 0x7f)

def safeString (value : JsString) (max : ℕ) : Bool :=
  decide (0 < value.length) && decide (value.length ≤ max) && !value.any isControl

/-- The digits of base64url. -/
def base64Alphabet : JsString :=
  ascii "ABCDEFGHIJKLMNOPQRSTUVWXYZabcdefghijklmnopqrstuvwxyz0123456789-_"

/-- `Buffer.from(value, 'base64url')`, over the values of the digits -/
def fromBase64 : List ℕ → Bytes
  | a :: b :: c :: d :: r =>
    byte (a * 4 + b / 16) :: byte (b % 16 * 16 + c / 4) :: byte (c % 4 * 64 + d) :: fromBase64 r
  | [a, b, c] => [byte (a * 4 + b / 16), byte (b % 16 * 16 + c / 4)]
  | [a, b] => [byte (a * 4 + b / 16)]
  | _ => []

/-- `toString('base64url')`, as the values of the digits -/
def toBase64 : Bytes → List ℕ
  | x :: y :: z :: r =>
    x.toNat / 4 :: (x.toNat % 4 * 16 + y.toNat / 16) :: (y.toNat % 16 * 4 + z.toNat / 64) ::
      (z.toNat % 64) :: toBase64 r
  | [x, y] => [x.toNat / 4, x.toNat % 4 * 16 + y.toNat / 16, y.toNat % 16 * 4]
  | [x] => [x.toNat / 4, x.toNat % 4 * 16]
  | [] => []

def decodeBase64Url (value : JsString) (maxBytes : ℕ) : Except CredentialError Bytes := do
  revertIf (value = [] ∨ ∃ u ∈ value, u ∉ base64Alphabet) .tokenInvalid
  let sextets := value.map base64Alphabet.idxOf
  let decoded := fromBase64 sextets
  revertIf (decoded.length < 1 ∨ maxBytes < decoded.length ∨ toBase64 decoded ≠ sextets) .tokenInvalid
  pure decoded

section
variable {ν : Type} (env : CredentialEnv ν)

/-- The properties of the object that a segment writes. -/
def parseJsonSegment (value : JsString) (maxBytes : ℕ) :
    Except CredentialError (List (JsString × JsValue ν)) := do
  let decoded ← decodeBase64Url value maxBytes
  let text ← orRevert (decodeText decoded) .tokenInvalid
  match ← orRevert (JsValue.parse env.numbers text) .tokenInvalid with
  | .obj l => pure l
  | _ => .error .tokenInvalid

/-- `exactKeys` -/
def exactKeys (value : List (JsString × JsValue ν)) (keys : List JsString) : Bool :=
  (value.map Prod.fst).insertionSort (fun a b => JsValue.keyLE a b = true) ==
    keys.insertionSort (fun a b => JsValue.keyLE a b = true)

/-- The safe integer at a property. -/
def integerAt (value : List (JsString × JsValue ν)) (key : String) : Option ℤ :=
  match value.lookup (ascii key) with
  | some (.num x) => env.safeInteger? x
  | _ => none

/-- The addresses that a signature may be of, in lower case. -/
def recoverSigner (input signatureSegment : JsString) : Except CredentialError (List JsString) := do
  let bytes ← decodeBase64Url signatureSegment 64
  revertIf (bytes.length ≠ 64) .signatureInvalid
  let r : Bytes32 := BitVec.ofNat 256 (ofBytes (bytes.take 32))
  let s : Bytes32 := BitVec.ofNat 256 (ofBytes (bytes.drop 32))
  let digest := env.sha256 (toUtf8 input)
  let even ← orRevert (env.recoverAddress digest r s false) .signatureInvalid
  let odd ← orRevert (env.recoverAddress digest r s true) .signatureInvalid
  let recovered := [lower (env.addresses.checksum even), lower (env.addresses.checksum odd)]
  revertIf (¬ recovered.Nodup) .signatureInvalid
  pure recovered

/-! ## The adapter -/

def isAddress (s : JsString) : Bool := (env.addresses.address? s).isSome

def isCountry (s : JsString) : Bool :=
  decide (s.length = 2) && s.all fun u => decide (0x41 ≤ u.toNat) && decide (u.toNat ≤ 0x5a)

def isSafeInteger (n : ℕ) : Bool := decide (n ≤ MAX_SAFE_INTEGER)

/-- One method bit that the contracts know. -/
def isMethod (value : ℕ) : Bool :=
  isSafeInteger value && decide (1 ≤ value) && bitAnd (toInt32 value) (toInt32 (value - 1)) == 0 &&
    bitAnd (toInt32 value) (~~~ toInt32 SUPPORTED_METHODS) == 0

def validateConfig (c : CredentialConfig) : Except CredentialError Unit := do
  revertIf (¬ (safeString c.id 80 && safeString c.issuerId 200 && safeString c.keyId 160 &&
    safeString c.audience 200 && safeString c.product 120) = true ∨
    isAddress env c.issuerAddress = false ∨ same c.issuerAddress ZeroAddress = true ∨
    isAddress env c.sourceIssuer = false ∨ same c.sourceIssuer ZeroAddress = true ∨
    (c.model = .provider ∧ same c.sourceIssuer c.issuerAddress = false) ∨
    c.maxCredentialAgeSeconds < 1 ∨ 31536000 < c.maxCredentialAgeSeconds ∨
    c.credentialIdHmacKey.length < 32) .configInvalid
  revertIf (∃ p ∈ c.assurance, p.2 < 1 ∨ 5 < p.2) .configInvalid
  revertIf (∃ p ∈ c.regimes, p.2 ≠ 1 ∧ p.2 ≠ 2) .configInvalid
  revertIf (∃ p ∈ c.jurisdictions, isCountry p.1 = false ∨ p.2 < 1 ∨ 999 < p.2) .configInvalid
  revertIf (∃ p ∈ c.methods, safeString p.1 100 = false ∨ isMethod p.2 = false) .configInvalid
  revertIf (c.assurance = [] ∨ c.regimes = [] ∨ c.jurisdictions = [] ∨ c.methods = [] ∨
    c.requiredChecks = [] ∨ ¬ c.requiredChecks.Nodup ∨
    ∃ check ∈ c.requiredChecks, safeString check 100 = false ∨ check ∉ c.methods.map Prod.fst)
    .configInvalid
  revertIf (∃ p ∈ c.regimes, safeString p.1 100 = false ∨
    if c.environment = .production then p.2 ≠ 1 else p.2 ≠ 2) .configInvalid

variable (c : CredentialConfig)

/-- The part of `authenticate` that checks the claims of a token at the time `observed`. -/
def checkClaims (value : List (JsString × JsValue ν)) (wallet : JsString) (observed : ℕ) :
    Except CredentialError CredentialClaims := do
  revertIf (exactKeys value [ascii "iss", ascii "aud", ascii "sub", ascii "jti", ascii "iat",
    ascii "exp", ascii "proofmark"] = false) .payloadInvalid
  let proof ← orRevert (objectAt value "proofmark") .payloadInvalid
  revertIf (exactKeys proof [ascii "schema", ascii "provider", ascii "product", ascii "environment",
    ascii "assurance", ascii "regime", ascii "jurisdiction", ascii "checks",
    ascii "evidenceDigest"] = false) .payloadInvalid
  revertIf (stringAt value "iss" ≠ some c.issuerId) .issuerMismatch
  revertIf (stringAt value "aud" ≠ some c.audience) .audienceMismatch
  let sub ← orRevert (stringAt value "sub") .subjectMismatch
  let subject ← orRevert (env.addresses.address? sub) .subjectMismatch
  revertIf (same sub wallet = false) .subjectMismatch
  let jti ← orRevert (stringAt value "jti") .credentialIdInvalid
  revertIf ((bytes32? jti).isNone = true ∨ same jti ZeroHash = true) .credentialIdInvalid
  let iat ← orRevert (integerAt env value "iat") .timeInvalid
  let exp ← orRevert (integerAt env value "exp") .timeInvalid
  revertIf (iat < 1 ∨ exp ≤ iat) .timeInvalid
  revertIf (isSafeInteger observed = false ∨ observed < 1) .clockInvalid
  revertIf (observed < iat) .issuedInFuture
  revertIf (exp ≤ observed ∨ iat + c.maxCredentialAgeSeconds ≤ observed) .credentialExpired
  revertIf (stringAt proof "schema" ≠ some EXTERNAL_CREDENTIAL_SCHEMA ∨
    stringAt proof "provider" ≠ some c.id ∨ stringAt proof "product" ≠ some c.product) .payloadInvalid
  let assurance ← orRevert (stringAt proof "assurance") .payloadInvalid
  let regime ← orRevert (stringAt proof "regime") .payloadInvalid
  let jurisdiction ← orRevert (stringAt proof "jurisdiction") .payloadInvalid
  let checks ← orRevert (stringsAt proof "checks") .payloadInvalid
  let evidenceDigest ← orRevert (stringAt proof "evidenceDigest") .payloadInvalid
  revertIf (safeString assurance 100 = false ∨ safeString regime 100 = false ∨
    isCountry jurisdiction = false ∨ 64 < checks.length ∨
    (∃ check ∈ checks, safeString check 100 = false) ∨ ¬ checks.Nodup ∨
    (bytes32? evidenceDigest).isNone = true ∨ same evidenceDigest ZeroHash = true) .payloadInvalid
  revertIf (stringAt proof "environment" ≠ some c.environment.text) .environmentMismatch
  pure
    { sub := subject, jti, iat := iat.toNat, exp := exp.toNat, assurance, regime, jurisdiction, checks
      evidenceDigest }

def authenticate (token wallet : JsString) (observed : ℕ) :
    Except CredentialError CredentialEnvelope := do
  revertIf (token.length < 16 ∨ 32768 < token.length ∨ isAddress env wallet = false ∨
    same wallet ZeroAddress = true) .tokenInvalid
  match token.splitOn 0x2e with
  | [segment0, segment1, segment2] => do
    let header ← parseJsonSegment env segment0 2048
    revertIf (exactKeys header [ascii "alg", ascii "typ", ascii "kid"] = false ∨
      stringAt header "alg" ≠ some (ascii "ES256K") ∨ stringAt header "typ" ≠ some (ascii "JWT") ∨
      stringAt header "kid" ≠ some c.keyId) .headerInvalid
    let recovered ← recoverSigner env (segment0 ++ 0x2e :: segment1) segment2
    revertIf (∀ a ∈ recovered, same a c.issuerAddress = false) .signatureInvalid
    let value ← parseJsonSegment env segment1 16384
    let claims ← checkClaims env c value wallet observed
    pure { claims with credentialDigest := env.keccak256 (toUtf8 token) }
  | _ => .error .tokenInvalid

/-- The mask of the checks. -/
def methodMask (checks : List JsString) : U32 :=
  checks.foldl (fun mask check => mask ||| toInt32 ((c.methods.lookup check).getD 0)) 0

/-- What the keyed hash is made of. -/
def credentialIdText (envelope : CredentialEnvelope) : JsString := c.id ++ 0 :: envelope.jti

def providerCredentialIdHash (envelope : CredentialEnvelope) : Bytes32 :=
  env.hmacSha256 (toUtf8 c.credentialIdHmacKey) (toUtf8 (credentialIdText c envelope))

/-- What the request id is the hash of. -/
def requestBytes (envelope : CredentialEnvelope) : Bytes :=
  toBytes 32 (providerCredentialIdHash env c envelope).toNat ++
    toBytes 32 (env.keccak256 (toUtf8 c.sourceIssuer)).toNat

/-- `normalize` of an envelope that the adapter has authenticated -/
def normalize (envelope : CredentialEnvelope) : Except CredentialError NormalizedCredential := do
  let assurance ← orRevert (c.assurance.lookup envelope.assurance) .assuranceUnsupported
  let regime ← orRevert (c.regimes.lookup envelope.regime) .regimeUnsupported
  let jurisdiction ← orRevert (c.jurisdictions.lookup envelope.jurisdiction) .jurisdictionUnsupported
  revertIf (∃ required ∈ c.requiredChecks, required ∉ envelope.checks) .requiredCheckMissing
  let methods := (methodMask c envelope.checks).toNat
  let expiry := min envelope.exp (envelope.iat + c.maxCredentialAgeSeconds)
  let attrs ← (packAttrs ⟨1, assurance, regime, jurisdiction, methods, envelope.iat, expiry, 0⟩).mapError
    CredentialError.attrs
  pure
    { subject := envelope.sub
      issuer := env.addresses.getAddress c.sourceIssuer
      methods, assurance, regime, jurisdiction
      issuedAt := envelope.iat
      expiry
      providerCredentialIdHash := providerCredentialIdHash env c envelope
      evidenceHash := envelope.credentialDigest
      requestId := env.keccak256 (requestBytes env c envelope)
      attrs
      claimsRoot := 0 }

end

/-- A token that an adapter has accepted. -/
structure Presentation where
  config : CredentialConfig
  token : JsString
  wallet : JsString
  envelope : CredentialEnvelope
  credential : NormalizedCredential

section
variable {ν : Type} (env : CredentialEnv ν)

/-- The first part of `consume`. -/
def present (c : CredentialConfig) (token wallet : JsString) (observed : ℕ) :
    Except CredentialError Presentation := do
  let envelope ← authenticate env c token wallet observed
  let credential ← normalize env c envelope
  pure ⟨c, token, wallet, envelope, credential⟩

end

/-! ## Consumption -/

/-- What the status client does. -/
inductive StatusAnswer where
  | active
  | revoked
  | expired
  | unknown
  | invalid
  | throws
deriving DecidableEq

inductive ReplayAnswer where
  | fresh
  | duplicate
  | conflict
deriving DecidableEq

inductive ConsumeResult where
  | active (replay : ReplayAnswer) (requestId : Bytes32) (credential : NormalizedCredential)
  | revoked (requestId : Bytes32) (subject : Address) (providerCredentialIdHash evidenceHash : Bytes32)
deriving DecidableEq

/-- What a call waits for. -/
inductive ConsumeStage where
  | status
  | claim
deriving DecidableEq

/-- The calls in progress and the claims of the replay store. -/
structure ConsumeHost where
  calls : ℕ → Option (Presentation × ConsumeStage)
  claims : Bytes32 → Option Bytes32

inductive ConsumeAction where
  | start (call : ℕ) (config : CredentialConfig) (token wallet : JsString) (observed : ℕ)
  /-- the status client answers, at the time `now` -/
  | status (call : ℕ) (answer : StatusAnswer) (now : ℕ)
  /-- the replay store executes the claim; its answer may be lost -/
  | claim (call : ℕ) (lost : Bool)
  /-- the replay store fails -/
  | claimFails (call : ℕ)

inductive ConsumeRefusal where
  | notPossible
deriving DecidableEq

/-- How a call has ended. -/
abbrev ConsumeEnd := Except CredentialError ConsumeResult

namespace ConsumeHost

def empty : ConsumeHost := ⟨fun _ => none, fun _ => none⟩

variable (s : ConsumeHost)

/-- `claim` of the store: the first writer wins. -/
def claim (requestId credentialDigest : Bytes32) : ConsumeHost × ReplayAnswer :=
  match s.claims requestId with
  | none => ({ s with claims := update s.claims requestId (some credentialDigest) }, .fresh)
  | some existing => (s, if existing = credentialDigest then .duplicate else .conflict)

def setCall (call : ℕ) (c : Option (Presentation × ConsumeStage)) : ConsumeHost :=
  { s with calls := update s.calls call c }

/-- What `consume` makes of the status; the credential id has been checked with the token. -/
def afterStatus (p : Presentation) (answer : StatusAnswer) (now : ℕ) : Option ConsumeEnd :=
  match answer with
  | .throws => some (.error .providerUnavailable)
  | .invalid => some (.error .providerResponseInvalid)
  | .unknown => some (.error .statusUnknown)
  | .revoked | .expired =>
    some (.ok (.revoked p.credential.requestId p.credential.subject
      p.credential.providerCredentialIdHash p.credential.evidenceHash))
  | .active => if p.credential.expiry ≤ now then some (.error .credentialExpired) else none

/-- What `consume` makes of the answer of the store. -/
def afterClaim (p : Presentation) (replay : ReplayAnswer) (lost : Bool) : ConsumeEnd :=
  if lost then .error .replayUnavailable
  else if replay = .conflict then .error .replayConflict
  else .ok (.active replay p.credential.requestId p.credential)

section
variable {ν : Type} (env : CredentialEnv ν)

def perform : ConsumeAction → Except ConsumeRefusal (ConsumeHost × Option ConsumeEnd)
  | .start call config token wallet observed => do
    revertIf ((s.calls call).isSome = true ∨ (value? (validateConfig env config)).isNone = true)
      .notPossible
    match present env config token wallet observed with
    | .error e => pure (s, some (.error e))
    | .ok p => pure (s.setCall call (some (p, .status)), none)
  | .status call answer now =>
    match s.calls call with
    | some (p, .status) =>
      match afterStatus p answer now with
      | some r => pure (s.setCall call none, some r)
      | none => pure (s.setCall call (some (p, .claim)), none)
    | _ => .error .notPossible
  | .claim call lost =>
    match s.calls call with
    | some (p, .claim) =>
      let (s', replay) := (s.setCall call none).claim p.credential.requestId p.credential.evidenceHash
      pure (s', some (afterClaim p replay lost))
    | _ => .error .notPossible
  | .claimFails call =>
    match s.calls call with
    | some (_, .claim) => pure (s.setCall call none, some (.error .replayUnavailable))
    | _ => .error .notPossible

end

end ConsumeHost

/-- Calls of `consume` over one replay store. -/
def ConsumeHost.machine {ν : Type} (env : CredentialEnv ν) :
    Machine ConsumeHost ConsumeAction (Option ConsumeEnd) ConsumeRefusal where
  step s a := s.perform env a

abbrev ConsumeEntry := Machine.Entry ConsumeHost ConsumeAction (Option ConsumeEnd)

end Proofmark
