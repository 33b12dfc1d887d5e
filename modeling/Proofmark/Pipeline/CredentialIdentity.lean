/-
  The identity of an external credential.

  The request id is made of the credential id and the source issuer as they are written, so
  that a request id determines both texts (`requestId_inj`).  `ReplayInv` relates the replay
  store to the claims of a run.

  `credential_identity`: one credential has one request id, and one token, exactly as far as
  its id and the source issuer are always written alike.
-/
import Proofmark.Pipeline.ExternalCredential
import Proofmark.Pipeline.Disclosure

namespace Proofmark

open Words Revert Utf8 Function
open HexText (lower)
open JsValue (Numbers)
open Canonical (ascii)

/-! ## Accepted tokens -/

section
variable {ν : Type} {env : CredentialEnv ν} {c : CredentialConfig} {token wallet : JsString}
  {observed : ℕ} {p : Presentation}

theorem mem_alphabet_of_decode {value : JsString} {max : ℕ} {bs : Bytes}
    (h : decodeBase64Url value max = .ok bs) : ∀ u ∈ value, u ∈ base64Alphabet := by
  simp only [decodeBase64Url, bind_ok, revertIf_ok, not_or, not_exists, not_and, not_not] at h
  obtain ⟨-, ⟨-, hall⟩, -⟩ := h
  exact hall

theorem mem_alphabet_of_segment {value : JsString} {max : ℕ} {l : List (JsString × JsValue ν)}
    (h : parseJsonSegment env value max = .ok l) : ∀ u ∈ value, u ∈ base64Alphabet := by
  simp only [parseJsonSegment, bind_ok] at h
  obtain ⟨bs, hbs, -⟩ := h
  exact mem_alphabet_of_decode hbs

theorem toNat_of_mem_alphabet {u : BitVec 16} (h : u ∈ base64Alphabet) : u.toNat < 0x80 := by
  have hall : base64Alphabet.all fun u => decide (u.toNat < 0x80) := by decide
  exact of_decide_eq_true (List.all_eq_true.1 hall u h)

/-- What accepted claims have passed. -/
theorem checkClaims_ok {value : List (JsString × JsValue ν)} {e : CredentialClaims}
    (h : checkClaims env c value wallet observed = .ok e) :
    (bytes32? e.jti).isSome = true ∧
      ∃ sub, stringAt value "sub" = some sub ∧ env.addresses.address? sub = some e.sub ∧
        lower sub = lower wallet := by
  simp only [checkClaims, bind_ok, revertIf_ok, orRevert_ok, pure_ok] at h
  obtain ⟨-, -, -, -, -, -, -, -, -, -, sub, hsub, subject, haddress, -, hsame, jti, -, -, hjti, iat, -, exp,
    -, -, -, -, -, -, -, -, -, -, -, assurance, -, regime, -, jurisdiction, -, checks, -, digest, -,
    -, -, -, -, rfl⟩ := h
  refine ⟨?_, sub, hsub, haddress, ?_⟩
  · simp only [not_or, Bool.not_eq_true, Option.isNone_eq_false_iff] at hjti
    exact hjti.1
  · simpa [same] using hsame

/-- The claim `sub` of a token. -/
def tokenSubject (env : CredentialEnv ν) (token : JsString) : Option JsString :=
  match token.splitOn 0x2e with
  | [_, segment, _] => (value? (parseJsonSegment env segment 16384)).bind fun l => stringAt l "sub"
  | _ => none

/-- What an accepted token has passed. -/
theorem authenticate_ok {e : CredentialEnvelope} (h : authenticate env c token wallet observed = .ok e) :
    IsAscii token ∧ (bytes32? e.jti).isSome = true ∧ e.credentialDigest = env.keccak256 (toUtf8 token) ∧
      ∃ sub, tokenSubject env token = some sub ∧ env.addresses.address? sub = some e.sub ∧
        lower sub = lower wallet := by
  simp only [authenticate, bind_ok, revertIf_ok] at h
  obtain ⟨-, -, h⟩ := h
  have hsplit : List.intercalate [0x2e] (token.splitOn (0x2e : BitVec 16)) = token :=
    List.intercalate_splitOn _
  split at h
  · rename_i a b d hsegments
    simp only [bind_ok, pure_ok] at h
    obtain ⟨header, hheader, -, -, recovered, hrecovered, -, -, value, hvalue, claims, hclaims, he⟩ := h
    have htoken : IsAscii token := by
      intro u hu
      rw [← hsplit, hsegments] at hu
      have hd : ∀ u ∈ d, u ∈ base64Alphabet := by
        simp only [recoverSigner, bind_ok] at hrecovered
        obtain ⟨bs, hbs, -⟩ := hrecovered
        exact mem_alphabet_of_decode hbs
      have hdot : (0x2e : BitVec 16).toNat < 0x80 := by decide
      simp only [List.intercalate, List.intersperse, List.flatten_cons, List.flatten_nil,
        List.mem_append, List.mem_singleton, List.append_nil] at hu
      rcases hu with hu | rfl | hu | rfl | hu
      · exact toNat_of_mem_alphabet (mem_alphabet_of_segment hheader u hu)
      · exact hdot
      · exact toNat_of_mem_alphabet (mem_alphabet_of_segment hvalue u hu)
      · exact hdot
      · exact toNat_of_mem_alphabet (hd u hu)
    obtain ⟨hjti, sub, hsub, haddress, hwallet⟩ := checkClaims_ok hclaims
    subst he
    refine ⟨htoken, hjti, rfl, sub, ?_, haddress, hwallet⟩
    rw [tokenSubject, hsegments]
    simp only [hvalue, value?, Option.bind_some, hsub]
  · cases h

/-! ## Tokens as a provider writes them -/

def segment (bs : Bytes) : JsString := (toBase64 bs).map fun d => base64Alphabet.getD d 0

def compactJws (header payload signature : Bytes) : JsString :=
  segment header ++ 0x2e :: (segment payload ++ 0x2e :: segment signature)

theorem fromBase64_toBase64 (bs : Bytes) : fromBase64 (toBase64 bs) = bs := by
  have hbyte : ∀ (n : ℕ) (x : BitVec 8), n % 256 = x.toNat → byte n = x := by
    intro n x h
    apply BitVec.eq_of_toNat_eq
    simpa [byte] using h
  fun_induction toBase64 bs with
  | case1 x y z r ih =>
    have hx := x.isLt
    have hy := y.isLt
    have hz := z.isLt
    rw [fromBase64, ih, hbyte _ x (by omega), hbyte _ y (by omega), hbyte _ z (by omega)]
  | case2 x y =>
    have hx := x.isLt
    have hy := y.isLt
    rw [fromBase64, hbyte _ x (by omega), hbyte _ y (by omega)]
  | case3 x =>
    have hx := x.isLt
    rw [fromBase64, hbyte _ x (by omega)]
  | case4 => rfl

theorem length_segment (bs : Bytes) :
    bs.length ≤ (segment bs).length ∧ 3 * (segment bs).length ≤ 4 * bs.length + 2 := by
  rw [segment, List.length_map]
  fun_induction toBase64 bs with
  | case1 x y z r ih =>
    simp only [List.length_cons]
    omega
  | case2 x y => simp
  | case3 x => simp
  | case4 => simp

theorem toBase64_lt (bs : Bytes) : ∀ d ∈ toBase64 bs, d < 64 := by
  fun_induction toBase64 bs with
  | case1 x y z r ih =>
    have hx := x.isLt
    have hy := y.isLt
    have hz := z.isLt
    simp only [List.forall_mem_cons]
    exact ⟨by omega, by omega, by omega, by omega, ih⟩
  | case2 x y =>
    have hx := x.isLt
    have hy := y.isLt
    simp only [List.forall_mem_cons]
    exact ⟨by omega, by omega, by omega, by simp⟩
  | case3 x =>
    have hx := x.isLt
    simp only [List.forall_mem_cons]
    exact ⟨by omega, by omega, by simp⟩
  | case4 => simp

theorem mem_segment {bs : Bytes} : ∀ u ∈ segment bs, u ∈ base64Alphabet := by
  have hall : ∀ d < 64, base64Alphabet.getD d 0 ∈ base64Alphabet := by decide +kernel
  intro u hu
  obtain ⟨d, hd, rfl⟩ := List.mem_map.1 hu
  exact hall d (toBase64_lt bs d hd)

theorem decodeBase64Url_segment {bs : Bytes} {max : ℕ} (hpos : 0 < bs.length) (hmax : bs.length ≤ max) :
    decodeBase64Url (segment bs) max = .ok bs := by
  have hindex : ∀ d < 64, base64Alphabet.idxOf (base64Alphabet.getD d 0) = d := by decide +kernel
  have hsextets : (segment bs).map base64Alphabet.idxOf = toBase64 bs := by
    rw [segment, List.map_map]
    conv_rhs => rw [← List.map_id (toBase64 bs)]
    exact List.map_congr_left fun d hd => hindex d (toBase64_lt bs d hd)
  have hne : segment bs ≠ [] := by
    intro h
    have hnil : toBase64 bs = [] := by simpa [segment] using h
    have hback := fromBase64_toBase64 bs
    rw [hnil] at hback
    rw [← hback] at hpos
    exact absurd hpos (by decide)
  unfold decodeBase64Url
  rw [revertIf_of_not (by simpa [hne] using mem_segment), ok_bind]
  simp only [hsextets, fromBase64_toBase64]
  rw [revertIf_of_not (by simp only [not_or, not_not]; exact ⟨by omega, by omega, trivial⟩), ok_bind]
  rfl

theorem splitOn_compactJws (a b d : Bytes) :
    (compactJws a b d).splitOn 0x2e = [segment a, segment b, segment d] := by
  have hdot : ∀ bs, (0x2e : BitVec 16) ∉ segment bs := by
    intro bs h
    exact absurd (mem_segment _ h) (by decide)
  have hall : ∀ l ∈ [segment a, segment b, segment d], (0x2e : BitVec 16) ∉ l := by
    intro l hl
    simp only [List.mem_cons, List.not_mem_nil, or_false] at hl
    rcases hl with rfl | rfl | rfl <;> exact hdot _
  rw [← List.splitOn_intercalate _ hall (List.cons_ne_nil _ _)]
  simp [compactJws, List.intercalate, List.intersperse]

/-- The bytes of a JSON object. -/
def objectBytes (env : CredentialEnv ν) (l : List (JsString × JsValue ν)) : Bytes :=
  encode ((JsValue.obj l).text env.numbers)

theorem parseJsonSegment_segment {l : List (JsString × JsValue ν)} {max : ℕ}
    (hl : (JsValue.obj l).Records) (hmax : (objectBytes env l).length ≤ max) :
    parseJsonSegment env (segment (objectBytes env l)) max = .ok l := by
  have htext : ∃ t, (JsValue.obj l).text env.numbers = '\x7b' :: t := ⟨_, by rw [JsValue.text]⟩
  obtain ⟨t, ht⟩ := htext
  have hpos : 0 < (objectBytes env l).length := by
    have hcons : objectBytes env l = byte 0x7b :: encode t := by
      rw [objectBytes, ht]
      rfl
    simp [hcons]
  have hdecode : decodeText (objectBytes env l) = some ((JsValue.obj l).text env.numbers) := by
    rw [decodeText, objectBytes, decode_encode, ht]
    rfl
  rw [parseJsonSegment, decodeBase64Url_segment hpos hmax, ok_bind, hdecode]
  simp only [orRevert, ok_bind, JsValue.Records.parse_text env.numbers hl]
  rfl

/-- A token of the provider is authenticated. -/
theorem authenticate_compactJws {header payload : List (JsString × JsValue ν)} {signature : Bytes}
    {recovered : List JsString} {claims : CredentialClaims} (hh : (JsValue.obj header).Records)
    (hhmax : (objectBytes env header).length ≤ 2048) (hp : (JsValue.obj payload).Records)
    (hpmax : (objectBytes env payload).length ≤ 16384)
    (htoken : token = compactJws (objectBytes env header) (objectBytes env payload) signature)
    (hlen : 16 ≤ token.length ∧ token.length ≤ 32768)
    (hwallet : isAddress env wallet = true ∧ same wallet ZeroAddress = false)
    (hheader : exactKeys header [ascii "alg", ascii "typ", ascii "kid"] = true ∧
      stringAt header "alg" = some (ascii "ES256K") ∧ stringAt header "typ" = some (ascii "JWT") ∧
      stringAt header "kid" = some c.keyId)
    (hrecovered : recoverSigner env (segment (objectBytes env header) ++ 0x2e ::
      segment (objectBytes env payload)) (segment signature) = .ok recovered)
    (hsigner : ∃ a ∈ recovered, same a c.issuerAddress = true)
    (hclaims : checkClaims env c payload wallet observed = .ok claims) :
    authenticate env c token wallet observed =
      .ok { claims with credentialDigest := env.keccak256 (toUtf8 token) } := by
  obtain ⟨h1, h2, h3, h4⟩ := hheader
  obtain ⟨a, ha, hsame⟩ := hsigner
  have hsome : ¬ ∀ a ∈ recovered, same a c.issuerAddress = false := by
    intro h
    rw [h a ha] at hsame
    cases hsame
  rw [authenticate, revertIf_of_not (by simp [hwallet, Nat.not_lt.2 hlen.1, Nat.not_lt.2 hlen.2]), ok_bind,
    htoken, splitOn_compactJws]
  simp only [parseJsonSegment_segment hh hhmax, parseJsonSegment_segment hp hpmax, ok_bind]
  rw [revertIf_of_not (by simp [h1, h2, h3, h4]), ok_bind, hrecovered, ok_bind, revertIf_of_not hsome,
    ok_bind, hclaims]
  rfl

/-! ## Presentations -/

/-- A presentation that an adapter has made. -/
structure Accepted (env : CredentialEnv ν) (p : Presentation) : Prop where
  token : IsAscii p.token
  issuer : IsAscii p.config.sourceIssuer
  jti : (bytes32? p.envelope.jti).isSome = true
  requestId : p.credential.requestId = env.keccak256 (requestBytes env p.config p.envelope)
  evidenceHash : p.credential.evidenceHash = env.keccak256 (toUtf8 p.token)
  subject : ∃ sub, tokenSubject env p.token = some sub ∧
    env.addresses.address? sub = some p.credential.subject ∧ lower sub = lower p.wallet

theorem issuer_of_validateConfig {u : Unit} (h : validateConfig env c = .ok u) :
    IsAscii c.sourceIssuer := by
  simp only [validateConfig, bind_ok, revertIf_ok, not_or] at h
  obtain ⟨-, ⟨-, -, -, hissuer, -⟩, -⟩ := h
  have haddress : isAddress env c.sourceIssuer = true := by simpa using hissuer
  obtain ⟨a, ha⟩ := Option.isSome_iff_exists.1 haddress
  exact env.addresses.ascii _ a ha

theorem present_ok {u : Unit} (hc : validateConfig env c = .ok u)
    (h : present env c token wallet observed = .ok p) :
    p.config = c ∧ p.token = token ∧ p.wallet = wallet ∧ Accepted env p := by
  simp only [present, bind_ok, pure_ok] at h
  obtain ⟨e, he, n, hn, rfl⟩ := h
  obtain ⟨htoken, hjti, hdigest, hsub⟩ := authenticate_ok he
  simp only [normalize, bind_ok, pure_ok] at hn
  obtain ⟨_, -, _, -, _, -, _, -, attrs, -, rfl⟩ := hn
  exact ⟨rfl, rfl, rfl, htoken, issuer_of_validateConfig hc, hjti, rfl, hdigest, hsub⟩

end

/-! ## The request id -/

/-- The credential id of a presentation. -/
def Presentation.credentialId (p : Presentation) : Option Bytes32 := bytes32? p.envelope.jti

def Presentation.requestId (p : Presentation) : Bytes32 := p.credential.requestId

/-- Adapters with one id, one key and one source issuer, in any letter case. -/
def SameAdapter (c c' : CredentialConfig) : Prop :=
  c.id = c'.id ∧ c.credentialIdHmacKey = c'.credentialIdHmacKey ∧
    lower c.sourceIssuer = lower c'.sourceIssuer

/-- The id of the credential and the source issuer are written alike. -/
def Presentation.Alike (p q : Presentation) : Prop :=
  p.envelope.jti = q.envelope.jti ∧ p.config.sourceIssuer = q.config.sourceIssuer

section
variable {ν : Type} (env : CredentialEnv ν)

/-- The byte strings that `keccak256` hashes for a presentation. -/
def Presentation.hashed (p : Presentation) : List Bytes :=
  [toUtf8 p.token, toUtf8 p.config.sourceIssuer, requestBytes env p.config p.envelope]

/-- No collision among what is hashed for the presentations. -/
structure CollisionFree (ps : List Presentation) : Prop where
  keccak : ∀ x ∈ ps.flatMap (Presentation.hashed env), ∀ y ∈ ps.flatMap (Presentation.hashed env),
    env.keccak256 x = env.keccak256 y → x = y
  hmac : ∀ p ∈ ps, ∀ q ∈ ps, providerCredentialIdHash env p.config p.envelope =
      providerCredentialIdHash env q.config q.envelope →
    toUtf8 (credentialIdText p.config p.envelope) = toUtf8 (credentialIdText q.config q.envelope)

variable {env} {ps : List Presentation} {p q : Presentation}

theorem CollisionFree.subset {qs : List Presentation} (h : CollisionFree env ps) (hsub : ∀ q ∈ qs, q ∈ ps) : CollisionFree env qs := by
  have hmem : ∀ x ∈ qs.flatMap (Presentation.hashed env), x ∈ ps.flatMap (Presentation.hashed env) := by
    intro x hx
    obtain ⟨q, hq, hx⟩ := List.mem_flatMap.1 hx
    exact List.mem_flatMap.2 ⟨q, hsub q hq, hx⟩
  constructor
  · exact fun x hx y hy => h.keccak x (hmem x hx) y (hmem y hy)
  · exact fun p hp q hq => h.hmac p (hsub p hp) q (hsub q hq)

theorem CollisionFree.keccak_inj (h : CollisionFree env ps) (hp : p ∈ ps) (hq : q ∈ ps) {x y : Bytes}
    (hx : x ∈ p.hashed env) (hy : y ∈ q.hashed env) (heq : env.keccak256 x = env.keccak256 y) : x = y :=
  h.keccak x (List.mem_flatMap.2 ⟨p, hp, hx⟩) y (List.mem_flatMap.2 ⟨q, hq, hy⟩) heq

theorem toUtf8_inj {s t : JsString} (hs : IsAscii s) (ht : IsAscii t) (h : toUtf8 s = toUtf8 t) :
    s = t := chars_inj hs ht (encode_injective h)

/-- The separator keeps the id of the adapter and the one of the credential apart. -/
theorem jti_of_credentialIdText {c c' : CredentialConfig} {e e' : CredentialEnvelope} (hid : c.id = c'.id)
    (hj : (bytes32? e.jti).isSome = true) (hj' : (bytes32? e'.jti).isSome = true)
    (h : toUtf8 (credentialIdText c e) = toUtf8 (credentialIdText c' e')) : e.jti = e'.jti := by
  have hzero : ∀ t : JsString, (bytes32? t).isSome = true → IsAscii (0 :: t) := by
    intro t ht
    exact List.forall_mem_cons.2 ⟨by decide, isAscii_of_bytes32? ht⟩
  have hlow : JsValue.isLow 0 = false := by decide
  have hchars := encode_injective h
  rw [credentialIdText, credentialIdText, chars_append hlow, chars_append hlow, hid] at hchars
  have htail := chars_inj (hzero _ hj) (hzero _ hj') (List.append_cancel_left hchars)
  exact (List.cons.inj htail).2

theorem word_inj {w x : Bytes32} (h : toBytes 32 w.toNat = toBytes 32 x.toNat) : w = x :=
  BitVec.eq_of_toNat_eq (toBytes_inj w.isLt x.isLt h)

/-- **The request id** determines how the credential id and the source issuer are written. -/
theorem requestId_iff (h : CollisionFree env ps) (hp : p ∈ ps) (hq : q ∈ ps) (hap : Accepted env p)
    (haq : Accepted env q) (hsame : SameAdapter p.config q.config) :
    p.requestId = q.requestId ↔ p.Alike q := by
  obtain ⟨hid, hkey, -⟩ := hsame
  constructor
  · intro hr
    rw [Presentation.requestId, Presentation.requestId, hap.requestId, haq.requestId] at hr
    have hbytes := h.keccak_inj hp hq (by simp [Presentation.hashed]) (by simp [Presentation.hashed]) hr
    obtain ⟨hprovider, hissuer⟩ := List.append_inj hbytes (by simp)
    refine ⟨?_, ?_⟩
    · exact jti_of_credentialIdText hid hap.jti haq.jti (h.hmac p hp q hq (word_inj hprovider))
    · have hhash := h.keccak_inj hp hq (x := toUtf8 p.config.sourceIssuer)
        (y := toUtf8 q.config.sourceIssuer) (by simp [Presentation.hashed]) (by simp [Presentation.hashed])
        (word_inj hissuer)
      exact toUtf8_inj hap.issuer haq.issuer hhash
  · rintro ⟨hj, hissuer⟩
    rw [Presentation.requestId, Presentation.requestId, hap.requestId, haq.requestId, requestBytes,
      requestBytes, providerCredentialIdHash, providerCredentialIdHash, credentialIdText,
      credentialIdText, hid, hkey, hj, hissuer]

/-- The token behind the evidence hash. -/
theorem token_of_evidenceHash (h : CollisionFree env ps) (hp : p ∈ ps) (hq : q ∈ ps) (hap : Accepted env p)
    (haq : Accepted env q) (he : p.credential.evidenceHash = q.credential.evidenceHash) :
    p.token = q.token := by
  rw [hap.evidenceHash, haq.evidenceHash] at he
  exact toUtf8_inj hap.token haq.token
    (h.keccak_inj hp hq (by simp [Presentation.hashed]) (by simp [Presentation.hashed]) he)

theorem Accepted.wallet_eq (hap : Accepted env p) (haq : Accepted env q) (h : p.token = q.token) :
    p.credential.subject = q.credential.subject ∧ lower p.wallet = lower q.wallet := by
  obtain ⟨sub, hsub, ha, hw⟩ := hap.subject
  obtain ⟨sub', hsub', ha', hw'⟩ := haq.subject
  obtain rfl : sub = sub' := by
    rw [h, hsub'] at hsub
    exact (Option.some.inj hsub).symm
  exact ⟨Option.some.inj (ha.symm.trans ha'), hw.symm.trans hw'⟩

end

/-! ## Histories -/

section
variable {ν : Type} (env : CredentialEnv ν)

/-- The presentation that an entry accepts. -/
def presented (e : ConsumeEntry) : Option Presentation :=
  match e.act with
  | .start _ config token wallet observed => value? (present env config token wallet observed)
  | _ => none

def presentations (es : List ConsumeEntry) : List Presentation := es.filterMap (presented env)

/-- The presentation whose claim the store executes. -/
def claimed (e : ConsumeEntry) : Option Presentation :=
  match e.act with
  | .claim call _ => (e.pre.calls call).map Prod.fst
  | _ => none

/-- The presentation that the store binds to its request id. -/
def bound (e : ConsumeEntry) : Option Presentation :=
  (claimed e).filter fun p => (e.pre.claims p.requestId).isNone

def bindings (es : List ConsumeEntry) : List Presentation := es.filterMap bound

/-- The presentation that is consumed as active. -/
def consumed (e : ConsumeEntry) : Option Presentation :=
  match e.out with
  | some (.ok (.active ..)) => claimed e
  | _ => none

def consumptions (es : List ConsumeEntry) : List Presentation := es.filterMap consumed

variable {env} {es : List ConsumeEntry} {s : ConsumeHost} {e : ConsumeEntry}

/-- What one action does to the store. -/
inductive StoreEffect (e : ConsumeEntry) : Prop
  | kept (hbound : bound e = none) (hclaims : e.post.claims = e.pre.claims)
      (hconsumed : ∀ p, consumed e = some p → (∃ call stage, e.pre.calls call = some (p, stage)) ∧
        e.pre.claims p.requestId = some p.credential.evidenceHash)
  | written (p : Presentation) (hcall : ∃ call stage, e.pre.calls call = some (p, stage))
      (hnone : e.pre.claims p.requestId = none) (hbound : bound e = some p)
      (hclaims : e.post.claims = update e.pre.claims p.requestId (some p.credential.evidenceHash))
      (hconsumed : ∀ q, consumed e = some q → q = p)

/-- What one action does. -/
structure ConsumeEffect (env : CredentialEnv ν) (e : ConsumeEntry) : Prop where
  accepted : ∀ p, presented env e = some p → Accepted env p
  calls : ∀ call p stage, e.post.calls call = some (p, stage) →
    presented env e = some p ∨ ∃ call' stage', e.pre.calls call' = some (p, stage')
  store : StoreEffect e

theorem calls_setCall {call call' : ℕ} {c : Option (Presentation × ConsumeStage)} {p : Presentation}
    {stage : ConsumeStage} (h : (s.setCall call c).calls call' = some (p, stage)) :
    c = some (p, stage) ∨ s.calls call' = some (p, stage) := by
  unfold ConsumeHost.setCall at h
  rcases eq_or_ne call' call with rfl | hne
  · exact .inl (by simpa using h)
  · exact .inr (by simpa [hne] using h)

theorem startEffect {s' : ConsumeHost} {call : ℕ} {c : CredentialConfig} {token wallet : JsString}
    {observed : ℕ} {w : Option ConsumeEnd}
    (h : s.perform env (.start call c token wallet observed) = .ok (s', w)) :
    ConsumeEffect env ⟨s, .start call c token wallet observed, w, s'⟩ := by
  simp only [ConsumeHost.perform, bind_ok, revertIf_ok, not_or] at h
  obtain ⟨-, ⟨-, hconfig⟩, h⟩ := h
  obtain ⟨u, hu⟩ : ∃ u, validateConfig env c = .ok u := by
    cases hv : validateConfig env c with
    | error r => simp [hv, value?] at hconfig
    | ok u => exact ⟨u, rfl⟩
  have hconsumed : ∀ w, consumed ⟨s, .start call c token wallet observed, w, s'⟩ = none := by
    intro w
    simp only [consumed, claimed]
    split <;> rfl
  cases hp : present env c token wallet observed with
  | error r =>
    simp only [hp, pure_ok, Prod.mk.injEq] at h
    obtain ⟨rfl, rfl⟩ := h
    refine ⟨?_, ?_, .kept rfl rfl (by simp [hconsumed])⟩
    · simp [presented, hp, value?]
    · exact fun k p stage hk => .inr ⟨k, stage, hk⟩
  | ok p =>
    have hpresented : ∀ w s', presented env ⟨s, .start call c token wallet observed, w, s'⟩ = some p := by
      simp [presented, hp, value?]
    simp only [hp, pure_ok, Prod.mk.injEq] at h
    obtain ⟨rfl, rfl⟩ := h
    refine ⟨?_, ?_, .kept rfl rfl (by simp [hconsumed])⟩
    · intro q hq
      rw [hpresented, Option.some.injEq] at hq
      exact hq ▸ (present_ok hu hp).2.2.2
    · intro k q stage hk
      rcases calls_setCall hk with hc | hk
      · rw [Option.some.injEq, Prod.mk.injEq] at hc
        exact .inl (by rw [hpresented, hc.1])
      · exact .inr ⟨k, stage, hk⟩

/-- An action that moves a call on without the store. -/
theorem movedEffect {s' : ConsumeHost} {a : ConsumeAction} {w : Option ConsumeEnd} {call : ℕ}
    {c : Option (Presentation × ConsumeStage)} (hp : presented env ⟨s, a, w, s'⟩ = none)
    (hbound : bound ⟨s, a, w, s'⟩ = none) (hconsumed : consumed ⟨s, a, w, s'⟩ = none)
    (hc : ∀ p stage, c = some (p, stage) → ∃ stage', s.calls call = some (p, stage'))
    (hpost : s' = s.setCall call c) : ConsumeEffect env ⟨s, a, w, s'⟩ := by
  subst hpost
  refine ⟨by simp [hp], ?_, .kept hbound rfl (by simp [hconsumed])⟩
  intro k q stage hk
  rcases calls_setCall hk with hk | hk
  · obtain ⟨stage', hs⟩ := hc q stage hk
    exact .inr ⟨call, stage', hs⟩
  · exact .inr ⟨k, stage, hk⟩

theorem claimEffect {s' : ConsumeHost} {call : ℕ} {lost : Bool} {w : Option ConsumeEnd}
    (h : s.perform env (.claim call lost) = .ok (s', w)) :
    ConsumeEffect env ⟨s, .claim call lost, w, s'⟩ := by
  simp only [ConsumeHost.perform] at h
  split at h
  · rename_i p hcall
    have hclaimed : ∀ r s', claimed ⟨s, .claim call lost, r, s'⟩ = some p := by
      intro r s'
      simp [claimed, hcall]
    have hconsumed : ∀ r s' q, consumed ⟨s, .claim call lost, r, s'⟩ = some q → q = p := by
      intro r s' q hq
      simp only [consumed, hclaimed] at hq
      split at hq
      · exact (Option.some.inj hq).symm
      · cases hq
    have hcalls : ∀ {s'' : ConsumeHost}, s''.calls = (s.setCall call none).calls →
        ∀ k q stage, s''.calls k = some (q, stage) → ∃ call' stage', s.calls call' = some (q, stage') := by
      intro s'' hs k q stage hk
      rw [hs] at hk
      rcases calls_setCall hk with hk | hk
      · cases hk
      · exact ⟨k, stage, hk⟩
    cases hclaims : s.claims p.requestId with
    | none =>
      have hstore : (s.setCall call none).claims p.credential.requestId = none := hclaims
      simp only [ConsumeHost.claim, hstore, pure_ok, Prod.mk.injEq] at h
      obtain ⟨rfl, rfl⟩ := h
      refine ⟨(fun _ hp => by cases hp), fun k q stage hk => .inr (hcalls rfl k q stage hk), ?_⟩
      exact .written p ⟨call, _, hcall⟩ hclaims (by simp [bound, hclaimed, hclaims]) rfl (hconsumed _ _)
    | some existing =>
      have hstore : (s.setCall call none).claims p.credential.requestId = some existing := hclaims
      simp only [ConsumeHost.claim, hstore, pure_ok, Prod.mk.injEq] at h
      obtain ⟨rfl, rfl⟩ := h
      refine ⟨(fun _ hp => by cases hp), fun k q stage hk => .inr (hcalls rfl k q stage hk), ?_⟩
      refine .kept (by simp [bound, hclaimed, hclaims]) rfl ?_
      intro q hq
      obtain rfl := hconsumed _ _ q hq
      refine ⟨⟨call, _, hcall⟩, ?_⟩
      by_contra hne
      have he : existing ≠ q.credential.evidenceHash := by
        intro he
        exact hne (by rw [hclaims, he])
      simp only [consumed, ConsumeHost.afterClaim, if_neg he] at hq
      split at hq
      · rename_i hout
        split_ifs at hout <;> cases hout
      · cases hq
  · cases h

theorem consumeEffect (h : (ConsumeHost.machine env).IsStep e) : ConsumeEffect env e := by
  obtain ⟨s, a, w, s'⟩ := e
  unfold Machine.IsStep ConsumeHost.machine at h
  cases a with
  | start call config token wallet observed => exact startEffect h
  | status call answer now =>
    have hconsumed : consumed ⟨s, .status call answer now, w, s'⟩ = none := by
      simp only [consumed, claimed]
      split <;> rfl
    simp only [ConsumeHost.perform] at h
    split at h
    · rename_i p hcall
      split at h
      · simp only [pure_ok, Prod.mk.injEq] at h
        exact movedEffect rfl rfl hconsumed (by simp) h.1.symm
      · simp only [pure_ok, Prod.mk.injEq] at h
        refine movedEffect rfl rfl hconsumed ?_ h.1.symm
        rintro p' stage ⟨rfl, rfl⟩
        exact ⟨_, hcall⟩
    · cases h
  | claim call lost => exact claimEffect h
  | claimFails call =>
    have hconsumed : consumed ⟨s, .claimFails call, w, s'⟩ = none := by
      simp only [consumed, claimed]
      split <;> rfl
    simp only [ConsumeHost.perform] at h
    split at h
    · simp only [pure_ok, Prod.mk.injEq] at h
      exact movedEffect rfl rfl hconsumed (by simp) h.1.symm
    · cases h

theorem presentations_concat : presentations env (es ++ [e]) =
    presentations env es ++ (presented env e).toList := by
  cases h : presented env e <;> simp [presentations, h]

theorem bindings_concat : bindings (es ++ [e]) = bindings es ++ (bound e).toList := by
  cases h : bound e <;> simp [bindings, h]

theorem consumptions_concat : consumptions (es ++ [e]) = consumptions es ++ (consumed e).toList := by
  cases h : consumed e <;> simp [consumptions, h]

/-- How the store is related to the claims. -/
structure ReplayInv (env : CredentialEnv ν) (es : List ConsumeEntry) (s : ConsumeHost) : Prop where
  accepted : ∀ p ∈ presentations env es, Accepted env p
  calls : ∀ call p stage, s.calls call = some (p, stage) → p ∈ presentations env es
  bindings : ∀ p ∈ bindings es, p ∈ presentations env es ∧
    s.claims p.requestId = some p.credential.evidenceHash
  store : ∀ r d, s.claims r = some d → ∃ p ∈ Proofmark.bindings es, p.requestId = r
  nodup : ((Proofmark.bindings es).map Presentation.requestId).Nodup
  consumed : ∀ p ∈ consumptions es, p ∈ presentations env es ∧
    s.claims p.requestId = some p.credential.evidenceHash

theorem ReplayInv.step (h : ReplayInv env es e.pre) (he : (ConsumeHost.machine env).IsStep e) :
    ReplayInv env (es ++ [e]) e.post := by
  obtain ⟨haccepted, hcalls, hstore⟩ := consumeEffect he
  have hsub : ∀ {p}, p ∈ presentations env es → p ∈ presentations env (es ++ [e]) := by
    intro p hp
    rw [presentations_concat]
    exact List.mem_append_left _ hp
  have hpresent : ∀ {p}, (∃ call stage, e.pre.calls call = some (p, stage)) →
      p ∈ presentations env (es ++ [e]) := by
    rintro p ⟨call, stage, hc⟩
    exact hsub (h.calls call p stage hc)
  refine ⟨?_, ?_, ?_, ?_, ?_, ?_⟩
  · intro p hp
    rw [presentations_concat, List.mem_append, Option.mem_toList] at hp
    rcases hp with hp | hp
    · exact h.accepted p hp
    · exact haccepted p hp
  · intro call p stage hc
    rcases hcalls call p stage hc with hp | hp
    · simp [presentations_concat, hp]
    · exact hpresent hp
  · intro p hp
    rw [bindings_concat, List.mem_append, Option.mem_toList] at hp
    rcases hstore with ⟨hbound, hclaims, -⟩ | ⟨q, hcall, hnone, hbound, hclaims, -⟩
    · rcases hp with hp | hp
      · exact ⟨hsub (h.bindings p hp).1, by rw [hclaims, (h.bindings p hp).2]⟩
      · rw [hbound] at hp
        cases hp
    · rcases hp with hp | hp
      · obtain ⟨hmem, hclaim⟩ := h.bindings p hp
        have hne : p.requestId ≠ q.requestId := by
          intro heq
          rw [heq, hnone] at hclaim
          cases hclaim
        exact ⟨hsub hmem, by rw [hclaims, update_of_ne hne, hclaim]⟩
      · rw [hbound, Option.some.injEq] at hp
        subst hp
        exact ⟨hpresent hcall, by rw [hclaims, update_self]⟩
  · intro r d hr
    rcases hstore with ⟨hbound, hclaims, -⟩ | ⟨q, hcall, hnone, hbound, hclaims, -⟩
    · rw [hclaims] at hr
      simpa [bindings_concat, hbound] using h.store r d hr
    · rcases eq_or_ne r q.requestId with rfl | hne
      · exact ⟨q, by simp [bindings_concat, hbound], rfl⟩
      · rw [hclaims, update_of_ne hne] at hr
        obtain ⟨p, hp, hrp⟩ := h.store r d hr
        exact ⟨p, by simp [bindings_concat, hp], hrp⟩
  · rcases hstore with ⟨hbound, -, -⟩ | ⟨q, -, hnone, hbound, -, -⟩
    · simpa [bindings_concat, hbound] using h.nodup
    · rw [bindings_concat, hbound, List.map_append, List.nodup_append]
      refine ⟨h.nodup, by simp, ?_⟩
      intro r hr r' hr' heq
      obtain ⟨p, hp, rfl⟩ := List.mem_map.1 hr
      obtain rfl : r' = q.requestId := by simpa using hr'
      have hclaim := (h.bindings p hp).2
      rw [heq, hnone] at hclaim
      cases hclaim
  · intro p hp
    rw [consumptions_concat, List.mem_append, Option.mem_toList] at hp
    rcases hstore with ⟨-, hclaims, hconsumed⟩ | ⟨q, hcall, hnone, -, hclaims, hconsumed⟩
    · rw [hclaims]
      rcases hp with hp | hp
      · exact ⟨hsub (h.consumed p hp).1, (h.consumed p hp).2⟩
      · exact ⟨hpresent (hconsumed p hp).1, (hconsumed p hp).2⟩
    · rcases hp with hp | hp
      · obtain ⟨hmem, hclaim⟩ := h.consumed p hp
        have hne : p.requestId ≠ q.requestId := by
          intro heq
          rw [heq, hnone] at hclaim
          cases hclaim
        exact ⟨hsub hmem, by rw [hclaims, update_of_ne hne, hclaim]⟩
      · obtain rfl := hconsumed p hp
        exact ⟨hpresent hcall, by rw [hclaims, update_self]⟩

theorem replayInv_run (h : (ConsumeHost.machine env).Run .empty es s) : ReplayInv env es s := by
  refine h.history (H := ReplayInv env) ?_ fun es e _ hinv he => hinv.step he
  exact ⟨by simp [presentations], by simp [ConsumeHost.empty], by simp [bindings],
    by simp [ConsumeHost.empty], by simp [bindings], by simp [consumptions]⟩

/-- Presentations of one credential are always written alike. -/
def WrittenAlike (ps : List Presentation) : Prop :=
  ∀ p ∈ ps, ∀ q ∈ ps, p.credentialId = q.credentialId → p.Alike q

/-- **One credential, one attestation**, exactly as far as its id and the source issuer are
    always written alike. -/
theorem credential_identity (h : (ConsumeHost.machine env).Run .empty es s)
    (hsame : ∀ p ∈ presentations env es, ∀ q ∈ presentations env es, SameAdapter p.config q.config)
    (hfree : CollisionFree env (presentations env es)) :
    (∀ p ∈ presentations env es, ∀ q ∈ presentations env es,
      (p.credentialId = q.credentialId → (p.requestId = q.requestId ↔ p.Alike q)) ∧
      (p.credentialId ≠ q.credentialId → p.requestId ≠ q.requestId)) ∧
    (WrittenAlike (presentations env es) →
      ((bindings es).map Presentation.credentialId).Nodup ∧
      (∀ p ∈ consumptions es, ∃ b ∈ bindings es, b.credentialId = p.credentialId ∧ b.token = p.token) ∧
      ∀ p ∈ consumptions es, ∀ q ∈ consumptions es, p.credentialId = q.credentialId →
        p.token = q.token ∧ p.credential.subject = q.credential.subject ∧ lower p.wallet = lower q.wallet) := by
  have hinv := replayInv_run h
  have hiff : ∀ p ∈ presentations env es, ∀ q ∈ presentations env es,
      (p.requestId = q.requestId ↔ p.Alike q) := by
    intro p hp q hq
    exact requestId_iff hfree hp hq (hinv.accepted p hp) (hinv.accepted q hq) (hsame p hp q hq)
  constructor
  · intro p hp q hq
    refine ⟨fun _ => hiff p hp q hq, ?_⟩
    intro hne heq
    exact hne (congrArg bytes32? ((hiff p hp q hq).1 heq).1)
  intro halike
  have hbinding : ∀ p ∈ consumptions es, ∃ b ∈ bindings es, b.requestId = p.requestId ∧ b.token = p.token := by
    intro p hp
    obtain ⟨hmem, hclaim⟩ := hinv.consumed p hp
    obtain ⟨b, hb, hr⟩ := hinv.store _ _ hclaim
    obtain ⟨hbmem, hbclaim⟩ := hinv.bindings b hb
    rw [hr, hclaim, Option.some.injEq] at hbclaim
    exact ⟨b, hb, hr, token_of_evidenceHash hfree hbmem hmem (hinv.accepted b hbmem)
      (hinv.accepted p hmem) hbclaim.symm⟩
  refine ⟨?_, ?_, ?_⟩
  · rw [List.nodup_iff_pairwise_ne, List.pairwise_map]
    have hnodup := hinv.nodup
    rw [List.nodup_iff_pairwise_ne, List.pairwise_map] at hnodup
    refine hnodup.imp_of_mem ?_
    intro p q hp hq hne heq
    have hpm := (hinv.bindings p hp).1
    have hqm := (hinv.bindings q hq).1
    exact hne ((hiff p hpm q hqm).2 (halike p hpm q hqm heq))
  · intro p hp
    obtain ⟨b, hb, hr, htoken⟩ := hbinding p hp
    have hj := (hiff b (hinv.bindings b hb).1 p (hinv.consumed p hp).1).1 hr
    exact ⟨b, hb, congrArg bytes32? hj.1, htoken⟩
  · intro p hp q hq heq
    have hpm := (hinv.consumed p hp).1
    have hqm := (hinv.consumed q hq).1
    have hr := (hiff p hpm q hqm).2 (halike p hpm q hqm heq)
    have hclaim := (hinv.consumed p hp).2
    rw [hr, (hinv.consumed q hq).2, Option.some.injEq] at hclaim
    have htoken := token_of_evidenceHash hfree hpm hqm (hinv.accepted p hpm) (hinv.accepted q hqm)
      hclaim.symm
    exact ⟨htoken, (hinv.accepted p hpm).wallet_eq (hinv.accepted q hqm) htoken⟩

/-- A credential that is not bound yet is consumed. -/
theorem consume_run {u : Unit} {c : CredentialConfig} {token wallet : JsString} {observed now : ℕ}
    {p : Presentation} (hc : validateConfig env c = .ok u)
    (hp : present env c token wallet observed = .ok p) (hnow : now < p.credential.expiry)
    (hcalls : s.calls = fun _ => none) (hclaims : s.claims p.requestId = none) :
    ∃ es s', (ConsumeHost.machine env).Run s es s' ∧ (s'.calls = fun _ => none) ∧
      s'.claims = update s.claims p.requestId (some p.credential.evidenceHash) ∧
      presentations env es = [p] ∧ bindings es = [p] ∧ consumptions es = [p] := by
  let s1 : ConsumeHost := s.setCall 0 (some (p, .status))
  let s2 : ConsumeHost := s1.setCall 0 (some (p, .claim))
  let s3 : ConsumeHost := ⟨fun _ => none, update s.claims p.requestId (some p.credential.evidenceHash)⟩
  have hcall1 : s1.calls 0 = some (p, .status) := by simp [s1, ConsumeHost.setCall]
  have hcall2 : s2.calls 0 = some (p, .claim) := by simp [s2, ConsumeHost.setCall]
  have h1 : (ConsumeHost.machine env).step s (.start 0 c token wallet observed) = .ok (s1, none) := by
    simp [ConsumeHost.machine, ConsumeHost.perform, hcalls, hc, hp, value?, revertIf, s1]
  have h2 : (ConsumeHost.machine env).step s1 (.status 0 .active now) = .ok (s2, none) := by
    have hafter : ConsumeHost.afterStatus p .active now = none := if_neg (Nat.not_le.2 hnow)
    simp only [ConsumeHost.machine, ConsumeHost.perform, hcall1, hafter]
    rfl
  have h3 : (ConsumeHost.machine env).step s2 (.claim 0 false) =
      .ok (s3, some (.ok (.active .fresh p.requestId p.credential))) := by
    have hclear : (s2.setCall 0 none).calls = fun _ => none := by
      simp [s2, s1, ConsumeHost.setCall, hcalls]
    have hstore : (s2.setCall 0 none).claims p.credential.requestId = none := hclaims
    simp only [ConsumeHost.machine, ConsumeHost.perform, hcall2, ConsumeHost.claim, hstore, hclear]
    rfl
  have hclaimed : ∀ w s', claimed ⟨s2, .claim 0 false, w, s'⟩ = some p := by
    intro w s'
    simp [claimed, hcall2]
  refine ⟨_, s3, ((Machine.Run.nil.snoc h1).snoc h2).snoc h3, rfl, rfl, ?_, ?_, ?_⟩
  · simp [presentations, presented, hp, value?]
  · have hbound : ∀ w s', bound ⟨s2, .claim 0 false, w, s'⟩ = some p := by
      intro w s'
      have hnone : s2.claims p.requestId = none := hclaims
      simp [bound, hclaimed, hnone]
    simp only [bindings, List.nil_append, List.cons_append, List.filterMap_cons, hbound]
    rfl
  · simp only [consumptions, List.nil_append, List.cons_append, List.filterMap_cons, consumed, hclaimed]
    rfl


end

/-! ## One provider -/

/-- A hash of the length and of the number that the bytes write. -/
def numberHash (bs : Bytes) : Bytes32 :=
  BitVec.ofNat 256 (bs.length * 2 ^ 240 + ofBytes bs % (2 ^ 239 - 31))

def providerEnv : CredentialEnv ℕ where
  numbers := Numbers.nat
  safeInteger? n := if n ≤ MAX_SAFE_INTEGER then some (n : ℤ) else none
  addresses := plainAddresses
  keccak256 := numberHash
  sha256 := numberHash
  hmacSha256 _ := numberHash
  recoverAddress _ r s odd := some (BitVec.ofNat 160 (if odd then s.toNat else r.toNat))

/-- The address of forty digits `d`. -/
def digitsAddress (d : ℕ) : Address := BitVec.ofNat 160 (d * ((16 ^ 40 - 1) / 15))

def providerConfig : CredentialConfig where
  id := ascii "a"
  issuerId := ascii "i"
  issuerAddress := plainAddresses.checksum (digitsAddress 1)
  keyId := ascii "k"
  audience := ascii "u"
  product := ascii "p"
  environment := .production
  model := .provider
  sourceIssuer := plainAddresses.checksum (digitsAddress 1)
  assurance := [(ascii "s", 3)]
  regimes := [(ascii "r", 1)]
  jurisdictions := [(ascii "KR", 410)]
  methods := [(ascii "w", 1)]
  requiredChecks := [ascii "w"]
  maxCredentialAgeSeconds := 86400
  credentialIdHmacKey := List.replicate 32 0x6b

def jsonText (s : String) : JsValue ℕ := .str (ascii s)

def providerHeader : List (JsString × JsValue ℕ) :=
  [(ascii "alg", jsonText "ES256K"), (ascii "typ", jsonText "JWT"), (ascii "kid", jsonText "k")]

def providerProof : List (JsString × JsValue ℕ) :=
  [(ascii "schema", .str EXTERNAL_CREDENTIAL_SCHEMA), (ascii "provider", jsonText "a"),
    (ascii "product", jsonText "p"), (ascii "environment", jsonText "production"), (ascii "assurance", jsonText "s"),
    (ascii "regime", jsonText "r"), (ascii "jurisdiction", jsonText "KR"), (ascii "checks", .arr [jsonText "w"]),
    (ascii "evidenceDigest", .str (bytes32Text 9))]

/-- The claims about a wallet under a credential id. -/
def providerPayload (wallet : Address) (jti : JsString) : List (JsString × JsValue ℕ) :=
  [(ascii "iss", jsonText "i"), (ascii "aud", jsonText "u"), (ascii "sub", .str (plainAddresses.checksum wallet)),
    (ascii "jti", .str jti), (ascii "iat", .num 1000), (ascii "exp", .num 2000),
    (ascii "proofmark", .obj providerProof)]

def providerSignature (wallet : Address) : Bytes :=
  toBytes 32 (digitsAddress 1).toNat ++ toBytes 32 wallet.toNat

def providerToken (wallet : Address) (jti : JsString) : JsString :=
  compactJws (objectBytes providerEnv providerHeader)
    (objectBytes providerEnv (providerPayload wallet jti)) (providerSignature wallet)

def providerClaims (wallet : Address) (jti : JsString) : CredentialClaims :=
  ⟨wallet, jti, 1000, 2000, ascii "s", ascii "r", ascii "KR", [ascii "w"], bytes32Text 9⟩

/-- What the adapter makes of a token. -/
def presentation (wallet : Address) (jti : JsString) : Presentation where
  config := providerConfig
  token := providerToken wallet jti
  wallet := plainAddresses.checksum wallet
  envelope := ⟨providerClaims wallet jti, numberHash (toUtf8 (providerToken wallet jti))⟩
  credential :=
    { subject := wallet
      issuer := some (plainAddresses.checksum (digitsAddress 1))
      methods := 1
      assurance := 3
      regime := 1
      jurisdiction := 410
      issuedAt := 1000
      expiry := 2000
      providerCredentialIdHash := numberHash (toUtf8 (ascii "a" ++ 0 :: jti))
      evidenceHash := numberHash (toUtf8 (providerToken wallet jti))
      requestId := numberHash (toBytes 32 (numberHash (toUtf8 (ascii "a" ++ 0 :: jti))).toNat ++
        toBytes 32 (numberHash (toUtf8 (plainAddresses.checksum (digitsAddress 1)))).toNat)
      attrs := 0x01030001019a0000000100000003e800000007d0000000000000000000000000
      claimsRoot := 0 }

def smallId : JsString := bytes32Text 0xabc

/-- The same id in capital letters. -/
def capitalId : JsString :=
  zeroX ++ (HexText.digits 64 0xabc).map fun u => if 0x61 ≤ u.toNat then u - 0x20 else u

example : lower capitalId = smallId ∧ capitalId ≠ smallId := by decide +kernel

theorem records_providerHeader : (JsValue.obj providerHeader).Records := by
  have h : JsValue.IsRecord (providerHeader.map Prod.fst) := by decide +kernel
  refine JsValue.allObjects_obj.2 ⟨h, ?_⟩
  simp [providerHeader, jsonText, JsValue.AllObjects]

theorem records_providerPayload (wallet : Address) (jti : JsString) :
    (JsValue.obj (providerPayload wallet jti)).Records := by
  have hproof : JsValue.IsRecord (providerProof.map Prod.fst) := by decide +kernel
  have h : JsValue.IsRecord ((providerPayload wallet jti).map Prod.fst) := by
    have hkeys : (providerPayload wallet jti).map Prod.fst = (providerPayload 0 []).map Prod.fst := rfl
    rw [hkeys]
    decide +kernel
  refine JsValue.allObjects_obj.2 ⟨h, ?_⟩
  have hp : (JsValue.obj providerProof).Records := by
    refine JsValue.allObjects_obj.2 ⟨hproof, ?_⟩
    simp [providerProof, jsonText, JsValue.AllObjects, JsValue.AllElements]
  simp only [providerPayload, List.forall_mem_cons]
  exact ⟨trivial, trivial, trivial, trivial, trivial, trivial, hp, by simp⟩

theorem normalize_provider (wallet : Address) (jti : JsString) :
    normalize providerEnv providerConfig (presentation wallet jti).envelope =
      .ok (presentation wallet jti).credential := by
  have hattrs : packAttrs ⟨1, 3, 1, 410, 1, 1000, 2000, 0⟩ =
      .ok (presentation 0 []).credential.attrs := by decide +kernel
  have hassurance : providerConfig.assurance.lookup (ascii "s") = some 3 := by decide +kernel
  have hregime : providerConfig.regimes.lookup (ascii "r") = some 1 := by decide +kernel
  have hjurisdiction : providerConfig.jurisdictions.lookup (ascii "KR") = some 410 := by decide +kernel
  have hmethods : (methodMask providerConfig [ascii "w"]).toNat = 1 := by decide +kernel
  have hexpiry : min 2000 (1000 + providerConfig.maxCredentialAgeSeconds) = 2000 := by decide +kernel
  have hissuer : providerEnv.addresses.getAddress providerConfig.sourceIssuer =
      some (plainAddresses.checksum (digitsAddress 1)) := by decide +kernel
  simp only [normalize, presentation, providerClaims, hassurance, hregime, hjurisdiction, orRevert, ok_bind,
    hmethods, hexpiry, hattrs, hissuer]
  rfl

theorem recoverSigner_provider {wallet : Address} (hwallet : wallet ≠ digitsAddress 1) (input : JsString) :
    recoverSigner providerEnv input (segment (providerSignature wallet)) =
      .ok [plainAddresses.checksum (digitsAddress 1), plainAddresses.checksum wallet] := by
  have hlength : (providerSignature wallet).length = 64 := by simp [providerSignature]
  have hword : ∀ a : Address, BitVec.ofNat 160 (BitVec.ofNat 256 (ofBytes (toBytes 32 a.toNat))).toNat = a := by
    intro a
    have ha := a.isLt
    have hmod : a.toNat % 256 ^ 32 = a.toNat := Nat.mod_eq_of_lt (by omega)
    rw [ofBytes_toBytes, hmod, BitVec.toNat_ofNat, Nat.mod_eq_of_lt (by omega)]
    simp
  have hr : (providerSignature wallet).take 32 = toBytes 32 (digitsAddress 1).toNat :=
    List.take_left' (length_toBytes 32 _)
  have hs : (providerSignature wallet).drop 32 = toBytes 32 wallet.toNat :=
    List.drop_left' (length_toBytes 32 _)
  have hlower : ∀ a, lower (plainAddresses.checksum a) = plainAddresses.checksum a := by
    exact plainAddresses.lower_checksum
  have hne : plainAddresses.checksum (digitsAddress 1) ≠ plainAddresses.checksum wallet := by
    intro h
    have hback := congrArg plainAddresses.address? h
    rw [plainAddresses.address?_checksum, plainAddresses.address?_checksum, Option.some.injEq] at hback
    exact hwallet hback.symm
  rw [recoverSigner, decodeBase64Url_segment (by omega) (by omega), ok_bind, revertIf_of_not (by simp [hlength]),
    ok_bind]
  simp only [providerEnv, orRevert, ok_bind, hr, hs, Bool.false_eq_true, if_false, if_true, hword, hlower]
  rw [revertIf_of_not (by simpa using hne), ok_bind]
  rfl

theorem present_provider {wallet : Address} {jti : JsString}
    (hsize : (objectBytes providerEnv (providerPayload wallet jti)).length ≤ 16384)
    (hwallet : isAddress providerEnv (plainAddresses.checksum wallet) = true ∧
      same (plainAddresses.checksum wallet) ZeroAddress = false)
    (hsigner : wallet ≠ digitsAddress 1)
    (hclaims : checkClaims providerEnv providerConfig (providerPayload wallet jti)
      (plainAddresses.checksum wallet) 1500 = .ok (providerClaims wallet jti)) :
    present providerEnv providerConfig (providerToken wallet jti) (plainAddresses.checksum wallet) 1500 =
      .ok (presentation wallet jti) := by
  have hheader : exactKeys providerHeader [ascii "alg", ascii "typ", ascii "kid"] = true ∧
      stringAt providerHeader "alg" = some (ascii "ES256K") ∧
      stringAt providerHeader "typ" = some (ascii "JWT") ∧
      stringAt providerHeader "kid" = some providerConfig.keyId := by decide +kernel
  have hissuer : same (plainAddresses.checksum (digitsAddress 1)) providerConfig.issuerAddress = true := by
    simp [same, providerConfig]
  have hlen : 16 ≤ (providerToken wallet jti).length ∧ (providerToken wallet jti).length ≤ 32768 := by
    have hheaders : (objectBytes providerEnv providerHeader).length ≤ 1024 := by decide +kernel
    have hsignature : (providerSignature wallet).length = 64 := by simp [providerSignature]
    have h1 := length_segment (objectBytes providerEnv providerHeader)
    have h2 := length_segment (objectBytes providerEnv (providerPayload wallet jti))
    have h3 := length_segment (providerSignature wallet)
    simp only [providerToken, compactJws, List.length_append, List.length_cons]
    omega
  have hauth : authenticate providerEnv providerConfig (providerToken wallet jti)
      (plainAddresses.checksum wallet) 1500 = .ok (presentation wallet jti).envelope :=
    authenticate_compactJws records_providerHeader (by decide +kernel) (records_providerPayload wallet jti)
      hsize rfl hlen hwallet hheader (recoverSigner_provider hsigner _) ⟨_, List.mem_cons_self, hissuer⟩ hclaims
  rw [present, hauth, ok_bind, normalize_provider]
  rfl

def smallPresentation : Presentation := presentation (digitsAddress 2) smallId

/-- The same credential for another wallet. -/
def capitalPresentation : Presentation := presentation (digitsAddress 3) capitalId

/-- A presentation that the adapter makes of its own token and wallet. -/
abbrev PresentedNow : Type :=
  {p : Presentation // present providerEnv p.config p.token p.wallet 1500 = .ok p}

def presentedSmall : PresentedNow where
  val := smallPresentation
  property :=
    present_provider (by decide +kernel) (by decide +kernel) (by decide +kernel) (by decide +kernel)

def presentedCapital : PresentedNow where
  val := capitalPresentation
  property :=
    present_provider (by decide +kernel) (by decide +kernel) (by decide +kernel) (by decide +kernel)

theorem collisionFree_provider : CollisionFree providerEnv [smallPresentation, capitalPresentation] := by
  have hkeys : toUtf8 (credentialIdText providerConfig smallPresentation.envelope) ≠
      toUtf8 (credentialIdText providerConfig capitalPresentation.envelope) := by decide +kernel
  have hproviders : providerCredentialIdHash providerEnv providerConfig smallPresentation.envelope ≠
      providerCredentialIdHash providerEnv providerConfig capitalPresentation.envelope := by decide +kernel
  let inputs : List Bytes := [toUtf8 smallPresentation.token, toUtf8 providerConfig.sourceIssuer,
    requestBytes providerEnv providerConfig smallPresentation.envelope, toUtf8 capitalPresentation.token,
    requestBytes providerEnv providerConfig capitalPresentation.envelope]
  have hnodup : (inputs.map numberHash).Nodup := by decide +kernel
  have hmem : ∀ x ∈ [smallPresentation, capitalPresentation].flatMap (Presentation.hashed providerEnv),
      x ∈ inputs := by
    intro x hx
    simp only [List.flatMap_cons, List.flatMap_nil, Presentation.hashed, List.cons_append, List.nil_append,
      List.mem_cons, List.not_mem_nil, or_false, List.append_nil] at hx
    simp only [inputs, List.mem_cons, List.not_mem_nil, or_false]
    rcases hx with rfl | rfl | rfl | rfl | rfl | rfl
    · exact .inl rfl
    · exact .inr (.inl rfl)
    · exact .inr (.inr (.inl rfl))
    · exact .inr (.inr (.inr (.inl rfl)))
    · exact .inr (.inl rfl)
    · exact .inr (.inr (.inr (.inr rfl)))
  constructor
  · intro x hx y hy h
    exact List.inj_on_of_nodup_map hnodup (hmem x hx) (hmem y hy) h
  · intro p hp q hq h
    simp only [List.mem_cons, List.not_mem_nil, or_false] at hp hq
    rcases hp with rfl | rfl <;> rcases hq with rfl | rfl
    · rfl
    · exact absurd h hproviders
    · exact absurd h.symm hproviders
    · rfl

theorem validateConfig_provider : validateConfig providerEnv providerConfig = .ok () := by decide +kernel

theorem credential_identity_small : ∃ es s, (ConsumeHost.machine providerEnv).Run .empty es s ∧
    consumptions es = [smallPresentation] ∧ ((bindings es).map Presentation.credentialId).Nodup := by
  have hnow : 1500 < smallPresentation.credential.expiry := by decide +kernel
  obtain ⟨es, s, hrun, -, -, hpresent, -, hconsumed⟩ := consume_run (s := .empty)
    (p := smallPresentation) validateConfig_provider presentedSmall.2 hnow rfl rfl
  have hfree : CollisionFree providerEnv (presentations providerEnv es) :=
    collisionFree_provider.subset (by simp [hpresent])
  have hone : ∀ p ∈ presentations providerEnv es, p = smallPresentation := by simp [hpresent]
  refine ⟨es, _, hrun, hconsumed, ((credential_identity hrun ?_ hfree).2 ?_).1⟩
  · intro p hp q hq
    rw [hone p hp, hone q hq]
    exact ⟨rfl, rfl, rfl⟩
  · intro p hp q hq _
    rw [hone p hp, hone q hq]
    exact ⟨rfl, rfl⟩

/-- One credential, whose id two tokens write in small and in capital letters, is active for two
    wallets. -/
theorem credential_active_twice :
    ¬ ∀ es s, (ConsumeHost.machine providerEnv).Run .empty es s →
      (∀ p ∈ presentations providerEnv es, ∀ q ∈ presentations providerEnv es,
        SameAdapter p.config q.config) →
      CollisionFree providerEnv (presentations providerEnv es) →
      ∀ p ∈ consumptions es, ∀ q ∈ consumptions es, p.credentialId = q.credentialId →
        p.requestId = q.requestId ∧ lower p.wallet = lower q.wallet := by
  intro h
  have hnow : 1500 < smallPresentation.credential.expiry := by decide +kernel
  obtain ⟨es, s, hrun, hcalls, hclaims, hpresent, -, hconsumed⟩ := consume_run (s := .empty)
    (p := smallPresentation) validateConfig_provider presentedSmall.2 hnow rfl rfl
  have hfresh : s.claims capitalPresentation.requestId = none := by
    have hne : capitalPresentation.requestId ≠ smallPresentation.requestId := by decide +kernel
    rw [hclaims, update_of_ne hne]
    rfl
  have hnow' : 1500 < capitalPresentation.credential.expiry := by decide +kernel
  obtain ⟨es', s', hrun', -, -, hpresent', -, hconsumed'⟩ := consume_run
    (p := capitalPresentation) validateConfig_provider presentedCapital.2 hnow' hcalls hfresh
  have hpresents : presentations providerEnv (es ++ es') = [smallPresentation, capitalPresentation] := by
    rw [presentations, List.filterMap_append, ← presentations, ← presentations, hpresent, hpresent']
    rfl
  have hconsumes : consumptions (es ++ es') = [smallPresentation, capitalPresentation] := by
    rw [consumptions, List.filterMap_append, ← consumptions, ← consumptions, hconsumed, hconsumed']
    rfl
  have hwallets := h _ _ (hrun.append hrun') (by simp [hpresents, SameAdapter, smallPresentation,
      capitalPresentation, presentation]) (by rw [hpresents]; exact collisionFree_provider)
    smallPresentation (by simp [hconsumes]) capitalPresentation (by simp [hconsumes]) (by decide +kernel)
  exact absurd hwallets.2 (by decide +kernel)

example : smallPresentation.requestId ≠ capitalPresentation.requestId := by decide +kernel

end Proofmark
