/-
  The hits of a name and the decision of the engine (`screenNames` of src/aml/match.ts,
  src/aml/engine.ts).
-/
import Proofmark.Aml.Identity
import Proofmark.Aml.Match
import Proofmark.Aml.Romanize

namespace Proofmark

namespace Aml

/-! ## Hits -/

inductive Corroboration where
  | dob
  | nationality
  | wallet
deriving DecidableEq

structure ScreeningHit where
  listId : ListId
  entryId : Str
  matchedName : Str
  score : ℚ
  matchType : MatchType
  corroborated : Bool
  corroboration : List Corroboration
  identityComparison : Option IdentityComparison
  directNameScore : Option ℚ
  inferredNameScore : Option ℚ
deriving DecidableEq

structure MatchInput where
  fullName : Str
  romanizedName : Option Str
  dob : Option Str
  nationality : Str
  walletAddress : Str
deriving DecidableEq

def ListId.toStr : ListId → Str
  | .OFAC_SDN => "OFAC_SDN".toList
  | .UN_CONSOLIDATED => "UN_CONSOLIDATED".toList
  | .EU_FSF => "EU_FSF".toList

/-- `${listId}:${entryId}` -/
def SanctionEntry.key (e : SanctionEntry) : Str := e.listId.toStr ++ ':' :: e.entryId

/-- `Number(x.toFixed(3))` -/
def toFixed3 (x : ℚ) : ℚ := ⌊x * 1000 + 1 / 2⌋ / 1000

section
variable (input : MatchInput)

def comparisonOf (e : SanctionEntry) : IdentityComparison :=
  compareIdentity input.dob input.nationality e.dobs e.countries

/-- `corro` -/
def corroborationOf (e : SanctionEntry) : List Corroboration :=
  let c := comparisonOf input e
  (if c.dob = .match_ ∨ c.dob = .yearMatch then [.dob] else []) ++
    if c.nationality = .match_ then [.nationality] else []

/-- The hit for the first candidate of an entry. -/
def newHit (c : Candidate) (type : MatchType) : ScreeningHit where
  listId := c.entry.listId
  entryId := c.entry.entryId
  matchedName := c.matchedName
  score := toFixed3 c.score
  matchType := type
  corroborated := decide (corroborationOf input c.entry ≠ []) &&
    !identityConflicts (comparisonOf input c.entry) && !identityUnusable (comparisonOf input c.entry)
  corroboration := corroborationOf input c.entry
  identityComparison := some (comparisonOf input c.entry)
  directNameScore := if type = .romanized then none else some c.score
  inferredNameScore := if type = .romanized then some c.score else none

/-- A further candidate of the entry. -/
def ScreeningHit.raise (prev : ScreeningHit) (c : Candidate) (type : MatchType) : ScreeningHit :=
  if prev.matchType = .wallet then prev
  else
    let prev := if type = .romanized then
        { prev with inferredNameScore := some (max (prev.inferredNameScore.getD 0) c.score) }
      else { prev with directNameScore := some (max (prev.directNameScore.getD 0) c.score) }
    if prev.score < c.score then
      { prev with score := c.score, matchType := type, matchedName := c.matchedName }
    else prev

/-- `push`; the hits with their keys in `byEntry`. -/
def push (hits : List (Str × ScreeningHit)) (p : Candidate × MatchType) :
    List (Str × ScreeningHit) :=
  match Keyed.find Prod.fst p.1.entry.key hits with
  | some _ => Keyed.change Prod.fst p.1.entry.key (fun h => (h.1, h.2.raise p.1 p.2)) hits
  | none => hits ++ [(p.1.entry.key, newHit input p.1 p.2)]

end

section
variable (u : Unicode) (corpus : Corpus) (input : MatchInput)

/-- `/^0x[0-9a-f]{40}$/` -/
def isLowerEvmAddress (a : Str) : Bool :=
  a.length == 42 && a.take 2 == ['0', 'x'] && (a.drop 2).all fun c =>
    inRange 0x30 0x39 c || inRange 0x61 0x66 c

/-- The wallet address, the strongest signal and not an inference. -/
def walletHits : List (Str × ScreeningHit) :=
  let w := u.toLowerCase input.walletAddress
  if isLowerEvmAddress w then
    match (corpus.byWallet.lookup w).bind fun ei => corpus.entries[ei]? with
    | some e =>
      [(e.key ++ ":wallet".toList,
        ⟨e.listId, e.entryId, e.primaryName, 1, .wallet, true, [.wallet], none, none, none⟩)]
    | none => []
  else []

/-- The candidates of one form of the name. -/
def pushName (matchType : MatchType) (minScore : ℚ) (type : Candidate → MatchType)
    (hits : List (Str × ScreeningHit)) (name : Str) :
    Except MatchError (List (Str × ScreeningHit)) :=
  let toks := nameTokens u name
  if toks = [] then pure hits
  else do
    let cs ← candidatesFor u corpus toks matchType minScore
    pure ((cs.map fun c => (c, type c)).foldl (push input) hits)

/-- The name as written, and the romanisation that the subject supplied. -/
def suppliedNames : List Str :=
  ((input.fullName :: input.romanizedName.toList).filter fun v => decide (v ≠ [])).eraseDups

def suppliedType (c : Candidate) : MatchType := if 999 / 1000 ≤ c.score then .exact_ else c.matchType

/-- The wallet and the name as written. -/
def screenSupplied : Except MatchError (List (Str × ScreeningHit)) :=
  (suppliedNames input).foldlM (pushName u corpus input .fuzzy (72 / 100) suppliedType)
    (walletHits u corpus input)

/-- The romanised expansion of a Hangul name. -/
def inferredNames : List Str :=
  if hasHangul input.fullName then romanizeVariants input.fullName else []

def screenInferred (hits : List (Str × ScreeningHit)) :
    Except MatchError (List (Str × ScreeningHit)) :=
  (inferredNames input).foldlM
    (pushName u corpus input .romanized (85 / 100) fun _ => .romanized) hits

def sortHits (hits : List (Str × ScreeningHit)) : List ScreeningHit :=
  (hits.map Prod.snd).insertionSort fun a b => b.score ≤ a.score

def screenNames : Except MatchError (List ScreeningHit) := do
  let hits ← screenSupplied u corpus input
  let hits ← screenInferred u corpus input hits
  pure (sortHits hits)

end

/-! ## The decision -/

inductive Decision where
  | ALLOW
  | REVIEW
  | BLOCK
deriving DecidableEq

inductive ReviewReason where
  | NAME_SIMILARITY
  | IDENTITY_CONFLICT
  | DOB_MISSING
  | HIGH_RISK_JURISDICTION
  | SCREENING_UNAVAILABLE
  | SCREENING_INPUT_INVALID
deriving DecidableEq

structure ScreeningSubject where
  fullName : Str
  romanizedName : Option Str
  dateOfBirth : Str
  nationality : Str
  residence : Str
  walletAddress : Str
deriving DecidableEq

structure ScreeningResult where
  decision : Decision
  reviewReason : Option ReviewReason
  riskBand : ℕ
  hits : List ScreeningHit
deriving DecidableEq

def ScreeningHit.blocks (h : ScreeningHit) : Bool :=
  h.matchType == .wallet || (h.corroborated && decide (88 / 100 ≤ h.score) &&
    h.identityComparison.any fun c => c.dob == .match_)

/-- An uncorroborated romanised hit does not move the decision. -/
def ScreeningHit.drivesDecision (h : ScreeningHit) : Bool :=
  h.matchType != .romanized || decide (82 / 100 ≤ h.directNameScore.getD 0) || h.corroborated ||
    decide (h.corroboration ≠ [])

def ScreeningHit.suspicious (h : ScreeningHit) : Bool :=
  !h.blocks && decide (82 / 100 ≤ h.score) && h.drivesDecision

section
variable (u : Unicode) (corpus : Corpus) (subject : ScreeningSubject)

def ScreeningSubject.input : MatchInput where
  fullName := subject.fullName
  romanizedName := subject.romanizedName
  dob := normalizeDob subject.dateOfBirth
  nationality := normalizeCountry u subject.nationality
  walletAddress := subject.walletAddress

def nameAvailable : Bool := decide (0 < corpus.names.length)

def nameApplied : Bool := nameAvailable corpus && decide (nameTokens u subject.fullName ≠ [])

def jurisdictionApplied : Bool :=
  isCountryCode (normalizeCountry u subject.nationality) &&
    isCountryCode (normalizeCountry u subject.residence)

/-- The level of `jr`. -/
def jurisdictionLevel : ℕ :=
  max (jurisdictionRisk u (normalizeCountry u subject.nationality))
    (jurisdictionRisk u (normalizeCountry u subject.residence))

/-- The decision over the hits. -/
def decideHits (hits : List ScreeningHit) : ScreeningResult :=
  if hits.any ScreeningHit.blocks then ⟨.BLOCK, none, 5, hits⟩
  else if hits.any ScreeningHit.suspicious then
    ⟨.REVIEW, some (if (hits.filter ScreeningHit.suspicious).any fun h =>
      h.identityComparison.any identityConflicts then .IDENTITY_CONFLICT else .NAME_SIMILARITY),
      4, hits⟩
  else if nameAvailable corpus = false then ⟨.REVIEW, some .SCREENING_UNAVAILABLE, 4, hits⟩
  else if nameApplied u corpus subject = false ∨ jurisdictionApplied u subject = false then
    ⟨.REVIEW, some .SCREENING_INPUT_INVALID, 4, hits⟩
  else if jurisdictionLevel u subject = 2 then ⟨.REVIEW, some .HIGH_RISK_JURISDICTION, 4, hits⟩
  else if normalizeDob subject.dateOfBirth = none then ⟨.REVIEW, some .DOB_MISSING, 3, hits⟩
  else if jurisdictionLevel u subject = 1 then ⟨.ALLOW, none, 3, hits⟩
  else ⟨.ALLOW, none, if hits = [] then 1 else 2, hits⟩

def screen : Except MatchError ScreeningResult := do
  let hits ← screenNames u corpus (subject.input u)
  pure (decideHits u corpus subject hits)

end

end Aml

end Proofmark
