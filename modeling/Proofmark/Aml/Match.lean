/-
  The index of the listed names and the retrieval of candidates (src/aml/match.ts, up to
  `candidatesFor`).

  A map of the source is a list of its entries in order of insertion.  The counters that
  bound the work are kept, and an operation that exceeds one fails.
-/
import Proofmark.Aml.EditDistance
import Proofmark.Lib.Keyed
import Proofmark.Lib.Postings
import Proofmark.Lib.Revert

namespace Proofmark

namespace Aml

open Revert

inductive ListId where
  | OFAC_SDN
  | UN_CONSOLIDATED
  | EU_FSF
deriving DecidableEq

/-- The fields of an entry that screening reads. -/
structure SanctionEntry where
  listId : ListId
  entryId : Str
  primaryName : Str
  names : List Str
  dobs : List Str
  countries : List Str
  cryptoAddresses : List Str
deriving DecidableEq

/-- `AmlMatchCapacityError`, and the limits that `limitsOf` refuses. -/
inductive MatchError where
  | AML_MATCH_CAPACITY (boundary : String)
  | invalidLimit
deriving DecidableEq

structure MatchLimits where
  maxIndexNames : ℕ
  maxIndexTokenPostings : ℕ
  maxIndexGramPostings : ℕ
  maxQueryTokens : ℕ
  maxQueryTokenPostings : ℕ
  maxVocabularyCandidates : ℕ
  maxCandidateNames : ℕ
deriving DecidableEq

def DEFAULT_MATCH_LIMITS : MatchLimits :=
  ⟨250000, 1500000, 3000000, 64, 300000, 100000, 100000⟩

/-- `limitsOf` -/
def MatchLimits.valid (l : MatchLimits) : Bool :=
  [l.maxIndexNames, l.maxIndexTokenPostings, l.maxIndexGramPostings, l.maxQueryTokens,
    l.maxQueryTokenPostings, l.maxVocabularyCandidates, l.maxCandidateNames].all fun value =>
      decide (1 ≤ value) && decide (value ≤ 2 ^ 53 - 1)

structure IndexedName where
  entryIdx : ℕ
  norm : Str
  tokens : List Str
  isAlias : Bool
deriving DecidableEq

structure Corpus where
  entries : List SanctionEntry
  names : List IndexedName
  byToken : List (Str × List ℕ)
  byDeletion : List (Str × List Str)
  byGram : List (Str × List Str)
  limits : MatchLimits
  /-- the latest assignment first -/
  byWallet : List (Str × ℕ)
deriving DecidableEq

/-- `throw new AmlMatchCapacityError(boundary)` when `count` exceeds `limit`. -/
def capacity (count limit : ℕ) (boundary : String) : Except MatchError Unit :=
  revertIf (limit < count) (.AML_MATCH_CAPACITY boundary)

variable (u : Unicode) (limits : MatchLimits)

/-! ## The index -/

/-- `/^0x[0-9a-fA-F]{40}$/` -/
def isEvmAddress (a : Str) : Bool :=
  a.length == 42 && a.take 2 == ['0', 'x'] && (a.drop 2).all fun c =>
    inRange 0x30 0x39 c || inRange 0x61 0x66 c || inRange 0x41 0x46 c

def indexWallets (entries : List SanctionEntry) : List (Str × ℕ) :=
  entries.zipIdx.foldl (fun m p =>
    (p.1.cryptoAddresses.filter isEvmAddress).foldl (fun m a => (u.toLowerCase a, p.2) :: m) m) []

/-- The names and the token postings so far. -/
structure NameIndex where
  names : List IndexedName
  byToken : List (Str × List ℕ)
  tokenPostings : ℕ

def postToken (idx : ℕ) (s : NameIndex) (t : Str) : Except MatchError NameIndex := do
  capacity (s.tokenPostings + 1) limits.maxIndexTokenPostings "index token postings"
  pure { s with byToken := Postings.post t idx s.byToken, tokenPostings := s.tokenPostings + 1 }

/-- The body of `e.names.forEach`. -/
def indexName (ei : ℕ) (s : NameIndex) (raw : Str × ℕ) : Except MatchError NameIndex :=
  let norm := normalizeName u raw.1
  if norm = [] then pure s
  else
    let toks := contentTokens (tokenize norm)
    if toks = [] then pure s
    else do
      let idx := s.names.length
      let s := { s with names := s.names ++ [⟨ei, norm, toks, decide (0 < raw.2)⟩] }
      capacity s.names.length limits.maxIndexNames "index names"
      toks.eraseDups.foldlM (postToken limits idx) s

def indexEntry (s : NameIndex) (e : SanctionEntry × ℕ) : Except MatchError NameIndex :=
  e.1.names.zipIdx.foldlM (indexName u limits e.2) s

def indexDeletions (vocabulary : List Str) : List (Str × List Str) :=
  (vocabulary.flatMap fun token => (deletionKeys u token).map fun key => (key, token)).foldl
    (fun m p => Postings.post p.1 p.2 m) []

/-- A gram posting; the count bounds them. -/
def postGram (s : List (Str × List Str) × ℕ) (p : Str × Str) :
    Except MatchError (List (Str × List Str) × ℕ) := do
  capacity (s.2 + 1) limits.maxIndexGramPostings "index gram postings"
  pure (Postings.post p.1 p.2 s.1, s.2 + 1)

def buildCorpus (entries : List SanctionEntry) : Except MatchError Corpus := do
  revertIf (¬ limits.valid) .invalidLimit
  let index ← entries.zipIdx.foldlM (indexEntry u limits) ⟨[], [], 0⟩
  let vocabulary := index.byToken.map Prod.fst
  let grams ← (vocabulary.flatMap fun token => (editGrams u token).map fun gram => (gram, token)).foldlM
    (postGram limits) ([], 0)
  pure
    { entries, names := index.names, byToken := index.byToken
      byDeletion := indexDeletions u vocabulary, byGram := grams.1, limits
      byWallet := indexWallets u entries }

/-! ## Scores -/

/-- Jaccard plus a containment bonus. -/
def nameScore (a b : List Str) : ℚ :=
  let a := a.eraseDups
  let b := b.eraseDups
  let inter := (a.filter fun t => b.contains t).length
  if inter = 0 then 0
  else
    let jac : ℚ := inter / (a.length + b.length - inter : ℕ)
    let small := min a.length b.length
    if small < 3 then jac
    else
      let contain : ℚ := inter / small * (95 / 100)
      let ratio : ℚ := small / max a.length b.length
      max jac (contain * (6 / 10 + 4 / 10 * ratio))

inductive MatchType where
  | exact_
  | fuzzy
  | alias_
  | romanized
  | wallet
deriving DecidableEq

/-- The score of a listed name in `candidatesFor`. -/
def candidateScore (matchType : MatchType) (tokens listed : List Str) : ℚ :=
  max (max (nameScore tokens listed)
    (if matchType = .romanized then 0 else editNameScore u tokens listed))
    (if matchType = .romanized then 0 else missingTokenNameScore u tokens listed)

/-! ## Candidates -/

structure Candidate where
  entry : SanctionEntry
  matchedName : Str
  score : ℚ
  matchType : MatchType
deriving DecidableEq

/-- `matchingTokens`, a set in order of insertion, and `postingVisits`. -/
structure TokenSearch where
  matchingTokens : List Str
  postingVisits : ℕ

/-- `matchingTokens.add` -/
def addToken (s : TokenSearch) (t : Str) : TokenSearch :=
  if t ∈ s.matchingTokens then s else { s with matchingTokens := s.matchingTokens ++ [t] }

section
variable (corpus : Corpus)

def visitDeletion (token : Str) (s : TokenSearch) (near : Str) : Except MatchError TokenSearch := do
  capacity (s.postingVisits + 1) corpus.limits.maxQueryTokenPostings "query token postings"
  let s := { s with postingVisits := s.postingVisits + 1 }
  pure (if withinOneEdit u token near then addToken s near else s)

/-- The set `vocabulary` and `postingVisits`. -/
def visitGram (s : List Str × ℕ) (near : Str) : Except MatchError (List Str × ℕ) := do
  capacity (s.2 + 1) corpus.limits.maxQueryTokenPostings "query token postings"
  let vocabulary := if near ∈ s.1 then s.1 else s.1 ++ [near]
  capacity vocabulary.length corpus.limits.maxVocabularyCandidates "query vocabulary candidates"
  pure (vocabulary, s.2 + 1)

/-- The tokens near one token of the query. -/
def searchToken (s : TokenSearch) (token : Str) : Except MatchError TokenSearch := do
  let s ← ((deletionKeys u token).flatMap fun key => Postings.get key corpus.byDeletion).foldlM
    (visitDeletion u corpus token) s
  let (vocabulary, visits) ←
    ((editGrams u token).flatMap fun gram => Postings.get gram corpus.byGram).foldlM
      (visitGram corpus) ([], s.postingVisits)
  pure ((vocabulary.filter fun near => withinSupportedEdits u token near).foldl addToken
    { s with postingVisits := visits })

/-- The retrieved tokens of the vocabulary. -/
def searchTokens (matchType : MatchType) (tokens : List Str) : Except MatchError TokenSearch :=
  if matchType = .romanized then pure ⟨tokens.eraseDups, 0⟩
  else tokens.eraseDups.foldlM (searchToken u corpus) ⟨tokens.eraseDups, 0⟩

/-- `candidateNames.add` -/
def addName (candidateNames : List ℕ) (ni : ℕ) : Except MatchError (List ℕ) := do
  let names := if ni ∈ candidateNames then candidateNames else candidateNames ++ [ni]
  capacity names.length corpus.limits.maxCandidateNames "query candidate names"
  pure names

/-- The names that have one matching token. -/
def visitToken (s : List ℕ × ℕ) (t : Str) : Except MatchError (List ℕ × ℕ) := do
  let l := Postings.get t corpus.byToken
  capacity (s.2 + l.length) corpus.limits.maxQueryTokenPostings "query token postings"
  let names ← l.foldlM (addName corpus) s.1
  pure (names, s.2 + l.length)

/-- A candidate for an entry replaces one of a lower score. -/
def keepBest (best : List (ℕ × Candidate)) (ei : ℕ) (c : Candidate) : List (ℕ × Candidate) :=
  match Keyed.find Prod.fst ei best with
  | none => best ++ [(ei, c)]
  | some prev =>
    if prev.2.score < c.score then Keyed.change Prod.fst ei (fun _ => (ei, c)) best else best

/-- The body of the last loop. -/
def scoreName (matchType : MatchType) (tokens : List Str) (minScore : ℚ)
    (best : List (ℕ × Candidate)) (ni : ℕ) : List (ℕ × Candidate) :=
  match corpus.names[ni]? with
  | none => best
  | some n =>
    let s := candidateScore u matchType tokens n.tokens
    if s < minScore then best
    else
      match corpus.entries[n.entryIdx]? with
      | none => best
      | some entry =>
        keepBest best n.entryIdx ⟨entry, n.norm, s,
          if n.isAlias = true ∧ matchType = .fuzzy then .alias_ else matchType⟩

def candidatesFor (tokens : List Str) (matchType : MatchType) (minScore : ℚ) :
    Except MatchError (List Candidate) := do
  capacity tokens.length corpus.limits.maxQueryTokens "query tokens"
  let s ← searchTokens u corpus matchType tokens
  let (candidateNames, _) ← s.matchingTokens.foldlM (visitToken corpus) ([], s.postingVisits)
  let best := candidateNames.foldl (scoreName u corpus matchType tokens minScore) []
  pure ((best.map Prod.snd).insertionSort fun x y => y.score ≤ x.score)

end

end Aml

end Proofmark
