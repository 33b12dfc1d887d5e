/-
  The evidence vault (src/pipeline/vault.ts): its records, their retention controls and
  the outbox of revocation jobs.

  An operation of the vault runs under the writer lock on the authoritative file and
  replaces it, or throws and leaves it; encryption, the lock and the revision counter are
  not part of the data below.  The keyed digests and the comparison of job ids are the
  environment.
-/
import Proofmark.Pipeline.PublicationJournal
import Mathlib.Logic.Function.Basic

namespace Proofmark

open Revert Function

inductive ComplianceState where
  | pending
  | active
  | review
  | blocked
  | rejected
deriving DecidableEq

inductive ScreeningDecision where
  | allow
  | review
  | block
deriving DecidableEq

inductive ReviewOutcome where
  | cleared
  | blocked
deriving DecidableEq

inductive CredentialDisposition where
  | unchanged
  | sourceRevoked
  | notIssued
deriving DecidableEq

structure ReviewEvent where
  at_ : ℤ
  operator : String
  outcome : ReviewOutcome
  reason : String
  basedOn : Option Bytes32
deriving DecidableEq

structure RescreenEvent where
  at_ : ℤ
  decision : ScreeningDecision
  reason : Option String
  listVersions : List (String × ℤ)
deriving DecidableEq

structure SourceIssuanceObservation where
  transactionHash : Bytes32
  chainId : ℤ
  source : Address
  observedAt : ℤ
  hubMaterialized : Bool
deriving DecidableEq

structure RetentionPolicyEvidence where
  policyId : String
  customerId : String
  approvalRef : Option String
  credentialDisposition : CredentialDisposition
  vaultDeleteAt : ℤ
deriving DecidableEq

/-- A retained case; `content` stands for the fields that only the digests read. -/
structure VaultRecord where
  id : String
  walletAddress : String
  fullName : String
  content : String
  /-- The customer of the processing policy. -/
  processingCustomer : Option String
  retentionPolicy : Option RetentionPolicyEvidence
  evidenceHash : String
  state : ComplianceState
  createdAt : ℤ
  retentionUntil : ℤ
  lastScreenedAt : Option ℤ
  rescreens : List RescreenEvent
  reviews : List ReviewEvent
  sourceIssuance : Option SourceIssuanceObservation
deriving DecidableEq

structure DeletionApproval where
  operator : String
  at_ : ℤ
deriving DecidableEq

structure DeletionRequest where
  id : String
  fingerprint : Bytes32
  requestedAt : ℤ
  operator : String
  policyRef : String
  serviceRef : String
  disposition : CredentialDisposition
  automatic : Bool
  approval : Option DeletionApproval
deriving DecidableEq

structure RetentionExtension where
  until_ : ℤ
  operator : String
  reference : String
  at_ : ℤ
deriving DecidableEq

structure HoldRelease where
  operator : String
  reference : String
  at_ : ℤ
deriving DecidableEq

structure RetentionHold where
  id : String
  operator : String
  reference : String
  at_ : ℤ
  release : Option HoldRelease
deriving DecidableEq

structure RetentionControls where
  minimumUntil : Option ℤ
  extensions : List RetentionExtension
  holds : List RetentionHold
  requests : List DeletionRequest
deriving DecidableEq

def RetentionControls.empty : RetentionControls := ⟨none, [], [], []⟩

/-- The id of a job, `${record.id}:revoke:${at}`. -/
structure RevocationJobId where
  recordId : String
  at_ : ℤ
deriving DecidableEq

inductive RevocationJobState where
  | pending
  | prepared
  | confirmed
deriving DecidableEq

structure RevocationTransaction where
  hash : Bytes32
  raw : Bytes
  chainId : ℤ
  source : Address
deriving DecidableEq

/-- A normalised observation; `content` stands for what only the digests read. -/
structure RevocationObservation where
  observedAt : ℤ
  transactionHash : Bytes32
  source : Address
  content : String
deriving DecidableEq

structure RevocationJob where
  id : RevocationJobId
  recordId : String
  walletAddress : String
  createdAt : ℤ
  state : RevocationJobState
  sourceTarget : Option (ℤ × Address)
  transaction : Option RevocationTransaction
  confirmedAt : Option ℤ
  lastError : Option String
  observations : List (ℤ × RevocationObservation)
deriving DecidableEq

structure VaultErasure where
  recordId : String
  at_ : ℤ
  reason : String
  requestId : String
deriving DecidableEq

inductive DeletionBlocker where
  | invalidRetention
  | retentionNotExpired
  | recordTimeInvalid
  | legalHold
  | issuancePending
  | reviewPending
  | revocationPending
  | revocationNotReconciled
  | deletionNotApproved
  | deletionRequestStale
  | approvalTimeInvalid
deriving DecidableEq

inductive VaultError where
  | invalidTimestamp
  | invalidReference
  | incompleteRecord
  | erasedRecord
  | retentionPrecedesCreation
  | policyMismatch
  | evidenceConflict
  | unknownRecord
  | materializationMismatch
  | sourceConfirmationMismatch
  | invalidSourceConfirmation
  | sourceConfirmationConflict
  | rescreenRecordChanged
  | terminalState
  | rescreenBackdated
  | reviewRecordChanged
  | reviewBackdated
  | pendingRevocation
  | retentionOnlyExtended
  | holdUsed
  | unknownHold
  | holdReleaseBackdated
  | deletionPolicyMismatch
  | deletionBlocked (codes : List DeletionBlocker)
  | dispositionUnsupported
  | requestNotCurrent
  | sameApprover
  | alreadyApproved
  | approvalBackdated
  | requestStale
  | jobIdUsed
  | unknownJob
  | alreadyConfirmed
  | differentTransaction
  | noTransaction
  | cannotFailConfirmed
  | jobChanged
  | observationTarget
  | observationStale
  | observationBackdated

/-- The values of `records`, `erasures` and `revocations` in insertion order. -/
structure VaultData where
  records : List VaultRecord
  erasures : List VaultErasure
  revocations : List RevocationJob
  retention : String → Option RetentionControls

structure VaultEnv where
  /-- The HMAC of a record, its jobs and its controls. -/
  reviewDigest : VaultRecord → List RevocationJob → Option RetentionControls → Bytes32
  /-- The hash of a record, its minimum retention, extensions, holds and jobs. -/
  deletionDigest : VaultRecord → Option ℤ → List RetentionExtension → List RetentionHold →
    List RevocationJob → Bytes32
  /-- `a.id.localeCompare(b.id) <= 0` -/
  idLe : RevocationJobId → RevocationJobId → Bool

/-- The latest time at which a case was created, screened or reviewed. -/
def VaultRecord.latestDecisionAt (r : VaultRecord) : ℤ :=
  r.reviews.foldl (fun latest review => max latest review.at_)
    (max r.createdAt (r.lastScreenedAt.getD 0))

/-- The state of a case that is allowed or cleared. -/
def VaultRecord.clearedState (r : VaultRecord) : ComplianceState :=
  if r.state = .pending ∨ r.sourceIssuance.any fun o => ¬ o.hubMaterialized then .pending
  else .active

namespace VaultData

def timestamp (value : ℤ) : Except VaultError Unit :=
  revertIf (¬ safeInteger value 0) .invalidTimestamp

/-- `/^[A-Za-z0-9][A-Za-z0-9_.:-]{0,127}$/` -/
def isReference (value : String) : Bool :=
  match value.toList with
  | [] => false
  | c :: cs => c.isAlphanum && cs.length ≤ 127 &&
      cs.all fun c => c.isAlphanum || c ∈ ['_', '.', ':', '-']

def reference (value : String) : Except VaultError Unit :=
  revertIf (¬ isReference value) .invalidReference

def empty : VaultData := ⟨[], [], [], fun _ => none⟩

variable (env : VaultEnv) (d : VaultData)

def record (id : String) : Option VaultRecord := Keyed.find VaultRecord.id id d.records

def job (id : RevocationJobId) : Option RevocationJob := Keyed.find RevocationJob.id id d.revocations

/-- The jobs of a record. -/
def jobsOf (id : String) : List RevocationJob := d.revocations.filter fun j => j.recordId = id

def sortedJobsOf (id : String) : List RevocationJob :=
  (d.jobsOf id).mergeSort fun a b => env.idLe a.id b.id

def unconfirmed (id : String) : List RevocationJob :=
  d.revocations.filter fun j => j.recordId = id ∧ j.state ≠ .confirmed

def setRecord (r : VaultRecord) : VaultData :=
  { d with records := Keyed.change VaultRecord.id r.id (fun _ => r) d.records }

def setJob (j : RevocationJob) : VaultData :=
  { d with revocations := Keyed.change RevocationJob.id j.id (fun _ => j) d.revocations }

def controls (id : String) : RetentionControls := (d.retention id).getD .empty

def setControls (id : String) (c : RetentionControls) : VaultData :=
  { d with retention := update d.retention id (some c) }

def mustGet (id : String) : Except VaultError VaultRecord := orRevert (d.record id) .unknownRecord

def mustGetJob (id : RevocationJobId) : Except VaultError RevocationJob :=
  orRevert (d.job id) .unknownJob

def put (record : VaultRecord) : Except VaultError VaultData := do
  revertIf (record.id = "" ∨ record.walletAddress = "" ∨ record.fullName = "") .incompleteRecord
  revertIf (d.erasures.any fun event => event.recordId = record.id) .erasedRecord
  timestamp record.createdAt
  timestamp record.retentionUntil
  revertIf (record.retentionUntil < record.createdAt) .retentionPrecedesCreation
  revertIf (record.retentionPolicy.any fun policy =>
    policy.vaultDeleteAt ≠ record.retentionUntil ∨
      record.processingCustomer.any fun customer => policy.customerId ≠ customer) .policyMismatch
  match d.record record.id with
  | some existing =>
    revertIf (existing.evidenceHash ≠ record.evidenceHash) .evidenceConflict
    pure d
  | none => pure { d with records := d.records ++ [record] }

def recordMaterialization (id evidenceHash : String) : Except VaultError VaultData := do
  let record ← d.mustGet id
  revertIf (record.evidenceHash ≠ evidenceHash) .materializationMismatch
  pure (d.setRecord { record with
    sourceIssuance := record.sourceIssuance.map fun o => { o with hubMaterialized := true }
    state := if record.state = .pending then .active else record.state })

def recordSourceConfirmation (id evidenceHash : String) (observation : SourceIssuanceObservation) :
    Except VaultError VaultData := do
  let record ← d.mustGet id
  revertIf (record.evidenceHash ≠ evidenceHash) .sourceConfirmationMismatch
  timestamp observation.observedAt
  revertIf (¬ safeInteger observation.chainId 1 ∨ observation.observedAt < record.createdAt)
    .invalidSourceConfirmation
  match record.sourceIssuance with
  | some previous =>
    revertIf (previous.transactionHash ≠ observation.transactionHash ∨
      previous.chainId ≠ observation.chainId ∨ previous.source ≠ observation.source)
      .sourceConfirmationConflict
    pure d
  | none =>
    pure (d.setRecord { record with
      sourceIssuance := some { observation with hubMaterialized := false } })

def queueRevocation (record : VaultRecord) (at_ : ℤ) : Except VaultError VaultData :=
  if d.unconfirmed record.id ≠ [] then .ok d
  else if (d.job ⟨record.id, at_⟩).isSome then .error .jobIdUsed
  else .ok { d with
    revocations := d.revocations ++ [{
      id := ⟨record.id, at_⟩
      recordId := record.id
      walletAddress := record.walletAddress
      createdAt := at_
      state := .pending
      sourceTarget := record.sourceIssuance.map fun o => (o.chainId, o.source)
      transaction := none
      confirmedAt := none
      lastError := none
      observations := [] }] }

def recordRescreen (id : String) (event : RescreenEvent) (expected : VaultRecord) :
    Except VaultError VaultData := do
  let record ← orRevert (d.record id) .rescreenRecordChanged
  revertIf (record ≠ expected) .rescreenRecordChanged
  revertIf (record.state = .blocked ∨ record.state = .rejected) .terminalState
  timestamp event.at_
  revertIf (event.at_ < record.latestDecisionAt) .rescreenBackdated
  let screened := { record with
    lastScreenedAt := some event.at_
    rescreens := record.rescreens ++ [event]
    state := match event.decision with
      | .block => .blocked
      | .review => .review
      | .allow => record.clearedState }
  if event.decision = .block then (d.setRecord screened).queueRevocation screened event.at_
  else pure (d.setRecord screened)

def reviewRevision (record : VaultRecord) : Bytes32 :=
  env.reviewDigest record (d.sortedJobsOf env record.id) (d.retention record.id)

def decideReview (id : String) (event : ReviewEvent) (expectedRevision : Bytes32) :
    Except VaultError VaultData := do
  let record ← orRevert (d.record id) .reviewRecordChanged
  revertIf (d.reviewRevision env record ≠ expectedRevision) .reviewRecordChanged
  timestamp event.at_
  reference event.operator
  reference event.reason
  revertIf (event.at_ < record.latestDecisionAt) .reviewBackdated
  revertIf (event.outcome = .cleared ∧ d.unconfirmed id ≠ []) .pendingRevocation
  let reviewed := { record with
    reviews := record.reviews ++ [{ event with basedOn := some expectedRevision }]
    state := match event.outcome with
      | .cleared => record.clearedState
      | .blocked => .blocked }
  if event.outcome = .blocked then (d.setRecord reviewed).queueRevocation reviewed event.at_
  else pure (d.setRecord reviewed)

def extendRetention (id : String) (extension : RetentionExtension) : Except VaultError VaultData := do
  timestamp extension.at_
  timestamp extension.until_
  reference extension.operator
  reference extension.reference
  let record ← d.mustGet id
  let controls := d.controls id
  revertIf (extension.until_ ≤ max record.retentionUntil (controls.minimumUntil.getD 0))
    .retentionOnlyExtended
  pure (d.setControls id { controls with
    minimumUntil := some extension.until_
    extensions := controls.extensions ++ [extension] })

def placeHold (id holdId operator ref : String) (at_ : ℤ) : Except VaultError VaultData := do
  let _ ← d.mustGet id
  timestamp at_
  reference holdId
  reference operator
  reference ref
  let controls := d.controls id
  revertIf (controls.holds.any fun hold => hold.id = holdId) .holdUsed
  pure (d.setControls id { controls with
    holds := controls.holds ++ [⟨holdId, operator, ref, at_, none⟩] })

def releaseHold (id holdId operator ref : String) (at_ : ℤ) : Except VaultError VaultData := do
  let _ ← d.mustGet id
  timestamp at_
  reference operator
  reference ref
  let controls := d.controls id
  let hold ← orRevert (Keyed.find RetentionHold.id holdId controls.holds) .unknownHold
  revertIf hold.release.isSome .unknownHold
  revertIf (at_ < hold.at_) .holdReleaseBackdated
  pure (d.setControls id { controls with
    holds := Keyed.change RetentionHold.id holdId
      (fun hold => { hold with release := some ⟨operator, ref, at_⟩ }) controls.holds })

def retentionDeadline (record : VaultRecord) : ℤ :=
  max record.retentionUntil (((d.retention record.id).bind RetentionControls.minimumUntil).getD 0)

def safetyBlockers (record : VaultRecord) (now : ℤ) : List DeletionBlocker :=
  let deadline := d.retentionDeadline record
  let jobs := d.jobsOf record.id
  (if ¬ safeInteger record.retentionUntil record.createdAt ∨
      ¬ safeInteger deadline record.createdAt ∨ ¬ safeInteger record.createdAt 0 then
      [.invalidRetention]
    else if now < deadline then [.retentionNotExpired] else []) ++
  (if now < record.createdAt then [.recordTimeInvalid] else []) ++
  (if (d.controls record.id).holds.any fun hold => hold.release.isNone then [.legalHold] else []) ++
  (if record.state = .pending then [.issuancePending] else []) ++
  (if record.state = .review then [.reviewPending] else []) ++
  (if jobs.any fun job => job.state ≠ .confirmed then [.revocationPending] else []) ++
  (if record.state = .blocked ∧ ¬ jobs.any fun job => job.state = .confirmed then
    [.revocationNotReconciled] else [])

def deletionFingerprint (record : VaultRecord) : Bytes32 :=
  let controls := d.controls record.id
  env.deletionDigest record controls.minimumUntil controls.extensions controls.holds
    (d.sortedJobsOf env record.id)

/-- The current deletion request of a record. -/
def request (id : String) : Option DeletionRequest := (d.controls id).requests.getLast?

def deletionBlockers (record : VaultRecord) (now : ℤ) : List DeletionBlocker :=
  let request := d.request record.id
  let approval := request.bind DeletionRequest.approval
  d.safetyBlockers record now ++
  (if approval.isNone then [.deletionNotApproved] else []) ++
  (if request.any fun r => r.fingerprint ≠ d.deletionFingerprint env record then
    [.deletionRequestStale] else []) ++
  (if request.any fun r => approval.any fun a => now < a.at_ ∨ a.at_ < r.requestedAt then
    [.approvalTimeInvalid] else [])

/-- The decision that a deletion request records. -/
structure DeletionInput where
  operator : String
  policyRef : String
  serviceRef : String
  disposition : CredentialDisposition
  automatic : Bool

/-- `requestDeletion`, with the random id of the new request. -/
def requestDeletion (id requestId : String) (input : DeletionInput) (at_ : ℤ) :
    Except VaultError VaultData := do
  timestamp at_
  reference input.operator
  reference input.policyRef
  reference input.serviceRef
  let record ← d.mustGet id
  revertIf (record.retentionPolicy.any fun policy =>
    input.policyRef ≠ policy.approvalRef.getD policy.policyId ∨
      input.disposition ≠ policy.credentialDisposition) .deletionPolicyMismatch
  let blockers := (d.safetyBlockers record at_).filter (· ≠ .retentionNotExpired)
  revertIf (blockers ≠ []) (.deletionBlocked blockers)
  let confirmed := d.revocations.any fun job => job.recordId = id ∧ job.state = .confirmed
  revertIf (input.disposition = .sourceRevoked ∧ ¬ confirmed ∨
    input.disposition = .notIssued ∧ record.state ≠ .rejected ∨
    record.state = .blocked ∧ input.disposition ≠ .sourceRevoked) .dispositionUnsupported
  let controls := d.controls id
  pure (d.setControls id { controls with
    requests := controls.requests ++ [{
      id := requestId
      fingerprint := d.deletionFingerprint env record
      requestedAt := at_
      operator := input.operator
      policyRef := input.policyRef
      serviceRef := input.serviceRef
      disposition := input.disposition
      automatic := input.automatic
      approval := none }] })

def approveDeletion (id requestId operator : String) (at_ : ℤ) : Except VaultError VaultData := do
  timestamp at_
  reference operator
  let record ← d.mustGet id
  let request ← orRevert (d.request id) .requestNotCurrent
  revertIf (request.id ≠ requestId) .requestNotCurrent
  revertIf (request.operator = operator) .sameApprover
  revertIf request.approval.isSome .alreadyApproved
  revertIf (at_ < request.requestedAt) .approvalBackdated
  revertIf (request.fingerprint ≠ d.deletionFingerprint env record) .requestStale
  let blockers := (d.safetyBlockers record at_).filter (· ≠ .retentionNotExpired)
  revertIf (blockers ≠ []) (.deletionBlocked blockers)
  let controls := d.controls id
  pure (d.setControls id { controls with
    requests := controls.requests.dropLast ++
      [{ request with approval := some ⟨operator, at_⟩ }] })

def eraseApproved (record : VaultRecord) (request : DeletionRequest) (at_ : ℤ) : VaultData :=
  { d with
    records := d.records.filter fun r => r.id ≠ record.id
    erasures := d.erasures ++ [⟨record.id, at_, request.policyRef, request.id⟩] }

def erase (id requestId : String) (at_ : ℤ) : Except VaultError VaultData := do
  timestamp at_
  match d.record id with
  | none => pure d
  | some record =>
    let request ← orRevert (d.request id) .requestNotCurrent
    revertIf (request.id ≠ requestId) .requestNotCurrent
    let blockers := d.deletionBlockers env record at_
    revertIf (blockers ≠ []) (.deletionBlocked blockers)
    pure (d.eraseApproved record request at_)

/-- One turn of the loop of `purgeExpired`. -/
def purgeRecord (now : ℤ) (record : VaultRecord) : VaultData :=
  match d.request record.id with
  | none => d
  | some request =>
    if ¬ request.automatic ∨ d.deletionBlockers env record now ≠ [] then d
    else d.eraseApproved record request now

def purgeExpired (now : ℤ) : Except VaultError VaultData := do
  timestamp now
  pure (d.records.foldl (fun d record => d.purgeRecord env now record) d)

/-- One turn of the loop of `recoverBlockedRevocations`. -/
def recoverRecord (now : ℤ) (record : VaultRecord) : Except VaultError VaultData :=
  if record.state = .blocked ∧ d.jobsOf record.id = [] then d.queueRevocation record now
  else .ok d

def recoverBlockedRevocations (now : ℤ) : Except VaultError VaultData :=
  d.records.foldlM (fun d record => d.recoverRecord now record) d

def prepareRevocation (id : RevocationJobId) (transaction : RevocationTransaction) :
    Except VaultError VaultData := do
  let job ← d.mustGetJob id
  revertIf (job.state = .confirmed) .alreadyConfirmed
  revertIf (job.transaction.any fun t => t.hash ≠ transaction.hash) .differentTransaction
  pure (d.setJob { job with transaction := some transaction, state := .prepared })

def finishRevocation (id : RevocationJobId) (at_ : ℤ) : Except VaultError VaultData := do
  let job ← d.mustGetJob id
  let transaction ← orRevert job.transaction .noTransaction
  pure (d.setJob { job with
    state := .confirmed
    confirmedAt := some at_
    lastError := none
    transaction := some { transaction with raw := [] } })

def failRevocation (id : RevocationJobId) (error : String) (minedRevert : Bool) :
    Except VaultError VaultData := do
  let job ← d.mustGetJob id
  revertIf (job.state = .confirmed) .cannotFailConfirmed
  let failed := { job with lastError := some (error.take 200).toString }
  pure (d.setJob
    (if minedRevert then { failed with state := .pending, transaction := none } else failed))

/-- `recordRevocationObservation`, of a normalised observation. -/
def recordRevocationObservation (id : RevocationJobId) (expected : RevocationJob)
    (observation : RevocationObservation) (recordedAt : ℤ) : Except VaultError VaultData := do
  let job ← orRevert (d.job id) .jobChanged
  revertIf (job ≠ expected) .jobChanged
  timestamp recordedAt
  let transaction ← orRevert job.transaction .observationTarget
  revertIf (transaction.chainId ≠ 11155111 ∨ transaction.hash ≠ observation.transactionHash ∨
    transaction.source ≠ observation.source ∨
    job.sourceTarget.any fun t => t.1 ≠ 11155111 ∨ t.2 ≠ observation.source) .observationTarget
  revertIf (recordedAt < observation.observedAt * 1000 ∨
    recordedAt - observation.observedAt * 1000 > 300000 ∨ recordedAt < job.createdAt ∨
    observation.observedAt < job.createdAt / 1000) .observationStale
  match job.observations.getLast? with
  | none => pure (d.setJob { job with observations := [(recordedAt, observation)] })
  | some previous =>
    revertIf (observation.observedAt < previous.2.observedAt ∨ recordedAt < previous.1)
      .observationBackdated
    if previous.2 = observation then pure d
    else pure (d.setJob { job with
      observations := job.observations ++ [(recordedAt, observation)] })

end VaultData

inductive VaultOp where
  | put (record : VaultRecord)
  | recordMaterialization (id evidenceHash : String)
  | recordSourceConfirmation (id evidenceHash : String) (observation : SourceIssuanceObservation)
  | recordRescreen (id : String) (event : RescreenEvent) (expected : VaultRecord)
  | decideReview (id : String) (event : ReviewEvent) (expectedRevision : Bytes32)
  | extendRetention (id : String) (extension : RetentionExtension)
  | placeHold (id holdId operator ref : String) (at_ : ℤ)
  | releaseHold (id holdId operator ref : String) (at_ : ℤ)
  | requestDeletion (id requestId : String) (input : VaultData.DeletionInput) (at_ : ℤ)
  | approveDeletion (id requestId operator : String) (at_ : ℤ)
  | erase (id requestId : String) (at_ : ℤ)
  | purgeExpired (now : ℤ)
  | recoverBlockedRevocations (now : ℤ)
  | prepareRevocation (id : RevocationJobId) (transaction : RevocationTransaction)
  | finishRevocation (id : RevocationJobId) (at_ : ℤ)
  | failRevocation (id : RevocationJobId) (error : String) (minedRevert : Bool)
  | recordRevocationObservation (id : RevocationJobId) (expected : RevocationJob)
      (observation : RevocationObservation) (recordedAt : ℤ)

/-- What an operation writes, when it does not throw. -/
def VaultData.apply (env : VaultEnv) (d : VaultData) : VaultOp → Except VaultError VaultData
  | .put record => d.put record
  | .recordMaterialization id evidenceHash => d.recordMaterialization id evidenceHash
  | .recordSourceConfirmation id evidenceHash observation =>
    d.recordSourceConfirmation id evidenceHash observation
  | .recordRescreen id event expected => d.recordRescreen id event expected
  | .decideReview id event expectedRevision => d.decideReview env id event expectedRevision
  | .extendRetention id extension => d.extendRetention id extension
  | .placeHold id holdId operator ref at_ => d.placeHold id holdId operator ref at_
  | .releaseHold id holdId operator ref at_ => d.releaseHold id holdId operator ref at_
  | .requestDeletion id requestId input at_ => d.requestDeletion env id requestId input at_
  | .approveDeletion id requestId operator at_ => d.approveDeletion env id requestId operator at_
  | .erase id requestId at_ => d.erase env id requestId at_
  | .purgeExpired now => d.purgeExpired env now
  | .recoverBlockedRevocations now => d.recoverBlockedRevocations now
  | .prepareRevocation id transaction => d.prepareRevocation id transaction
  | .finishRevocation id at_ => d.finishRevocation id at_
  | .failRevocation id error minedRevert => d.failRevocation id error minedRevert
  | .recordRevocationObservation id expected observation recordedAt =>
    d.recordRevocationObservation id expected observation recordedAt

/-- The committed operations of a vault.  An operation that throws writes nothing. -/
def VaultData.machine (env : VaultEnv) : Machine VaultData VaultOp Unit VaultError where
  step d op := (d.apply env op).map fun d' => (d', ())

abbrev VaultStep := Machine.Entry VaultData VaultOp Unit

end Proofmark
