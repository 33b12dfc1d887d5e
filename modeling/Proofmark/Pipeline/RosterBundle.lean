/-
  Roster bundles (src/pipeline/roster-bundle.ts): the offline reconstruction of a published
  roster and the proofs it hands out.

  The bytes of a bundle are read by `sha256` and `decode`, which stands for the UTF-8 decoder
  and `JSON.parse`; a decoded bundle has the fields of its type and no others.
-/
import Proofmark.Pipeline.Roster

namespace Proofmark

open Revert

structure RosterScope where
  sourceChainId : ℕ
  sourceChainKey : ℕ
  hubChainId : ℕ
  source : Address
  asc : Address
  registry : Address
deriving DecidableEq

structure RosterBundle where
  bundleVersion : ℕ
  rosterFormatVersion : ℕ
  epochSchemaVersion : ℕ
  rosterAuthVersion : ℕ
  scope : RosterScope
  epoch : ℕ
  root : Bytes32
  listVersion : ℕ
  sourceCutoff : ℕ
  publishedAt : ℕ
  validUntil : ℕ
  snapshotId : Bytes32
  approvedIssuers : List Address
  entries : List RosterEntry
deriving DecidableEq

inductive RosterBundleError where
  | contentPinMismatch
  | undecodable
  | legacyRecord
  | invalidVersion
  | invalidScope
  | duplicateIssuer
  | invalidEntry
  | rosterError (e : RosterError)
  | rootMismatch
  | invalidSubject
  | undefinedEntry
deriving DecidableEq

/-- The mark of an entry as the registry takes it. -/
structure BundleMark where
  attrs : Bytes32
  claimsRoot : Bytes32
  evidenceHash : Bytes32
  issuer : Address
deriving DecidableEq

structure BundleMetadata where
  contentHash : Bytes32
  scope : RosterScope
  epoch : ℕ
  root : Bytes32
  sourceCutoff : ℕ
  publishedAt : ℕ
  validUntil : ℕ
  snapshotId : Bytes32
  listVersion : ℕ
  entryCount : ℕ

/-- What `proof` answers, apart from the metadata. -/
inductive BundleProof where
  | inclusion (subject : Address) (mark : BundleMark) (proof : InclusionProof)
  | nonInclusion (subject : Address) (proof : NonInclusionProof)

/-- A loaded bundle. -/
structure LoadedBundle where
  bundle : RosterBundle
  tree : RosterTree
  expectedContentHash : Bytes32
deriving DecidableEq

namespace RosterBundle

def MAX_BUNDLE_BYTES : ℕ := 64 * 1024 * 1024
def MAX_BUNDLE_ENTRIES : ℕ := 100000

def uint (n max min : ℕ) : Bool := decide (n ≤ MAX_SAFE_INTEGER ∧ min ≤ n ∧ n ≤ max)

/-- `assertRosterRecordVersion` (src/pipeline/roster-format.ts) -/
def assertRosterRecordVersion (b : RosterBundle) : Except RosterBundleError Unit :=
  revertIf (b.rosterFormatVersion ≠ 2 ∨ b.epochSchemaVersion ≠ 2 ∨ b.rosterAuthVersion ≠ 1)
    .legacyRecord

def checkEntries (b : RosterBundle) : List RosterEntry → Except RosterBundleError Unit
  | [] => pure ()
  | e :: es => do
    revertIf (e.subject = 0 ∨ e.issuer = 0 ∨
      ¬ validCredentialAttrs e.attrs (some b.sourceCutoff) ∨ e.issuer ∉ b.approvedIssuers) .invalidEntry
    checkEntries b es

def checkedBundle (b : RosterBundle) : Except RosterBundleError RosterBundle := do
  assertRosterRecordVersion b
  revertIf (b.bundleVersion ≠ 1) .invalidVersion
  revertIf (¬ uint b.scope.sourceChainId MAX_SAFE_INTEGER 1 ∨
    ¬ uint b.scope.hubChainId MAX_SAFE_INTEGER 1 ∨ ¬ uint b.scope.sourceChainKey MAX_SAFE_INTEGER 1 ∨
    b.scope.source = 0 ∨ b.scope.asc = 0 ∨ b.scope.registry = 0 ∨ ¬ uint b.epoch 0xffffffff 1 ∨
    ¬ uint b.listVersion 0xffffffff 0 ∨ b.root = 0 ∨ b.snapshotId = 0 ∨
    ¬ [b.sourceCutoff, b.publishedAt, b.validUntil].all (uint · 0xffffffffff 1) ∨
    b.publishedAt < b.sourceCutoff ∨ b.sourceCutoff + 3600 < b.publishedAt ∨
    b.validUntil ≤ b.publishedAt ∨ b.sourceCutoff + 86400 < b.validUntil ∨
    MAX_BUNDLE_ENTRIES < b.entries.length ∨ b.approvedIssuers.length < 1 ∨
    16 < b.approvedIssuers.length ∨ 0 ∈ b.approvedIssuers) .invalidScope
  revertIf (¬ b.approvedIssuers.Nodup) .duplicateIssuer
  checkEntries b b.entries
  pure b

/-- The search for the first key from `lo` on that is not below `key`. -/
def lowerBound (keys : List Bytes32) (key : Bytes32) (lo hi : ℕ) : ℕ :=
  if lo < hi then
    let mid := (lo + hi) / 2
    if keys.getD mid 0 < key then lowerBound keys key (mid + 1) hi
    else lowerBound keys key lo mid
  else lo
termination_by hi - lo

section
variable (keccak256 sha256 : Bytes → Bytes32) (decode : Bytes → Option RosterBundle)

def loadRosterBundle (bytes : Bytes) (expectedContentHash : Bytes32) :
    Except RosterBundleError LoadedBundle := do
  revertIf (bytes.length = 0 ∨ MAX_BUNDLE_BYTES < bytes.length ∨
    sha256 bytes ≠ expectedContentHash) .contentPinMismatch
  let value ← orRevert (decode bytes) .undecodable
  let bundle ← checkedBundle value
  let tree ← (Roster.buildRoster keccak256 Roster.EVM_NAMESPACE bundle.entries).mapError .rosterError
  revertIf (tree.root ≠ bundle.root) .rootMismatch
  pure { bundle, tree, expectedContentHash }

end

end RosterBundle

namespace LoadedBundle

variable (keccak256 : Bytes → Bytes32) (l : LoadedBundle)

def metadata : BundleMetadata := {
  contentHash := l.expectedContentHash, scope := l.bundle.scope, epoch := l.bundle.epoch
  root := l.tree.root, sourceCutoff := l.bundle.sourceCutoff, publishedAt := l.bundle.publishedAt
  validUntil := l.bundle.validUntil, snapshotId := l.bundle.snapshotId
  listVersion := l.bundle.listVersion, entryCount := l.tree.entries.length }

def proof (subject : Address) : Except RosterBundleError BundleProof := do
  revertIf (subject = 0) .invalidSubject
  let key := Roster.subjectKey keccak256 Roster.EVM_NAMESPACE subject
  let lo := RosterBundle.lowerBound l.tree.keys key 1 (l.tree.keys.length - 1)
  if l.tree.keys.getD lo 0 ≠ key then
    let left ← (Roster.inclusionProof l.tree (lo - 1)).mapError .rosterError
    let right ← (Roster.inclusionProof l.tree lo).mapError .rosterError
    pure (.nonInclusion subject {
      left, leftKey := l.tree.keys.getD (lo - 1) 0, leftMark := l.tree.marks.getD (lo - 1) 0
      right, rightKey := l.tree.keys.getD lo 0, rightMark := l.tree.marks.getD lo 0 })
  else
    -- the key of a sentinel has no entry
    let entry ← orRevert l.tree.entries[lo - 1]? .undefinedEntry
    let inclusion ← (Roster.inclusionProof l.tree (Roster.leafIndexOf (lo - 1))).mapError .rosterError
    pure (.inclusion subject ⟨entry.attrs, entry.claimsRoot, entry.evidenceHash, entry.issuer⟩
      inclusion)

end LoadedBundle

end Proofmark
