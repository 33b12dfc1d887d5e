/-
  Roster bundles as bytes (src/pipeline/roster-bundle.ts, roster-bundle-availability.ts): the
  export of a record, what a loader reads, and the seeds that are staged before publication.

  A record has its texts as a caller writes them.  `normalize` gives the texts of the bundle,
  `read` their values, which `RosterBundle.checkedBundle` checks.  A file of a replica
  directory is named by the hash of its content.
-/
import Proofmark.Pipeline.RosterBundle
import Proofmark.Pipeline.WireText

namespace Proofmark

open Words Revert Utf8
open HexText (lower)
open JsValue (Numbers)
open Canonical (ascii)

/-- Finite numbers with the natural ones among them. -/
structure JsNumbers (ν : Type) where
  numbers : Numbers ν
  ofNat : ℕ → ν
  /-- The natural number, if it is one and a safe integer. -/
  toNat? : ν → Option ℕ
  toNat?_ofNat : ∀ n ≤ MAX_SAFE_INTEGER, toNat? (ofNat n) = some n
  text_ofNat : ∀ n ≤ MAX_SAFE_INTEGER, numbers.text (ofNat n) = (Nat.repr n).toList

structure ScopeText where
  sourceChainId : ℕ
  sourceChainKey : ℕ
  hubChainId : ℕ
  source : JsString
  asc : JsString
  registry : JsString
deriving DecidableEq

structure EntryText where
  subject : JsString
  attrs : JsString
  claimsRoot : JsString
  evidenceHash : JsString
  issuer : JsString
deriving DecidableEq

/-- `Omit<RosterBundle, 'bundleVersion' | 'scope'>` -/
structure RosterRecord where
  rosterFormatVersion : ℕ
  epochSchemaVersion : ℕ
  rosterAuthVersion : ℕ
  epoch : ℕ
  root : JsString
  listVersion : ℕ
  sourceCutoff : ℕ
  publishedAt : ℕ
  validUntil : ℕ
  snapshotId : JsString
  approvedIssuers : List JsString
  entries : List EntryText
deriving DecidableEq

/-- `RosterBundle` -/
structure BundleText extends RosterRecord where
  bundleVersion : ℕ
  scope : ScopeText
deriving DecidableEq

inductive BundleTextError where
  | invalidAddress
  | unreadable
  | bundle (e : RosterBundleError)
  | roster (e : RosterError)
  | rootMismatch
  | byteBudget
  | seedPinMismatch
  | invalidSeed
  | noncanonicalSeed
  | replicaDirectories
  | pathConflict
  | invalidStaged
  | seedUnavailable
deriving DecidableEq

structure ExportedBundle where
  bytes : Bytes
  contentHash : Bytes32
deriving DecidableEq

/-! ## JSON -/

section
variable {ν : Type} (K : JsNumbers ν)

def number (n : ℕ) : JsValue ν := .num (K.ofNat n)

def ScopeText.fields (s : ScopeText) : List (JsString × JsValue ν) :=
  [(ascii "sourceChainId", number K s.sourceChainId), (ascii "sourceChainKey", number K s.sourceChainKey),
    (ascii "hubChainId", number K s.hubChainId), (ascii "source", .str s.source),
    (ascii "asc", .str s.asc), (ascii "registry", .str s.registry)]

def EntryText.fields (e : EntryText) : List (JsString × JsValue ν) :=
  [(ascii "subject", .str e.subject), (ascii "attrs", .str e.attrs),
    (ascii "claimsRoot", .str e.claimsRoot), (ascii "evidenceHash", .str e.evidenceHash),
    (ascii "issuer", .str e.issuer)]

def BundleText.fields (b : BundleText) : List (JsString × JsValue ν) :=
  [(ascii "bundleVersion", number K b.bundleVersion),
    (ascii "rosterFormatVersion", number K b.rosterFormatVersion),
    (ascii "epochSchemaVersion", number K b.epochSchemaVersion),
    (ascii "rosterAuthVersion", number K b.rosterAuthVersion), (ascii "scope", .obj (b.scope.fields K)),
    (ascii "epoch", number K b.epoch), (ascii "root", .str b.root),
    (ascii "listVersion", number K b.listVersion), (ascii "sourceCutoff", number K b.sourceCutoff),
    (ascii "publishedAt", number K b.publishedAt), (ascii "validUntil", number K b.validUntil),
    (ascii "snapshotId", .str b.snapshotId),
    (ascii "approvedIssuers", .arr (b.approvedIssuers.map .str)),
    (ascii "entries", .arr (b.entries.map fun e => .obj e.fields))]

/-- The bytes of an object and a line feed. -/
def jsonLine (l : List (JsString × JsValue ν)) : Bytes :=
  encode ((JsValue.obj l).text K.numbers ++ ['\n'])

/-- The properties of the object that bytes write. -/
def parseLine (bs : Bytes) : Option (List (JsString × JsValue ν)) := do
  let text ← decodeText bs
  match ← JsValue.parse K.numbers text with
  | .obj l => some l
  | _ => none

variable (l : List (JsString × JsValue ν))

/-- The natural number at a property. -/
def naturalAt (key : String) : Option ℕ :=
  match l.lookup (ascii key) with
  | some (.num x) => K.toNat? x
  | _ => none

def ScopeText.ofFields : Option ScopeText := do
  pure
    { sourceChainId := ← naturalAt K l "sourceChainId"
      sourceChainKey := ← naturalAt K l "sourceChainKey"
      hubChainId := ← naturalAt K l "hubChainId"
      source := ← stringAt l "source"
      asc := ← stringAt l "asc"
      registry := ← stringAt l "registry" }

def EntryText.ofJson : JsValue ν → Option EntryText
  | .obj l => do
    pure
      { subject := ← stringAt l "subject"
        attrs := ← stringAt l "attrs"
        claimsRoot := ← stringAt l "claimsRoot"
        evidenceHash := ← stringAt l "evidenceHash"
        issuer := ← stringAt l "issuer" }
  | _ => none

/-- The record among the properties, with the given time of publication. -/
def RosterRecord.ofFields (publishedAt : ℕ) : Option RosterRecord := do
  pure
    { rosterFormatVersion := ← naturalAt K l "rosterFormatVersion"
      epochSchemaVersion := ← naturalAt K l "epochSchemaVersion"
      rosterAuthVersion := ← naturalAt K l "rosterAuthVersion"
      epoch := ← naturalAt K l "epoch"
      root := ← stringAt l "root"
      listVersion := ← naturalAt K l "listVersion"
      sourceCutoff := ← naturalAt K l "sourceCutoff"
      publishedAt
      validUntil := ← naturalAt K l "validUntil"
      snapshotId := ← stringAt l "snapshotId"
      approvedIssuers := ← stringsAt l "approvedIssuers"
      entries := ← (← arrayAt l "entries").mapM EntryText.ofJson }

def BundleText.ofFields : Option BundleText := do
  let record ← RosterRecord.ofFields K l (← naturalAt K l "publishedAt")
  pure
    { record with
      bundleVersion := ← naturalAt K l "bundleVersion"
      scope := ← ScopeText.ofFields K (← objectAt l "scope") }

end

def scopeKeys : List JsString :=
  [ascii "sourceChainId", ascii "sourceChainKey", ascii "hubChainId", ascii "source", ascii "asc",
    ascii "registry"]

def entryKeys : List JsString :=
  [ascii "subject", ascii "attrs", ascii "claimsRoot", ascii "evidenceHash", ascii "issuer"]

/-- The keys that a bundle and a seed share, in their order. -/
def recordKeys : List JsString :=
  [ascii "rosterFormatVersion", ascii "epochSchemaVersion", ascii "rosterAuthVersion", ascii "scope",
    ascii "epoch", ascii "root", ascii "listVersion", ascii "sourceCutoff", ascii "validUntil",
    ascii "snapshotId", ascii "approvedIssuers", ascii "entries"]

def seedKeys : List JsString := ascii "seedVersion" :: recordKeys

section
variable {ν : Type}

/-- `exactKeys` of the loader: no key but these. -/
def onlyKeys (l : List (JsString × JsValue ν)) (keys : List JsString) : Bool :=
  l.all fun f => keys.contains f.1

def entryKnown : JsValue ν → Bool
  | .obj l => onlyKeys l entryKeys
  | _ => false

/-- The checks of `checkedBundle` on keys. -/
def bundleKnown (l : List (JsString × JsValue ν)) : Bool :=
  onlyKeys l (ascii "bundleVersion" :: ascii "publishedAt" :: recordKeys) &&
    (objectAt l "scope").any (onlyKeys · scopeKeys) && (arrayAt l "entries").any (·.all entryKnown)

end

/-! ## Texts and values -/

section
variable (E : Addresses)

def EntryText.read (e : EntryText) : Option RosterEntry := do
  pure
    { subject := ← E.address? e.subject
      attrs := ← bytes32? e.attrs
      claimsRoot := ← bytes32? e.claimsRoot
      evidenceHash := ← bytes32? e.evidenceHash
      issuer := ← E.address? e.issuer }

def ScopeText.read (s : ScopeText) : Option RosterScope := do
  pure
    { sourceChainId := s.sourceChainId
      sourceChainKey := s.sourceChainKey
      hubChainId := s.hubChainId
      source := ← E.address? s.source
      asc := ← E.address? s.asc
      registry := ← E.address? s.registry }

/-- The values of the texts, where `isHexString` and `isAddress` accept them. -/
def BundleText.read (b : BundleText) : Option RosterBundle := do
  pure
    { bundleVersion := b.bundleVersion
      rosterFormatVersion := b.rosterFormatVersion
      epochSchemaVersion := b.epochSchemaVersion
      rosterAuthVersion := b.rosterAuthVersion
      scope := ← b.scope.read E
      epoch := b.epoch
      root := ← bytes32? b.root
      listVersion := b.listVersion
      sourceCutoff := b.sourceCutoff
      publishedAt := b.publishedAt
      validUntil := b.validUntil
      snapshotId := ← bytes32? b.snapshotId
      approvedIssuers := ← b.approvedIssuers.mapM E.address?
      entries := ← b.entries.mapM (EntryText.read E) }

/-- `BigInt` of an address. -/
def addressNumber (s : JsString) : ℕ := (hexString? 20 s).getD 0

def EntryText.normalize (e : EntryText) : Option EntryText := do
  pure
    { subject := ← E.getAddress e.subject
      attrs := lower e.attrs
      claimsRoot := lower e.claimsRoot
      evidenceHash := lower e.evidenceHash
      issuer := ← E.getAddress e.issuer }

def ScopeText.normalize (s : ScopeText) : Option ScopeText := do
  pure
    { s with
      source := ← E.getAddress s.source
      asc := ← E.getAddress s.asc
      registry := ← E.getAddress s.registry }

/-- What `exportRosterBundle` makes of its arguments. -/
def RosterRecord.normalize (r : RosterRecord) (scope : ScopeText) : Option BundleText := do
  let issuers ← r.approvedIssuers.mapM E.getAddress
  pure
    { r with
      bundleVersion := 1
      scope := ← scope.normalize E
      root := lower r.root
      snapshotId := lower r.snapshotId
      approvedIssuers := issuers.insertionSort fun a b => addressNumber a ≤ addressNumber b
      entries := ← r.entries.mapM (EntryText.normalize E) }

/-- An entry as `normalize` writes it. -/
def EntryText.ofEntry (e : RosterEntry) : EntryText where
  subject := E.checksum e.subject
  attrs := bytes32Text e.attrs
  claimsRoot := bytes32Text e.claimsRoot
  evidenceHash := bytes32Text e.evidenceHash
  issuer := E.checksum e.issuer

end

/-! ## Export and loading -/

section
variable {ν : Type} (E : Addresses) (K : JsNumbers ν) (keccak256 sha256 : Bytes → Bytes32)

/-- The last part of `exportRosterBundle`: the entries of the tree are those of the bundle in
    the order of their keys. -/
def BundleText.export (text : BundleText) : Except BundleTextError ExportedBundle := do
  let value ← orRevert (text.read E) .unreadable
  let bundle ← (RosterBundle.checkedBundle value).mapError .bundle
  let tree ← (Roster.buildRoster keccak256 Roster.EVM_NAMESPACE bundle.entries).mapError .roster
  revertIf (tree.root ≠ bundle.root) .rootMismatch
  let bytes := jsonLine K ({ text with entries := tree.entries.map (EntryText.ofEntry E) }.fields K)
  revertIf (RosterBundle.MAX_BUNDLE_BYTES < bytes.length) .byteBudget
  pure ⟨bytes, sha256 bytes⟩

def exportRosterBundle (r : RosterRecord) (scope : ScopeText) :
    Except BundleTextError ExportedBundle := do
  let text ← orRevert (r.normalize E scope) .invalidAddress
  text.export E K keccak256 sha256

/-- What `loadRosterBundle` decodes. -/
def decodeBundle (bytes : Bytes) : Option RosterBundle := do
  let l ← parseLine K bytes
  if bundleKnown l then (← BundleText.ofFields K l).read E else none

/-! ## Seeds -/

/-- The properties of the seed of a bundle. -/
def seedFields (l : List (JsString × JsValue ν)) : List (JsString × JsValue ν) :=
  (ascii "seedVersion", number K 1) ::
    l.filter fun f => f.1 ≠ ascii "bundleVersion" ∧ f.1 ≠ ascii "publishedAt"

def seedBytes (r : RosterRecord) (scope : ScopeText) : Except BundleTextError Bytes := do
  let bundle ← exportRosterBundle E K keccak256 sha256 { r with publishedAt := r.sourceCutoff } scope
  let normalized ← orRevert (parseLine K bundle.bytes) .unreadable
  pure (jsonLine K (seedFields K normalized))

def loadSeed (bytes : Bytes) (expectedHash : Bytes32) :
    Except BundleTextError (List (JsString × JsValue ν) × RosterRecord × ScopeText) := do
  revertIf (bytes.length = 0 ∨ RosterBundle.MAX_BUNDLE_BYTES < bytes.length ∨ sha256 bytes ≠ expectedHash)
    .seedPinMismatch
  let l ← orRevert (parseLine K bytes) .invalidSeed
  revertIf (naturalAt K l "seedVersion" ≠ some 1 ∨
    (l.map Prod.fst).insertionSort (fun a b => JsValue.keyLE a b = true) ≠
      seedKeys.insertionSort (fun a b => JsValue.keyLE a b = true)) .invalidSeed
  let record ← orRevert (RosterRecord.ofFields K l 0) .unreadable
  let scope ← orRevert ((objectAt l "scope").bind (ScopeText.ofFields K)) .unreadable
  revertIf (bytes ≠ (← seedBytes E K keccak256 sha256 record scope)) .noncanonicalSeed
  pure (l, record, scope)

def recoverRosterBundleFromSeed (bytes : Bytes) (expectedSeedHash : Bytes32) (publishedAt : ℕ) :
    Except BundleTextError ExportedBundle := do
  let (_, record, scope) ← loadSeed E K keccak256 sha256 bytes expectedSeedHash
  exportRosterBundle E K keccak256 sha256 { record with publishedAt } scope

end

/-! ## Replicas -/

/-- A file of a replica directory. -/
inductive ReplicaFile (D : Type) where
  | seed (directory : D) (seedHash : Bytes32)
  | bundle (directory : D) (contentHash : Bytes32)
deriving DecidableEq

/-- `StagedRosterBundleReplicas`; the number of replicas is that of the directories. -/
structure StagedReplicas (D : Type) where
  seedHash : Bytes32
  seedFiles : List (ReplicaFile D)
  replicaDirectories : List D

structure FinalizedReplicas (D : Type) where
  seedHash : Bytes32
  contentHash : Bytes32
  files : List (ReplicaFile D)

/-- The contents of the files. -/
abbrev Files (D : Type) := ReplicaFile D → Option Bytes

section
variable {D : Type} [DecidableEq D]

def writeImmutable (files : Files D) (path : ReplicaFile D) (bytes : Bytes) :
    Except BundleTextError (Files D) :=
  match files path with
  | none => pure (Function.update files path (some bytes))
  | some existing => if existing = bytes then pure files else .error .pathConflict

def writeAll (bytes : Bytes) : List (ReplicaFile D) → Files D → Except BundleTextError (Files D)
  | [], files => pure files
  | path :: paths, files => do writeAll bytes paths (← writeImmutable files path bytes)

variable {ν : Type} (E : Addresses) (K : JsNumbers ν) (keccak256 sha256 : Bytes → Bytes32)

/-- The seed in a file. -/
def readSeed (files : Files D) (seedHash : Bytes32) (path : ReplicaFile D) :
    Except BundleTextError (List (JsString × JsValue ν) × RosterRecord × ScopeText) := do
  let bytes ← orRevert (files path) .seedUnavailable
  (loadSeed E K keccak256 sha256 bytes seedHash).mapError fun _ => .seedUnavailable

/-- `stageRosterBundleReplicas`, over the directories that the paths resolve to -/
def stageRosterBundleReplicas (r : RosterRecord) (scope : ScopeText) (directories : List D)
    (files : Files D) : Except BundleTextError (StagedReplicas D × Files D) := do
  revertIf (directories.length < 2 ∨ ¬ directories.Nodup) .replicaDirectories
  let bytes ← seedBytes E K keccak256 sha256 r scope
  let seedHash := sha256 bytes
  let paths := directories.map fun directory => ReplicaFile.seed directory seedHash
  let files ← writeAll bytes paths files
  let _ ← paths.mapM (readSeed E K keccak256 sha256 files seedHash)
  pure (⟨seedHash, paths, directories⟩, files)

/-- `finalizeRosterBundleReplicas` -/
def finalizeRosterBundleReplicas (staged : StagedReplicas D) (publishedAt : ℕ) (files : Files D) :
    Except BundleTextError (FinalizedReplicas D × Files D) := do
  revertIf (staged.replicaDirectories.length < 2 ∨
    staged.seedFiles.length ≠ staged.replicaDirectories.length) .invalidStaged
  match ← staged.seedFiles.mapM (readSeed E K keccak256 sha256 files staged.seedHash) with
  | [] => .error .invalidStaged
  | (l, record, scope) :: seeds => do
    let canonical := (JsValue.obj l).text K.numbers
    revertIf (∃ seed ∈ seeds, (JsValue.obj seed.1).text K.numbers ≠ canonical) .seedUnavailable
    let bundle ← exportRosterBundle E K keccak256 sha256 { record with publishedAt } scope
    let paths := staged.replicaDirectories.map fun directory => ReplicaFile.bundle directory bundle.contentHash
    let files ← writeAll bundle.bytes paths files
    pure (⟨staged.seedHash, bundle.contentHash, paths⟩, files)

end

end Proofmark
