/-
  The epoch roster tree (src/pipeline/roster.ts).

  Hex strings are the words they spell, so that the order of the keys as strings is their
  order as numbers; array indices and counts are natural numbers.
-/
import Proofmark.Contract.RosterProof
import Proofmark.Lib.PositionalMerkle
import Proofmark.Pipeline.Attrs
import Mathlib.Data.List.Sort

namespace Proofmark

open Words Revert

structure RosterEntry where
  subject : Address
  attrs : Bytes32
  claimsRoot : Bytes32
  evidenceHash : Bytes32
  issuer : Address
deriving DecidableEq

structure RosterTree where
  /-- Sorted by subject key, without the sentinels. -/
  entries : List RosterEntry
  keys : List Bytes32
  marks : List Bytes32
  leaves : List Bytes32
  layers : List (List Bytes32)
  root : Bytes32
deriving DecidableEq

structure InclusionProof where
  index : ℕ
  leafCount : ℕ
  siblings : List Bytes32
deriving DecidableEq

structure NonInclusionProof where
  left : InclusionProof
  leftKey : Bytes32
  leftMark : Bytes32
  right : InclusionProof
  rightKey : Bytes32
  rightMark : Bytes32

inductive RosterError where
  | duplicateSubject (subject : Address)
  | sentinelCollision (subject : Address)
  | invalidLeafCount
  | indexOutOfRange
  | targetInRoster
  | outsideSentinelRange
deriving DecidableEq

namespace Roster

/-- `'eip155'` -/
def EVM_NAMESPACE : Bytes := [0x65, 0x69, 0x70, 0x31, 0x35, 0x35]

def MIN_KEY : Bytes32 := 0
def MAX_KEY : Bytes32 := BitVec.allOnes 256
def SENTINEL_MARK : Bytes32 := 0

/-- The tree index of `entries[i]`. -/
def leafIndexOf (i : ℕ) : ℕ := i + 1

section
variable (keccak256 : Bytes → Bytes32) (ns : Bytes)

def subjectKey (subject : Address) : Bytes32 := keccak256 (RosterProof.encodeSubject ns subject)

def markHash (e : RosterEntry) : Bytes32 :=
  keccak256 (abiEncode [e.attrs, e.claimsRoot, e.evidenceHash, toWord e.issuer])

def leafOf (key mark : Bytes32) : Bytes32 := keccak256 (0x00 :: abiEncode [key, mark])

def rosterLeaf (e : RosterEntry) : Bytes32 :=
  leafOf keccak256 (subjectKey keccak256 ns e.subject) (markHash keccak256 e)

def hashNode (left right : Bytes32) : Bytes32 := keccak256 (0x01 :: abiEncode [left, right])

def rosterRoot (treeRoot : Bytes32) (leafCount : ℕ) : Except RosterError Bytes32 := do
  revertIf (MAX_SAFE_INTEGER < leafCount ∨ leafCount < 2) .invalidLeafCount
  pure (keccak256 (0x02 :: abiEncode [BitVec.ofNat 256 leafCount, treeRoot]))

/-- The test for two equal neighbours. -/
def checkDistinct : List (RosterEntry × Bytes32) → Except RosterError Unit
  | a :: b :: l => do
    revertIf (b.2 = a.2) (.duplicateSubject b.1.subject)
    checkDistinct (b :: l)
  | _ => pure ()

def checkSentinels : List (RosterEntry × Bytes32) → Except RosterError Unit
  | [] => pure ()
  | a :: l => do
    revertIf (a.2 = MIN_KEY ∨ a.2 = MAX_KEY) (.sentinelCollision a.1.subject)
    checkSentinels l

def buildRoster (entries : List RosterEntry) : Except RosterError RosterTree := do
  let withKeys := (entries.map fun e => (e, subjectKey keccak256 ns e.subject)).insertionSort
    fun a b => a.2 ≤ b.2
  checkDistinct withKeys
  checkSentinels withKeys
  let sorted := withKeys.map Prod.fst
  let keys := MIN_KEY :: withKeys.map Prod.snd ++ [MAX_KEY]
  let marks := SENTINEL_MARK :: sorted.map (markHash keccak256) ++ [SENTINEL_MARK]
  let leaves := List.zipWith (leafOf keccak256) keys marks
  let layers := Merkle.layers (hashNode keccak256) leaves
  let top := (layers.getLast?.bind List.head?).getD 0
  let root ← rosterRoot keccak256 top leaves.length
  pure { entries := sorted, keys, marks, leaves, layers, root }

/-- An odd tail pairs with itself. -/
def inclusionProof (tree : RosterTree) (index : ℕ) : Except RosterError InclusionProof := do
  revertIf (MAX_SAFE_INTEGER < index ∨ tree.leaves.length ≤ index) .indexOutOfRange
  pure ⟨index, tree.leaves.length, Merkle.siblings tree.layers index⟩

def verifyInclusion (root leaf : Bytes32) (proof : InclusionProof) : Bool :=
  if MAX_SAFE_INTEGER < proof.index ∨ MAX_SAFE_INTEGER < proof.leafCount ∨ proof.leafCount < 2 ∨
      proof.leafCount ≤ proof.index ∨ 256 < proof.siblings.length then false
  else
    match Merkle.climb? (hashNode keccak256) leaf proof.index proof.leafCount proof.siblings with
    | none => false
    | some acc => value? (rosterRoot keccak256 acc proof.leafCount) == some root

def nonInclusionProof (tree : RosterTree) (target : Address) :
    Except RosterError NonInclusionProof := do
  let tk := subjectKey keccak256 ns target
  revertIf (tk ∈ tree.keys) .targetInRoster
  let hi ← orRevert (tree.keys.findIdx? fun k => tk < k) .outsideSentinelRange
  revertIf (hi = 0) .outsideSentinelRange
  let lo := hi - 1
  pure {
    left := ← inclusionProof tree lo, leftKey := tree.keys.getD lo 0, leftMark := tree.marks.getD lo 0
    right := ← inclusionProof tree hi, rightKey := tree.keys.getD hi 0
    rightMark := tree.marks.getD hi 0 }

def verifyNonInclusion (root : Bytes32) (target : Address) (proof : NonInclusionProof) : Bool :=
  let tk := subjectKey keccak256 ns target
  if ¬ (proof.leftKey < tk ∧ tk < proof.rightKey) then false
  else if proof.right.index ≠ proof.left.index + 1 then false
  else if proof.left.leafCount ≠ proof.right.leafCount ∨
      proof.left.siblings.length ≠ proof.right.siblings.length then false
  else
    verifyInclusion keccak256 root (leafOf keccak256 proof.leftKey proof.leftMark) proof.left &&
      verifyInclusion keccak256 root (leafOf keccak256 proof.rightKey proof.rightMark) proof.right

end

end Roster

end Proofmark
