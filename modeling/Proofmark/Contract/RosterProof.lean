/-
  `RosterProof` (src/lib/RosterProof.sol): membership and non-membership proofs
  against the root of an epoch roster, a positional Merkle tree over sorted keys.

  The hash is a parameter of every function, as everywhere in the model.
-/
import Proofmark.Evm.Types

namespace Proofmark

open Words

namespace RosterProof

structure Inclusion where
  index : U256
  leafCount : U256
  siblings : List Bytes32
deriving DecidableEq

/-- The gap between two adjacent leaves. -/
structure NonInclusion where
  left : Inclusion
  leftKey : Bytes32
  leftMark : Bytes32
  right : Inclusion
  rightKey : Bytes32
  rightMark : Bytes32

/-- `abi.encode(string, address)` -/
def encodeSubject (ns : Bytes) (subject : Address) : Bytes :=
  abiEncode [64, toWord subject, BitVec.ofNat 256 ns.length] ++ ns ++
    List.replicate ((32 - ns.length % 32) % 32) 0

section
variable (keccak256 : Bytes → Bytes32)

def subjectKey (ns : Bytes) (subject : Address) : Bytes32 := keccak256 (encodeSubject ns subject)

def markHash (attrs claimsRoot evidenceHash : Bytes32) (issuer : Address) : Bytes32 :=
  keccak256 (abiEncode [attrs, claimsRoot, evidenceHash, toWord issuer])

def leafOf (key mark : Bytes32) : Bytes32 := keccak256 (0x00 :: abiEncode [key, mark])

/-- `_node` -/
def node (l r : Bytes32) : Bytes32 := keccak256 (0x01 :: abiEncode [l, r])

def rootOf (treeRoot : Bytes32) (leafCount : U256) : Bytes32 :=
  keccak256 (0x02 :: abiEncode [leafCount, treeRoot])

/-- The loop of `verifyInclusion` and the test after it. -/
def inclusionLoop (root : Bytes32) (leafCount : U256) :
    Bytes32 → U256 → U256 → List Bytes32 → Bool
  | acc, idx, width, [] => width == 1 && idx == 0 && rootOf keccak256 acc leafCount == root
  | acc, idx, width, sibling :: siblings =>
    if width ≤ 1 then false
    else if width ≤ idx ^^^ 1 ∧ sibling ≠ acc then false
    else inclusionLoop root leafCount
      (if idx % 2 = 0 then node keccak256 acc sibling else node keccak256 sibling acc) (idx >>> 1)
      (width / 2 + width % 2) siblings

def verifyInclusion (root leaf : Bytes32) (p : Inclusion) : Bool :=
  if p.leafCount < 2 ∨ p.leafCount ≤ p.index ∨ p.siblings.length > 256 then false
  else inclusionLoop keccak256 root p.leafCount leaf p.index p.leafCount p.siblings

def verifyNonInclusion (root targetKey : Bytes32) (p : NonInclusion) : Bool :=
  if ¬ (p.leftKey < targetKey ∧ targetKey < p.rightKey) then false
  else if p.left.index = BitVec.allOnes 256 ∨ p.right.index ≠ p.left.index + 1 then false
  else if p.left.leafCount ≠ p.right.leafCount ∨
      p.left.siblings.length ≠ p.right.siblings.length then false
  else
    verifyInclusion keccak256 root (leafOf keccak256 p.leftKey p.leftMark) p.left &&
      verifyInclusion keccak256 root (leafOf keccak256 p.rightKey p.rightMark) p.right

end

end RosterProof

end Proofmark
