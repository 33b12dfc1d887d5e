/-
  The evidence chain and the claim commitments (src/pipeline/evidence.ts, claims.ts,
  merkle.ts).

  The hash function is a parameter.  A `bytes32` is written in lower-case hexadecimal where a
  string is called for, so that the order of the strings is the order of the numbers.
-/
import Proofmark.Evm.Types
import Proofmark.Lib.Json

namespace Proofmark

open Words

/-- `toUtf8Bytes` -/
def utf8 (s : String) : Bytes := s.toUTF8.toList.map UInt8.toBitVec

/-- `0x` and the digits of a word. -/
def hex32 (w : Bytes32) : String :=
  String.ofList ('0' :: 'x' :: (toBytes 32 w.toNat).flatMap fun b =>
    [Json.hexDigit (b.toNat / 16), Json.hexDigit (b.toNat % 16)])

variable (keccak256 : Bytes → Bytes32)

/-! ## The evidence chain -/

structure EvidenceStep where
  step : String
  at_ : ℕ
  payload : Json

def EvidenceStep.toJson (s : EvidenceStep) : Json :=
  .obj [("step", .str s.step), ("at", .num s.at_), ("payload", s.payload)]

namespace EvidenceChain

/-- One link of the chain. -/
def link (head : Bytes32) (s : EvidenceStep) : Bytes32 :=
  keccak256 (toBytes 32 head.toNat ++ utf8 s.toJson.canonical)

/-- Recompute the head from a copy of the evidence. -/
def recompute (steps : List EvidenceStep) : Bytes32 := steps.foldl (link keccak256) 0

end EvidenceChain

/-- A chain: its head is that of its steps. -/
structure EvidenceChain where
  steps : List EvidenceStep
  hash : Bytes32
  recomputed : hash = EvidenceChain.recompute keccak256 steps

namespace EvidenceChain

def empty : EvidenceChain keccak256 := ⟨[], 0, rfl⟩

variable {keccak256}

def append (c : EvidenceChain keccak256) (s : EvidenceStep) : EvidenceChain keccak256 where
  steps := c.steps ++ [s]
  hash := link keccak256 c.hash s
  recomputed := by
    rw [recompute, List.foldl_append, ← recompute, ← c.recomputed]
    rfl

@[simp] theorem steps_append (c : EvidenceChain keccak256) (s : EvidenceStep) :
    (c.append s).steps = c.steps ++ [s] := rfl

end EvidenceChain

/-! ## Claims -/

structure Claim where
  key : String
  value : String
  salt : Bytes32
deriving DecidableEq

namespace Claims

/-- `hashPair` -/
def hashPair (a b : Bytes32) : Bytes32 :=
  if a.toNat ≤ b.toNat then keccak256 (abiEncode [a, b]) else keccak256 (abiEncode [b, a])

def nextLevel : List Bytes32 → List Bytes32
  | [] => []
  | [a] => [a]
  | a :: b :: l => hashPair keccak256 a b :: nextLevel l

/-- The loop of `merkleRoot`; a level of more than one node has a smaller next level. -/
def rootFrom : ℕ → List Bytes32 → Bytes32
  | _, [] => 0
  | _, [a] => a
  | 0, a :: _ => a
  | n + 1, l => rootFrom n (nextLevel keccak256 l)

def sortLeaves (leaves : List Bytes32) : List Bytes32 :=
  leaves.insertionSort fun a b => a.toNat ≤ b.toNat

def merkleRoot (leaves : List Bytes32) : Bytes32 :=
  rootFrom keccak256 leaves.length (sortLeaves leaves)

/-- A string in ABI-encoded data: its length and its bytes, padded. -/
def abiString (s : String) : Bytes :=
  let bs := utf8 s
  toBytes 32 bs.length ++ bs ++ List.replicate ((32 - bs.length % 32) % 32) 0

/-- `claimLeaf` -/
def leaf (c : Claim) : Bytes32 :=
  keccak256 (abiEncode [96, BitVec.ofNat 256 (96 + (abiString c.key).length), c.salt] ++
    abiString c.key ++ abiString c.value)

def claimsRoot (claims : List Claim) : Bytes32 := merkleRoot keccak256 (claims.map (leaf keccak256))

theorem length_nextLevel (l : List Bytes32) :
    (nextLevel keccak256 l).length = (l.length + 1) / 2 := by
  fun_induction nextLevel keccak256 l with
  | case1 => rfl
  | case2 a => simp
  | case3 a b l ih =>
    simp only [List.length_cons, ih]
    omega

/-- The fuel is enough. -/
theorem rootFrom_enough {n m : ℕ} {l : List Bytes32} (hn : l.length ≤ n) (hm : l.length ≤ m) :
    rootFrom keccak256 n l = rootFrom keccak256 m l := by
  induction n generalizing l m with
  | zero =>
    have hnil : l = [] := List.length_eq_zero_iff.1 (by omega)
    rw [hnil]
    cases m <;> rfl
  | succ n ih =>
    match l, m with
    | [], m => cases m <;> rfl
    | [a], m => cases m <;> rfl
    | a :: b :: l, 0 => simp at hm
    | a :: b :: l, m + 1 =>
      have hl := length_nextLevel keccak256 (a :: b :: l)
      simp only [List.length_cons] at hl hn hm
      exact ih (by omega) (by omega)

end Claims

end Proofmark
