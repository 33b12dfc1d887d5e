/-
  The query identity as the worker computes it (src/worker/proof.ts).

  `toBeHex`, `zeroPadValue` and the concatenation are those of ethers, on the bytes that its
  strings write.
-/
import Proofmark.Contract.ProofmarkASC
import Mathlib.Data.Nat.Log
import Mathlib.Data.Nat.Bitwise

namespace Proofmark

open Words

namespace WorkerProof

/-- `toBeHex` without a width: no leading zero byte, and one byte for zero. -/
def toBeHex (n : ℕ) : Bytes := toBytes (n.log2 / 8 + 1) n

/-- `zeroPadValue`: `none` where the data exceeds the length. -/
def zeroPadValue (data : Bytes) (length : ℕ) : Option Bytes :=
  if length < data.length then none else some (List.replicate (length - data.length) 0 ++ data)

/-- What `computeQueryId` hashes. -/
def preimage (chainKey blockHeight txIndex : ℕ) : Option Bytes := do
  let key ← zeroPadValue (toBeHex chainKey) 32
  let height ← zeroPadValue (toBeHex blockHeight) 8
  let index ← zeroPadValue (toBeHex txIndex) 32
  pure (key ++ height ++ index)

def computeQueryId (keccak256 : Bytes → Bytes32) (chainKey blockHeight txIndex : ℕ) :
    Option Bytes32 := (preimage chainKey blockHeight txIndex).map keccak256

/-- `txIndexFromProof`: the loop starts at the last sibling. -/
def txIndexFromProof (siblings : List MerkleProofEntry) : ℕ :=
  siblings.foldr (fun e idx => idx <<< 1 ||| if e.isLeft then 1 else 0) 0

/-! ## Padded numbers -/

theorem toBytes_add (k n x : ℕ) (h : x < 256 ^ n) :
    toBytes (k + n) x = List.replicate k 0 ++ toBytes n x := by
  induction k with
  | zero => simp
  | succ k ih =>
    have hz : x / 256 ^ (k + n) = 0 :=
      Nat.div_eq_of_lt (h.trans_le (Nat.pow_le_pow_right (by norm_num) (by omega)))
    rw [Nat.add_right_comm, toBytes, hz, ih, List.replicate_succ]
    simp

theorem lt_toBeHex (n : ℕ) : n < 256 ^ (n.log2 / 8 + 1) := by
  have h : n < 2 ^ (n.log2 + 1) := Nat.lt_log2_self
  have h8 : (256 : ℕ) ^ (n.log2 / 8 + 1) = 2 ^ (8 * (n.log2 / 8 + 1)) := by
    rw [Nat.pow_mul]
  rw [h8]
  exact h.trans_le (Nat.pow_le_pow_right (by norm_num) (by omega))

theorem length_toBeHex_le {n k : ℕ} (hk : 0 < k) (h : n < 256 ^ k) : (toBeHex n).length ≤ k := by
  rw [toBeHex, length_toBytes]
  by_cases hn : n = 0
  · subst hn
    simpa using Nat.succ_le_of_lt hk
  · have h8 : (256 : ℕ) ^ k = 2 ^ (8 * k) := by rw [Nat.pow_mul]
    have hl : n.log2 < 8 * k := (Nat.log2_lt hn).2 (h8 ▸ h)
    omega

/-- A number that fits is written with exactly the length asked for. -/
theorem zeroPadValue_toBeHex {n k : ℕ} (hk : 0 < k) (h : n < 256 ^ k) :
    zeroPadValue (toBeHex n) k = some (toBytes k n) := by
  have hl := length_toBeHex_le hk h
  rw [zeroPadValue, if_neg (by omega)]
  have hlen : (toBeHex n).length = n.log2 / 8 + 1 := by simp [toBeHex]
  have hb := toBytes_add (k - (toBeHex n).length) (n.log2 / 8 + 1) n (lt_toBeHex n)
  rw [show k - (toBeHex n).length + (n.log2 / 8 + 1) = k by omega] at hb
  rw [hb]
  rfl

theorem preimage_eq {chainKey blockHeight txIndex : ℕ} (hk : chainKey < 2 ^ 64)
    (hh : blockHeight < 2 ^ 64) (hi : txIndex < 2 ^ 64) :
    preimage chainKey blockHeight txIndex =
      some (toBytes 32 chainKey ++ toBytes 8 blockHeight ++ toBytes 32 txIndex) := by
  have h8 : (256 : ℕ) ^ 8 = 2 ^ 64 := by norm_num
  have h32 : (2 : ℕ) ^ 64 ≤ 256 ^ 32 := by norm_num
  rw [preimage, zeroPadValue_toBeHex (by norm_num) (hk.trans_le h32),
    zeroPadValue_toBeHex (by norm_num) (h8 ▸ hh), zeroPadValue_toBeHex (by norm_num) (hi.trans_le h32)]
  rfl

/-! ## The index -/

/-- **Bit `k` of the index is the side of sibling `k`.** -/
theorem testBit_txIndexFromProof (siblings : List MerkleProofEntry) (k : ℕ) :
    (txIndexFromProof siblings).testBit k = siblings[k]?.any MerkleProofEntry.isLeft := by
  induction siblings generalizing k with
  | nil => simp [txIndexFromProof]
  | cons e siblings ih =>
    have hfold : txIndexFromProof (e :: siblings) =
        txIndexFromProof siblings <<< 1 ||| if e.isLeft then 1 else 0 := rfl
    have hbit : (if e.isLeft then 1 else 0 : ℕ).testBit k = (e.isLeft && decide (k = 0)) := by
      cases e.isLeft with
      | false => simp
      | true => cases k <;> simp [Nat.testBit_succ]
    rw [hfold, Nat.testBit_or, hbit, Nat.testBit_shiftLeft]
    cases k with
    | zero => simp
    | succ k => simp [ih]

end WorkerProof

end Proofmark
