/-
  Big-endian bytes and ABI words.

  `abiEncode` lays a list of 256-bit words out as bytes and `abiWords n` reads
  the first `n` words back, failing when the data is shorter; bytes after them
  are not looked at.
-/
import Mathlib.Data.List.Basic
import Mathlib.Tactic.Common
import Mathlib.Tactic.Ring

namespace Words

abbrev Byte := BitVec 8

/-- The `n` low-order bytes of `x`, most significant first. -/
def toBytes : ℕ → ℕ → List Byte
  | 0, _ => []
  | n + 1, x => BitVec.ofNat 8 (x / 256 ^ n) :: toBytes n x

/-- The number written by the bytes `bs`, most significant first. -/
def ofBytes (bs : List Byte) : ℕ := bs.foldl (fun acc b => acc * 256 + b.toNat) 0

@[simp] theorem length_toBytes (n x : ℕ) : (toBytes n x).length = n := by
  induction n with
  | zero => rfl
  | succ n ih => simp [toBytes, ih]

theorem foldl_toBytes (n x acc : ℕ) :
    (toBytes n x).foldl (fun acc b => acc * 256 + b.toNat) acc = acc * 256 ^ n + x % 256 ^ n := by
  induction n generalizing acc with
  | zero => simp [toBytes, Nat.mod_one]
  | succ n ih =>
    have h8 : (2 : ℕ) ^ 8 = 256 := by norm_num
    have hm : x % (256 ^ n * 256) = x % 256 ^ n + 256 ^ n * (x / 256 ^ n % 256) := Nat.mod_mul
    rw [toBytes, List.foldl_cons, ih, BitVec.toNat_ofNat, h8, Nat.pow_succ, hm]
    ring

theorem ofBytes_toBytes (n x : ℕ) : ofBytes (toBytes n x) = x % 256 ^ n := by
  simpa [ofBytes] using foldl_toBytes n x 0

/-- The ABI encoding of a tuple of words. -/
def abiEncode : List (BitVec 256) → List Byte
  | [] => []
  | w :: ws => toBytes 32 w.toNat ++ abiEncode ws

/-- The first `n` words of ABI-encoded data. -/
def abiWords : ℕ → List Byte → Option (List (BitVec 256))
  | 0, _ => some []
  | n + 1, bs =>
    if bs.length < 32 then none
    else (abiWords n (bs.drop 32)).map (BitVec.ofNat 256 (ofBytes (bs.take 32)) :: ·)

@[simp] theorem length_abiEncode (ws : List (BitVec 256)) :
    (abiEncode ws).length = 32 * ws.length := by
  induction ws with
  | nil => rfl
  | cons w ws ih => simp [abiEncode, ih]; omega

theorem word_toBytes (w : BitVec 256) : BitVec.ofNat 256 (ofBytes (toBytes 32 w.toNat)) = w := by
  have h : (256 : ℕ) ^ 32 = 2 ^ 256 := by norm_num
  rw [ofBytes_toBytes, h, Nat.mod_eq_of_lt w.isLt, BitVec.ofNat_toNat, BitVec.setWidth_eq]

/-- **Decoding reads back what was encoded.** -/
theorem abiWords_abiEncode (ws : List (BitVec 256)) : abiWords ws.length (abiEncode ws) = some ws := by
  induction ws with
  | nil => rfl
  | cons w ws ih =>
    have hd : (abiEncode (w :: ws)).drop 32 = abiEncode ws := by simp [abiEncode]
    have ht : (abiEncode (w :: ws)).take 32 = toBytes 32 w.toNat := by simp [abiEncode]
    have hl : ¬ (abiEncode (w :: ws)).length < 32 := by simp
    rw [List.length_cons, abiWords, if_neg hl, hd, ht, ih, word_toBytes]
    rfl

theorem length_of_abiWords {n : ℕ} {bs : List Byte} {ws : List (BitVec 256)}
    (h : abiWords n bs = some ws) : ws.length = n := by
  induction n generalizing bs ws with
  | zero => simp only [abiWords, Option.some.injEq] at h; simp [← h]
  | succ n ih =>
    simp only [abiWords] at h
    split_ifs at h with hl
    obtain ⟨ws', h', rfl⟩ := Option.map_eq_some_iff.1 h
    simp [ih h']

end Words
