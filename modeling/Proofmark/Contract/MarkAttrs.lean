/-
  `MarkAttrs` (src/lib/MarkAttrs.sol) and `EpochBounds` (src/lib/EpochBounds.sol):
  the packed attributes of a mark and the bounds of a roster epoch.

      bit 255      248 247      240 239        224 223           208
          | kind  u8 |assurance u8|  regime u16  | jurisdiction u16|
      bit 207        176 175        136 135      96 95      64 63   0
          |methods u32 | issuedAt u40 | expiry u40| epoch u32|reserv|

  `pack_unpack`: a word whose reserved bits are zero is the packing of its fields.
-/
import Proofmark.Evm.Types
import Mathlib.Tactic.IntervalCases

namespace Proofmark

namespace MarkAttrs

def SUPPORTED_METHODS : U32 := 0x001f07ff

def kind (a : Bytes32) : U8 := (a >>> 248).setWidth 8
def assurance (a : Bytes32) : U8 := (a >>> 240).setWidth 8
def regime (a : Bytes32) : U16 := (a >>> 224).setWidth 16
def jurisdiction (a : Bytes32) : U16 := (a >>> 208).setWidth 16
def methods (a : Bytes32) : U32 := (a >>> 176).setWidth 32
def issuedAt (a : Bytes32) : U40 := (a >>> 136).setWidth 40
def expiry (a : Bytes32) : U40 := (a >>> 96).setWidth 40
def epoch (a : Bytes32) : U32 := (a >>> 64).setWidth 32

/-- `uint64(uint256(a))`, the reserved bits. -/
def reserved (a : Bytes32) : U64 := a.setWidth 64

def validSchema (a : Bytes32) : Bool :=
  reserved a == 0 && (kind a == 1 || kind a == 2) && decide (1 ≤ assurance a) &&
    decide (assurance a ≤ 5) && (regime a == 1 || regime a == 2) &&
    decide (1 ≤ jurisdiction a) && decide (jurisdiction a ≤ 999) &&
    (methods a &&& ~~~SUPPORTED_METHODS == 0) && issuedAt a != 0 && decide (issuedAt a < expiry a)

def validAtIssuance (a : Bytes32) (now : ℕ) : Bool :=
  validSchema a && decide ((issuedAt a).toNat ≤ now) && decide (now < (expiry a).toNat)

def pack (kind assurance : U8) (regime jurisdiction : U16) (methods : U32) (issuedAt expiry : U40)
    (epoch : U32) : Bytes32 :=
  (toWord kind <<< 248) ||| (toWord assurance <<< 240) ||| (toWord regime <<< 224) |||
    (toWord jurisdiction <<< 208) ||| (toWord methods <<< 176) ||| (toWord issuedAt <<< 136) |||
    (toWord expiry <<< 96) ||| (toWord epoch <<< 64)

/-- A field of `n` bits at `lo`, put back in place, shows the bits of the word there. -/
theorem getLsbD_field (a : Bytes32) (lo n : ℕ) (hn : lo + n ≤ 256) (i : ℕ) (hi : i < 256) :
    (toWord ((a >>> lo).setWidth n) <<< lo).getLsbD i =
      (decide (lo ≤ i ∧ i < lo + n) && a.getLsbD i) := by
  simp only [toWord, BitVec.getLsbD_shiftLeft, BitVec.getLsbD_setWidth, BitVec.getLsbD_ushiftRight]
  by_cases h1 : i < lo
  · simp [h1, show ¬ lo ≤ i by omega]
  · have e : lo + (i - lo) = i := by omega
    by_cases h2 : i < lo + n
    · simp [hi, h1, h2, e, show lo ≤ i by omega, show i - lo < 256 by omega, show i - lo < n by omega]
    · simp [h2, show ¬ i - lo < n by omega]

/-- Packing the fields of a word gives the word back when its reserved bits are zero. -/
theorem pack_unpack {a : Bytes32} (h : reserved a = 0) :
    pack (kind a) (assurance a) (regime a) (jurisdiction a) (methods a) (issuedAt a) (expiry a)
      (epoch a) = a := by
  refine BitVec.eq_of_getLsbD_eq fun i hi => ?_
  have hr : i < 64 → a.getLsbD i = false := by
    intro h64
    have := congrArg (fun w => w.getLsbD i) h
    simpa [reserved, h64] using this
  simp only [pack, kind, assurance, regime, jurisdiction, methods, issuedAt, expiry, epoch,
    BitVec.getLsbD_or]
  rw [getLsbD_field a 248 8 (by norm_num) i hi, getLsbD_field a 240 8 (by norm_num) i hi,
    getLsbD_field a 224 16 (by norm_num) i hi, getLsbD_field a 208 16 (by norm_num) i hi,
    getLsbD_field a 176 32 (by norm_num) i hi, getLsbD_field a 136 40 (by norm_num) i hi,
    getLsbD_field a 96 40 (by norm_num) i hi, getLsbD_field a 64 32 (by norm_num) i hi]
  cases hb : a.getLsbD i with
  | false => simp
  | true =>
    have h64 : ¬ i < 64 := fun h' => by simp [hr h'] at hb
    simp only [Bool.and_true, ← Bool.decide_or, decide_eq_true_eq]
    omega

/-- A packed field, read back. -/
theorem field_self {n : ℕ} (x : BitVec n) (lo : ℕ) (h : lo + n ≤ 256) :
    ((toWord x <<< lo) >>> lo).setWidth n = x := by
  refine BitVec.eq_of_getLsbD_eq fun i hi => ?_
  simp only [toWord, BitVec.getLsbD_setWidth, BitVec.getLsbD_ushiftRight, BitVec.getLsbD_shiftLeft]
  simp [hi, show lo + i < 256 by omega, show i < 256 by omega]

/-- A packed field shows nothing at a place that it does not meet. -/
theorem field_disjoint {n : ℕ} (x : BitVec n) (s lo k : ℕ) (h : lo + k ≤ s ∨ s + n ≤ lo) :
    ((toWord x <<< s) >>> lo).setWidth k = 0 := by
  refine BitVec.eq_of_getLsbD_eq fun i hi => ?_
  simp only [toWord, BitVec.getLsbD_setWidth, BitVec.getLsbD_ushiftRight, BitVec.getLsbD_shiftLeft]
  rcases h with h | h
  · simp [show lo + i < s by omega]
  · have hx : x.getLsbD (lo + i - s) = false := BitVec.getLsbD_of_ge _ _ (by omega)
    simp [hx]

/-- **Unpacking reads every packed field back.** -/
theorem unpack_pack (k a : U8) (r j : U16) (m : U32) (i e : U40) (p : U32) :
    kind (pack k a r j m i e p) = k ∧ assurance (pack k a r j m i e p) = a ∧
      regime (pack k a r j m i e p) = r ∧ jurisdiction (pack k a r j m i e p) = j ∧
      methods (pack k a r j m i e p) = m ∧ issuedAt (pack k a r j m i e p) = i ∧
      expiry (pack k a r j m i e p) = e ∧ epoch (pack k a r j m i e p) = p ∧
      reserved (pack k a r j m i e p) = 0 := by
  have hres : reserved (pack k a r j m i e p) = (pack k a r j m i e p >>> 0).setWidth 64 := by
    rw [BitVec.ushiftRight_zero]
    rfl
  rw [hres]
  simp only [kind, assurance, regime, jurisdiction, methods, issuedAt, expiry, epoch, pack,
    BitVec.ushiftRight_or_distrib, BitVec.setWidth_or]
  simp (disch := omega) only [field_self, field_disjoint]
  simp

theorem validSchema_reserved {a : Bytes32} (h : validSchema a) : reserved a = 0 := by
  simp only [validSchema, Bool.and_eq_true, beq_iff_eq] at h
  exact h.1.1.1.1.1.1.1.1.1

end MarkAttrs

namespace EpochBounds

def MAX_AGE : ℕ := 86400
def MAX_PUBLICATION_LAG : ℕ := 3600

def valid (root : Bytes32) (cutoff publishedAt validUntil : U40) (snapshotId : Bytes32) : Bool :=
  root != 0 && snapshotId != 0 && cutoff != 0 && decide (cutoff ≤ publishedAt) &&
    decide (publishedAt.toNat - cutoff.toNat ≤ MAX_PUBLICATION_LAG) &&
    decide (publishedAt < validUntil) && decide (validUntil.toNat - cutoff.toNat ≤ MAX_AGE)

end EpochBounds

end Proofmark
