/-
  The off-chain packing of a mark's attributes (src/pipeline/attrs.ts).

  Numbers are natural numbers; `&` on them is the 32-bit signed operation of the language.
  `packAttrs_ok` and `validCredentialAttrs_eq` connect the functions with `MarkAttrs`.
-/
import Proofmark.Contract.MarkAttrs
import Proofmark.Lib.Revert

namespace Proofmark

open Revert

/-- `Number.MAX_SAFE_INTEGER` -/
def MAX_SAFE_INTEGER : ℕ := 2 ^ 53 - 1

/-- `a & b` -/
def bitAnd (a b : U32) : ℤ := (a &&& b).toInt

/-- The conversion of an operand of `&`. -/
def toInt32 (n : ℕ) : U32 := BitVec.ofNat 32 n

structure MarkAttrsInput where
  kind : ℕ
  assurance : ℕ
  regime : ℕ
  jurisdiction : ℕ
  methods : ℕ
  issuedAt : ℕ
  expiry : ℕ
  epoch : ℕ
deriving DecidableEq

inductive AttrsError where
  | notSafeInteger (field : String)
  | outOfRange (field : String)
deriving DecidableEq

namespace MarkAttrsInput

/-- `LIMITS` with the fields they bound. -/
def limits (a : MarkAttrsInput) : List (String × ℕ × ℕ) :=
  [("kind", a.kind, 0xff), ("assurance", a.assurance, 0xff), ("regime", a.regime, 0xffff),
    ("jurisdiction", a.jurisdiction, 0xffff), ("methods", a.methods, 0xffffffff),
    ("issuedAt", a.issuedAt, 0xffffffffff), ("expiry", a.expiry, 0xffffffffff),
    ("epoch", a.epoch, 0xffffffff)]

end MarkAttrsInput

def SUPPORTED_METHODS : ℕ := 0x001f07ff

def unpackAttrs (attrs : Bytes32) : MarkAttrsInput :=
  let at_ (shift mask : ℕ) := (attrs.toNat >>> shift) &&& mask
  { kind := at_ 248 0xff, assurance := at_ 240 0xff, regime := at_ 224 0xffff
    jurisdiction := at_ 208 0xffff, methods := at_ 176 0xffffffff
    issuedAt := at_ 136 0xffffffffff, expiry := at_ 96 0xffffffffff, epoch := at_ 64 0xffffffff }

/-- `now` is absent or the time at which the attributes must be current. -/
def validCredentialAttrs (attrs : Bytes32) (now : Option ℕ) : Bool :=
  let a := unpackAttrs attrs
  attrs.toNat &&& 0xffffffffffffffff == 0 && (a.kind == 1 || a.kind == 2) &&
    decide (1 ≤ a.assurance) && decide (a.assurance ≤ 5) && (a.regime == 1 || a.regime == 2) &&
    decide (1 ≤ a.jurisdiction) && decide (a.jurisdiction ≤ 999) &&
    bitAnd (toInt32 a.methods) (~~~ toInt32 SUPPORTED_METHODS) == 0 && decide (0 < a.issuedAt) &&
    decide (a.issuedAt < a.expiry) &&
    now.all fun now => decide (now ≤ MAX_SAFE_INTEGER) && decide (a.issuedAt ≤ now) &&
      decide (now < a.expiry)

def checkLimits : List (String × ℕ × ℕ) → Except AttrsError Unit
  | [] => pure ()
  | (field, value, max) :: l => do
    revertIf (MAX_SAFE_INTEGER < value) (.notSafeInteger field)
    revertIf (max < value) (.outOfRange field)
    checkLimits l

def packAttrs (a : MarkAttrsInput) : Except AttrsError Bytes32 := do
  checkLimits a.limits
  pure (BitVec.ofNat 256 (a.kind <<< 248 ||| a.assurance <<< 240 ||| a.regime <<< 224 |||
    a.jurisdiction <<< 208 ||| a.methods <<< 176 ||| a.issuedAt <<< 136 ||| a.expiry <<< 96 |||
    a.epoch <<< 64))

/-! ## The fields of a word -/

theorem unpackAttrs_eq (attrs : Bytes32) : unpackAttrs attrs =
    ⟨(MarkAttrs.kind attrs).toNat, (MarkAttrs.assurance attrs).toNat, (MarkAttrs.regime attrs).toNat,
      (MarkAttrs.jurisdiction attrs).toNat, (MarkAttrs.methods attrs).toNat,
      (MarkAttrs.issuedAt attrs).toNat, (MarkAttrs.expiry attrs).toNat,
      (MarkAttrs.epoch attrs).toNat⟩ := by
  have hfield (shift n : ℕ) : (attrs.toNat >>> shift) &&& (2 ^ n - 1) =
      ((attrs >>> shift).setWidth n).toNat := by
    rw [Nat.and_two_pow_sub_one_eq_mod, BitVec.toNat_setWidth, BitVec.toNat_ushiftRight]
  simp only [unpackAttrs, MarkAttrs.kind, MarkAttrs.assurance, MarkAttrs.regime,
    MarkAttrs.jurisdiction, MarkAttrs.methods, MarkAttrs.issuedAt, MarkAttrs.expiry,
    MarkAttrs.epoch, ← hfield]
  rfl

theorem toInt32_toNat (x : U32) : toInt32 x.toNat = x := by
  rw [toInt32, BitVec.ofNat_toNat, BitVec.setWidth_eq]

theorem bitAnd_eq_zero {a b : U32} : bitAnd a b = 0 ↔ a &&& b = 0 := by
  rw [bitAnd, ← BitVec.toInt_inj]
  rfl

/-- **The off-chain schema check** is the one of the contracts. -/
theorem validCredentialAttrs_eq (attrs : Bytes32) :
    validCredentialAttrs attrs none = MarkAttrs.validSchema attrs := by
  have hres : (attrs.toNat &&& 0xffffffffffffffff == 0) = (MarkAttrs.reserved attrs == 0) := by
    have h64 : attrs.toNat &&& 0xffffffffffffffff = (MarkAttrs.reserved attrs).toNat := by
      rw [MarkAttrs.reserved, BitVec.toNat_setWidth]
      exact Nat.and_two_pow_sub_one_eq_mod _ 64
    rw [Bool.eq_iff_iff, beq_iff_eq, beq_iff_eq, h64, ← BitVec.toNat_inj]
    rfl
  have hmethods : (bitAnd (toInt32 (MarkAttrs.methods attrs).toNat)
      (~~~ toInt32 SUPPORTED_METHODS) == 0) =
      (MarkAttrs.methods attrs &&& ~~~ MarkAttrs.SUPPORTED_METHODS == 0) := by
    rw [Bool.eq_iff_iff, beq_iff_eq, beq_iff_eq, bitAnd_eq_zero, toInt32_toNat]
    rfl
  have hpos : decide (0 < (MarkAttrs.issuedAt attrs).toNat) = (MarkAttrs.issuedAt attrs != 0) := by
    rw [Bool.eq_iff_iff, decide_eq_true_iff, bne_iff_ne, ne_eq, ← BitVec.toNat_inj,
      Nat.pos_iff_ne_zero]
    rfl
  have heq {n : ℕ} (x y : BitVec n) : (x.toNat == y.toNat) = (x == y) := by
    rw [Bool.eq_iff_iff, beq_iff_eq, beq_iff_eq, BitVec.toNat_inj]
  have hle {n : ℕ} (x y : BitVec n) : decide (x.toNat ≤ y.toNat) = decide (x ≤ y) := by
    rw [decide_eq_decide, BitVec.le_def]
  have hlt {n : ℕ} (x y : BitVec n) : decide (x.toNat < y.toNat) = decide (x < y) := by
    rw [decide_eq_decide, BitVec.lt_def]
  simp only [validCredentialAttrs, unpackAttrs_eq, hres, hmethods, hpos, hlt, Option.all_none,
    Bool.and_true, MarkAttrs.validSchema, ← heq, ← hle]
  rfl

/-- A field within its limit passes the checks. -/
theorem checkLimits_ok {l : List (String × ℕ × ℕ)} (h : ∀ f ∈ l, f.2.1 ≤ f.2.2)
    (hs : ∀ f ∈ l, f.2.2 ≤ MAX_SAFE_INTEGER) : checkLimits l = .ok () := by
  induction l with
  | nil => rfl
  | cons f l ih =>
    obtain ⟨field, value, max⟩ := f
    simp only [List.forall_mem_cons] at h hs
    rw [checkLimits, revertIf_of_not (by omega), ok_bind, revertIf_of_not (by omega), ok_bind]
    exact ih h.2 hs.2

/-- **Packing the unpacked fields** gives the word back but for its reserved bits. -/
theorem packAttrs_ok (k a : U8) (r j : U16) (m : U32) (i e : U40) (p : U32) :
    packAttrs ⟨k.toNat, a.toNat, r.toNat, j.toNat, m.toNat, i.toNat, e.toNat, p.toNat⟩ =
      .ok (MarkAttrs.pack k a r j m i e p) := by
  have hlimits : checkLimits (MarkAttrsInput.limits
      ⟨k.toNat, a.toNat, r.toNat, j.toNat, m.toNat, i.toNat, e.toNat, p.toNat⟩) = .ok () := by
    refine checkLimits_ok ?_ (by simp [MarkAttrsInput.limits, MAX_SAFE_INTEGER])
    simp only [MarkAttrsInput.limits, List.forall_mem_cons, List.not_mem_nil, false_imp_iff,
      implies_true, and_true]
    omega
  have hfield {n : ℕ} (x : BitVec n) (s : ℕ) :
      BitVec.ofNat 256 (x.toNat <<< s) = toWord x <<< s := by
    apply BitVec.eq_of_toNat_eq
    simp [Nat.shiftLeft_eq, toWord]
  rw [packAttrs, hlimits, ok_bind, MarkAttrs.pack]
  simp only [BitVec.ofNat_or, hfield]
  rfl

end Proofmark
