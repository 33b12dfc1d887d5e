/-
  The two packers of mark attributes, src/lib/MarkAttrs.sol and src/pipeline/attrs.ts.

  `attrs_agree`: they judge every word alike, pack and read the same fields, and a word
  survives being stored as a mark and packed again when its reserved bits are zero.
-/
import Proofmark.Contract.ProofmarkASC
import Proofmark.Pipeline.Attrs

namespace Proofmark

open Revert

namespace MarkAttrsInput

/-- Every field is within its limit. -/
def InRange (f : MarkAttrsInput) : Prop := ∀ l ∈ f.limits, l.2.1 ≤ l.2.2

/-- The fields as the contract takes them. -/
def packWord (f : MarkAttrsInput) : Bytes32 :=
  MarkAttrs.pack (.ofNat 8 f.kind) (.ofNat 8 f.assurance) (.ofNat 16 f.regime)
    (.ofNat 16 f.jurisdiction) (.ofNat 32 f.methods) (.ofNat 40 f.issuedAt) (.ofNat 40 f.expiry)
    (.ofNat 32 f.epoch)

variable {f : MarkAttrsInput}

/-- Fields in range are those of machine words. -/
theorem InRange.words (h : f.InRange) : f =
    ⟨(BitVec.ofNat 8 f.kind).toNat, (BitVec.ofNat 8 f.assurance).toNat,
      (BitVec.ofNat 16 f.regime).toNat, (BitVec.ofNat 16 f.jurisdiction).toNat,
      (BitVec.ofNat 32 f.methods).toNat, (BitVec.ofNat 40 f.issuedAt).toNat,
      (BitVec.ofNat 40 f.expiry).toNat, (BitVec.ofNat 32 f.epoch).toNat⟩ := by
  obtain ⟨k, a, r, j, m, i, e, p⟩ := f
  simp only [InRange, limits, List.forall_mem_cons, List.not_mem_nil, false_imp_iff, implies_true,
    and_true] at h
  obtain ⟨hk, ha, hr, hj, hm, hi, he, hp⟩ := h
  simp only [BitVec.toNat_ofNat, MarkAttrsInput.mk.injEq]
  refine ⟨?_, ?_, ?_, ?_, ?_, ?_, ?_, ?_⟩ <;> exact (Nat.mod_eq_of_lt (by omega)).symm

theorem InRange.packAttrs (h : f.InRange) : packAttrs f = .ok f.packWord := by
  have hp := packAttrs_ok (.ofNat 8 f.kind) (.ofNat 8 f.assurance) (.ofNat 16 f.regime)
    (.ofNat 16 f.jurisdiction) (.ofNat 32 f.methods) (.ofNat 40 f.issuedAt) (.ofNat 40 f.expiry)
    (.ofNat 32 f.epoch)
  rwa [← h.words] at hp

theorem InRange.unpackAttrs (h : f.InRange) : unpackAttrs f.packWord = f := by
  obtain ⟨hk, ha, hr, hj, hm, hi, he, hp, -⟩ := MarkAttrs.unpack_pack (.ofNat 8 f.kind)
    (.ofNat 8 f.assurance) (.ofNat 16 f.regime) (.ofNat 16 f.jurisdiction) (.ofNat 32 f.methods)
    (.ofNat 40 f.issuedAt) (.ofNat 40 f.expiry) (.ofNat 32 f.epoch)
  rw [unpackAttrs_eq, packWord, hk, ha, hr, hj, hm, hi, he, hp]
  exact h.words.symm

end MarkAttrsInput

/-! ## Words -/

/-- At a time that the language can count, the issuance checks agree. -/
theorem validCredentialAttrs_at (attrs : Bytes32) {now : ℕ} (hnow : now ≤ MAX_SAFE_INTEGER) :
    validCredentialAttrs attrs (some now) = MarkAttrs.validAtIssuance attrs now := by
  have hsplit : validCredentialAttrs attrs (some now) = (validCredentialAttrs attrs none &&
      (decide (now ≤ MAX_SAFE_INTEGER) && decide ((unpackAttrs attrs).issuedAt ≤ now) &&
        decide (now < (unpackAttrs attrs).expiry))) := by
    simp only [validCredentialAttrs, Option.all_some, Option.all_none, Bool.and_true]
  rw [hsplit, validCredentialAttrs_eq, unpackAttrs_eq, decide_eq_true hnow, Bool.true_and,
    MarkAttrs.validAtIssuance, Bool.and_assoc]

/-- A packed word has no reserved bits. -/
theorem MarkAttrs.pack_fields_iff (a : Bytes32) :
    MarkAttrs.pack (kind a) (assurance a) (regime a) (jurisdiction a) (methods a) (issuedAt a)
      (expiry a) (epoch a) = a ↔ reserved a = 0 := by
  constructor
  · intro h
    obtain ⟨-, -, -, -, -, -, -, -, hres⟩ := unpack_pack (kind a) (assurance a) (regime a)
      (jurisdiction a) (methods a) (issuedAt a) (expiry a) (epoch a)
    rwa [h] at hres
  · exact pack_unpack

theorem packAttrs_unpackAttrs_iff (a : Bytes32) :
    packAttrs (unpackAttrs a) = .ok a ↔ MarkAttrs.reserved a = 0 := by
  rw [unpackAttrs_eq, packAttrs_ok, Except.ok.injEq]
  exact MarkAttrs.pack_fields_iff a

/-- What the registry packs of a stored mark. -/
def Mark.packed (m : Mark) : Bytes32 :=
  MarkAttrs.pack m.kind m.assurance m.regime m.jurisdiction m.methods m.issuedAt m.expiry m.epoch

theorem packed_storeMark (st : SubjectState) (attrs : Bytes32) (issuer : Address)
    (claimsRoot evidenceHash : Bytes32) (h : MarkAttrs.reserved attrs = 0) :
    (st.storeMark attrs issuer claimsRoot evidenceHash).mark.packed = attrs :=
  MarkAttrs.pack_unpack h

/-! ## Agreement -/

structure AttrsAgree : Prop where
  valid : ∀ attrs now, now ≤ MAX_SAFE_INTEGER →
    validCredentialAttrs attrs (some now) = MarkAttrs.validAtIssuance attrs now
  pack : ∀ f : MarkAttrsInput, f.InRange → packAttrs f = .ok f.packWord
  unpack : ∀ f : MarkAttrsInput, f.InRange → unpackAttrs f.packWord = f ∧
    MarkAttrs.kind f.packWord = .ofNat 8 f.kind ∧
    MarkAttrs.assurance f.packWord = .ofNat 8 f.assurance ∧
    MarkAttrs.regime f.packWord = .ofNat 16 f.regime ∧
    MarkAttrs.jurisdiction f.packWord = .ofNat 16 f.jurisdiction ∧
    MarkAttrs.methods f.packWord = .ofNat 32 f.methods ∧
    MarkAttrs.issuedAt f.packWord = .ofNat 40 f.issuedAt ∧
    MarkAttrs.expiry f.packWord = .ofNat 40 f.expiry ∧
    MarkAttrs.epoch f.packWord = .ofNat 32 f.epoch
  repack : ∀ a, packAttrs (unpackAttrs a) = .ok a ↔ MarkAttrs.reserved a = 0
  repackWord : ∀ a, MarkAttrs.pack (MarkAttrs.kind a) (MarkAttrs.assurance a)
    (MarkAttrs.regime a) (MarkAttrs.jurisdiction a) (MarkAttrs.methods a) (MarkAttrs.issuedAt a)
    (MarkAttrs.expiry a) (MarkAttrs.epoch a) = a ↔ MarkAttrs.reserved a = 0
  stored : ∀ (st : SubjectState) attrs issuer claimsRoot evidenceHash,
    MarkAttrs.validSchema attrs = true →
      (st.storeMark attrs issuer claimsRoot evidenceHash).mark.packed = attrs

/-- **The packers agree.** -/
theorem attrs_agree : AttrsAgree where
  valid attrs now hnow := validCredentialAttrs_at attrs hnow
  pack f h := h.packAttrs
  unpack f h := by
    obtain ⟨hk, ha, hr, hj, hm, hi, he, hp, -⟩ := MarkAttrs.unpack_pack (.ofNat 8 f.kind)
      (.ofNat 8 f.assurance) (.ofNat 16 f.regime) (.ofNat 16 f.jurisdiction) (.ofNat 32 f.methods)
      (.ofNat 40 f.issuedAt) (.ofNat 40 f.expiry) (.ofNat 32 f.epoch)
    exact ⟨h.unpackAttrs, hk, ha, hr, hj, hm, hi, he, hp⟩
  repack := packAttrs_unpackAttrs_iff
  repackWord := MarkAttrs.pack_fields_iff
  stored st attrs issuer claimsRoot evidenceHash h :=
    packed_storeMark st attrs issuer claimsRoot evidenceHash (MarkAttrs.validSchema_reserved h)

end Proofmark
