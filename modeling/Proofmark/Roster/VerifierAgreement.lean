/-
  The off-chain and the on-chain roster verifier (src/pipeline/roster.ts,
  src/lib/RosterProof.sol) on the proofs that both can be given.
-/
import Proofmark.Roster.NonInclusion

namespace Proofmark

variable {keccak256 : Bytes → Bytes32}

/-- Its numbers are safe integers. -/
structure InclusionProof.Safe (p : InclusionProof) : Prop where
  index : p.index ≤ MAX_SAFE_INTEGER
  leafCount : p.leafCount ≤ MAX_SAFE_INTEGER

theorem InclusionProof.Safe.verifyInclusion_eq {p : InclusionProof} (h : p.Safe)
    (root leaf : Bytes32) : Roster.verifyInclusion keccak256 root leaf p =
      RosterProof.verifyInclusion keccak256 root leaf p.toInclusion := by
  rw [Bool.eq_iff_iff, verifyInclusion_toInclusion]
  constructor
  · rintro ⟨-, -, hv⟩
    exact hv
  · intro hv
    exact ⟨h.index, h.leafCount, hv⟩

/-- **The two verifiers are one function** of roots, leaves, keys and proofs, well formed or
not. -/
theorem roster_verifiers_agree (keccak256 : Bytes → Bytes32) :
    (∀ (root leaf : Bytes32) (p : InclusionProof), p.Safe →
      Roster.verifyInclusion keccak256 root leaf p =
        RosterProof.verifyInclusion keccak256 root leaf p.toInclusion) ∧
    ∀ (ns : Bytes) (root : Bytes32) (target : Address) (p : NonInclusionProof),
      p.left.Safe → p.right.Safe →
        Roster.verifyNonInclusion keccak256 ns root target p =
          RosterProof.verifyNonInclusion keccak256 root
            (RosterProof.subjectKey keccak256 ns target) p.toNonInclusion := by
  constructor
  · intro root leaf p hp
    exact hp.verifyInclusion_eq root leaf
  · intro ns root target p hleft hright
    rw [Bool.eq_iff_iff]
    exact verifyNonInclusion_toNonInclusion hleft.index hleft.leafCount hright.index
      hright.leafCount

end Proofmark
