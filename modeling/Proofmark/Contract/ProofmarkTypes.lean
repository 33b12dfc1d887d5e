/-
  `ProofmarkTypes` (src/lib/ProofmarkTypes.sol): marks, their status and origin,
  and the pass conditions of a policy.
-/
import Proofmark.Contract.MarkAttrs

namespace Proofmark

inductive MarkStatus where
  | none
  | active
  | revoked
  | denied
  | suspended
deriving DecidableEq

inductive MarkOrigin where
  | none
  | direct
  | roster
deriving DecidableEq

structure Mark where
  status : MarkStatus
  origin : MarkOrigin
  kind : U8
  assurance : U8
  regime : U16
  jurisdiction : U16
  methods : U32
  issuedAt : U40
  expiry : U40
  epoch : U32
  claimsRoot : Bytes32
  evidenceHash : Bytes32
  issuer : Address
deriving DecidableEq

/-- A mark that was never written. -/
def Mark.empty : Mark := ⟨.none, .none, 0, 0, 0, 0, 0, 0, 0, 0, 0, 0, 0⟩

structure Policy where
  requireAll : U32
  minAssurance : U8
  maxAge : U40
  requiredRegime : U16
  requiredJurisdiction : U16
  trustedIssuer : Address
  requireRoster : Bool
  «exists» : Bool
deriving DecidableEq

/-- A policy that was never registered. -/
def Policy.empty : Policy := ⟨0, 0, 0, 0, 0, 0, false, false⟩

end Proofmark
