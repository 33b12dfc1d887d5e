/-
  The events of `ComplianceSource` (src/ComplianceSource.sol) and the logs that
  carry them: topic 0 is the hash of the event signature, the indexed fields are
  the further topics, the other fields are the data words.
-/
import Proofmark.Contract.MarkAttrs

namespace Proofmark

open Words

/-! ## Event signatures

Each constant is `keccak256` of the signature in its comment. -/

namespace Sig

/-- `MarkIssued(address,bytes32,address,bytes32,bytes32)` -/
def ISSUED : Bytes32 := 0xffac883eea6676651044a7e28ee0527defa8e3fce7558142c598e6569ef5a5f3
/-- `KeyedMarkIssued(address,bytes32,address,uint64,bytes32,bytes32)` -/
def KEYED_ISSUED : Bytes32 := 0x747935815bb65993b5e4a08b2e47fcf8b262645f493087445230097804ff0ea5
/-- `MarkRevoked(address,uint16,uint32)` -/
def REVOKED : Bytes32 := 0xdde75c52928e1a0e5b14011716a8309ab432e435d50ced197b667cc906d3fd09
/-- `SanctionDenied(address,uint32,uint32)` -/
def DENIED : Bytes32 := 0x4e68a53405a08cc0e2bb7cd374ad540457f069bcf32e0830ea2e851815d6f5ae
/-- `RosterEpochPublished(uint32,bytes32,uint32,uint40,uint40,uint40,bytes32)` -/
def EPOCH : Bytes32 := 0x9c17b3d0d930980ffef5e671b9390a26d8f8b5f801f0ce3636909c95c69eb908
/-- `IssuerKeyCompromised(address,uint64,uint64,bytes32)` -/
def KEY_COMPROMISED : Bytes32 := 0xdb7087c4d03e364d4326b8e4caeff6544c63267ae8e879427679a8a5aae2cb97
/-- `RosterIssuerKeyAuthorized(uint32,bytes32,address,uint64)` -/
def KEYED_EPOCH_AUTH : Bytes32 := 0xab17ee786edbcda9592634661253b9a559daf05468a79f7c53b623ca558df175
/-- `SanctionDenialCorrected(address,uint64,uint256,bytes32,address,address)` -/
def DENIAL_CORRECTED : Bytes32 := 0x0e043d15ca02c0ed717b85066118ef48ec76cb07915b7b6a1018ce9cdd8add07
/-- `RosterIssuerAuthorized(uint32,bytes32,address)` -/
def EPOCH_AUTH : Bytes32 := 0x375e6bbadefcb5efa3e7f8db2fb23a8e22674d0aace847b5dbbc112aceb45b09
/-- `IssuerSet(address,bool)` -/
def ISSUER_SET : Bytes32 := 0xc6aeabbc4fc4eb208b2b4cec7249245167cb6191c47e2e6f82a3cd59a89ce7e1
/-- `EpochPublisherSet(address,bool)` -/
def PUBLISHER_SET : Bytes32 := 0x9957b98db266ac067efe38825e649c08ef9f58a06d28fe499df00f176759b710
/-- `DenialCorrectionApproverSet(address,bool)` -/
def APPROVER_SET : Bytes32 := 0x6a576ed6b035cebea9c86ab75edee2b6cb638a9fcd2122c1af668ad5f7c4f8d3
/-- `DenialCorrectionProposed(uint256,address,uint64,address,bytes32,uint40)` -/
def CORRECTION_PROPOSED : Bytes32 :=
  0xcd08d34620a0ad278c599815c77f8e62fd3e46eb18fa77b5ff408cfbf1e4936c
/-- `DenialCorrectionApproved(uint256,address,bytes32)` -/
def CORRECTION_APPROVED : Bytes32 :=
  0x7b25d39370936d02c6932107896e183476de8889a9a65ce2f98601ea41e89ae2
/-- `OwnershipTransferStarted(address,address)` -/
def OWNERSHIP_STARTED : Bytes32 :=
  0x38d16b8cac22d99fc7c124b9cd0de2d3fa1faef420bfe791d8c362d765e22700
/-- `OwnershipTransferred(address,address)` -/
def OWNERSHIP_TRANSFERRED : Bytes32 :=
  0x8be0079c531659141344cd1fd0a4f28419497f9722a3daafe3b4186f6b6457e0

end Sig

/-- The events of the source contract. -/
inductive SourceEvent where
  | markIssued (subject : Address) (attrs : Bytes32) (issuer : Address)
      (claimsRoot evidenceHash : Bytes32)
  | keyedMarkIssued (subject : Address) (attrs : Bytes32) (issuer : Address)
      (issuerKeyEpoch : U64) (claimsRoot evidenceHash : Bytes32)
  | markRevoked (subject : Address) (reasonCode : U16) (epoch : U32)
  | sanctionDenied (subject : Address) (listVersion epoch : U32)
  | sanctionDenialCorrected (subject : Address) (denialRevision : U64) (correctionId : U256)
      (reasonHash : Bytes32) (proposer approver : Address)
  | rosterEpochPublished (epoch : U32) (root : Bytes32) (listVersion : U32)
      (validUntil sourceCutoff publishedAt : U40) (snapshotId : Bytes32)
  | rosterIssuerAuthorized (epoch : U32) (root : Bytes32) (issuer : Address)
  | rosterIssuerKeyAuthorized (epoch : U32) (root : Bytes32) (issuer : Address)
      (issuerKeyEpoch : U64)
  | issuerKeyCompromised (issuer : Address) (issuerKeyEpoch lastTrustedBlock : U64)
      (reasonHash : Bytes32)
  | issuerSet (account : Address) (allowed : Bool)
  | epochPublisherSet (account : Address) (allowed : Bool)
  | denialCorrectionApproverSet (account : Address) (allowed : Bool)
  | denialCorrectionProposed (correctionId : U256) (subject : Address) (denialRevision : U64)
      (proposer : Address) (reasonHash : Bytes32) (executeAfter : U40)
  | denialCorrectionApproved (correctionId : U256) (approver : Address) (reasonHash : Bytes32)
  | ownershipTransferStarted (previousOwner newOwner : Address)
  | ownershipTransferred (previousOwner newOwner : Address)
deriving DecidableEq

namespace SourceEvent

def boolWord (b : Bool) : Bytes32 := if b then 1 else 0

/-- Topics of the log of an event. -/
def topics : SourceEvent → List Bytes32
  | markIssued subject attrs issuer _ _ => [Sig.ISSUED, toWord subject, attrs, toWord issuer]
  | keyedMarkIssued subject attrs issuer _ _ _ =>
    [Sig.KEYED_ISSUED, toWord subject, attrs, toWord issuer]
  | markRevoked subject reasonCode epoch =>
    [Sig.REVOKED, toWord subject, toWord reasonCode, toWord epoch]
  | sanctionDenied subject listVersion epoch =>
    [Sig.DENIED, toWord subject, toWord listVersion, toWord epoch]
  | sanctionDenialCorrected subject denialRevision correctionId _ _ _ =>
    [Sig.DENIAL_CORRECTED, toWord subject, toWord denialRevision, correctionId]
  | rosterEpochPublished epoch root listVersion _ _ _ _ =>
    [Sig.EPOCH, toWord epoch, root, toWord listVersion]
  | rosterIssuerAuthorized epoch root issuer => [Sig.EPOCH_AUTH, toWord epoch, root, toWord issuer]
  | rosterIssuerKeyAuthorized epoch root issuer _ =>
    [Sig.KEYED_EPOCH_AUTH, toWord epoch, root, toWord issuer]
  | issuerKeyCompromised issuer issuerKeyEpoch _ _ =>
    [Sig.KEY_COMPROMISED, toWord issuer, toWord issuerKeyEpoch]
  | issuerSet account _ => [Sig.ISSUER_SET, toWord account]
  | epochPublisherSet account _ => [Sig.PUBLISHER_SET, toWord account]
  | denialCorrectionApproverSet account _ => [Sig.APPROVER_SET, toWord account]
  | denialCorrectionProposed correctionId subject denialRevision _ _ _ =>
    [Sig.CORRECTION_PROPOSED, correctionId, toWord subject, toWord denialRevision]
  | denialCorrectionApproved correctionId approver reasonHash =>
    [Sig.CORRECTION_APPROVED, correctionId, toWord approver, reasonHash]
  | ownershipTransferStarted previousOwner newOwner =>
    [Sig.OWNERSHIP_STARTED, toWord previousOwner, toWord newOwner]
  | ownershipTransferred previousOwner newOwner =>
    [Sig.OWNERSHIP_TRANSFERRED, toWord previousOwner, toWord newOwner]

/-- Data words of the log of an event. -/
def words : SourceEvent → List Bytes32
  | markIssued _ _ _ claimsRoot evidenceHash => [claimsRoot, evidenceHash]
  | keyedMarkIssued _ _ _ issuerKeyEpoch claimsRoot evidenceHash =>
    [toWord issuerKeyEpoch, claimsRoot, evidenceHash]
  | sanctionDenialCorrected _ _ _ reasonHash proposer approver =>
    [reasonHash, toWord proposer, toWord approver]
  | rosterEpochPublished _ _ _ validUntil sourceCutoff publishedAt snapshotId =>
    [toWord validUntil, toWord sourceCutoff, toWord publishedAt, snapshotId]
  | rosterIssuerKeyAuthorized _ _ _ issuerKeyEpoch => [toWord issuerKeyEpoch]
  | issuerKeyCompromised _ _ lastTrustedBlock reasonHash => [toWord lastTrustedBlock, reasonHash]
  | issuerSet _ allowed | epochPublisherSet _ allowed | denialCorrectionApproverSet _ allowed =>
    [boolWord allowed]
  | denialCorrectionProposed _ _ _ proposer reasonHash executeAfter =>
    [toWord proposer, reasonHash, toWord executeAfter]
  | markRevoked .. | sanctionDenied .. | rosterIssuerAuthorized .. | denialCorrectionApproved .. |
    ownershipTransferStarted .. | ownershipTransferred .. => []

/-- The log the source contract at `self` writes for an event. -/
def log (self : Address) (e : SourceEvent) : LogEntry := ⟨self, e.topics, abiEncode e.words⟩

@[simp] theorem log_address (self : Address) (e : SourceEvent) : (e.log self).address_ = self := rfl
@[simp] theorem log_topics (self : Address) (e : SourceEvent) : (e.log self).topics = e.topics := rfl
@[simp] theorem log_data (self : Address) (e : SourceEvent) :
    (e.log self).data = abiEncode e.words := rfl

end SourceEvent

/-! ## Publications -/

/-- The fields of an epoch publication. -/
structure Publication where
  epoch : U32
  root : Bytes32
  listVersion : U32
  validUntil : U40
  sourceCutoff : U40
  publishedAt : U40
  snapshotId : Bytes32
deriving DecidableEq

/-- The bounds the hub and the source check alike. -/
def Publication.Valid (p : Publication) : Prop :=
  EpochBounds.valid p.root p.sourceCutoff p.publishedAt p.validUntil p.snapshotId = true

instance (p : Publication) : Decidable p.Valid := inferInstanceAs (Decidable (_ = true))

/-- The event of a publication. -/
def Publication.event (p : Publication) : SourceEvent :=
  .rosterEpochPublished p.epoch p.root p.listVersion p.validUntil p.sourceCutoff p.publishedAt
    p.snapshotId

/-- The approval of one issuer, with its key epoch when it has one. -/
def Publication.approvalEvents (p : Publication) (approval : Address × U64) : List SourceEvent :=
  .rosterIssuerAuthorized p.epoch p.root approval.1 ::
    if approval.2 ≠ 0 then [.rosterIssuerKeyAuthorized p.epoch p.root approval.1 approval.2] else []

/-- The events of a publication: the approvals, then the epoch. -/
def Publication.events (p : Publication) (approvals : List (Address × U64)) : List SourceEvent :=
  approvals.flatMap p.approvalEvents ++ [p.event]

end Proofmark
