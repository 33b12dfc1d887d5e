/-
  When an issuance counts as propagated (src/pipeline/issuance-evm.ts, `materialized`).

  The reads of one call are made at one block of the hub.  `none` is a call that throws.
-/
import Proofmark.Contract.ProofmarkASC
import Proofmark.Pipeline.Attrs
import Proofmark.Pipeline.IssuanceJournal

namespace Proofmark

inductive IssuerMode where
  | direct
  | rotating
deriving DecidableEq

/-- The target of an entry, as far as the acknowledgement reads it. -/
structure EvmTarget where
  issuer : Address
  issuerMode : Option IssuerMode
  operatingKey : Option Address
  issuerKeyEpoch : Option ℕ

/-- What an approved entry issues. -/
structure IssuedOutcome where
  attrs : Bytes32
  claimsRoot : Bytes32
  evidenceHash : Bytes32

/-- The immutable part of an entry; `outcome` is there when its status is `ISSUED`. -/
structure EvmEntry where
  wallet : Address
  target : EvmTarget
  outcome : Option IssuedOutcome

structure RotatingTarget where
  issuer : Address
  operatingKey : Address
  issuerKeyEpoch : ℕ

def checkedRotatingTarget (e : EvmEntry) : Option RotatingTarget := do
  if e.target.issuerMode ≠ some .rotating then none
  else
    let operatingKey ← e.target.operatingKey
    let issuerKeyEpoch ← e.target.issuerKeyEpoch
    if operatingKey = 0 then none
    else if MAX_SAFE_INTEGER < issuerKeyEpoch ∨ issuerKeyEpoch < 1 then none
    else some ⟨e.target.issuer, operatingKey, issuerKeyEpoch⟩

/-- The reads of the hub contract. -/
structure AckReads where
  mark : Mark
  tombstone : Bool
  height : U64
  index : U64
  keyEpoch : U64
  usable : Bool

def ProofmarkASC.ackReads (asc : ProofmarkASC) (wallet : Address) : AckReads where
  mark := (asc.subjects wallet).mark
  tombstone := (asc.subjects wallet).tombstone
  height := (asc.subjects wallet).lastApplied.height
  index := (asc.subjects wallet).lastApplied.txIndex
  keyEpoch := (asc.subjects wallet).markIssuerKeyEpoch
  usable := asc.isMarkIssuerUsable wallet

/-- `packAttrs` of the fields of a mark. -/
def Mark.packAttrs (m : Mark) : Option Bytes32 :=
  (Proofmark.packAttrs ⟨m.kind.toNat, m.assurance.toNat, m.regime.toNat, m.jurisdiction.toNat,
    m.methods.toNat, m.issuedAt.toNat, m.expiry.toNat, m.epoch.toNat⟩).toOption

/-- The stored mark is the issued one. -/
def AckReads.sameMark (reads : AckReads) (o : IssuedOutcome) (issuer : Address) : Option Bool := do
  let attrs ← reads.mark.packAttrs
  some (attrs == o.attrs && reads.mark.claimsRoot == o.claimsRoot &&
    reads.mark.evidenceHash == o.evidenceHash && reads.mark.issuer == issuer)

namespace EvmIssuanceTransport

def materialized (reads : AckReads) (e : EvmEntry) (confirmation : SourceConfirmation) : Option Bool :=
  match e.outcome with
  | none => some false
  | some o =>
    if reads.tombstone = true ∨ reads.mark.status ≠ .active ∨ reads.mark.origin ≠ .direct ∨
        reads.height.toNat ≠ confirmation.blockNumber ∨
        reads.index.toNat ≠ confirmation.transactionIndex then some false
    else reads.sameMark o e.target.issuer

end EvmIssuanceTransport

namespace RotatingIssuerEvmTransport

def materialized (reads : AckReads) (e : EvmEntry) (confirmation : SourceConfirmation) : Option Bool :=
  match e.outcome with
  | none => some false
  | some o => do
    let t ← checkedRotatingTarget e
    if reads.tombstone = true ∨ reads.usable = false ∨ reads.keyEpoch.toNat ≠ t.issuerKeyEpoch ∨
        reads.mark.status ≠ .active ∨ reads.mark.origin ≠ .direct ∨
        reads.height.toNat ≠ confirmation.blockNumber ∨
        reads.index.toNat ≠ confirmation.transactionIndex then some false
    else reads.sameMark o t.issuer

end RotatingIssuerEvmTransport

/-- The answer of the transport of the target's mode. -/
def EvmEntry.materialized (e : EvmEntry) (reads : AckReads) (confirmation : SourceConfirmation) :
    Option Bool :=
  if e.target.issuerMode = some .rotating then
    RotatingIssuerEvmTransport.materialized reads e confirmation
  else EvmIssuanceTransport.materialized reads e confirmation

end Proofmark
