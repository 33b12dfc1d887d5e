/-
  `GatedRwaNote` (src/GatedRwaNote.sol): a token that moves only between accounts the
  registry verifies, with a governed recovery.

  What the registry answers during a call is the argument `isVerified`.
-/
import Proofmark.Evm.ERC20
import Proofmark.Evm.Ownable
import Proofmark.Lib.Machine

namespace Proofmark

open Revert Function

inductive RecoveryKind where
  | transfer
  | burn
deriving DecidableEq

structure RecoveryRequest where
  from_ : Address
  to_ : Address
  amount : U256
  reasonHash : Bytes32
  proposer : Address
  approver : Address
  executeAfter : U40
  kind : RecoveryKind
  executed : Bool
deriving DecidableEq

/-- A request that was never written. -/
def RecoveryRequest.empty : RecoveryRequest := ⟨0, 0, 0, 0, 0, 0, 0, .transfer, false⟩

/-- What the constructor asks the registry. -/
structure RegistryView where
  policyFrozen : U256 → Bool
  policyRequiresRoster : U256 → Bool
  ROSTER_WITNESS_VERSION : U256

/-- The storage of the note, with its immutables. -/
structure GatedRwaNote where
  token : ERC20
  ownable : Ownable
  REGISTRY : Address
  POLICY_ID : U256
  complianceBypass : Bool
  recoveryProposer : Address
  recoveryApprover : Address
  nextRecoveryId : U256
  recoveryRequests : U256 → RecoveryRequest

inductive NoteError where
  | erc20 (e : ERC20Error)
  | ownable (e : OwnableError)
  /-- `require(c, reason)` -/
  | require (reason : String)
  | senderNotVerified (from_ : Address) (policyId : U256)
  | recipientNotVerified (to_ : Address) (policyId : U256)
  | policyMustBeFrozen (policyId : U256)
  | policyMustRequireRoster (policyId : U256)
  | recoveryGovernanceAlreadyConfigured
  | invalidRecoveryGovernance
  | notRecoveryProposer (caller : Address)
  | notRecoveryApprover (caller : Address)
  | invalidRecoveryRequest
  | recoveryNotApproved (recoveryId : U256)
  | recoveryDelayActive (recoveryId : U256) (executeAfter : U40)
  | arithmeticPanic
deriving DecidableEq

namespace GatedRwaNote

def MIN_RECOVERY_DELAY : ℕ := 3600

/-- The constructor. -/
def construct (view : RegistryView) (registry : Address) (policyId : U256) (initialOwner : Address) :
    Except NoteError GatedRwaNote := do
  let ownable ← (Ownable.deploy initialOwner).mapError .ownable
  revertIf (registry = 0) (.require "zero registry")
  revertIf (¬ view.policyFrozen policyId) (.policyMustBeFrozen policyId)
  revertIf (view.ROSTER_WITNESS_VERSION ≠ 1) (.require "unsupported roster witness")
  revertIf (¬ view.policyRequiresRoster policyId) (.policyMustRequireRoster policyId)
  pure
    { token := .deployed
      ownable
      REGISTRY := registry
      POLICY_ID := policyId
      complianceBypass := false
      recoveryProposer := 0
      recoveryApprover := 0
      nextRecoveryId := 1
      recoveryRequests := fun _ => .empty }

section
variable (isVerified : Address → U256 → Bool) (msg : Msg) (s : GatedRwaNote)

def onlyOwner : Except NoteError Unit := (s.ownable.onlyOwner msg.sender).mapError .ownable

/-! ## Movements -/

/-- `_update`: both sides are checked, but for the zero address. -/
def update_ (from_ to_ : Address) (value : U256) : Except NoteError GatedRwaNote := do
  revertIf (¬ s.complianceBypass ∧ from_ ≠ 0 ∧ ¬ isVerified from_ s.POLICY_ID)
    (.senderNotVerified from_ s.POLICY_ID)
  revertIf (to_ ≠ 0 ∧ ¬ isVerified to_ s.POLICY_ID) (.recipientNotVerified to_ s.POLICY_ID)
  let token ← (s.token.update_ from_ to_ value).mapError .erc20
  pure { s with token }

/-- `_transfer` of `ERC20` -/
def transfer_ (from_ to_ : Address) (value : U256) : Except NoteError GatedRwaNote := do
  revertIf (from_ = 0) (.erc20 (.invalidSender 0))
  revertIf (to_ = 0) (.erc20 (.invalidReceiver 0))
  s.update_ isVerified from_ to_ value

/-- `_mint` of `ERC20` -/
def mint_ (account : Address) (value : U256) : Except NoteError GatedRwaNote := do
  revertIf (account = 0) (.erc20 (.invalidReceiver 0))
  s.update_ isVerified 0 account value

/-- `_burn` of `ERC20` -/
def burn_ (account : Address) (value : U256) : Except NoteError GatedRwaNote := do
  revertIf (account = 0) (.erc20 (.invalidSender 0))
  s.update_ isVerified account 0 value

def transfer (to_ : Address) (value : U256) : Except NoteError GatedRwaNote :=
  s.transfer_ isVerified msg.sender to_ value

def approve (spender : Address) (value : U256) : Except NoteError GatedRwaNote := do
  let token ← (s.token.approve msg.sender spender value).mapError .erc20
  pure { s with token }

def transferFrom (from_ to_ : Address) (value : U256) : Except NoteError GatedRwaNote := do
  let token ← (s.token.spendAllowance from_ msg.sender value).mapError .erc20
  transfer_ isVerified { s with token } from_ to_ value

def mint (to_ : Address) (amount : U256) : Except NoteError GatedRwaNote := do
  s.onlyOwner msg
  s.mint_ isVerified to_ amount

def burn (amount : U256) : Except NoteError GatedRwaNote := s.burn_ isVerified msg.sender amount

/-! ## Recovery -/

def configureRecoveryGovernance (proposer approver : Address) : Except NoteError GatedRwaNote := do
  s.onlyOwner msg
  revertIf (s.recoveryProposer ≠ 0) .recoveryGovernanceAlreadyConfigured
  revertIf (proposer = 0 ∨ approver = 0 ∨ proposer = approver) .invalidRecoveryGovernance
  pure { s with recoveryProposer := proposer, recoveryApprover := approver }

def proposeRecovery (kind : RecoveryKind) (from_ to_ : Address) (amount : U256)
    (reasonHash : Bytes32) : Except NoteError GatedRwaNote := do
  revertIf (msg.sender ≠ s.recoveryProposer) (.notRecoveryProposer msg.sender)
  revertIf (from_ = 0 ∨ amount = 0 ∨ reasonHash = 0 ∨ kind = .transfer ∧ to_ = 0 ∨
    kind = .burn ∧ to_ ≠ 0) .invalidRecoveryRequest
  revertIf (kind = .transfer ∧ ¬ isVerified to_ s.POLICY_ID) (.recipientNotVerified to_ s.POLICY_ID)
  revertIf (s.nextRecoveryId = BitVec.allOnes 256) .arithmeticPanic
  let recoveryId := s.nextRecoveryId
  let executeAfter := BitVec.ofNat 40 (msg.timestamp + MIN_RECOVERY_DELAY)
  let request : RecoveryRequest :=
    { from_, to_, amount, reasonHash, proposer := msg.sender, approver := 0, executeAfter, kind,
      executed := false }
  pure { s with
    nextRecoveryId := recoveryId + 1
    recoveryRequests := update s.recoveryRequests recoveryId request }

def approveRecovery (recoveryId : U256) : Except NoteError GatedRwaNote := do
  revertIf (msg.sender ≠ s.recoveryApprover) (.notRecoveryApprover msg.sender)
  let request := s.recoveryRequests recoveryId
  revertIf (request.proposer = 0 ∨ request.approver ≠ 0 ∨ request.executed) .invalidRecoveryRequest
  pure { s with
    recoveryRequests := update s.recoveryRequests recoveryId { request with approver := msg.sender } }

/-- The movement of an executed request. -/
def recover (request : RecoveryRequest) : Except NoteError GatedRwaNote :=
  match request.kind with
  | .transfer => s.transfer_ isVerified request.from_ request.to_ request.amount
  | .burn => s.burn_ isVerified request.from_ request.amount

def executeRecovery (recoveryId : U256) : Except NoteError GatedRwaNote := do
  let request := s.recoveryRequests recoveryId
  revertIf (request.proposer = 0 ∨ request.executed) .invalidRecoveryRequest
  revertIf (request.approver = 0) (.recoveryNotApproved recoveryId)
  revertIf (msg.timestamp < request.executeAfter.toNat)
    (.recoveryDelayActive recoveryId request.executeAfter)
  revertIf (request.kind = .transfer ∧ ¬ isVerified request.to_ s.POLICY_ID)
    (.recipientNotVerified request.to_ s.POLICY_ID)
  let opened : GatedRwaNote :=
    { s with
      recoveryRequests := update s.recoveryRequests recoveryId { request with executed := true }
      complianceBypass := true }
  let moved ← opened.recover isVerified request
  pure { moved with complianceBypass := false }

def canTransfer (from_ to_ : Address) : Bool :=
  isVerified from_ s.POLICY_ID && isVerified to_ s.POLICY_ID

end

/-- The transactions to the note. -/
inductive Call where
  | ownership (c : OwnableCall)
  | transfer (to_ : Address) (value : U256)
  | approve (spender : Address) (value : U256)
  | transferFrom (from_ to_ : Address) (value : U256)
  | mint (to_ : Address) (amount : U256)
  | burn (amount : U256)
  | configureRecoveryGovernance (proposer approver : Address)
  | proposeRecovery (kind : RecoveryKind) (from_ to_ : Address) (amount : U256)
      (reasonHash : Bytes32)
  | approveRecovery (recoveryId : U256)
  | executeRecovery (recoveryId : U256)

def call (isVerified : Address → U256 → Bool) (msg : Msg) (s : GatedRwaNote) :
    Call → Except NoteError GatedRwaNote
  | .ownership c => do
    let ownable ← (s.ownable.call msg.sender c).mapError .ownable
    pure { s with ownable }
  | .transfer to_ value => s.transfer isVerified msg to_ value
  | .approve spender value => s.approve msg spender value
  | .transferFrom from_ to_ value => s.transferFrom isVerified msg from_ to_ value
  | .mint to_ amount => s.mint isVerified msg to_ amount
  | .burn amount => s.burn isVerified msg amount
  | .configureRecoveryGovernance proposer approver =>
    s.configureRecoveryGovernance msg proposer approver
  | .proposeRecovery kind from_ to_ amount reasonHash =>
    s.proposeRecovery isVerified msg kind from_ to_ amount reasonHash
  | .approveRecovery recoveryId => s.approveRecovery msg recoveryId
  | .executeRecovery recoveryId => s.executeRecovery isVerified msg recoveryId

end GatedRwaNote

/-- A call with its message, and what the registry answers meanwhile. -/
structure NoteAction where
  isVerified : Address → U256 → Bool
  msg : Msg
  call : GatedRwaNote.Call

abbrev NoteEntry := Machine.Entry GatedRwaNote NoteAction Unit

/-- The note as a machine, under a registry that may answer anything. -/
def GatedRwaNote.machine : Machine GatedRwaNote NoteAction Unit NoteError where
  step s a := (s.call a.isVerified a.msg a.call).map (·, ())

end Proofmark
