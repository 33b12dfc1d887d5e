/-
  OpenZeppelin's `Ownable2Step`: two-step ownership transfer.

  A new owner is proposed by the owner and takes over only when it accepts.
-/
import Proofmark.Evm.Types
import Proofmark.Lib.Revert

namespace Proofmark

open Revert

structure Ownable where
  owner : Address
  pendingOwner : Address
deriving DecidableEq

inductive OwnableError where
  | unauthorizedAccount (account : Address)
  | invalidOwner (owner : Address)
deriving DecidableEq

inductive OwnableCall where
  | transferOwnership (newOwner : Address)
  | acceptOwnership
  | renounceOwnership

namespace Ownable

def deploy (initialOwner : Address) : Except OwnableError Ownable := do
  revertIf (initialOwner = 0) (.invalidOwner 0)
  pure ⟨initialOwner, 0⟩

def onlyOwner (o : Ownable) (sender : Address) : Except OwnableError Unit :=
  revertIf (o.owner ≠ sender) (.unauthorizedAccount sender)

def call (o : Ownable) (sender : Address) : OwnableCall → Except OwnableError Ownable
  | .transferOwnership newOwner => do
    o.onlyOwner sender
    pure { o with pendingOwner := newOwner }
  | .acceptOwnership => do
    revertIf (o.pendingOwner ≠ sender) (.unauthorizedAccount sender)
    pure ⟨sender, 0⟩
  | .renounceOwnership => do
    o.onlyOwner sender
    pure ⟨0, 0⟩

@[simp] theorem onlyOwner_ok {o : Ownable} {sender : Address} {u : Unit} :
    o.onlyOwner sender = .ok u ↔ o.owner = sender := by
  simp [onlyOwner]

end Ownable

end Proofmark
