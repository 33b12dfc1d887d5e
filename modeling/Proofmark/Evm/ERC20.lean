/-
  OpenZeppelin's `ERC20`: balances, allowances and the total supply.

  `_update` moves a value from one account to another, from nowhere when the first is
  zero and to nowhere when the second is.  `Conserved` says that the balances sum up to
  the total supply, and `update_moved` that `_update` keeps it.
-/
import Proofmark.Evm.Types
import Proofmark.Lib.Ledger
import Proofmark.Lib.Revert
import Mathlib.Logic.Function.Basic

namespace Proofmark

open Revert Function

structure ERC20 where
  balances : Address → U256
  totalSupply : U256
  allowances : Address → Address → U256

inductive ERC20Error where
  | insufficientBalance (sender : Address) (balance needed : U256)
  | invalidSender (sender : Address)
  | invalidReceiver (receiver : Address)
  | insufficientAllowance (spender : Address) (allowance needed : U256)
  | invalidSpender (spender : Address)
  | arithmeticPanic
deriving DecidableEq

namespace ERC20

def deployed : ERC20 := ⟨fun _ => 0, 0, fun _ _ => 0⟩

variable (t : ERC20)

/-- The first half of `_update`: what leaves `from_`. -/
def debit (from_ : Address) (value : U256) : Except ERC20Error ERC20 :=
  if from_ = 0 then do
    revertIf (2 ^ 256 ≤ t.totalSupply.toNat + value.toNat) .arithmeticPanic
    pure { t with totalSupply := t.totalSupply + value }
  else do
    revertIf (t.balances from_ < value) (.insufficientBalance from_ (t.balances from_) value)
    pure { t with balances := update t.balances from_ (t.balances from_ - value) }

/-- The second half of `_update`, unchecked: what arrives at `to_`. -/
def credit (to_ : Address) (value : U256) : ERC20 :=
  if to_ = 0 then { t with totalSupply := t.totalSupply - value }
  else { t with balances := update t.balances to_ (t.balances to_ + value) }

/-- `_update` -/
def update_ (from_ to_ : Address) (value : U256) : Except ERC20Error ERC20 := do
  let t ← t.debit from_ value
  pure (t.credit to_ value)

/-- `_approve` -/
def approve (owner spender : Address) (value : U256) : Except ERC20Error ERC20 := do
  revertIf (spender = 0) (.invalidSpender 0)
  pure { t with
    allowances := update t.allowances owner (update (t.allowances owner) spender value) }

/-- `_spendAllowance`; an unlimited allowance is not spent. -/
def spendAllowance (owner spender : Address) (value : U256) : Except ERC20Error ERC20 :=
  let currentAllowance := t.allowances owner spender
  if currentAllowance < BitVec.allOnes 256 then do
    revertIf (currentAllowance < value) (.insufficientAllowance spender currentAllowance value)
    pure { t with
      allowances := update t.allowances owner
        (update (t.allowances owner) spender (currentAllowance - value)) }
  else pure t

/-! ## Conservation -/

/-- The balances, by the number of the account. -/
def holdings (t : ERC20) (i : Fin (2 ^ 160)) : ℕ := (t.balances (BitVec.ofFin i)).toNat

/-- The sum of all balances. -/
def held (t : ERC20) : ℕ := Ledger.total t.holdings

def Conserved (t : ERC20) : Prop := t.held = t.totalSupply.toNat

theorem conserved_deployed : deployed.Conserved := Ledger.total_zero

variable {t}

theorem holdings_toFin (a : Address) : t.holdings a.toFin = (t.balances a).toNat := rfl

/-- Allowances have no part in it. -/
theorem Conserved.congr {t' : ERC20} (h : t.Conserved) (hb : t'.balances = t.balances)
    (hs : t'.totalSupply = t.totalSupply) : t'.Conserved := by
  have hh : t'.holdings = t.holdings := by
    funext i
    rw [holdings, hb, holdings]
  rw [Conserved, held, hh, hs]
  exact h

theorem balance_le_held (a : Address) : (t.balances a).toNat ≤ t.held := by
  have h := Ledger.le_total t.holdings a.toFin
  rwa [holdings_toFin, ← held] at h

/-- Setting one balance changes the sum by the difference. -/
theorem held_update (a : Address) (v : U256) :
    held { t with balances := update t.balances a v } + (t.balances a).toNat = t.held + v.toNat := by
  have hu (i : Fin (2 ^ 160)) : holdings { t with balances := update t.balances a v } i =
      update t.holdings a.toFin v.toNat i := by
    by_cases hi : i = a.toFin
    · subst hi
      simp [holdings]
    · have hne : BitVec.ofFin i ≠ a := fun he => hi (by rw [← he])
      rw [update_of_ne hi]
      simp only [holdings, update_of_ne hne]
  have h := Ledger.total_update t.holdings a.toFin v.toNat
  rw [holdings_toFin, ← held] at h
  rw [held, Ledger.total_congr hu, h]

/-- The value has left `from_`, and the supply is ahead of the sum by it. -/
theorem debit_ok {t₁ : ERC20} {from_ : Address} {value : U256} (hc : t.Conserved)
    (h : t.debit from_ value = .ok t₁) :
    (∀ a, (t₁.balances a).toNat + (if a = from_ ∧ a ≠ 0 then value.toNat else 0) =
      (t.balances a).toNat) ∧
    t₁.totalSupply.toNat = t.totalSupply.toNat + (if from_ = 0 then value.toNat else 0) ∧
    t₁.held + value.toNat = t₁.totalSupply.toNat := by
  rw [Conserved] at hc
  by_cases hf : from_ = 0
  · simp only [debit, hf, if_true, bind_ok, revertIf_ok, pure_ok, not_le] at h
    obtain ⟨_, hlt, rfl⟩ := h
    have hadd : (t.totalSupply + value).toNat = t.totalSupply.toNat + value.toNat :=
      BitVec.toNat_add_of_lt hlt
    refine ⟨fun a => ?_, ?_, ?_⟩
    · rw [if_neg fun h => h.2 (h.1.trans hf), Nat.add_zero]
    · rw [if_pos hf, hadd]
    · change t.held + value.toNat = _
      rw [hadd, hc]
  · simp only [debit, hf, if_false, bind_ok, revertIf_ok, pure_ok, BitVec.not_lt] at h
    obtain ⟨_, hle, rfl⟩ := h
    have hsub : (t.balances from_ - value).toNat = (t.balances from_).toNat - value.toNat :=
      BitVec.toNat_sub_of_le hle
    rw [BitVec.le_def] at hle
    refine ⟨fun a => ?_, ?_, ?_⟩
    · by_cases ha : a = from_
      · have hz : a = from_ ∧ a ≠ 0 := ⟨ha, fun h => hf (ha.symm.trans h)⟩
        rw [if_pos hz, ha]
        simp only [update_self, hsub]
        omega
      · rw [if_neg fun h => ha h.1, Nat.add_zero]
        simp only [update_of_ne ha]
    · rw [if_neg hf, Nat.add_zero]
    · have hsum := t.held_update from_ (t.balances from_ - value)
      dsimp only
      omega

/-- The value arrives at `to_`, where there is room for it. -/
theorem credit_ok {t₁ : ERC20} {to_ : Address} {value : U256}
    (h : t₁.held + value.toNat = t₁.totalSupply.toNat) :
    (∀ a, ((t₁.credit to_ value).balances a).toNat =
      (t₁.balances a).toNat + (if a = to_ ∧ a ≠ 0 then value.toNat else 0)) ∧
    (t₁.credit to_ value).totalSupply.toNat + (if to_ = 0 then value.toNat else 0) =
      t₁.totalSupply.toNat ∧
    (t₁.credit to_ value).Conserved := by
  have hlt := t₁.totalSupply.isLt
  by_cases ht : to_ = 0
  · have hsub : (t₁.totalSupply - value).toNat = t₁.totalSupply.toNat - value.toNat :=
      BitVec.toNat_sub_of_le (by rw [BitVec.le_def]; omega)
    rw [credit, if_pos ht]
    refine ⟨fun a => ?_, ?_, ?_⟩
    · rw [if_neg fun h => h.2 (h.1.trans ht), Nat.add_zero]
    · rw [if_pos ht, hsub]
      omega
    · change t₁.held = (t₁.totalSupply - value).toNat
      rw [hsub]
      omega
  · have hle := t₁.balance_le_held to_
    have hadd : (t₁.balances to_ + value).toNat = (t₁.balances to_).toNat + value.toNat :=
      BitVec.toNat_add_of_lt (by omega)
    rw [credit, if_neg ht]
    refine ⟨fun a => ?_, ?_, ?_⟩
    · by_cases ha : a = to_
      · have hz : a = to_ ∧ a ≠ 0 := ⟨ha, fun h => ht (ha.symm.trans h)⟩
        rw [if_pos hz, ha]
        simp [hadd]
      · rw [if_neg fun h => ha h.1, Nat.add_zero]
        simp only [update_of_ne ha]
    · rw [if_neg ht, Nat.add_zero]
    · have hsum := t₁.held_update to_ (t₁.balances to_ + value)
      rw [Conserved]
      dsimp only
      omega

/-- A value moved from one account to another, and nothing else did. -/
structure Moved (from_ to_ : Address) (value : U256) (t t' : ERC20) : Prop where
  balances : ∀ a, (t'.balances a).toNat + (if a = from_ ∧ a ≠ 0 then value.toNat else 0) =
    (t.balances a).toNat + (if a = to_ ∧ a ≠ 0 then value.toNat else 0)
  totalSupply : t'.totalSupply.toNat + (if to_ = 0 then value.toNat else 0) =
    t.totalSupply.toNat + (if from_ = 0 then value.toNat else 0)

/-- **`_update` moves the value and keeps the sum.** -/
theorem update_moved {t' : ERC20} {from_ to_ : Address} {value : U256} (hc : t.Conserved)
    (h : t.update_ from_ to_ value = .ok t') : Moved from_ to_ value t t' ∧ t'.Conserved := by
  simp only [update_, bind_ok, pure_ok] at h
  obtain ⟨t₁, h1, rfl⟩ := h
  obtain ⟨hb, hs, hsum⟩ := debit_ok hc h1
  obtain ⟨hb', hs', hc'⟩ := @credit_ok _ to_ _ hsum
  refine ⟨⟨fun a => ?_, ?_⟩, hc'⟩
  · rw [hb' a, ← hb a]
    omega
  · rw [hs', hs]

end ERC20

end Proofmark
