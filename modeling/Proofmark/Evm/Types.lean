/-
  The EVM types the contracts share: fixed-width integers, event logs, call
  messages, and the source-chain coordinates that order logs.
-/
import Proofmark.Lib.Words
import Mathlib.Data.Prod.Lex
import Mathlib.Order.BoundedOrder.Basic
import Mathlib.Tactic.NormNum

namespace Proofmark

open Words

abbrev U8 := BitVec 8
abbrev U16 := BitVec 16
abbrev U32 := BitVec 32
abbrev U40 := BitVec 40
abbrev U64 := BitVec 64
abbrev U256 := BitVec 256
abbrev Bytes32 := BitVec 256
abbrev Address := BitVec 160
abbrev Bytes := List Byte

/-- `bytes32(uint256(x))` -/
def toWord {w : ℕ} (x : BitVec w) : Bytes32 := x.setWidth 256

/-- `address(uint160(uint256(w)))`: the high bits are dropped. -/
def toAddress (w : Bytes32) : Address := w.setWidth 160

/-- The `uintN` an ABI word decodes to; a word that does not fit reverts. -/
def toUInt? (n : ℕ) (w : Bytes32) : Option (BitVec n) :=
  if w.toNat < 2 ^ n then some (w.setWidth n) else none

theorem toNat_toWord {w : ℕ} (x : BitVec w) (hw : w ≤ 256) : (toWord x).toNat = x.toNat := by
  rw [toWord, BitVec.toNat_setWidth, Nat.mod_eq_of_lt]
  exact x.isLt.trans_le (Nat.pow_le_pow_right (by norm_num) hw)

theorem setWidth_toWord {w : ℕ} (x : BitVec w) (hw : w ≤ 256) : (toWord x).setWidth w = x := by
  rw [toWord, BitVec.setWidth_setWidth_of_le x hw, BitVec.setWidth_eq]

@[simp] theorem toAddress_toWord (a : Address) : toAddress (toWord a) = a :=
  setWidth_toWord a (by norm_num)

theorem toUInt?_toWord {w : ℕ} (x : BitVec w) (hw : w ≤ 256) : toUInt? w (toWord x) = some x := by
  rw [toUInt?, toNat_toWord x hw, if_pos x.isLt, setWidth_toWord x hw]

theorem toWord_inj {w : ℕ} {x y : BitVec w} (hw : w ≤ 256) : toWord x = toWord y ↔ x = y := by
  refine ⟨fun h => ?_, fun h => h ▸ rfl⟩
  rw [← setWidth_toWord x hw, h, setWidth_toWord y hw]

/-! Checked counters. -/

theorem bv_add_one_ne_zero {w : ℕ} {x : BitVec w} (h : x ≠ BitVec.allOnes w) : x + 1 ≠ 0 := by
  intro h0
  apply h
  have h1 : x = 0 - 1 := by rw [← h0, BitVec.add_sub_cancel]
  rw [h1]
  simp [BitVec.neg_one_eq_allOnes]

theorem bv_toNat_add_one {w : ℕ} {x : BitVec w} (h : x ≠ BitVec.allOnes w) :
    (x + 1).toNat = x.toNat + 1 := by
  have hlt : x.toNat + 1 < 2 ^ w := by
    have h1 := x.isLt
    have h2 : x.toNat ≠ 2 ^ w - 1 := fun he => h (BitVec.eq_of_toNat_eq (by simpa using he))
    omega
  have h1 : (1 : BitVec w).toNat = 1 := by
    change (1 : ℕ) % 2 ^ w = 1
    exact Nat.mod_eq_of_lt (by omega)
  rw [BitVec.toNat_add, h1, Nat.mod_eq_of_lt hlt]

/-- An event log: its emitter, its topics and its data. -/
structure LogEntry where
  address_ : Address
  topics : List Bytes32
  data : Bytes
deriving DecidableEq

/-- The topic at position `i`; the handlers check the number of topics first. -/
def LogEntry.topic (L : LogEntry) (i : ℕ) : Bytes32 := L.topics.getD i 0

/-- The message and the block of a call.  No call comes from the zero address. -/
structure Msg where
  sender : Address
  number : U64
  timestamp : ℕ
  sender_ne : sender ≠ 0

/-! Senders of the example runs. -/

namespace Sender

theorem owner : (1 : Address) ≠ 0 := by decide
theorem issuer : (3 : Address) ≠ 0 := by decide
theorem approver : (4 : Address) ≠ 0 := by decide
theorem outsider : (9 : Address) ≠ 0 := by decide

end Sender

/-! ## Source coordinates -/

/-- Where a log stands on the source chain: block, transaction, position in the
    receipt. -/
structure Coord where
  height : U64
  txIndex : U64
  logIndex : ℕ

namespace Coord

def key (c : Coord) : ℕ ×ₗ (ℕ ×ₗ ℕ) := toLex (c.height.toNat, toLex (c.txIndex.toNat, c.logIndex))

theorem key_injective : Function.Injective key := by
  rintro ⟨h, t, i⟩ ⟨h', t', i'⟩ he
  simp only [key, EmbeddingLike.apply_eq_iff_eq, Prod.mk.injEq, BitVec.toNat_inj] at he
  obtain ⟨rfl, rfl, rfl⟩ := he
  rfl

instance : LinearOrder Coord := LinearOrder.lift' key key_injective

theorem lt_iff {a b : Coord} : a < b ↔ a.height < b.height ∨
    a.height = b.height ∧ (a.txIndex < b.txIndex ∨
      a.txIndex = b.txIndex ∧ a.logIndex < b.logIndex) := by
  change a.key < b.key ↔ _
  simp only [key, Prod.Lex.toLex_lt_toLex, BitVec.lt_def, BitVec.toNat_inj]

instance : OrderBot Coord where
  bot := ⟨0, 0, 0⟩
  bot_le c := by
    rw [← not_lt, lt_iff]
    rintro (h | ⟨-, h | ⟨-, h⟩⟩)
    · exact absurd h (by simp)
    · exact absurd h (by simp)
    · exact absurd h (Nat.not_lt_zero _)

theorem bot_def : (⊥ : Coord) = ⟨0, 0, 0⟩ := rfl

/-- A log of a block after the genesis block stands after the initial cursor. -/
theorem bot_lt_of_height {c : Coord} (h : 1 ≤ c.height) : ⊥ < c := by
  rw [lt_iff]
  left
  rw [BitVec.lt_def]
  rw [BitVec.le_def] at h
  exact Nat.lt_of_lt_of_le (by decide) h

end Coord

/-- What a source transaction leaves behind: its place on the chain and its logs. -/
structure Receipt where
  height : U64
  txIndex : U64
  logs : List LogEntry
deriving DecidableEq

/-- The order of source transactions. -/
def Receipt.Before (a b : Receipt) : Prop :=
  a.height < b.height ∨ a.height = b.height ∧ a.txIndex < b.txIndex

instance (a b : Receipt) : Decidable (a.Before b) := inferInstanceAs (Decidable (_ ∨ _))

end Proofmark
