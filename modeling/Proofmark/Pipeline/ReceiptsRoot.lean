/-
  The receipts root (`computeReceiptsRoot` of src/pipeline/roster-source.ts).

  Hex strings are the bytes they write.  The trie builder calls itself with shorter keys;
  `trieNode` counts down from a bound on their length.
-/
import Proofmark.Evm.Types
import Proofmark.Lib.PatriciaTrie
import Proofmark.Pipeline.Disclosure

namespace Proofmark

open Words Revert Patricia

namespace ReceiptsRoot

inductive ReceiptError where
  | receiptFieldsUnavailable
  | negativeReceiptInteger
  /-- no array is longer -/
  | invalidArrayLength
deriving DecidableEq

/-- The fields that the root is made of. -/
structure SnapshotReceipt where
  type : ℕ
  status : Option ℕ
  cumulativeGasUsed : ℤ
  logsBloom : Bytes
  root : Option Bytes
deriving DecidableEq

/-- A receipt with its index in the block, a safe integer, and its logs. -/
structure IndexedReceipt where
  index : ℕ
  receipt : SnapshotReceipt
  logs : List LogEntry
  safe : index < 2 ^ 53
deriving DecidableEq

/-! ## Encodings -/

/-- `ethers.toBeHex` -/
def toBeHex (n : ℕ) : Bytes := toBytes (n.log2 / 8 + 1) n

/-- `ethers.stripZerosLeft` -/
def stripZerosLeft (bs : Bytes) : Bytes := bs.dropWhile fun b => b == 0

def minimalInteger (n : ℤ) : Except ReceiptError Bytes :=
  if n < 0 then .error .negativeReceiptInteger
  else .ok (if n = 0 then [] else stripZerosLeft (toBeHex n.toNat))

def nibbles (value : Bytes) : List Nibble :=
  value.flatMap fun byte => [nibble (byte.toNat >>> 4), nibble byte.toNat]

def compactPath (path : List Nibble) (leaf : Bool) : Bytes :=
  let odd := path.length % 2 = 1
  let packed :=
    if odd then nibble (if leaf then 3 else 1) :: path
    else nibble (if leaf then 2 else 0) :: nibble 0 :: path
  packNibbles packed

/-- The address, the topics and the data of a log. -/
def logItem (log : LogEntry) : Rlp.Item :=
  .list [.str (toBytes 20 log.address_.toNat),
    .list (log.topics.map fun topic => .str (toBytes 32 topic.toNat)), .str log.data]

def encodedReceipt (receipt : SnapshotReceipt) (logs : List LogEntry) :
    Except ReceiptError Bytes := do
  revertIf (receipt.type > 0x7f ∨ receipt.cumulativeGasUsed < 0 ∨ receipt.logsBloom.length ≠ 256 ∨
    ¬ (receipt.status = some 0 ∨ receipt.status = some 1) ∨ receipt.root ≠ none)
    .receiptFieldsUnavailable
  let status ← minimalInteger (receipt.status.getD 0)
  let cumulativeGasUsed ← minimalInteger receipt.cumulativeGasUsed
  let payload := Rlp.encode (.list [.str status, .str cumulativeGasUsed, .str receipt.logsBloom,
    .list (logs.map logItem)])
  revertIf (2 ^ 32 ≤ payload.length) .invalidArrayLength
  pure (if receipt.type = 0 then payload else toBytes 1 receipt.type ++ payload)

/-! ## The trie -/

structure TrieItem where
  key : List Nibble
  value : Bytes
deriving DecidableEq

section
variable (keccak256 : Bytes → Bytes32)

/-- The bytes of a hash. -/
def keccakBytes (bs : Bytes) : Bytes := toBytes 32 (keccak256 bs).toNat

def nodeRef (node : List Rlp.Item) : Rlp.Item :=
  let encoded := Rlp.encode (.list node)
  if encoded.length < 32 then .list node else .str (keccakBytes keccak256 encoded)

/-- `while (items.every(…)) common++`; every round reads one more nibble of the first key. -/
def commonLoop (first : List Nibble) (items : List TrieItem) : ℕ → ℕ → ℕ
  | 0, common => common
  | n + 1, common =>
    if items.all fun item =>
      decide (common < item.key.length) && item.key[common]? == first[common]?
    then commonLoop first items n (common + 1) else common

/-- `key.slice(n)` of every item. -/
def sliceKeys (n : ℕ) (items : List TrieItem) : List TrieItem :=
  items.map fun item => { item with key := item.key.drop n }

def group (nibble : Nibble) (items : List TrieItem) : List TrieItem :=
  sliceKeys 1 (items.filter fun item => item.key[0]? == some nibble)

def terminal (items : List TrieItem) : Option TrieItem :=
  items.find? fun item => item.key.length == 0

def trieNode : ℕ → List TrieItem → List Rlp.Item
  | 0, _ => []
  | _, [] => []
  | _, [item] => [.str (compactPath item.key true), .str item.value]
  | n + 1, first :: rest =>
    let items := first :: rest
    let common := commonLoop first.key items first.key.length 0
    if common ≠ 0 then
      [.str (compactPath (first.key.take common) false),
        nodeRef keccak256 (trieNode n (sliceKeys common items))]
    else
      List.ofFn (fun nibble => if group nibble items = [] then .str []
        else nodeRef keccak256 (trieNode n (group nibble items))) ++
      [.str (((terminal items).map TrieItem.value).getD [])]

/-- `EMPTY_TRIE_ROOT` -/
def EMPTY_TRIE_ROOT : Bytes := keccakBytes keccak256 (Rlp.encode (.str []))

def trieItem (r : IndexedReceipt) : Except ReceiptError TrieItem := do
  let index ← minimalInteger r.index
  let value ← encodedReceipt r.receipt r.logs
  pure ⟨nibbles (Rlp.encode (.str index)), value⟩

/-- More than the length of every key. -/
def keyBound (items : List TrieItem) : ℕ :=
  (items.map fun item => item.key.length).foldr max 0 + 1

def computeReceiptsRoot (receipts : List IndexedReceipt) : Except ReceiptError Bytes :=
  if receipts = [] then pure (EMPTY_TRIE_ROOT keccak256)
  else do
    let items ← receipts.mapM trieItem
    pure (keccakBytes keccak256 (Rlp.encode (.list (trieNode keccak256 (keyBound items) items))))

end

/-! ## Receipt encodings -/

/-- The list of a receipt that the consensus encoding writes. -/
def consensusPayload (r : IndexedReceipt) : Bytes :=
  Rlp.encode (.list [.str (Rlp.scalar (r.receipt.status.getD 0)),
    .str (Rlp.scalar r.receipt.cumulativeGasUsed.toNat), .str r.receipt.logsBloom,
    .list (r.logs.map logItem)])

/-- The consensus encoding: a typed receipt has its type in front. -/
def consensusEncoding (r : IndexedReceipt) : Bytes :=
  if r.receipt.type = 0 then consensusPayload r
  else toBytes 1 r.receipt.type ++ consensusPayload r

/-- The receipts that are not refused. -/
structure Accepted (r : IndexedReceipt) : Prop where
  type : r.receipt.type ≤ 0x7f
  cumulativeGasUsed : 0 ≤ r.receipt.cumulativeGasUsed
  logsBloom : r.receipt.logsBloom.length = 256
  status : r.receipt.status = some 0 ∨ r.receipt.status = some 1
  root : r.receipt.root = none
  length : (consensusPayload r).length < 2 ^ 32

theorem minimalInteger_nat (n : ℕ) : minimalInteger n = .ok (Rlp.scalar n) := by
  rw [minimalInteger, if_neg (by omega), Rlp.scalar]
  simp only [Int.natCast_eq_zero, Int.toNat_natCast]
  split_ifs with h
  · rfl
  · have hlow : 256 ^ (n.log2 / 8) ≤ n := by
      calc 256 ^ (n.log2 / 8) = 2 ^ (8 * (n.log2 / 8)) := by rw [Nat.pow_mul]
        _ ≤ 2 ^ n.log2 := Nat.pow_le_pow_right (by norm_num) (by omega)
        _ ≤ n := Nat.log2_self_le h
    have hhigh : n < 256 ^ (n.log2 / 8) * 256 := by
      calc n < 2 ^ (n.log2 + 1) := Nat.lt_log2_self
        _ ≤ 2 ^ (8 * (n.log2 / 8 + 1)) := Nat.pow_le_pow_right (by norm_num) (by omega)
        _ = 256 ^ (n.log2 / 8) * 256 := by rw [Nat.pow_mul, Nat.pow_succ]
    have hpos : 0 < n / 256 ^ (n.log2 / 8) := Nat.div_pos hlow (by positivity)
    have hlt : n / 256 ^ (n.log2 / 8) < 256 := Nat.div_lt_of_lt_mul hhigh
    have hfirst : ¬ BitVec.ofNat 8 (n / 256 ^ (n.log2 / 8)) = 0 := by
      intro h0
      have hnat := congrArg BitVec.toNat h0
      rw [BitVec.toNat_ofNat, Nat.mod_eq_of_lt (by omega)] at hnat
      have hzero : (0 : BitVec 8).toNat = 0 := rfl
      omega
    rw [toBeHex, toBytes, stripZerosLeft, List.dropWhile_cons_of_neg (by simpa using hfirst)]

theorem encodedReceipt_ok {r : IndexedReceipt} {v : Bytes} :
    encodedReceipt r.receipt r.logs = .ok v ↔ Accepted r ∧ v = consensusEncoding r := by
  rw [encodedReceipt]
  simp only [bind_ok, revertIf_ok, pure_ok]
  constructor
  · rintro ⟨_, hfields, status, hs, gas, hg, _, hlen, rfl⟩
    push Not at hfields
    obtain ⟨htype, hgas, hbloom, hstatus, hroot⟩ := hfields
    have hgas' : r.receipt.cumulativeGasUsed = (r.receipt.cumulativeGasUsed.toNat : ℤ) := by omega
    rw [minimalInteger_nat] at hs
    rw [hgas', minimalInteger_nat] at hg
    cases hs
    cases hg
    exact ⟨⟨htype, hgas, hbloom, hstatus, hroot, by simpa [consensusPayload] using hlen⟩, rfl⟩
  · rintro ⟨h, rfl⟩
    have hgas : r.receipt.cumulativeGasUsed = (r.receipt.cumulativeGasUsed.toNat : ℤ) :=
      (Int.toNat_of_nonneg h.cumulativeGasUsed).symm
    have hfields : ¬ (r.receipt.type > 0x7f ∨ r.receipt.cumulativeGasUsed < 0 ∨
        r.receipt.logsBloom.length ≠ 256 ∨
        ¬ (r.receipt.status = some 0 ∨ r.receipt.status = some 1) ∨ r.receipt.root ≠ none) := by
      push Not
      exact ⟨h.type, h.cumulativeGasUsed, h.logsBloom, h.status, h.root⟩
    exact ⟨(), hfields, _, minimalInteger_nat _, _, hgas ▸ minimalInteger_nat _, (),
      Nat.not_le_of_lt h.length, rfl⟩

theorem logItem_injective : Function.Injective logItem := by
  rintro ⟨a, t, d⟩ ⟨a', t', d'⟩ h
  simp only [logItem, Rlp.Item.list.injEq, List.cons.injEq, Rlp.Item.str.injEq, and_true] at h
  obtain ⟨ha, ht, rfl⟩ := h
  have haddr : a = a' := BitVec.eq_of_toNat_eq
    (@toBytes_inj 20 _ _ (a.isLt.trans_le (by norm_num)) (a'.isLt.trans_le (by norm_num)) ha)
  have htopic : Function.Injective fun topic : Bytes32 =>
      Rlp.Item.str (toBytes 32 topic.toNat) := by
    intro x y hxy
    rw [Rlp.Item.str.injEq] at hxy
    exact BitVec.eq_of_toNat_eq
      (@toBytes_inj 32 _ _ (x.isLt.trans_le (by norm_num)) (y.isLt.trans_le (by norm_num)) hxy)
  rw [haddr, List.map_injective_iff.2 htopic ht]

theorem consensusPayload_inj {r r' : IndexedReceipt} (hr : Accepted r) (hr' : Accepted r')
    (h : consensusPayload r = consensusPayload r') :
    r.receipt.status = r'.receipt.status ∧
      r.receipt.cumulativeGasUsed = r'.receipt.cumulativeGasUsed ∧
      r.receipt.logsBloom = r'.receipt.logsBloom ∧ r.logs = r'.logs := by
  have hitems := Rlp.encode_injective (hr.length.trans (by norm_num)) h
  simp only [Rlp.Item.list.injEq, List.cons.injEq, Rlp.Item.str.injEq, and_true] at hitems
  obtain ⟨hstatus, hgas, hbloom, hlogs⟩ := hitems
  refine ⟨?_, ?_, hbloom, List.map_injective_iff.2 logItem_injective hlogs⟩
  · have hnat := Rlp.scalar_injective hstatus
    rcases hr.status with h1 | h1 <;> rcases hr'.status with h2 | h2 <;> rw [h1, h2] at hnat ⊢ <;>
      cases hnat
  · have hnat := Rlp.scalar_injective hgas
    rw [← Int.toNat_of_nonneg hr.cumulativeGasUsed, hnat, Int.toNat_of_nonneg hr'.cumulativeGasUsed]

theorem consensusPayload_eq_cons (r : IndexedReceipt) (hr : Accepted r) :
    ∃ b l, consensusPayload r = b :: l ∧ 0xc0 ≤ b.toNat := by
  rw [consensusPayload, Rlp.encode, Rlp.header_eq]
  refine ⟨_, _, rfl, ?_⟩
  have hlt := Rlp.length_items_lt [.str (Rlp.scalar (r.receipt.status.getD 0)),
    .str (Rlp.scalar r.receipt.cumulativeGasUsed.toNat), .str r.receipt.logsBloom,
    .list (r.logs.map logItem)]
  have hlen := hr.length
  rw [consensusPayload] at hlen
  obtain ⟨hlo, hhi, -⟩ := Rlp.tag_bounds 0xc0 (hlt.trans (hlen.trans (by norm_num)))
  rw [BitVec.toNat_ofNat, Nat.mod_eq_of_lt (by omega)]
  exact hlo

/-- **The encoding of a receipt tells the receipt.** -/
theorem consensusEncoding_inj {r r' : IndexedReceipt} (hr : Accepted r) (hr' : Accepted r')
    (h : consensusEncoding r = consensusEncoding r') :
    r.receipt = r'.receipt ∧ r.logs = r'.logs := by
  have hone : ∀ t, toBytes 1 t = [BitVec.ofNat 8 t] := fun t => by
    rw [toBytes, toBytes, Nat.pow_zero, Nat.div_one]
  have htyped : ∀ {r r' : IndexedReceipt}, Accepted r → Accepted r' → r.receipt.type ≠ 0 →
      toBytes 1 r.receipt.type ++ consensusPayload r ≠ consensusPayload r' := by
    intro r r' hr hr' hne heq
    obtain ⟨b, l, hb, hlo⟩ := consensusPayload_eq_cons r' hr'
    rw [hone, hb, List.singleton_append, List.cons.injEq] at heq
    have hle := hr.type
    rw [← heq.1, BitVec.toNat_ofNat, Nat.mod_eq_of_lt (by omega)] at hlo
    omega
  have hboth : r.receipt.type = r'.receipt.type ∧ consensusPayload r = consensusPayload r' := by
    rw [consensusEncoding, consensusEncoding] at h
    split_ifs at h with h0 h0' h0'
    · exact ⟨h0.trans h0'.symm, h⟩
    · exact absurd h.symm (htyped hr' hr h0')
    · exact absurd h (htyped hr hr' h0)
    · rw [hone, hone, List.singleton_append, List.singleton_append, List.cons.injEq] at h
      have hle := hr.type
      have hle' := hr'.type
      have hnat := congrArg BitVec.toNat h.1
      rw [BitVec.toNat_ofNat, BitVec.toNat_ofNat, Nat.mod_eq_of_lt (by omega),
        Nat.mod_eq_of_lt (by omega)] at hnat
      exact ⟨hnat, h.2⟩
  obtain ⟨hstatus, hgas, hbloom, hlogs⟩ := consensusPayload_inj hr hr' hboth.2
  refine ⟨?_, hlogs⟩
  have hroot : r.receipt.root = r'.receipt.root := hr.root.trans hr'.root.symm
  obtain ⟨i, receipt, logs, safe⟩ := r
  obtain ⟨i', receipt', logs', safe'⟩ := r'
  cases receipt
  rw [SnapshotReceipt.mk.injEq]
  exact ⟨hboth.1, hstatus, hgas, hbloom, hroot⟩

theorem nibbles_injective : Function.Injective nibbles := by
  intro bs bs' h
  induction bs generalizing bs' with
  | nil =>
    cases bs' with
    | nil => rfl
    | cons b bs' => cases h
  | cons b bs ih =>
    cases bs' with
    | nil => cases h
    | cons b' bs' =>
      simp only [nibbles, List.flatMap_cons, List.cons_append, List.nil_append,
        List.cons.injEq] at h
      obtain ⟨hhi, hlo, hrest⟩ := h
      have hb := b.isLt
      have hb' := b'.isLt
      have hhi := congrArg Fin.val hhi
      have hlo := congrArg Fin.val hlo
      simp only [nibble, Nat.shiftRight_eq_div_pow] at hhi hlo
      have hbb : b = b' := BitVec.eq_of_toNat_eq (by omega)
      rw [hbb, ih hrest]

/-- The key of a receipt. -/
def receiptKey (r : IndexedReceipt) : List Nibble :=
  nibbles (Rlp.encode (.str (Rlp.scalar r.index)))

theorem length_index_le (r : IndexedReceipt) : (Rlp.scalar r.index).length ≤ 7 :=
  Rlp.length_scalar_le (r.safe.trans (by norm_num))

theorem receiptKey_inj {r r' : IndexedReceipt} (h : receiptKey r = receiptKey r') :
    r.index = r'.index := by
  have hlen := length_index_le r
  have hlen' := length_index_le r'
  have hbytes := congrArg (· ++ ([] : Bytes)) (nibbles_injective h)
  exact Rlp.scalar_injective (Rlp.encode_str_inj (by omega) (by omega) hbytes).1

end ReceiptsRoot

end Proofmark
