/-
  What a receipts root binds (`computeReceiptsRoot` of src/pipeline/roster-source.ts).

  `trieHashed` are the byte strings that the builder hashes.  When no two of them have one
  hash, the items of a node are read off the node.

  `receipts_root_correct_binding`: the root is the one of the trie from `rlp(index)` to the
  consensus encodings, and only the same receipts have it.
-/
import Proofmark.Roster.ReceiptsTrie

namespace Proofmark

open Words Revert Patricia

namespace ReceiptsRoot

section
variable {keccak256 : Bytes → Bytes32}

/-! ## What is hashed -/

section
variable (keccak256)

/-- What `nodeRef` hashes. -/
def refHashed (node : List Rlp.Item) : List Bytes :=
  if (Rlp.encode (.list node)).length < 32 then [] else [Rlp.encode (.list node)]

/-- What `trieNode` hashes. -/
def trieHashed : ℕ → List TrieItem → List Bytes
  | 0, _ => []
  | _, [] => []
  | _, [_] => []
  | n + 1, first :: rest =>
    let items := first :: rest
    let common := commonLoop first.key items first.key.length 0
    if common ≠ 0 then
      refHashed (trieNode keccak256 n (sliceKeys common items)) ++
        trieHashed n (sliceKeys common items)
    else
      (List.finRange 16).flatMap fun nibble =>
        if group nibble items = [] then []
        else refHashed (trieNode keccak256 n (group nibble items)) ++
          trieHashed n (group nibble items)

end

/-- Items of which `trieNode n` builds a node. -/
structure Buildable (n : ℕ) (items : List TrieItem) : Prop where
  nonempty : items ≠ []
  distinct : Distinct items
  short : ∀ item ∈ items, item.key.length < n
  bound : n ≤ 2 ^ 32
  value : ∀ item ∈ items, item.value ≠ [] ∧ item.value.length ≤ 2 ^ 32

theorem Buildable.sliceKeys {n : ℕ} {items : List TrieItem} {l : List Nibble}
    (h : Buildable (n + 1) items) (hl : ∀ item ∈ items, l <+: item.key) (hne : l ≠ []) :
    Buildable n (sliceKeys l.length items) where
  nonempty := by simpa [ReceiptsRoot.sliceKeys] using h.nonempty
  distinct := h.distinct.sliceKeys hl
  short sliced hs := by
    obtain ⟨item, hi, rfl⟩ := List.mem_map.1 hs
    have hlt := h.short item hi
    have hle := (hl item hi).length_le
    have hpos := List.length_pos_iff.2 hne
    simp only [List.length_drop]
    omega
  bound := (Nat.le_succ n).trans h.bound
  value sliced hs := by
    obtain ⟨item, hi, rfl⟩ := List.mem_map.1 hs
    exact h.value item hi

theorem Buildable.group {n : ℕ} {items : List TrieItem} {d : Nibble} (h : Buildable (n + 1) items)
    (hne : group d items ≠ []) : Buildable n (group d items) where
  nonempty := hne
  distinct := h.distinct.group
  short item hi := by
    obtain ⟨k, v⟩ := item
    exact Nat.lt_of_succ_lt_succ (h.short _ (mem_group.1 hi))
  bound := (Nat.le_succ n).trans h.bound
  value item hi := by
    obtain ⟨k, v⟩ := item
    exact h.value ⟨d :: k, v⟩ (mem_group.1 hi)

/-- **The three kinds of nodes**, and what is hashed for each. -/
theorem trieNode_cases (n : ℕ) {items : List TrieItem} (hne : items ≠ []) :
    (∃ item, items = [item] ∧ trieNode keccak256 (n + 1) items =
      [.str (hexPrefix item.key true), .str item.value]) ∨
    (∃ l, l ≠ [] ∧ (∀ item ∈ items, l <+: item.key) ∧
      trieNode keccak256 (n + 1) items = [.str (hexPrefix l false),
        nodeRef keccak256 (trieNode keccak256 n (sliceKeys l.length items))] ∧
      trieHashed keccak256 (n + 1) items =
        refHashed (trieNode keccak256 n (sliceKeys l.length items)) ++
          trieHashed keccak256 n (sliceKeys l.length items)) ∨
    (trieNode keccak256 (n + 1) items =
      List.ofFn (fun nibble => if group nibble items = [] then .str []
        else nodeRef keccak256 (trieNode keccak256 n (group nibble items))) ++
        [.str (((terminal items).map TrieItem.value).getD [])] ∧
      trieHashed keccak256 (n + 1) items = (List.finRange 16).flatMap fun nibble =>
        if group nibble items = [] then []
        else refHashed (trieNode keccak256 n (group nibble items)) ++
          trieHashed keccak256 n (group nibble items)) := by
  cases items with
  | nil => exact absurd rfl hne
  | cons first rest =>
    cases rest with
    | nil => exact .inl ⟨first, rfl, trieNode_single n first⟩
    | cons second rest =>
      right
      by_cases hc : commonLength first (second :: rest) = 0
      · refine .inr ⟨trieNode_branch hc, ?_⟩
        rw [trieHashed.eq_def]
        exact if_neg (not_not.2 hc)
      · obtain ⟨hpre, hle, -⟩ := @isGreatest_common [] first (second :: rest)
        have hlen : (first.key.take (commonLength first (second :: rest))).length =
            commonLength first (second :: rest) := by
          rw [List.length_take, Nat.min_eq_left hle]
        refine .inl ⟨_, fun hnil => hc ?_, hpre, ?_, ?_⟩
        · rw [← hlen, hnil, List.length_nil]
        · rw [hlen]
          exact trieNode_extension hc
        · rw [hlen, trieHashed.eq_def]
          exact if_pos hc

/-! ## Sizes -/

theorem length_header_le {offset n : ℕ} (h : n < 2 ^ 64) : (Rlp.header offset n).length ≤ 9 := by
  rw [Rlp.header]
  split_ifs
  · simp
  · have hle : (Rlp.scalar n).length ≤ 8 := @Rlp.length_scalar_le n 8 h
    rw [List.length_cons]
    omega

theorem length_encode_str_le {d : Bytes} (h : d.length < 2 ^ 64) :
    (Rlp.encode (.str d)).length ≤ d.length + 9 := by
  rw [Rlp.encode]
  split_ifs
  · omega
  · have hle := @length_header_le 0x80 _ h
    rw [List.length_append]
    omega

theorem length_encode_list_le {l : List Rlp.Item} (h : (Rlp.encodeItems l).length < 2 ^ 64) :
    (Rlp.encode (.list l)).length ≤ (Rlp.encodeItems l).length + 9 := by
  have hle := @length_header_le 0xc0 _ h
  rw [Rlp.encode, List.length_append]
  omega

theorem length_nodeRef_le (node : List Rlp.Item) :
    (Rlp.encode (nodeRef keccak256 node)).length ≤ 41 := by
  rw [nodeRef]
  split_ifs
  · omega
  · have hlen : (keccakBytes keccak256 (Rlp.encode (.list node))).length = 32 := length_toBytes _ _
    have hle := @length_encode_str_le (keccakBytes keccak256 (Rlp.encode (.list node))) (by omega)
    omega

theorem length_packNibbles_le (l : List Nibble) : (packNibbles l).length ≤ l.length := by
  induction l using packNibbles.induct with
  | case1 a b l ih =>
    rw [packNibbles, List.length_cons, List.length_cons, List.length_cons]
    omega
  | case2 l h => rw [packNibbles.eq_2 l h]; exact Nat.zero_le _

theorem length_hexPrefix_le (path : List Nibble) (leaf : Bool) :
    (hexPrefix path leaf).length ≤ path.length + 2 := by
  rw [hexPrefix]
  split_ifs
  · exact length_packNibbles_le _
  · exact (length_packNibbles_le _).trans (by rw [List.length_cons]; omega)

theorem length_encodeItems_append (l l' : List Rlp.Item) :
    (Rlp.encodeItems (l ++ l')).length =
      (Rlp.encodeItems l).length + (Rlp.encodeItems l').length := by
  induction l with
  | nil => simp [Rlp.encodeItems]
  | cons x l ih =>
    rw [List.cons_append, Rlp.encodeItems, Rlp.encodeItems, List.length_append, List.length_append,
      ih]
    omega

theorem length_encodeItems_le {l : List Rlp.Item} {b : ℕ}
    (h : ∀ x ∈ l, (Rlp.encode x).length ≤ b) : (Rlp.encodeItems l).length ≤ l.length * b := by
  induction l with
  | nil => exact Nat.zero_le _
  | cons x l ih =>
    have hx := h x List.mem_cons_self
    have hl := ih fun y hy => h y (List.mem_cons_of_mem x hy)
    rw [Rlp.encodeItems, List.length_append, List.length_cons, Nat.succ_mul]
    omega

/-- A node is short, since it holds no more than one value and one path. -/
theorem length_trieNode_lt {n : ℕ} {items : List TrieItem} (h : Buildable n items) :
    (Rlp.encode (.list (trieNode keccak256 n items))).length < 2 ^ 64 := by
  have hitems : (Rlp.encodeItems (trieNode keccak256 n items)).length ≤ 2 ^ 34 := by
    cases n with
    | zero => exact Nat.zero_le _
    | succ n =>
      have hbound := h.bound
      rcases @trieNode_cases keccak256 n _ h.nonempty with
        ⟨item, rfl, heq⟩ | ⟨l, -, hl, heq, -⟩ | ⟨heq, -⟩
      · have hkey := h.short item List.mem_cons_self
        have hval := (h.value item List.mem_cons_self).2
        have hpath := length_hexPrefix_le item.key true
        have h1 := @length_encode_str_le (hexPrefix item.key true) (by omega)
        have h2 := @length_encode_str_le item.value (by omega)
        rw [heq, Rlp.encodeItems, Rlp.encodeItems, Rlp.encodeItems, List.append_nil,
          List.length_append]
        omega
      · obtain ⟨item, hi⟩ := List.exists_mem_of_ne_nil items h.nonempty
        have hkey := h.short item hi
        have hle := (hl item hi).length_le
        have hpath := length_hexPrefix_le l false
        have h1 := @length_encode_str_le (hexPrefix l false) (by omega)
        have h2 := @length_nodeRef_le keccak256 (trieNode keccak256 n (sliceKeys l.length items))
        rw [heq, Rlp.encodeItems, Rlp.encodeItems, Rlp.encodeItems, List.append_nil,
          List.length_append]
        omega
      · have hval : (((terminal items).map TrieItem.value).getD []).length ≤ 2 ^ 32 := by
          cases ht : terminal items with
          | none => exact Nat.zero_le _
          | some item => exact (h.value item (List.mem_of_find?_eq_some ht)).2
        have h2 := @length_encode_str_le (((terminal items).map TrieItem.value).getD []) (by omega)
        have hchildren : ∀ x ∈ List.ofFn (fun nibble => if group nibble items = [] then .str []
            else nodeRef keccak256 (trieNode keccak256 n (group nibble items))),
            (Rlp.encode x).length ≤ 41 := by
          intro x hx
          obtain ⟨d, rfl⟩ := List.mem_ofFn.1 hx
          split_ifs
          · decide
          · exact length_nodeRef_le _
        have h1 := length_encodeItems_le hchildren
        rw [List.length_ofFn] at h1
        rw [heq, length_encodeItems_append, Rlp.encodeItems, Rlp.encodeItems, List.append_nil]
        omega
  have hle := @length_encode_list_le (trieNode keccak256 n items) (by omega)
  omega

/-! ## Equal nodes have equal items -/

theorem nodeRef_inj {node node' : List Rlp.Item}
    (hlen : (Rlp.encode (.list node)).length < 2 ^ 64)
    (hcol : NoCollision keccak256 (refHashed node ++ refHashed node'))
    (h : nodeRef keccak256 node = nodeRef keccak256 node') : node = node' := by
  rw [nodeRef, nodeRef] at h
  rw [refHashed, refHashed] at hcol
  split_ifs at h hcol
  · exact Rlp.Item.list.inj h
  · have hnat := @toBytes_inj 32 _ _ ((keccak256 _).isLt.trans_le (by norm_num))
      ((keccak256 _).isLt.trans_le (by norm_num)) (Rlp.Item.str.inj h)
    have hpre := hcol _ (by simp) _ (by simp) (BitVec.eq_of_toNat_eq hnat)
    exact Rlp.Item.list.inj (Rlp.encode_injective hlen hpre)

theorem nodeRef_ne_empty (node : List Rlp.Item) : nodeRef keccak256 node ≠ .str [] := by
  rw [nodeRef]
  split_ifs
  · exact fun h => by cases h
  · intro h
    have hlen := congrArg List.length (Rlp.Item.str.inj h)
    rw [keccakBytes, length_toBytes] at hlen
    cases hlen

/-- An item with the rest of a key, put back behind the shared nibbles. -/
theorem mem_of_sliceKeys {l : List Nibble} {items items' : List TrieItem}
    (hl : ∀ item ∈ items, l <+: item.key) (hl' : ∀ item ∈ items', l <+: item.key)
    (h : ∀ item ∈ sliceKeys l.length items, item ∈ sliceKeys l.length items') :
    ∀ item ∈ items, item ∈ items' := by
  intro item hi
  obtain ⟨item', hi', heq⟩ := List.mem_map.1 (h _ (List.mem_map.2 ⟨item, hi, rfl⟩))
  obtain ⟨hkey, hvalue⟩ := TrieItem.mk.inj heq
  have hkeys : item'.key = item.key := by
    rw [← List.prefix_iff_eq_append.1 (hl item hi), ← List.prefix_iff_eq_append.1 (hl' item' hi'),
      hkey]
  obtain ⟨key, value⟩ := item
  obtain ⟨key', value'⟩ := item'
  obtain rfl : key' = key := hkeys
  obtain rfl : value' = value := hvalue
  exact hi'

/-- The item of a branch whose key ends there. -/
theorem mem_of_terminal {items items' : List TrieItem} (hd : Distinct items)
    (hv : ∀ item ∈ items, item.value ≠ [])
    (h : ((terminal items).map TrieItem.value).getD [] =
      ((terminal items').map TrieItem.value).getD []) {v : Bytes} (hi : ⟨[], v⟩ ∈ items) :
    ⟨[], v⟩ ∈ items' := by
  have hnil : ∀ {items : List TrieItem} {item}, terminal items = some item →
      item ∈ items ∧ item.key = [] := fun {items item} ht =>
    ⟨List.mem_of_find?_eq_some ht, by simpa using List.find?_some ht⟩
  cases ht : terminal items with
  | none => exact absurd (List.find?_eq_none.1 ht _ hi) (by simp)
  | some item =>
    obtain ⟨hmem, hkey⟩ := hnil ht
    obtain rfl : item = ⟨[], v⟩ := hd.eq hmem hi hkey
    cases ht' : terminal items' with
    | none =>
      rw [ht, ht'] at h
      exact absurd h (hv _ hi)
    | some item' =>
      obtain ⟨hmem', hkey'⟩ := hnil ht'
      rw [ht, ht'] at h
      obtain ⟨key', value'⟩ := item'
      obtain rfl : key' = [] := hkey'
      obtain rfl : v = value' := h
      exact hmem'

/-- **The items of a node are read off the node**, by induction on the bound of the keys. -/
theorem mem_of_trieNode_eq {n n' : ℕ} {items items' : List TrieItem} (hb : Buildable n items)
    (hb' : Buildable n' items')
    (hcol : NoCollision keccak256
      (trieHashed keccak256 n items ++ trieHashed keccak256 n' items'))
    (h : trieNode keccak256 n items = trieNode keccak256 n' items') :
    ∀ item ∈ items, item ∈ items' := by
  induction n generalizing n' items items' with
  | zero =>
    intro item hi
    exact absurd (hb.short item hi) (Nat.not_lt_zero _)
  | succ n ih =>
    cases n' with
    | zero =>
      obtain ⟨item, hi⟩ := List.exists_mem_of_ne_nil items' hb'.nonempty
      exact absurd (hb'.short item hi) (Nat.not_lt_zero _)
    | succ n' =>
      rcases @trieNode_cases keccak256 n _ hb.nonempty with
        ⟨item, rfl, heq⟩ | ⟨l, hne, hl, heq, hh⟩ | ⟨heq, hh⟩ <;>
      rcases @trieNode_cases keccak256 n' _ hb'.nonempty with
        ⟨item', rfl, heq'⟩ | ⟨l', hne', hl', heq', hh'⟩ | ⟨heq', hh'⟩ <;>
      rw [heq, heq'] at h
      · -- two leaves
        simp only [List.cons.injEq, Rlp.Item.str.injEq, and_true] at h
        have hkey := (hexPrefix_inj h.1).1
        obtain ⟨key, value⟩ := item
        obtain ⟨key', value'⟩ := item'
        obtain rfl : key = key' := hkey
        obtain rfl : value = value' := h.2
        exact fun item hi => hi
      · simp only [List.cons.injEq, Rlp.Item.str.injEq] at h
        cases (hexPrefix_inj h.1).2
      · have hlen := congrArg List.length h
        simp at hlen
      · simp only [List.cons.injEq, Rlp.Item.str.injEq] at h
        cases (hexPrefix_inj h.1).2
      · -- two extensions
        simp only [List.cons.injEq, Rlp.Item.str.injEq, and_true] at h
        obtain rfl := (hexPrefix_inj h.1).1
        rw [hh, hh'] at hcol
        have hs := hb.sliceKeys hl hne
        have hs' := hb'.sliceKeys hl' hne
        have hnode := nodeRef_inj (length_trieNode_lt hs)
          (hcol.mono fun x hx => by
            simp only [List.mem_append] at hx ⊢
            tauto) h.2
        refine mem_of_sliceKeys hl hl' (ih hs hs' (hcol.mono fun x hx => ?_) hnode)
        simp only [List.mem_append] at hx ⊢
        tauto
      · have hlen := congrArg List.length h
        simp at hlen
      · have hlen := congrArg List.length h
        simp at hlen
      · have hlen := congrArg List.length h
        simp at hlen
      · -- two branches
        obtain ⟨hchildren, hvalue⟩ := List.append_inj h (by simp)
        have hslot := fun d => congrFun (List.ofFn_injective hchildren) d
        rintro ⟨key, v⟩ hi
        cases key with
        | nil =>
          refine mem_of_terminal hb.distinct (fun item hi => (hb.value item hi).1) ?_ hi
          simpa using hvalue
        | cons d k =>
          have hmem : ⟨k, v⟩ ∈ group d items := mem_group.2 hi
          have hg : group d items ≠ [] := List.ne_nil_of_mem hmem
          have hd := hslot d
          simp only [if_neg hg] at hd
          by_cases hg' : group d items' = []
          · rw [if_pos hg'] at hd
            exact absurd hd (nodeRef_ne_empty _)
          · rw [if_neg hg'] at hd
            have hin : ∀ x, x ∈ refHashed (trieNode keccak256 n (group d items)) ∨
                x ∈ trieHashed keccak256 n (group d items) →
                x ∈ trieHashed keccak256 (n + 1) items := by
              intro x hx
              rw [hh]
              refine List.mem_flatMap.2 ⟨d, List.mem_finRange d, ?_⟩
              rw [if_neg hg]
              exact List.mem_append.2 hx
            have hin' : ∀ x, x ∈ refHashed (trieNode keccak256 n' (group d items')) ∨
                x ∈ trieHashed keccak256 n' (group d items') →
                x ∈ trieHashed keccak256 (n' + 1) items' := by
              intro x hx
              rw [hh']
              refine List.mem_flatMap.2 ⟨d, List.mem_finRange d, ?_⟩
              rw [if_neg hg']
              exact List.mem_append.2 hx
            have hgb := hb.group hg
            have hgb' := hb'.group hg'
            have hnode := nodeRef_inj (length_trieNode_lt hgb) (hcol.mono fun x hx => by
              rcases List.mem_append.1 hx with hx | hx
              exacts [List.mem_append_left _ (hin x (.inl hx)),
                List.mem_append_right _ (hin' x (.inl hx))]) hd
            refine mem_group.1 (ih hgb hgb' (hcol.mono fun x hx => ?_) hnode _ hmem)
            rcases List.mem_append.1 hx with hx | hx
            exacts [List.mem_append_left _ (hin x (.inr hx)),
              List.mem_append_right _ (hin' x (.inr hx))]

end

/-! ## The root -/

/-- The key and the encoding of a receipt. -/
def receiptItem (r : IndexedReceipt) : TrieItem := ⟨receiptKey r, consensusEncoding r⟩

/-- The map from `rlp(index)` to the consensus encoding. -/
def receiptMap (receipts : List IndexedReceipt) : Set Pair :=
  {I | ∃ r ∈ receipts, I = (receiptKey r, consensusEncoding r)}

section
variable {keccak256 : Bytes → Bytes32} {rs rs' : List IndexedReceipt}

theorem trieItem_ok {r : IndexedReceipt} {item : TrieItem} :
    trieItem r = .ok item ↔ Accepted r ∧ item = receiptItem r := by
  rw [trieItem]
  simp only [bind_ok, pure_ok, encodedReceipt_ok, minimalInteger_nat]
  constructor
  · rintro ⟨_, ⟨⟩, _, ⟨h, rfl⟩, rfl⟩
    exact ⟨h, rfl⟩
  · rintro ⟨h, rfl⟩
    exact ⟨_, rfl, _, ⟨h, rfl⟩, rfl⟩

theorem mapM_trieItem {items : List TrieItem} :
    rs.mapM trieItem = .ok items ↔ (∀ r ∈ rs, Accepted r) ∧ items = rs.map receiptItem := by
  induction rs generalizing items with
  | nil =>
    rw [List.mapM_nil, pure_ok]
    simp [eq_comm]
  | cons r rs ih =>
    simp only [List.mapM_cons, bind_ok, pure_ok, trieItem_ok, ih, List.forall_mem_cons,
      List.map_cons]
    constructor
    · rintro ⟨_, ⟨hr, rfl⟩, _, ⟨hrs, rfl⟩, rfl⟩
      exact ⟨⟨hr, hrs⟩, rfl⟩
    · rintro ⟨⟨hr, hrs⟩, rfl⟩
      exact ⟨_, ⟨hr, rfl⟩, _, ⟨hrs, rfl⟩, rfl⟩

/-- What the root is the hash of. -/
def rootBytes (keccak256 : Bytes → Bytes32) (receipts : List IndexedReceipt) : Bytes :=
  let items := receipts.map receiptItem
  if receipts = [] then Rlp.encode (.str [])
  else Rlp.encode (.list (trieNode keccak256 (keyBound items) items))

/-- Everything that is hashed on the way to the root. -/
def rootHashed (keccak256 : Bytes → Bytes32) (receipts : List IndexedReceipt) : List Bytes :=
  let items := receipts.map receiptItem
  rootBytes keccak256 receipts :: trieHashed keccak256 (keyBound items) items

theorem computeReceiptsRoot_ok {root : Bytes} :
    computeReceiptsRoot keccak256 rs = .ok root ↔
      (∀ r ∈ rs, Accepted r) ∧ root = keccakBytes keccak256 (rootBytes keccak256 rs) := by
  rw [computeReceiptsRoot]
  split_ifs with h
  · subst h
    rw [pure_ok, EMPTY_TRIE_ROOT, rootBytes]
    simp [eq_comm]
  · simp only [bind_ok, pure_ok, mapM_trieItem, rootBytes, if_neg h]
    constructor
    · rintro ⟨_, ⟨hacc, rfl⟩, rfl⟩
      exact ⟨hacc, rfl⟩
    · rintro ⟨hacc, rfl⟩
      exact ⟨_, ⟨hacc, rfl⟩, rfl⟩

theorem length_receiptKey_le (r : IndexedReceipt) : (receiptKey r).length ≤ 32 := by
  have hnib : ∀ bs : Bytes, (nibbles bs).length = 2 * bs.length := by
    intro bs
    induction bs with
    | nil => rfl
    | cons b bs ih =>
      rw [nibbles, List.flatMap_cons, List.length_append, ← nibbles, ih]
      simp only [List.length_cons, List.length_nil]
      omega
  have hlen := length_index_le r
  have hle := @length_encode_str_le (Rlp.scalar r.index) (by omega)
  rw [receiptKey, hnib]
  omega

theorem lt_keyBound {items : List TrieItem} {item : TrieItem} (h : item ∈ items) :
    item.key.length < keyBound items := by
  rw [keyBound, Nat.lt_succ_iff]
  induction items with
  | nil => cases h
  | cons x items ih =>
    rw [List.map_cons, List.foldr_cons]
    rcases List.mem_cons.1 h with rfl | h
    · exact le_max_left _ _
    · exact (ih h).trans (le_max_right _ _)

theorem keyBound_le (rs : List IndexedReceipt) : keyBound (rs.map receiptItem) ≤ 33 := by
  rw [keyBound, Nat.succ_le_succ_iff]
  induction rs with
  | nil => exact Nat.zero_le _
  | cons r rs ih =>
    rw [List.map_cons, List.map_cons, List.foldr_cons]
    exact max_le (length_receiptKey_le r) ih

theorem distinct_receiptItems (h : (rs.map IndexedReceipt.index).Nodup) :
    Distinct (rs.map receiptItem) := by
  rw [Distinct, List.map_map]
  exact (List.nodup_map_iff_inj_on (List.Nodup.of_map _ h)).2 fun x hx y hy hxy =>
    List.inj_on_of_nodup_map h hx hy (receiptKey_inj hxy)

theorem buildable (hne : rs ≠ []) (hnd : (rs.map IndexedReceipt.index).Nodup)
    (hacc : ∀ r ∈ rs, Accepted r) :
    Buildable (keyBound (rs.map receiptItem)) (rs.map receiptItem) where
  nonempty := by simpa using hne
  distinct := distinct_receiptItems hnd
  short _ h := lt_keyBound h
  bound := (keyBound_le rs).trans (by norm_num)
  value item hi := by
    obtain ⟨r, hr, rfl⟩ := List.mem_map.1 hi
    obtain ⟨b, l, hcons, -⟩ := consensusPayload_eq_cons r (hacc r hr)
    have hlen := (hacc r hr).length
    have hone : (toBytes 1 r.receipt.type).length = 1 := length_toBytes _ _
    simp only [receiptItem, consensusEncoding]
    split_ifs
    · exact ⟨by simp [hcons], hlen.le⟩
    · refine ⟨by simp [hcons], ?_⟩
      rw [List.length_append, hone]
      omega

/-- **The root is the one of the trie.** -/
theorem isRoot_rootBytes (hnd : (rs.map IndexedReceipt.index).Nodup)
    (hacc : ∀ r ∈ rs, Accepted r) :
    IsRoot (keccakBytes keccak256) (receiptMap rs)
      (keccakBytes keccak256 (rootBytes keccak256 rs)) := by
  rw [rootBytes]
  split_ifs with hne
  · refine .empty ?_
    subst hne
    simp [receiptMap]
  · have hb := buildable hne hnd hacc
    have htrie := @isTrie_trieNode keccak256 _ _ [] hb.nonempty hb.distinct hb.short
    have hset : pairs [] (rs.map receiptItem) = receiptMap rs := by
      ext I
      simp [pairs, receiptMap, receiptItem]
    rw [hset] at htrie
    exact .node htrie

theorem isMap_receiptMap (hnd : (rs.map IndexedReceipt.index).Nodup) : IsMap (receiptMap rs) := by
  rintro k v v' ⟨r, hr, heq⟩ ⟨r', hr', heq'⟩
  obtain ⟨rfl, rfl⟩ := Prod.mk.inj heq
  obtain ⟨hk, rfl⟩ := Prod.mk.inj heq'
  rw [List.inj_on_of_nodup_map hnd hr hr' (receiptKey_inj hk)]

/-- Receipts with one root, in one direction. -/
theorem subset_of_rootBytes (hnd : (rs.map IndexedReceipt.index).Nodup)
    (hnd' : (rs'.map IndexedReceipt.index).Nodup) (hacc : ∀ r ∈ rs, Accepted r)
    (hacc' : ∀ r ∈ rs', Accepted r)
    (hcol : NoCollision keccak256 (rootHashed keccak256 rs ++ rootHashed keccak256 rs'))
    (h : rootBytes keccak256 rs = rootBytes keccak256 rs') : ∀ r ∈ rs, r ∈ rs' := by
  intro r hr
  have hne : rs ≠ [] := List.ne_nil_of_mem hr
  have hb := buildable hne hnd hacc
  have hlen : (rootBytes keccak256 rs).length < 2 ^ 64 := by
    rw [rootBytes, if_neg hne]
    exact length_trieNode_lt hb
  by_cases hne' : rs' = []
  · rw [rootBytes, if_neg hne, rootBytes, if_pos hne'] at h
    rw [rootBytes, if_neg hne] at hlen
    cases Rlp.encode_injective hlen h
  · have hb' := buildable hne' hnd' hacc'
    rw [rootBytes, if_neg hne, rootBytes, if_neg hne'] at h
    rw [rootBytes, if_neg hne] at hlen
    have hnode := Rlp.Item.list.inj (Rlp.encode_injective hlen h)
    have hmem := mem_of_trieNode_eq hb hb' (hcol.mono fun x hx => by
      rcases List.mem_append.1 hx with hx | hx
      exacts [List.mem_append_left _ (List.mem_cons_of_mem _ hx),
        List.mem_append_right _ (List.mem_cons_of_mem _ hx)]) hnode _
      (List.mem_map.2 ⟨r, hr, rfl⟩)
    obtain ⟨r', hr', heq⟩ := List.mem_map.1 hmem
    obtain ⟨hkey, hvalue⟩ := TrieItem.mk.inj heq
    obtain ⟨hreceipt, hlogs⟩ := consensusEncoding_inj (hacc' r' hr') (hacc r hr) hvalue
    have hindex := receiptKey_inj hkey
    obtain ⟨i, receipt, logs, safe⟩ := r
    obtain ⟨i', receipt', logs', safe'⟩ := r'
    obtain rfl : i' = i := hindex
    obtain rfl : receipt' = receipt := hreceipt
    obtain rfl : logs' = logs := hlogs
    exact hr'

/-- **The receipts root is the root of the trie and binds the receipts**, with their indices. -/
theorem receipts_root_correct_binding (hnd : (rs.map IndexedReceipt.index).Nodup)
    (hacc : ∀ r ∈ rs, Accepted r) :
    ∃ root, computeReceiptsRoot keccak256 rs = .ok root ∧
      (∀ root', IsRoot (keccakBytes keccak256) (receiptMap rs) root' ↔ root' = root) ∧
      ∀ rs', (rs'.map IndexedReceipt.index).Nodup →
        computeReceiptsRoot keccak256 rs' = .ok root →
        NoCollision keccak256 (rootHashed keccak256 rs ++ rootHashed keccak256 rs') →
        rs.Perm rs' := by
  have hroot := @isRoot_rootBytes keccak256 rs hnd hacc
  refine ⟨_, computeReceiptsRoot_ok.2 ⟨hacc, rfl⟩, fun root' => ⟨fun h => ?_, ?_⟩, ?_⟩
  · exact h.unique (isMap_receiptMap hnd) hroot
  · rintro rfl
    exact hroot
  · intro rs' hnd' h hcol
    obtain ⟨hacc', heq⟩ := computeReceiptsRoot_ok.1 h
    have hnat := @toBytes_inj 32 _ _ ((keccak256 _).isLt.trans_le (by norm_num))
      ((keccak256 _).isLt.trans_le (by norm_num)) heq
    have hbytes := hcol _ (List.mem_append_left _ List.mem_cons_self) _
      (List.mem_append_right _ List.mem_cons_self) (BitVec.eq_of_toNat_eq hnat)
    have hcol' : NoCollision keccak256 (rootHashed keccak256 rs' ++ rootHashed keccak256 rs) :=
      hcol.mono fun x hx => by
        simp only [List.mem_append] at hx ⊢
        tauto
    refine (List.perm_ext_iff_of_nodup (List.Nodup.of_map _ hnd) (List.Nodup.of_map _ hnd')).2
      fun r => ⟨?_, ?_⟩
    · exact subset_of_rootBytes hnd hnd' hacc hacc' hcol hbytes r
    · exact subset_of_rootBytes hnd' hnd hacc' hacc hcol' hbytes.symm r

end

/-! ## Two receipts -/

/-- A legacy receipt without logs. -/
def legacyReceipt : IndexedReceipt where
  index := 0
  receipt := ⟨0, some 1, 21000, List.replicate 256 0, none⟩
  logs := []
  safe := by decide

/-- A failed typed receipt with a log. -/
def typedReceipt : IndexedReceipt where
  index := 1
  receipt := ⟨2, some 0, 90000, List.replicate 256 1, none⟩
  logs := [⟨7, [1, 2], [5, 6]⟩]
  safe := by decide

theorem accepted_two : ∀ r ∈ [legacyReceipt, typedReceipt], Accepted r := by
  rw [List.forall_mem_cons, List.forall_mem_singleton]
  constructor
  · exact ⟨by decide, by decide, by decide +kernel, .inr rfl, rfl, by decide +kernel⟩
  · exact ⟨by decide, by decide, by decide +kernel, .inl rfl, rfl, by decide +kernel⟩

/-- The order in which the receipts are given does not matter. -/
theorem receipts_root_two :
    ∃ root, computeReceiptsRoot Claims.Three.polyHash [legacyReceipt, typedReceipt] = .ok root ∧
      IsRoot (keccakBytes Claims.Three.polyHash) (receiptMap [legacyReceipt, typedReceipt]) root ∧
      computeReceiptsRoot Claims.Three.polyHash [typedReceipt, legacyReceipt] = .ok root ∧
      [legacyReceipt, typedReceipt].Perm [typedReceipt, legacyReceipt] := by
  obtain ⟨root, hroot, hiff, hbind⟩ :=
    @receipts_root_correct_binding Claims.Three.polyHash _ (by decide) accepted_two
  have hswap : computeReceiptsRoot Claims.Three.polyHash [typedReceipt, legacyReceipt] =
      .ok root := by
    rw [← hroot]
    decide +kernel
  exact ⟨root, hroot, (hiff root).2 rfl, hswap, hbind _ (by decide) hswap (by decide +kernel)⟩

end ReceiptsRoot

end Proofmark
