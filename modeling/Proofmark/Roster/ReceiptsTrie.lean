/-
  The trie builder of the receipts root (`trieNode` of src/pipeline/roster-source.ts).

  `isTrie_trieNode`: the node that it makes of items with different keys is the node of the
  Merkle Patricia trie of the keys and the values.
-/
import Proofmark.Pipeline.ReceiptsRoot

namespace Proofmark

open Words Revert Patricia

namespace ReceiptsRoot

/-! ## Items of the trie -/

/-- No two items have one key. -/
def Distinct (items : List TrieItem) : Prop := (items.map TrieItem.key).Nodup

theorem Distinct.eq {items : List TrieItem} (h : Distinct items) {x y : TrieItem} (hx : x ∈ items)
    (hy : y ∈ items) (hk : x.key = y.key) : x = y := List.inj_on_of_nodup_map h hx hy hk

theorem Distinct.sliceKeys {items : List TrieItem} {l : List Nibble} (h : Distinct items)
    (hl : ∀ item ∈ items, l <+: item.key) : Distinct (sliceKeys l.length items) := by
  rw [Distinct, ReceiptsRoot.sliceKeys, List.map_map]
  refine (List.nodup_map_iff_inj_on (List.Nodup.of_map _ h)).2 fun x hx y hy hxy => h.eq hx hy ?_
  have hdrop : x.key.drop l.length = y.key.drop l.length := hxy
  rw [← List.prefix_iff_eq_append.1 (hl x hx), hdrop, List.prefix_iff_eq_append.1 (hl y hy)]

theorem mem_group {d : Nibble} {items : List TrieItem} {k : List Nibble} {v : Bytes} :
    ⟨k, v⟩ ∈ group d items ↔ ⟨d :: k, v⟩ ∈ items := by
  simp only [group, sliceKeys, List.mem_map, List.mem_filter, beq_iff_eq]
  constructor
  · rintro ⟨⟨key, value⟩, ⟨hmem, hd⟩, heq⟩
    obtain ⟨rfl, rfl⟩ := TrieItem.mk.inj heq
    cases key with
    | nil => cases hd
    | cons e key =>
      obtain rfl : e = d := Option.some.inj hd
      exact hmem
  · intro h
    exact ⟨⟨d :: k, v⟩, ⟨h, rfl⟩, rfl⟩

theorem Distinct.group {d : Nibble} {items : List TrieItem} (h : Distinct items) :
    Distinct (group d items) := by
  have hsub : Distinct (items.filter fun item => item.key[0]? == some d) :=
    List.Nodup.sublist (List.filter_sublist.map _) h
  refine @Distinct.sliceKeys _ [d] hsub fun item hitem => ?_
  have hd := (List.mem_filter.1 hitem).2
  obtain ⟨key, value⟩ := item
  cases key with
  | nil => cases hd
  | cons e key =>
    obtain rfl : e = d := by simpa using hd
    exact ⟨key, rfl⟩

/-- **What the loop over the common nibbles finds**: `c` nibbles of the first key start every
    key, and one more does not. -/
theorem commonLoop_spec {first : List Nibble} {items : List TrieItem} {n c : ℕ}
    (hn : c + n = first.length) (hc : ∀ item ∈ items, first.take c <+: item.key)
    (hfirst : ∃ item ∈ items, item.key = first) :
    (∀ item ∈ items, first.take (commonLoop first items n c) <+: item.key) ∧
      commonLoop first items n c ≤ first.length ∧
      ∃ item ∈ items, ¬ (commonLoop first items n c < item.key.length ∧
        item.key[commonLoop first items n c]? = first[commonLoop first items n c]?) := by
  induction n generalizing c with
  | zero =>
    obtain ⟨item, hmem, rfl⟩ := hfirst
    refine ⟨hc, by rw [commonLoop]; omega, item, hmem, fun h => ?_⟩
    have hlt := h.1
    rw [commonLoop] at hlt
    omega
  | succ n ih =>
    rw [commonLoop]
    split_ifs with hall
    · refine ih (by omega) fun item hitem => ?_
      have hcase := List.all_eq_true.1 hall item hitem
      simp only [Bool.and_eq_true, decide_eq_true_eq, beq_iff_eq] at hcase
      obtain ⟨hlt, hnib⟩ := hcase
      have hlt' : c < first.length := by omega
      rw [List.getElem?_eq_getElem hlt, List.getElem?_eq_getElem hlt'] at hnib
      rw [List.take_add_one, List.getElem?_eq_getElem hlt', ← Option.some.inj hnib]
      have htake : first.take c = item.key.take c := by
        have hpre := List.prefix_iff_eq_take.1 (hc item hitem)
        rwa [List.length_take, Nat.min_eq_left hlt'.le] at hpre
      rw [htake]
      have hsucc : item.key.take (c + 1) = item.key.take c ++ [item.key[c]] := by
        rw [List.take_add_one, List.getElem?_eq_getElem hlt]
        rfl
      rw [Option.toList_some, ← hsucc]
      exact List.take_prefix _ _
    · refine ⟨hc, by omega, ?_⟩
      have hnot : ¬ ∀ item ∈ items, (decide (c < item.key.length) &&
          item.key[c]? == first[c]?) = true := fun h => hall (List.all_eq_true.2 h)
      push Not at hnot
      obtain ⟨item, hmem, hfail⟩ := hnot
      refine ⟨item, hmem, fun h => hfail ?_⟩
      rw [Bool.and_eq_true, decide_eq_true_eq, beq_iff_eq]
      exact h

/-! ## The builder makes the trie -/

section
variable {keccak256 : Bytes → Bytes32}

theorem compactPath_eq (path : List Nibble) (leaf : Bool) :
    compactPath path leaf = hexPrefix path leaf := by
  have hodd : nibble (if leaf then 3 else 1) = kind leaf + 1 := by
    cases leaf
    exacts [rfl, rfl]
  have heven : nibble (if leaf then 2 else 0) = kind leaf := by
    cases leaf
    exacts [rfl, rfl]
  have hzero : nibble 0 = 0 := rfl
  rw [compactPath, hexPrefix, hodd, heven, hzero]
  by_cases h : path.length % 2 = 0
  · rw [if_pos h, if_neg (by omega)]
  · rw [if_neg h, if_pos (by omega)]

theorem trieNode_single (n : ℕ) (item : TrieItem) :
    trieNode keccak256 (n + 1) [item] = [.str (hexPrefix item.key true), .str item.value] := by
  rw [trieNode.eq_def, ← compactPath_eq]

/-- The number of nibbles that the keys of `first :: rest` share. -/
def commonLength (first : TrieItem) (rest : List TrieItem) : ℕ :=
  commonLoop first.key (first :: rest) first.key.length 0

theorem trieNode_extension {n : ℕ} {first second : TrieItem} {rest : List TrieItem}
    (h : commonLength first (second :: rest) ≠ 0) :
    trieNode keccak256 (n + 1) (first :: second :: rest) =
      [.str (hexPrefix (first.key.take (commonLength first (second :: rest))) false),
        nodeRef keccak256 (trieNode keccak256 n
          (sliceKeys (commonLength first (second :: rest)) (first :: second :: rest)))] := by
  rw [← compactPath_eq, trieNode.eq_def]
  exact if_pos h

theorem trieNode_branch {n : ℕ} {first second : TrieItem} {rest : List TrieItem}
    (h : commonLength first (second :: rest) = 0) :
    trieNode keccak256 (n + 1) (first :: second :: rest) =
      List.ofFn (fun nibble => if group nibble (first :: second :: rest) = [] then .str []
        else nodeRef keccak256 (trieNode keccak256 n (group nibble (first :: second :: rest)))) ++
      [.str (((terminal (first :: second :: rest)).map TrieItem.value).getD [])] := by
  rw [trieNode.eq_def]
  exact if_neg (not_not.2 h)

/-- The keys of the items behind `p`, with their values. -/
def pairs (p : List Nibble) (items : List TrieItem) : Set Pair :=
  {I | ∃ item ∈ items, I = (p ++ item.key, item.value)}

theorem pairs_sliceKeys {p l : List Nibble} {items : List TrieItem}
    (h : ∀ item ∈ items, l <+: item.key) :
    pairs (p ++ l) (sliceKeys l.length items) = pairs p items := by
  have hkey : ∀ item ∈ items, p ++ l ++ item.key.drop l.length = p ++ item.key := fun item hi => by
    rw [List.append_assoc, List.prefix_iff_eq_append.1 (h item hi)]
  ext I
  constructor
  · rintro ⟨item', hmem, rfl⟩
    obtain ⟨item, hi, rfl⟩ := List.mem_map.1 hmem
    exact ⟨item, hi, by rw [hkey item hi]⟩
  · rintro ⟨item, hi, rfl⟩
    exact ⟨_, List.mem_map.2 ⟨item, hi, rfl⟩, by rw [hkey item hi]⟩

theorem sub_pairs (p : List Nibble) (items : List TrieItem) (d : Nibble) :
    sub (pairs p items) p.length d = pairs (p ++ [d]) (group d items) := by
  ext I
  constructor
  · rintro ⟨⟨⟨key, value⟩, hi, rfl⟩, hd⟩
    simp only [List.getElem?_append_right le_rfl, Nat.sub_self] at hd
    cases key with
    | nil => cases hd
    | cons e k =>
      obtain rfl : e = d := Option.some.inj hd
      exact ⟨⟨k, value⟩, mem_group.2 hi, by simp⟩
  · rintro ⟨⟨k, value⟩, hi, rfl⟩
    exact ⟨⟨⟨d :: k, value⟩, mem_group.1 hi, by simp⟩, by simp⟩

theorem nontrivial_pairs {p : List Nibble} {first second : TrieItem} {rest : List TrieItem}
    (h : Distinct (first :: second :: rest)) : (pairs p (first :: second :: rest)).Nontrivial := by
  have hne : first.key ≠ second.key := fun heq =>
    (List.nodup_cons.1 h).1 (by rw [heq]; exact List.mem_cons_self)
  refine ⟨_, ⟨first, by simp, rfl⟩, _, ⟨second, by simp, rfl⟩, fun heq => hne ?_⟩
  exact List.append_cancel_left (Prod.mk.inj heq).1

/-- The nibbles that the loop finds are all that the keys share. -/
theorem isGreatest_common {p : List Nibble} {first : TrieItem} {rest : List TrieItem} :
    (∀ item ∈ first :: rest, first.key.take (commonLength first rest) <+: item.key) ∧
      commonLength first rest ≤ first.key.length ∧
      IsGreatest {j | ∃ l, IsCommon (pairs p (first :: rest)) l ∧ l.length = j}
        (p.length + commonLength first rest) := by
  obtain ⟨hpre, hle, item, hmem, hfail⟩ := @commonLoop_spec first.key (first :: rest)
    first.key.length 0 (by omega) (by simp) ⟨first, List.mem_cons_self, rfl⟩
  rw [← commonLength] at hpre hle hfail
  refine ⟨hpre, hle, ⟨p ++ first.key.take (commonLength first rest), ?_, ?_⟩, ?_⟩
  · rintro _ ⟨item, hi, rfl⟩
    exact (List.prefix_append_right_inj p).2 (hpre item hi)
  · rw [List.length_append, List.length_take, Nat.min_eq_left hle]
  · rintro _ ⟨l, hl, rfl⟩
    by_contra hlong
    -- a longer common prefix would make the loop go on
    have hnib : ∀ item ∈ first :: rest, commonLength first rest < item.key.length ∧
        item.key[commonLength first rest]? = l[p.length + commonLength first rest]? := by
      intro item hi
      have hpl := hl _ ⟨item, hi, rfl⟩
      have hlen := hpl.length_le
      simp only [List.length_append] at hlen
      refine ⟨by omega, ?_⟩
      obtain ⟨r, hr⟩ := hpl
      have hget := congrArg (fun k => k[p.length + commonLength first rest]?) hr
      simp only [List.getElem?_append_left (show p.length + commonLength first rest < l.length by
        omega)] at hget
      rw [hget, List.getElem?_append_right (by omega), Nat.add_sub_cancel_left]
    obtain ⟨-, hf⟩ := hnib first List.mem_cons_self
    obtain ⟨hlt, hi⟩ := hnib item hmem
    exact hfail ⟨hlt, hi.trans hf.symm⟩

theorem value_terminal (items : List TrieItem) (p : List Nibble) :
    (∃ k, k.length = p.length ∧
        (k, ((terminal items).map TrieItem.value).getD []) ∈ pairs p items) ∨
      (∀ I ∈ pairs p items, I.1.length ≠ p.length) ∧
        ((terminal items).map TrieItem.value).getD [] = [] := by
  cases ht : terminal items with
  | none =>
    refine .inr ⟨?_, rfl⟩
    rintro _ ⟨item, hi, rfl⟩
    have hnil := List.find?_eq_none.1 ht item hi
    simp only [List.length_append, beq_iff_eq] at hnil ⊢
    omega
  | some item =>
    have hnil := List.find?_some ht
    rw [beq_iff_eq, List.length_eq_zero_iff] at hnil
    exact .inl ⟨p, rfl, item, List.mem_of_find?_eq_some ht, by simp [hnil]⟩

/-- **The builder makes the node of the trie**, by induction on the bound of the keys. -/
theorem isTrie_trieNode {n : ℕ} {items : List TrieItem} (p : List Nibble) (hne : items ≠ [])
    (hd : Distinct items) (hn : ∀ item ∈ items, item.key.length < n) :
    IsTrie (keccakBytes keccak256) (pairs p items) p.length (trieNode keccak256 n items) := by
  induction n generalizing items p with
  | zero =>
    obtain ⟨item, hi⟩ := List.exists_mem_of_ne_nil items hne
    exact absurd (hn item hi) (Nat.not_lt_zero _)
  | succ n ih =>
    cases items with
    | nil => exact absurd rfl hne
    | cons first rest =>
      cases rest with
      | nil =>
        have hset : pairs p [first] = {(p ++ first.key, first.value)} := by
          ext I
          simp [pairs]
        have hleaf := @IsTrie.leaf (keccakBytes keccak256) p.length (p ++ first.key) first.value
        rw [List.drop_left] at hleaf
        rw [trieNode_single, hset]
        exact hleaf
      | cons second rest =>
        obtain ⟨hpre, hle, hgreatest⟩ := @isGreatest_common p first (second :: rest)
        have hnontrivial := @nontrivial_pairs p first second rest hd
        by_cases hc : commonLength first (second :: rest) = 0
        · rw [trieNode_branch hc]
          rw [hc, Nat.add_zero] at hgreatest
          have hgroup : ∀ d, (sub (pairs p (first :: second :: rest)) p.length d).Nonempty →
              group d (first :: second :: rest) ≠ [] := by
            intro d hne hnil
            rw [sub_pairs, hnil] at hne
            obtain ⟨_, item, hi, -⟩ := hne
            cases hi
          refine .branch _ (fun d => trieNode keccak256 n (group d (first :: second :: rest)))
            hnontrivial hgreatest (fun d he => if_pos ?_) (fun d hne => if_neg (hgroup d hne))
            (fun d hne => ?_) (value_terminal _ p)
          · rw [sub_pairs] at he
            by_contra hnil
            obtain ⟨item, hi⟩ := List.exists_mem_of_ne_nil _ hnil
            exact Set.eq_empty_iff_forall_notMem.1 he _ ⟨item, hi, rfl⟩
          · have hrec := ih (p ++ [d]) (hgroup d hne) hd.group fun item hi => by
              obtain ⟨k, v⟩ := item
              exact Nat.lt_of_succ_lt_succ (hn _ (mem_group.1 hi))
            rw [sub_pairs]
            rwa [List.length_append] at hrec
        · rw [trieNode_extension hc]
          have hlen : (first.key.take (commonLength first (second :: rest))).length =
              commonLength first (second :: rest) := by
            rw [List.length_take, Nat.min_eq_left hle]
          have hsliced : Distinct (sliceKeys (commonLength first (second :: rest))
              (first :: second :: rest)) := by
            have hs := hd.sliceKeys hpre
            rwa [hlen] at hs
          have hshorter : ∀ item ∈ sliceKeys (commonLength first (second :: rest))
              (first :: second :: rest), item.key.length < n := by
            intro sliced hs
            obtain ⟨item, hi, rfl⟩ := List.mem_map.1 hs
            have hlt := hn item hi
            have hpos := (hpre item hi).length_le
            simp only [List.length_drop]
            omega
          have hrec := ih (p ++ first.key.take (commonLength first (second :: rest)))
            (by simp [sliceKeys]) hsliced hshorter
          have hpairs := @pairs_sliceKeys p _ _ hpre
          rw [hlen] at hpairs
          rw [hpairs] at hrec
          have hext := IsTrie.extension (i := p.length) hnontrivial ?_ ?_ ?_ hrec
          · rwa [List.drop_left] at hext
          · rintro _ ⟨item, hi, rfl⟩
            exact (List.prefix_append_right_inj p).2 (hpre item hi)
          · rw [List.length_append, hlen]
            omega
          · rwa [List.length_append, hlen]

end

end ReceiptsRoot

end Proofmark
