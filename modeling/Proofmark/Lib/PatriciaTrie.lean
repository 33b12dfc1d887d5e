/-
  Merkle Patricia tries.

  A trie is a set `J` of keys and values; a key is a list of nibbles.  `IsTrie J i node` says
  that `node` is the node of `J` below the first `i` nibbles, which its keys share: a leaf, an
  extension by the nibbles that they share besides, or a branch over the next nibble.  A node
  of 32 bytes and more stands for itself by its hash.

  `IsRoot.unique`: a set with one value for each key has one root.
-/
import Mathlib.Data.Set.Subsingleton
import Mathlib.Order.Bounds.Basic
import Proofmark.Lib.Rlp

namespace Patricia

open Words Rlp

abbrev Nibble := Fin 16

abbrev Pair := List Nibble × List Byte

/-- The low nibble of a number. -/
def nibble (n : ℕ) : Nibble := ⟨n % 16, Nat.mod_lt n (by norm_num)⟩

/-- Two nibbles a byte. -/
def packNibbles : List Nibble → List Byte
  | a :: b :: l => BitVec.ofNat 8 (16 * a + b) :: packNibbles l
  | _ => []

/-- The flag of a leaf. -/
def kind (leaf : Bool) : Nibble := if leaf then 2 else 0

/-- The hex-prefix encoding: a first nibble for the kind and the parity of the path. -/
def hexPrefix (path : List Nibble) (leaf : Bool) : List Byte :=
  if path.length % 2 = 0 then packNibbles (kind leaf :: 0 :: path)
  else packNibbles ((kind leaf + 1) :: path)

/-- The nibbles `l` start every key. -/
def IsCommon (J : Set Pair) (l : List Nibble) : Prop := ∀ I ∈ J, l <+: I.1

/-- The keys with the nibble `d` in the place `i`. -/
def sub (J : Set Pair) (i : ℕ) (d : Nibble) : Set Pair := {I ∈ J | I.1[i]? = some d}

section
variable (hash : List Byte → List Byte)

/-- How a node is referred to. -/
def ref (node : List Item) : Item :=
  if (encode (.list node)).length < 32 then .list node else .str (hash (encode (.list node)))

inductive IsTrie : Set Pair → ℕ → List Item → Prop where
  | leaf (i : ℕ) (k : List Nibble) (v : List Byte) :
    IsTrie {(k, v)} i [.str (hexPrefix (k.drop i) true), .str v]
  | extension {J i l node} (hJ : J.Nontrivial) (hl : IsCommon J l) (hi : i < l.length)
    (hmax : IsGreatest {j | ∃ l, IsCommon J l ∧ l.length = j} l.length)
    (h : IsTrie J l.length node) :
    IsTrie J i [.str (hexPrefix (l.drop i) false), ref hash node]
  | branch {J i value} (children : Nibble → Item) (nodes : Nibble → List Item) (hJ : J.Nontrivial)
    (hmax : IsGreatest {j | ∃ l, IsCommon J l ∧ l.length = j} i)
    (hempty : ∀ d, sub J i d = ∅ → children d = .str [])
    (hchild : ∀ d, (sub J i d).Nonempty → children d = ref hash (nodes d))
    (h : ∀ d, (sub J i d).Nonempty → IsTrie (sub J i d) (i + 1) (nodes d))
    (hvalue : (∃ k, k.length = i ∧ (k, value) ∈ J) ∨ (∀ I ∈ J, I.1.length ≠ i) ∧ value = []) :
    IsTrie J i (List.ofFn children ++ [.str value])

/-- The root of the trie; that of no keys is the hash of the empty string. -/
inductive IsRoot (J : Set Pair) : List Byte → Prop where
  | empty (hJ : J = ∅) : IsRoot J (hash (encode (.str [])))
  | node {node} (h : IsTrie hash J 0 node) : IsRoot J (hash (encode (.list node)))

end

/-! ## One root -/

section
variable {hash : List Byte → List Byte} {J : Set Pair} {i : ℕ} {node node' : List Item}

/-- One value for each key. -/
def IsMap (J : Set Pair) : Prop := ∀ k v v', (k, v) ∈ J → (k, v') ∈ J → v = v'

theorem IsMap.sub {d : Nibble} (h : IsMap J) : IsMap (sub J i d) :=
  fun k v v' hv hv' => h k v v' hv.1 hv'.1

/-- The keys of a trie share their first nibbles. -/
theorem key_eq_of_length {l k k' : List Nibble} (h : l <+: k) (h' : l <+: k')
    (hk : k.length = l.length) (hk' : k'.length = l.length) : k = k' :=
  (h.eq_of_length hk.symm).symm.trans (h'.eq_of_length hk'.symm)

theorem IsTrie.nonempty (h : IsTrie hash J i node) : J.Nonempty := by
  cases h with
  | leaf => exact Set.singleton_nonempty _
  | extension hJ => exact hJ.nonempty
  | branch _ _ hJ => exact hJ.nonempty

/-- **A set has one node below a number of nibbles.** -/
theorem IsTrie.unique (hmap : IsMap J) (h : IsTrie hash J i node) (h' : IsTrie hash J i node') :
    node = node' := by
  induction h generalizing node' with
  | leaf i k v =>
    generalize hJ : ({(k, v)} : Set Pair) = J at h'
    cases h' with
    | leaf _ k' v' =>
      obtain ⟨rfl, rfl⟩ := Prod.mk.inj (Set.singleton_eq_singleton_iff.1 hJ)
      rfl
    | extension hJ' => exact absurd (hJ ▸ hJ') Set.not_nontrivial_singleton
    | branch _ _ hJ' => exact absurd (hJ ▸ hJ') Set.not_nontrivial_singleton
  | @extension J i l node hJ hl hi hmax h ih =>
    cases h' with
    | leaf => exact absurd hJ Set.not_nontrivial_singleton
    | @extension _ _ l' _ _ hl' hi' hmax' h' =>
      have hlen := hmax.unique hmax'
      obtain ⟨I, hI⟩ := hJ.nonempty
      have hll : l = l' := by
        rw [List.prefix_iff_eq_take.1 (hl I hI), List.prefix_iff_eq_take.1 (hl' I hI), hlen]
      subst hll
      rw [ih hmap h']
    | branch _ _ _ hmax' =>
      have hlen := hmax.unique hmax'
      omega
  | @branch J i value children nodes hJ hmax hempty hchild h hvalue ih =>
    cases h' with
    | leaf => exact absurd hJ Set.not_nontrivial_singleton
    | extension _ _ hi' hmax' =>
      have hlen := hmax.unique hmax'
      omega
    | @branch _ _ value' children' nodes' _ _ hempty' hchild' h' hvalue' =>
      have hchildren : children = children' := by
        ext1 d
        rcases (sub J i d).eq_empty_or_nonempty with he | hne
        · rw [hempty d he, hempty' d he]
        · rw [hchild d hne, hchild' d hne, ih d hne hmap.sub (h' d hne)]
      obtain ⟨l, hl, hlen⟩ := hmax.1
      have hvalues : value = value' := by
        rcases hvalue with ⟨k, hk, hv⟩ | ⟨hnone, rfl⟩
        · rcases hvalue' with ⟨k', hk', hv'⟩ | ⟨hnone', rfl⟩
          · have hkk : k = k' := key_eq_of_length (hl _ hv) (hl _ hv') (by omega) (by omega)
            exact hmap k value value' hv (hkk ▸ hv')
          · exact absurd hk (hnone' _ hv)
        · rcases hvalue' with ⟨k', hk', hv'⟩ | ⟨-, rfl⟩
          · exact absurd hk' (hnone _ hv')
          · rfl
      rw [hchildren, hvalues]

/-- **A map has one root.** -/
theorem IsRoot.unique {r r' : List Byte} (hmap : IsMap J) (h : IsRoot hash J r)
    (h' : IsRoot hash J r') : r = r' := by
  cases h with
  | empty hJ =>
    cases h' with
    | empty => rfl
    | node h' => exact absurd hJ h'.nonempty.ne_empty
  | node h =>
    cases h' with
    | empty hJ => exact absurd hJ h.nonempty.ne_empty
    | node h' => rw [h.unique hmap h']

end

/-! ## Paths -/

theorem pack_inj {a b a' b' : Nibble}
    (h : BitVec.ofNat 8 (16 * a + b) = BitVec.ofNat 8 (16 * a' + b')) : a = a' ∧ b = b' := by
  have ha := a.isLt
  have ha' := a'.isLt
  have hnat := congrArg BitVec.toNat h
  rw [BitVec.toNat_ofNat, BitVec.toNat_ofNat, Nat.mod_eq_of_lt (by omega),
    Nat.mod_eq_of_lt (by omega)] at hnat
  exact ⟨Fin.ext (by omega), Fin.ext (by omega)⟩

theorem packNibbles_inj {n : ℕ} {l l' : List Nibble} (hl : l.length = 2 * n)
    (hl' : l'.length % 2 = 0) (h : packNibbles l = packNibbles l') : l = l' := by
  induction n generalizing l l' with
  | zero =>
    obtain rfl := List.length_eq_zero_iff.1 hl
    cases l' with
    | nil => rfl
    | cons a l' =>
      cases l' with
      | nil => cases hl'
      | cons b l' => cases h
  | succ n ih =>
    obtain ⟨a, l, rfl⟩ := List.exists_cons_of_length_eq_add_one hl
    rw [List.length_cons, Nat.mul_succ, Nat.add_right_cancel_iff] at hl
    obtain ⟨b, l, rfl⟩ := List.exists_cons_of_length_eq_add_one hl
    rw [List.length_cons, Nat.add_right_cancel_iff] at hl
    cases l' with
    | nil => cases h
    | cons a' l' =>
      cases l' with
      | nil => cases hl'
      | cons b' l' =>
        rw [packNibbles, packNibbles, List.cons.injEq] at h
        obtain ⟨rfl, rfl⟩ := pack_inj h.1
        rw [ih hl (by rw [List.length_cons, List.length_cons] at hl'; omega) h.2]

/-- **The prefix tells the path and the kind of the node.** -/
theorem hexPrefix_inj {path path' : List Nibble} {leaf leaf' : Bool}
    (h : hexPrefix path leaf = hexPrefix path' leaf') : path = path' ∧ leaf = leaf' := by
  have hflag : ∀ b b' : Bool, kind b = kind b' → b = b' := by decide
  have hflag1 : ∀ b b' : Bool, kind b + 1 = kind b' + 1 → b = b' := by decide
  have hodd : ∀ b b' : Bool, kind b ≠ kind b' + 1 := by decide
  have hpack : ∀ {l l' : List Nibble}, l.length % 2 = 0 → l'.length % 2 = 0 →
      packNibbles l = packNibbles l' → l = l' := fun {l l'} hl hl' h =>
    @packNibbles_inj (l.length / 2) l l' (by omega) hl' h
  rw [hexPrefix, hexPrefix] at h
  split_ifs at h with hp hp' hp'
  · have heq := hpack (by rw [List.length_cons, List.length_cons]; omega)
      (by rw [List.length_cons, List.length_cons]; omega) h
    simp only [List.cons.injEq, true_and] at heq
    exact ⟨heq.2, hflag _ _ heq.1⟩
  · have heq := hpack (by rw [List.length_cons, List.length_cons]; omega)
      (by rw [List.length_cons]; omega) h
    exact absurd (List.cons.inj heq).1 (hodd _ _)
  · have heq := hpack (by rw [List.length_cons]; omega) (by rw [List.length_cons, List.length_cons]; omega) h
    exact absurd (List.cons.inj heq).1.symm (hodd _ _)
  · have heq := hpack (by rw [List.length_cons]; omega) (by rw [List.length_cons]; omega) h
    exact ⟨(List.cons.inj heq).2, hflag1 _ _ (List.cons.inj heq).1⟩

end Patricia
