/-
  Inclusion proofs against the tree builder.

  The on-chain loop and the one of `roster.ts` are both `Merkle.climb?`; what they accept is
  read off `Merkle.climb?_siblings` and `Merkle.eq_of_climb?`.  `roster_inclusion` is about
  the on-chain verifier, `verifyInclusion_toInclusion` transfers it to `roster.ts`.
-/
import Proofmark.Contract.MarkAttrs
import Proofmark.Pipeline.Roster
import Mathlib.Data.List.Nodup
import Mathlib.Data.Nat.Bitwise

namespace Proofmark

open Words Revert

/-- No two of the byte strings `L` have one hash. -/
def NoCollision (keccak256 : Bytes → Bytes32) (L : List Bytes) : Prop :=
  ∀ x ∈ L, ∀ y ∈ L, keccak256 x = keccak256 y → x = y

instance (keccak256 : Bytes → Bytes32) (L : List Bytes) : Decidable (NoCollision keccak256 L) :=
  inferInstanceAs (Decidable (∀ x ∈ L, ∀ y ∈ L, _ → _))

theorem NoCollision.mono {keccak256 : Bytes → Bytes32} {L L' : List Bytes}
    (h : NoCollision keccak256 L) (hs : ∀ x ∈ L', x ∈ L) : NoCollision keccak256 L' :=
  fun x hx y hy => h x (hs x hx) y (hs y hy)

theorem abiEncode_injective : Function.Injective abiEncode := by
  intro ws ws' h
  have hlen : ws.length = ws'.length := by
    have h32 := congrArg List.length h
    rw [length_abiEncode, length_abiEncode] at h32
    omega
  have hd := abiWords_abiEncode ws
  rw [h, hlen, abiWords_abiEncode, Option.some.injEq] at hd
  exact hd.symm

/-! ## What is hashed -/

namespace Roster

def nodeBytes (p : Bytes32 × Bytes32) : Bytes := 0x01 :: abiEncode [p.1, p.2]

def rootBytes (leafCount : Bytes32) (top : Bytes32) : Bytes := 0x02 :: abiEncode [leafCount, top]

def leafBytes (key mark : Bytes32) : Bytes := 0x00 :: abiEncode [key, mark]

/-- The nodes and the root of a tree. -/
def nodesHashed (keccak256 : Bytes → Bytes32) (tree : RosterTree) : List Bytes :=
  (Merkle.treePairs (hashNode keccak256) tree.leaves).map nodeBytes ++
    (Merkle.top? (hashNode keccak256) tree.leaves).toList.map
      (rootBytes (BitVec.ofNat 256 tree.leaves.length))

/-- What `buildRoster` hashes into the leaves, the nodes and the root. -/
def treeHashed (keccak256 : Bytes → Bytes32) (tree : RosterTree) : List Bytes :=
  List.zipWith leafBytes tree.keys tree.marks ++ nodesHashed keccak256 tree

end Roster

namespace RosterProof

/-- What `verifyInclusion` hashes. -/
def inclusionHashed (keccak256 : Bytes → Bytes32) (leaf : Bytes32) (p : Inclusion) : List Bytes :=
  (Merkle.climbPairs (node keccak256) leaf p.index.toNat p.siblings).map Roster.nodeBytes ++
    (Merkle.climb? (node keccak256) leaf p.index.toNat p.leafCount.toNat p.siblings).toList.map
      (Roster.rootBytes p.leafCount)

end RosterProof

/-! ## The two verifiers -/

theorem toNat_xor_one {w : ℕ} (hw : 0 < w) (x : BitVec w) : (x ^^^ 1).toNat = Merkle.pair x.toNat := by
  have h1 : (1 : BitVec w).toNat = 1 := by
    change (1 : ℕ) % 2 ^ w = 1
    exact Nat.mod_eq_of_lt (Nat.one_lt_two_pow hw.ne')
  rw [BitVec.toNat_xor, h1, Merkle.pair]
  split_ifs with h
  · exact Nat.xor_one_of_even (Nat.even_iff.2 h)
  · exact Nat.xor_one_of_odd (Nat.odd_iff.2 (by omega))

section
variable {keccak256 : Bytes → Bytes32}

/-- The loop of the on-chain verifier. -/
theorem inclusionLoop_eq (root : Bytes32) (leafCount : U256) (acc : Bytes32) (idx width : U256)
    (siblings : List Bytes32) :
    RosterProof.inclusionLoop keccak256 root leafCount acc idx width siblings =
      (Merkle.climb? (RosterProof.node keccak256) acc idx.toNat width.toNat siblings).any
        fun r => RosterProof.rootOf keccak256 r leafCount == root := by
  induction siblings generalizing acc idx width with
  | nil =>
    have h1 : (width == 1) = decide (width.toNat = 1) := by
      rw [Bool.eq_iff_iff, beq_iff_eq, decide_eq_true_iff, ← BitVec.toNat_inj]
      rfl
    have h0 : (idx == 0) = decide (idx.toNat = 0) := by
      rw [Bool.eq_iff_iff, beq_iff_eq, decide_eq_true_iff, ← BitVec.toNat_inj]
      rfl
    rw [RosterProof.inclusionLoop, Merkle.climb?, h1, h0]
    by_cases h : width.toNat = 1 ∧ idx.toNat = 0
    · simp [h]
    · rw [if_neg h]
      simp only [not_and_or] at h
      rcases h with h | h <;> simp [h]
  | cons s ss ih =>
    have hone : (width ≤ 1) ↔ width.toNat ≤ 1 := by rw [BitVec.le_def]; rfl
    have hpair : (width ≤ idx ^^^ 1) ↔ width.toNat ≤ Merkle.pair idx.toNat := by
      rw [BitVec.le_def, toNat_xor_one (by norm_num)]
    have hidx : (idx >>> 1).toNat = idx.toNat / 2 := by
      rw [BitVec.toNat_ushiftRight, Nat.shiftRight_eq_div_pow, pow_one]
    have hwidth : (width / 2 + width % 2).toNat = (width.toNat + 1) / 2 := by
      have h2 : (2 : U256).toNat = 2 := rfl
      have hlt := width.isLt
      rw [BitVec.toNat_add, BitVec.toNat_udiv, BitVec.toNat_umod, h2,
        Nat.mod_eq_of_lt (by omega)]
      omega
    have hturn : (if idx % 2 = 0 then RosterProof.node keccak256 acc s
          else RosterProof.node keccak256 s acc) =
        Merkle.hash (RosterProof.node keccak256) (Merkle.turn idx.toNat acc s) := by
      have heven : idx % 2 = 0 ↔ idx.toNat % 2 = 0 := by
        rw [← BitVec.toNat_inj, BitVec.toNat_umod]
        rfl
      rw [Merkle.turn]
      by_cases h : idx.toNat % 2 = 0
      · rw [if_pos (heven.2 h), if_pos h]
        rfl
      · rw [if_neg (fun he => h (heven.1 he)), if_neg h]
        rfl
    rw [RosterProof.inclusionLoop, Merkle.climb?, hturn, ih, hidx, hwidth]
    simp only [hone, hpair]
    split_ifs <;> rfl

theorem verifyInclusion_eq (root leaf : Bytes32) (p : RosterProof.Inclusion) :
    RosterProof.verifyInclusion keccak256 root leaf p = true ↔
      2 ≤ p.leafCount.toNat ∧ p.index.toNat < p.leafCount.toNat ∧ p.siblings.length ≤ 256 ∧
        ∃ r, Merkle.climb? (RosterProof.node keccak256) leaf p.index.toNat p.leafCount.toNat
            p.siblings = some r ∧ RosterProof.rootOf keccak256 r p.leafCount = root := by
  have h2 : (p.leafCount < 2) ↔ p.leafCount.toNat < 2 := by rw [BitVec.lt_def]; rfl
  rw [RosterProof.verifyInclusion, inclusionLoop_eq]
  simp only [h2, BitVec.le_def]
  split_ifs with h
  · constructor
    · intro hf
      cases hf
    · rintro ⟨h1, h3, h4, -⟩
      omega
  · simp only [Option.any_eq_true, beq_iff_eq]
    constructor
    · rintro ⟨r, hr⟩
      exact ⟨by omega, by omega, by omega, r, hr⟩
    · rintro ⟨-, -, -, r, hr⟩
      exact ⟨r, hr⟩

end

/-! ## The tree that is built -/

/-- What `buildRoster` guarantees of its tree. -/
structure Roster.Built (keccak256 : Bytes → Bytes32) (ns : Bytes) (tree : RosterTree) : Prop where
  keys : tree.keys = MIN_KEY :: tree.entries.map (fun e => subjectKey keccak256 ns e.subject) ++
    [MAX_KEY]
  marks : tree.marks = SENTINEL_MARK :: tree.entries.map (markHash keccak256) ++ [SENTINEL_MARK]
  sorted : tree.keys.Pairwise (· < ·)
  leaves : tree.leaves = List.zipWith (leafOf keccak256) tree.keys tree.marks
  layers : tree.layers = Merkle.layers (hashNode keccak256) tree.leaves
  count : tree.leaves.length ≤ MAX_SAFE_INTEGER
  root : ∃ top, Merkle.top? (hashNode keccak256) tree.leaves = some top ∧
    tree.root = keccak256 (rootBytes (BitVec.ofNat 256 tree.leaves.length) top)

namespace Roster

section
variable {keccak256 : Bytes → Bytes32} {ns : Bytes}

instance : Std.Total fun a b : RosterEntry × Bytes32 => a.2 ≤ b.2 := ⟨fun a b => BitVec.le_total a.2 b.2⟩

instance : IsTrans (RosterEntry × Bytes32) fun a b => a.2 ≤ b.2 :=
  ⟨fun _ _ _ hab hbc => BitVec.le_trans hab hbc⟩

theorem checkDistinct_ok {l : List (RosterEntry × Bytes32)} {u : Unit} (h : checkDistinct l = .ok u)
    (hle : l.Pairwise fun a b => a.2 ≤ b.2) : l.Pairwise fun a b => a.2 < b.2 := by
  induction l using checkDistinct.induct with
  | case1 a b l ih =>
    simp only [checkDistinct, bind_ok, revertIf_ok] at h
    obtain ⟨_, hne, hrest⟩ := h
    have htail := ih hrest (List.pairwise_cons.1 hle).2
    refine List.pairwise_cons.2 ⟨?_, htail⟩
    have hab : a.2 < b.2 := by
      have hle' := (List.pairwise_cons.1 hle).1 b List.mem_cons_self
      rw [BitVec.le_def] at hle'
      rw [BitVec.lt_def]
      exact hle'.lt_of_ne fun he => hne (BitVec.eq_of_toNat_eq he.symm)
    intro c hc
    rcases List.mem_cons.1 hc with rfl | hc
    · exact hab
    · have hbc := (List.pairwise_cons.1 htail).1 c hc
      rw [BitVec.lt_def] at hab hbc ⊢
      exact hab.trans hbc
  | case2 l hl =>
    rcases l with _ | ⟨a, _ | ⟨b, l⟩⟩
    · exact List.Pairwise.nil
    · exact List.pairwise_singleton _ _
    · exact absurd rfl (hl a b l)

theorem checkSentinels_ok {l : List (RosterEntry × Bytes32)} {u : Unit}
    (h : checkSentinels l = .ok u) : ∀ a ∈ l, a.2 ≠ MIN_KEY ∧ a.2 ≠ MAX_KEY := by
  induction l with
  | nil => simp
  | cons a l ih =>
    simp only [checkSentinels, bind_ok, revertIf_ok, not_or] at h
    obtain ⟨_, ha, hrest⟩ := h
    intro b hb
    rcases List.mem_cons.1 hb with rfl | hb
    · exact ha
    · exact ih hrest b hb

theorem min_lt {k : Bytes32} (h : k ≠ MIN_KEY) : MIN_KEY < k := by
  rw [BitVec.lt_def]
  have h0 : k.toNat ≠ 0 := fun he => h (BitVec.eq_of_toNat_eq he)
  exact Nat.pos_of_ne_zero h0

theorem lt_max {k : Bytes32} (h : k ≠ MAX_KEY) : k < MAX_KEY := by
  rw [BitVec.lt_def]
  have hm : MAX_KEY.toNat = 2 ^ 256 - 1 := BitVec.toNat_allOnes
  have h1 := k.isLt
  have h2 : k.toNat ≠ MAX_KEY.toNat := fun he => h (BitVec.eq_of_toNat_eq he)
  omega

theorem top?_isSome (keccak256 : Bytes → Bytes32) {l : List Bytes32} (h : l ≠ []) :
    ∃ top, Merkle.top? (hashNode keccak256) l = some top := by
  induction l using Merkle.layers_induction (hashNode keccak256) with
  | one l hl =>
    rw [Merkle.top?_of_le _ hl]
    exact ⟨_, List.head?_eq_some_head h⟩
  | more l hl ih =>
    rw [Merkle.top?_of_lt _ hl]
    refine ih fun he => ?_
    have hlen := congrArg List.length he
    rw [Merkle.length_nextLayer, List.length_nil] at hlen
    omega

/-- **What `buildRoster` returns.** -/
theorem built_of_buildRoster {entries : List RosterEntry} {tree : RosterTree}
    (h : buildRoster keccak256 ns entries = .ok tree) :
    Built keccak256 ns tree ∧ tree.entries.Perm entries := by
  simp only [buildRoster, bind_ok, pure_ok] at h
  obtain ⟨_, hdist, _, hsent, root, hroot, rfl⟩ := h
  set keyed := entries.map fun e => (e, subjectKey keccak256 ns e.subject) with hkeyed
  set withKeys := keyed.insertionSort fun a b => a.2 ≤ b.2 with hwith
  have hperm : withKeys.Perm keyed := List.perm_insertionSort _ _
  have hsnd : withKeys.map Prod.snd =
      (withKeys.map Prod.fst).map fun e => subjectKey keccak256 ns e.subject := by
    rw [List.map_map]
    refine List.map_congr_left fun a ha => ?_
    obtain ⟨e, -, rfl⟩ := List.mem_map.1 (hperm.mem_iff.1 ha)
    rfl
  have hlt : withKeys.Pairwise fun a b => a.2 < b.2 := by
    have hle := List.pairwise_insertionSort (fun a b : RosterEntry × Bytes32 => a.2 ≤ b.2) keyed
    exact checkDistinct_ok hdist hle
  have hne := checkSentinels_ok hsent
  simp only [rosterRoot, bind_ok, revertIf_ok, pure_ok, not_or, not_lt] at hroot
  obtain ⟨_, ⟨hcount, hmin⟩, rfl⟩ := hroot
  refine ⟨⟨by rw [hsnd], rfl, ?_, rfl, rfl, hcount, ?_⟩, ?_⟩
  · rw [List.cons_append]
    refine List.pairwise_cons.2 ⟨?_, List.pairwise_append.2 ⟨?_, List.pairwise_singleton _ _, ?_⟩⟩
    · intro k hk
      rcases List.mem_append.1 hk with hk | hk
      · obtain ⟨a, ha, rfl⟩ := List.mem_map.1 hk
        exact min_lt (hne a ha).1
      · rw [List.mem_singleton.1 hk]
        decide
    · exact List.pairwise_map.2 hlt
    · intro k hk m hm
      obtain ⟨a, ha, rfl⟩ := List.mem_map.1 hk
      rw [List.mem_singleton.1 hm]
      exact lt_max (hne a ha).2
  · have hnil : List.zipWith (leafOf keccak256) (MIN_KEY :: withKeys.map Prod.snd ++ [MAX_KEY])
        (SENTINEL_MARK :: (withKeys.map Prod.fst).map (markHash keccak256) ++ [SENTINEL_MARK]) ≠
        [] := by
      intro he
      rw [he] at hmin
      exact absurd hmin (by decide)
    obtain ⟨top, htop⟩ := top?_isSome keccak256 hnil
    refine ⟨top, htop, ?_⟩
    rw [Merkle.top?] at htop
    rw [htop]
    rfl
  · have hfst := hperm.map Prod.fst
    rwa [hkeyed, List.map_map, show (Prod.fst ∘ fun e : RosterEntry =>
      (e, subjectKey keccak256 ns e.subject)) = id from rfl, List.map_id] at hfst

theorem encodeSubject_injective : Function.Injective (RosterProof.encodeSubject ns) := by
  intro a b h
  rw [RosterProof.encodeSubject, RosterProof.encodeSubject, List.append_assoc, List.append_assoc] at h
  have hwords := abiEncode_injective (List.append_inj_left h (by simp))
  simp only [List.cons.injEq, and_true, true_and] at hwords
  exact (toWord_inj (by norm_num)).1 hwords

theorem checkDistinct_of_nodup {l : List (RosterEntry × Bytes32)} (h : (l.map Prod.snd).Nodup) :
    checkDistinct l = .ok () := by
  induction l using checkDistinct.induct with
  | case1 a b l ih =>
    have hab : ¬ b.2 = a.2 := by
      rintro he
      rw [List.map_cons, List.map_cons, he] at h
      exact (List.nodup_cons.1 h).1 List.mem_cons_self
    rw [checkDistinct, revertIf_of_not hab, ok_bind]
    exact ih (List.nodup_cons.1 h).2
  | case2 l hl =>
    match l with
    | [] => rfl
    | [a] => rfl
    | a :: b :: l => exact absurd rfl (hl a b l)

theorem checkSentinels_of_ne {l : List (RosterEntry × Bytes32)}
    (h : ∀ a ∈ l, a.2 ≠ MIN_KEY ∧ a.2 ≠ MAX_KEY) : checkSentinels l = .ok () := by
  induction l with
  | nil => rfl
  | cons a l ih =>
    have ha : ¬ (a.2 = MIN_KEY ∨ a.2 = MAX_KEY) := by
      have hne := h a List.mem_cons_self
      tauto
    rw [checkSentinels, revertIf_of_not ha, ok_bind]
    exact ih fun b hb => h b (List.mem_cons_of_mem _ hb)

/-- **A roster of distinct subjects is built**, when no two subjects have one key and none has
    the key of a sentinel. -/
theorem buildRoster_isOk {entries : List RosterEntry} (hd : (entries.map (·.subject)).Nodup)
    (hno : NoCollision keccak256 (entries.map fun e => RosterProof.encodeSubject ns e.subject))
    (hs : ∀ e ∈ entries, subjectKey keccak256 ns e.subject ≠ MIN_KEY ∧
      subjectKey keccak256 ns e.subject ≠ MAX_KEY)
    (hlen : entries.length + 2 ≤ MAX_SAFE_INTEGER) :
    ∃ tree, buildRoster keccak256 ns entries = .ok tree := by
  set keyed := entries.map fun e => (e, subjectKey keccak256 ns e.subject) with hkeyed
  set withKeys := keyed.insertionSort fun a b => a.2 ≤ b.2 with hwith
  have hperm : withKeys.Perm keyed := List.perm_insertionSort _ _
  have hnodup : (keyed.map Prod.snd).Nodup := by
    rw [hkeyed, List.map_map]
    refine (List.nodup_map_iff_inj_on hd.of_map).2 fun a ha b hb hab => ?_
    have hbytes := hno _ (List.mem_map_of_mem ha) _ (List.mem_map_of_mem hb) hab
    exact List.inj_on_of_nodup_map hd ha hb (encodeSubject_injective hbytes)
  have hdist := checkDistinct_of_nodup ((hperm.map Prod.snd).nodup_iff.2 hnodup)
  have hsent : checkSentinels withKeys = .ok () := by
    refine checkSentinels_of_ne fun a ha => ?_
    obtain ⟨e, he, rfl⟩ := List.mem_map.1 (hperm.mem_iff.1 ha)
    exact hs e he
  have hcount : withKeys.length = entries.length := by
    rw [hperm.length_eq, hkeyed, List.length_map]
  have hok : ¬ (MAX_SAFE_INTEGER < entries.length + 2 ∨ entries.length + 2 < 2) := by omega
  have hleaves : (List.zipWith (leafOf keccak256) (MIN_KEY :: withKeys.map Prod.snd ++ [MAX_KEY])
      (SENTINEL_MARK :: (withKeys.map Prod.fst).map (markHash keccak256) ++ [SENTINEL_MARK])).length =
      entries.length + 2 := by
    simp [hcount]
  simp only [buildRoster, ← hkeyed, ← hwith, hdist, hsent, ok_bind, rosterRoot, hleaves,
    revertIf_of_not hok]
  exact ⟨_, rfl⟩

end

end Roster

/-! ## The verifier of `roster.ts` -/

/-- The proof as calldata. -/
def InclusionProof.toInclusion (proof : InclusionProof) : RosterProof.Inclusion :=
  ⟨BitVec.ofNat 256 proof.index, BitVec.ofNat 256 proof.leafCount, proof.siblings⟩

def NonInclusionProof.toNonInclusion (proof : NonInclusionProof) : RosterProof.NonInclusion :=
  ⟨proof.left.toInclusion, proof.leftKey, proof.leftMark, proof.right.toInclusion, proof.rightKey,
    proof.rightMark⟩

theorem toNat_ofNat_safe {n : ℕ} (h : n ≤ MAX_SAFE_INTEGER) : (BitVec.ofNat 256 n).toNat = n := by
  rw [MAX_SAFE_INTEGER] at h
  rw [BitVec.toNat_ofNat, Nat.mod_eq_of_lt]
  exact lt_of_le_of_lt h (by norm_num)

section
variable {keccak256 : Bytes → Bytes32}

theorem rosterRoot_value {top : Bytes32} {n : ℕ} (h : n ≤ MAX_SAFE_INTEGER) (h2 : 2 ≤ n) :
    value? (Roster.rosterRoot keccak256 top n) =
      some (RosterProof.rootOf keccak256 top (BitVec.ofNat 256 n)) := by
  have hok : ¬ (MAX_SAFE_INTEGER < n ∨ n < 2) := by omega
  rw [Roster.rosterRoot, revertIf_of_not hok]
  rfl

/-- **The two inclusion verifiers agree** on safe integers. -/
theorem verifyInclusion_toInclusion {root leaf : Bytes32} {proof : InclusionProof} :
    Roster.verifyInclusion keccak256 root leaf proof = true ↔
      proof.index ≤ MAX_SAFE_INTEGER ∧ proof.leafCount ≤ MAX_SAFE_INTEGER ∧
        RosterProof.verifyInclusion keccak256 root leaf proof.toInclusion = true := by
  rw [Roster.verifyInclusion]
  split_ifs with h
  · constructor
    · intro hf
      cases hf
    · rintro ⟨h1, h2, hv⟩
      obtain ⟨h3, h4, h5, -⟩ := (verifyInclusion_eq _ _ _).1 hv
      simp only [InclusionProof.toInclusion, toNat_ofNat_safe h1, toNat_ofNat_safe h2] at h3 h4 h5
      omega
  · simp only [not_or, not_lt, not_le] at h
    obtain ⟨h1, h2, h3, h4, h5⟩ := h
    rw [verifyInclusion_eq]
    simp only [InclusionProof.toInclusion, toNat_ofNat_safe h1, toNat_ofNat_safe h2]
    constructor
    · intro hv
      refine ⟨h1, h2, h3, h4, h5, ?_⟩
      cases hc : Merkle.climb? (Roster.hashNode keccak256) leaf proof.index proof.leafCount
          proof.siblings with
      | none => rw [hc] at hv; cases hv
      | some r =>
        simp only [hc, rosterRoot_value h2 h3, beq_iff_eq, Option.some.injEq] at hv
        exact ⟨r, hc, hv⟩
    · rintro ⟨-, -, -, -, -, r, hc, hr⟩
      have hc' : Merkle.climb? (Roster.hashNode keccak256) leaf proof.index proof.leafCount
          proof.siblings = some r := hc
      simp only [hc', rosterRoot_value h2 h3, hr, beq_self_eq_true]

end

/-! ## Inclusion -/

section
variable {keccak256 : Bytes → Bytes32} {ns : Bytes} {tree : RosterTree}

theorem Roster.Built.inclusionProof (hb : Roster.Built keccak256 ns tree) {i : ℕ}
    (hi : i < tree.leaves.length) : Roster.inclusionProof tree i =
      .ok ⟨i, tree.leaves.length,
        Merkle.siblings (Merkle.layers (Roster.hashNode keccak256) tree.leaves) i⟩ := by
  have hsafe : ¬ (MAX_SAFE_INTEGER < i ∨ tree.leaves.length ≤ i) := by
    have hcount := hb.count
    omega
  rw [Roster.inclusionProof, revertIf_of_not hsafe, hb.layers]
  rfl

theorem Roster.Built.length_leaves (hb : Roster.Built keccak256 ns tree) :
    tree.leaves.length = tree.entries.length + 2 := by
  rw [hb.leaves, hb.keys, hb.marks]
  simp

theorem Roster.Built.toNat_count (hb : Roster.Built keccak256 ns tree) :
    (BitVec.ofNat 256 tree.leaves.length).toNat = tree.leaves.length := by
  have hcount := hb.count
  rw [BitVec.toNat_ofNat, Nat.mod_eq_of_lt]
  rw [MAX_SAFE_INTEGER] at hcount
  exact lt_of_le_of_lt hcount (by norm_num)

/-- A proof that climbs to the root of a tree has the shape of the tree. -/
theorem eq_of_climbs (hb : Roster.Built keccak256 ns tree) {leaf r : Bytes32}
    {p : RosterProof.Inclusion}
    (hno : NoCollision keccak256
      (Roster.nodesHashed keccak256 tree ++ RosterProof.inclusionHashed keccak256 leaf p))
    (hidx : p.index.toNat < p.leafCount.toNat)
    (hclimb : Merkle.climb? (RosterProof.node keccak256) leaf p.index.toNat p.leafCount.toNat
      p.siblings = some r)
    (hroot : RosterProof.rootOf keccak256 r p.leafCount = tree.root) :
    p.leafCount.toNat = tree.leaves.length ∧ tree.leaves[p.index.toNat]? = some leaf ∧
      p.siblings =
        Merkle.siblings (Merkle.layers (Roster.hashNode keccak256) tree.leaves) p.index.toNat := by
  obtain ⟨top, htop, hrt⟩ := hb.root
  have hbytes : Roster.rootBytes p.leafCount r =
      Roster.rootBytes (BitVec.ofNat 256 tree.leaves.length) top := by
    refine hno _ ?_ _ ?_ (hroot.trans hrt)
    · refine List.mem_append_right _ (List.mem_append_right _ ?_)
      rw [hclimb]
      exact List.mem_singleton_self _
    · refine List.mem_append_left _ (List.mem_append_right _ ?_)
      rw [htop]
      exact List.mem_singleton_self _
  have hwords := abiEncode_injective (List.cons.inj hbytes).2
  simp only [List.cons.injEq, and_true] at hwords
  obtain ⟨hcount, rfl⟩ := hwords
  have hlen : p.leafCount.toNat = tree.leaves.length := by rw [hcount, hb.toNat_count]
  rw [hlen] at hidx hclimb
  refine ⟨hlen, Merkle.eq_of_climb? (Roster.hashNode keccak256) tree.leaves hidx htop hclimb ?_⟩
  intro x hx y hy hxy
  have hnode : Roster.nodeBytes x = Roster.nodeBytes y := by
    refine hno _ (List.mem_append_right _ (List.mem_append_left _ (List.mem_map_of_mem hx))) _
      (List.mem_append_left _ (List.mem_append_left _ (List.mem_map_of_mem hy))) hxy
  have hpair := abiEncode_injective (List.cons.inj hnode).2
  simp only [List.cons.injEq, and_true] at hpair
  exact Prod.ext hpair.1 hpair.2

/-- The siblings of the builder climb to its root. -/
theorem Roster.Built.climbs (hb : Roster.Built keccak256 ns tree) {i : ℕ} {leaf : Bytes32}
    (hleaf : tree.leaves[i]? = some leaf) :
    ∃ r, Merkle.climb? (Roster.hashNode keccak256) leaf i tree.leaves.length
        (Merkle.siblings (Merkle.layers (Roster.hashNode keccak256) tree.leaves) i) = some r ∧
      keccak256 (Roster.rootBytes (BitVec.ofNat 256 tree.leaves.length) r) = tree.root := by
  obtain ⟨top, htop, hrt⟩ := hb.root
  exact ⟨top, (Merkle.climb?_siblings _ _ hleaf).trans htop, hrt.symm⟩

theorem Roster.Built.length_siblings (hb : Roster.Built keccak256 ns tree) {i : ℕ}
    (hi : i < tree.leaves.length) :
    (Merkle.siblings (Merkle.layers (Roster.hashNode keccak256) tree.leaves) i).length ≤ 53 := by
  refine Merkle.length_siblings_le _ _ hi ?_
  have hcount := hb.count
  rw [MAX_SAFE_INTEGER] at hcount
  omega

/-- The builder's proof of a position. -/
def Roster.proofAt (keccak256 : Bytes → Bytes32) (tree : RosterTree) (i : ℕ) : InclusionProof :=
  ⟨i, tree.leaves.length, Merkle.siblings (Merkle.layers (Roster.hashNode keccak256) tree.leaves) i⟩

/-- **The builder's proofs verify.** -/
theorem Roster.Built.verifies (hb : Roster.Built keccak256 ns tree) {i : ℕ} {leaf : Bytes32}
    (hleaf : tree.leaves[i]? = some leaf) :
    RosterProof.verifyInclusion keccak256 tree.root leaf (proofAt keccak256 tree i).toInclusion =
      true := by
  have hi : i < tree.leaves.length := (List.getElem?_eq_some_iff.1 hleaf).1
  have hnat : (BitVec.ofNat 256 i).toNat = i := toNat_ofNat_safe (hi.le.trans hb.count)
  obtain ⟨r, hclimb, hroot⟩ := hb.climbs hleaf
  have hlen := hb.length_leaves
  have hsib := hb.length_siblings hi
  rw [verifyInclusion_eq]
  simp only [InclusionProof.toInclusion, proofAt, hnat, hb.toNat_count]
  exact ⟨by omega, hi, hsib.trans (by norm_num), r, hclimb, hroot⟩

/-- **Roster inclusion is sound and complete**: the accepted proofs are those of the builder. -/
theorem roster_inclusion {entries : List RosterEntry} {leaf : Bytes32} {p : RosterProof.Inclusion}
    (hb : Roster.buildRoster keccak256 ns entries = .ok tree)
    (hno : NoCollision keccak256
      (Roster.nodesHashed keccak256 tree ++ RosterProof.inclusionHashed keccak256 leaf p)) :
    RosterProof.verifyInclusion keccak256 tree.root leaf p = true ↔
      p.leafCount.toNat = tree.leaves.length ∧ p.index.toNat < p.leafCount.toNat ∧
        tree.leaves[p.index.toNat]? = some leaf ∧
        Roster.inclusionProof tree p.index.toNat =
          .ok ⟨p.index.toNat, p.leafCount.toNat, p.siblings⟩ := by
  have hb := (Roster.built_of_buildRoster hb).1
  constructor
  · intro hv
    obtain ⟨-, hidx, -, r, hclimb, hroot⟩ := (verifyInclusion_eq _ _ _).1 hv
    obtain ⟨hlen, hleaf, hsib⟩ := eq_of_climbs hb hno hidx hclimb hroot
    refine ⟨hlen, hidx, hleaf, ?_⟩
    rw [hb.inclusionProof (hlen ▸ hidx), hlen, hsib]
  · rintro ⟨hlen, hidx, hleaf, hproof⟩
    rw [hb.inclusionProof (hlen ▸ hidx)] at hproof
    have hp : (Roster.proofAt keccak256 tree p.index.toNat).toInclusion = p := by
      have hcount : BitVec.ofNat 256 tree.leaves.length = p.leafCount :=
        BitVec.eq_of_toNat_eq (by rw [hlen, hb.toNat_count])
      have hsib := (InclusionProof.mk.inj (Except.ok.inj hproof)).2.2
      simp only [InclusionProof.toInclusion, Roster.proofAt, hcount, hsib, BitVec.ofNat_toNat,
        BitVec.setWidth_eq]
    rw [← hp]
    exact hb.verifies hleaf

end

/-! A roster with the one entry of subject 7. -/

namespace OneEntry

def entry : RosterEntry := ⟨7, MarkAttrs.pack 1 3 1 410 1 1500 9000 0, 11, 12, 3⟩

def tree : RosterTree :=
  let key := 0xdbff39efb3f5f77a362278c9d355fe4170df7687bc9cfa3e2e69f775a1db6cf3
  let mark := 0xd0b62c2a0a3fba0d7c41c44ee8ed2ab7e261b7bc1f19792cb5a937fef60e0c98
  let low := 0xae61b77b3e4cbac1353bfa4c59274e3ae531285c24e3cf57c11771ecbf72d9bf
  let leaf := 0x04f2281716b37b24212653c865e192e70da7e418687cfdaecefa1e4be1869463
  let high := 0x9c1ee289e03d80d15a778d11d4159ca8444fbb86ddb1433b09a069e81c6179d8
  let below := 0xa099cb6e8a85e2faeaf8cc131950cabb869953d75d0bd0268c339ca6f2ea3316
  let tail := 0x6bdebc48add0843090eff238c07744471faeca1d7c8569be7ed005f1f12b4244
  let top := 0xbace859d83a80cda2aac080105329883ca01c0e2ca5ec40cbcafd816e7e553c0
  { entries := [entry], keys := [0, key, BitVec.allOnes 256], marks := [0, mark, 0]
    leaves := [low, leaf, high], layers := [[low, leaf, high], [below, tail], [top]]
    root := 0xe29a4411f9786c766c061427c00ceb865417dd047365a31cbe02dc023b3b25f8 }

/-- The hashes of the tree. -/
def hashes : List (Bytes × Bytes32) :=
  let layer (i : ℕ) := tree.layers.getD i []
  [(RosterProof.encodeSubject Roster.EVM_NAMESPACE 7, tree.keys.getD 1 0),
    (abiEncode [entry.attrs, 11, 12, 3], tree.marks.getD 1 0)] ++
  (List.zipWith Roster.leafBytes tree.keys tree.marks).zip tree.leaves ++
  ((Merkle.layerPairs (layer 0)).map Roster.nodeBytes).zip (layer 1) ++
  ((Merkle.layerPairs (layer 1)).map Roster.nodeBytes).zip (layer 2) ++
  [(Roster.rootBytes 3 ((layer 2).getD 0 0), tree.root)]

def keccak256 (bs : Bytes) : Bytes32 := (hashes.lookup bs).getD 0

theorem build : Roster.buildRoster keccak256 Roster.EVM_NAMESPACE [entry] = .ok tree := by
  decide +kernel

end OneEntry

theorem roster_inclusion_entry :
    RosterProof.verifyInclusion OneEntry.keccak256 OneEntry.tree.root
      (OneEntry.tree.leaves.getD 1 0)
      ⟨1, 3, [OneEntry.tree.leaves.getD 0 0, (OneEntry.tree.layers.getD 1 []).getD 1 0]⟩ = true := by
  refine (roster_inclusion OneEntry.build ?_).2 ⟨rfl, ?_, rfl, rfl⟩
  · decide +kernel
  · decide

end Proofmark
