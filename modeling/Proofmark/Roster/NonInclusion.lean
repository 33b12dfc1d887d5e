/-
  Non-inclusion proofs: the gap between two adjacent keys.

  The keys of a built tree increase strictly from one sentinel to the other, so a key lies
  in a gap exactly when it is none of them (`Built.gap_iff`).  `roster_non_membership` says
  that the accepted gaps are those, and that a loaded bundle proves every subject.
-/
import Proofmark.Pipeline.RosterBundle
import Proofmark.Roster.Inclusion

namespace Proofmark

open Words Revert

namespace RosterProof

/-- What `verifyNonInclusion` hashes. -/
def nonInclusionHashed (keccak256 : Bytes → Bytes32) (p : NonInclusion) : List Bytes :=
  [Roster.leafBytes p.leftKey p.leftMark, Roster.leafBytes p.rightKey p.rightMark] ++
    inclusionHashed keccak256 (leafOf keccak256 p.leftKey p.leftMark) p.left ++
    inclusionHashed keccak256 (leafOf keccak256 p.rightKey p.rightMark) p.right

end RosterProof

section
variable {keccak256 : Bytes → Bytes32}

theorem verifyNonInclusion_eq {root k : Bytes32} {p : RosterProof.NonInclusion} :
    RosterProof.verifyNonInclusion keccak256 root k p = true ↔
      p.leftKey < k ∧ k < p.rightKey ∧ p.left.index ≠ BitVec.allOnes 256 ∧
        p.right.index = p.left.index + 1 ∧ p.left.leafCount = p.right.leafCount ∧
        p.left.siblings.length = p.right.siblings.length ∧
        RosterProof.verifyInclusion keccak256 root
          (RosterProof.leafOf keccak256 p.leftKey p.leftMark) p.left = true ∧
        RosterProof.verifyInclusion keccak256 root
          (RosterProof.leafOf keccak256 p.rightKey p.rightMark) p.right = true := by
  rw [RosterProof.verifyNonInclusion]
  split_ifs with h1 h2 h3
  · simp only [false_iff]
    tauto
  · simp only [false_iff]
    tauto
  · simp only [Bool.and_eq_true]
    tauto
  · simp only [false_iff]
    tauto

/-- **The two non-inclusion verifiers agree** on safe integers. -/
theorem verifyNonInclusion_toNonInclusion {ns : Bytes} {root : Bytes32} {target : Address}
    {proof : NonInclusionProof} (hl : proof.left.index ≤ MAX_SAFE_INTEGER)
    (hlc : proof.left.leafCount ≤ MAX_SAFE_INTEGER) (hr : proof.right.index ≤ MAX_SAFE_INTEGER)
    (hrc : proof.right.leafCount ≤ MAX_SAFE_INTEGER) :
    Roster.verifyNonInclusion keccak256 ns root target proof = true ↔
      RosterProof.verifyNonInclusion keccak256 root (Roster.subjectKey keccak256 ns target)
        proof.toNonInclusion = true := by
  have hmax : BitVec.ofNat 256 proof.left.index ≠ BitVec.allOnes 256 := by
    intro he
    have hnat := congrArg BitVec.toNat he
    rw [toNat_ofNat_safe hl, BitVec.toNat_allOnes] at hnat
    rw [hnat, MAX_SAFE_INTEGER] at hl
    norm_num at hl
  have hnext : BitVec.ofNat 256 proof.right.index = BitVec.ofNat 256 proof.left.index + 1 ↔
      proof.right.index = proof.left.index + 1 := by
    rw [← BitVec.toNat_inj, bv_toNat_add_one hmax, toNat_ofNat_safe hl, toNat_ofNat_safe hr]
  have hcount : BitVec.ofNat 256 proof.left.leafCount = BitVec.ofNat 256 proof.right.leafCount ↔
      proof.left.leafCount = proof.right.leafCount := by
    rw [← BitVec.toNat_inj, toNat_ofNat_safe hlc, toNat_ofNat_safe hrc]
  have hleft := @verifyInclusion_toInclusion keccak256 root
    (Roster.leafOf keccak256 proof.leftKey proof.leftMark) proof.left
  have hright := @verifyInclusion_toInclusion keccak256 root
    (Roster.leafOf keccak256 proof.rightKey proof.rightMark) proof.right
  have hside : Roster.verifyNonInclusion keccak256 ns root target proof = true ↔
      proof.leftKey < Roster.subjectKey keccak256 ns target ∧
        Roster.subjectKey keccak256 ns target < proof.rightKey ∧
        proof.right.index = proof.left.index + 1 ∧ proof.left.leafCount = proof.right.leafCount ∧
        proof.left.siblings.length = proof.right.siblings.length ∧
        Roster.verifyInclusion keccak256 root
          (Roster.leafOf keccak256 proof.leftKey proof.leftMark) proof.left = true ∧
        Roster.verifyInclusion keccak256 root
          (Roster.leafOf keccak256 proof.rightKey proof.rightMark) proof.right = true := by
    rw [Roster.verifyNonInclusion]
    split_ifs with h1 h2 h3
    · simp only [false_iff]
      tauto
    · simp only [false_iff]
      tauto
    · simp only [Bool.and_eq_true]
      tauto
    · simp only [false_iff]
      tauto
  rw [hside, verifyNonInclusion_eq, hleft, hright]
  simp only [NonInclusionProof.toNonInclusion, InclusionProof.toInclusion, ne_eq, hmax,
    not_false_eq_true, true_and, hnext, hcount, hl, hlc, hr, hrc]
  rfl

end

/-- The proof of the gap above position `lo`. -/
def Roster.gapAt (keccak256 : Bytes → Bytes32) (tree : RosterTree) (lo : ℕ) : NonInclusionProof := {
  left := proofAt keccak256 tree lo, leftKey := tree.keys.getD lo 0, leftMark := tree.marks.getD lo 0
  right := proofAt keccak256 tree (lo + 1), rightKey := tree.keys.getD (lo + 1) 0
  rightMark := tree.marks.getD (lo + 1) 0 }

/-- What the search of a bundle finds. -/
theorem lowerBound_spec {keys : List Bytes32} {key : Bytes32} {lo hi : ℕ} (hle : lo ≤ hi)
    (hhi : hi < keys.length) (hlow : lo = 0 ∨ keys.getD (lo - 1) 0 < key)
    (hhigh : key ≤ keys.getD hi 0) :
    lo ≤ RosterBundle.lowerBound keys key lo hi ∧
      RosterBundle.lowerBound keys key lo hi ≤ hi ∧
      (RosterBundle.lowerBound keys key lo hi = 0 ∨
        keys.getD (RosterBundle.lowerBound keys key lo hi - 1) 0 < key) ∧
      key ≤ keys.getD (RosterBundle.lowerBound keys key lo hi) 0 := by
  induction lo, hi using RosterBundle.lowerBound.induct keys key with
  | case1 lo hi hlt mid hless ih =>
    have hmid : mid = (lo + hi) / 2 := rfl
    have hstep : RosterBundle.lowerBound keys key lo hi =
        RosterBundle.lowerBound keys key (mid + 1) hi := by
      rw [RosterBundle.lowerBound, if_pos hlt]
      exact if_pos hless
    rw [hstep]
    obtain ⟨h1, h2, h3, h4⟩ := ih (by omega) hhi (Or.inr hless) hhigh
    exact ⟨by omega, h2, h3, h4⟩
  | case2 lo hi hlt mid hless ih =>
    have hmid : mid = (lo + hi) / 2 := rfl
    have hstep : RosterBundle.lowerBound keys key lo hi =
        RosterBundle.lowerBound keys key lo mid := by
      rw [RosterBundle.lowerBound, if_pos hlt]
      exact if_neg hless
    rw [hstep]
    obtain ⟨h1, h2, h3, h4⟩ := ih (by omega) (by omega) hlow (BitVec.not_lt.1 hless)
    exact ⟨h1, by omega, h3, h4⟩
  | case3 lo hi hlt =>
    rw [RosterBundle.lowerBound, if_neg hlt]
    have heq : lo = hi := by omega
    exact ⟨le_rfl, hle, hlow, heq ▸ hhigh⟩

namespace Roster.Built

variable {keccak256 : Bytes → Bytes32} {ns : Bytes} {tree : RosterTree}

theorem length_keys (hb : Built keccak256 ns tree) : tree.keys.length = tree.entries.length + 2 := by
  rw [hb.keys]
  simp

theorem length_marks (hb : Built keccak256 ns tree) : tree.marks.length = tree.entries.length + 2 := by
  rw [hb.marks]
  simp

theorem leaf_at (hb : Built keccak256 ns tree) {i : ℕ} (hi : i < tree.entries.length + 2) :
    tree.leaves[i]? = some (leafOf keccak256 (tree.keys.getD i 0) (tree.marks.getD i 0)) := by
  have hk : tree.keys[i]? = some (tree.keys.getD i 0) := by
    rw [List.getD_eq_getElem _ _ (by rw [hb.length_keys]; exact hi), List.getElem?_eq_getElem]
  have hm : tree.marks[i]? = some (tree.marks.getD i 0) := by
    rw [List.getD_eq_getElem _ _ (by rw [hb.length_marks]; exact hi), List.getElem?_eq_getElem]
  rw [hb.leaves, List.getElem?_zipWith, hk, hm]

theorem leafBytes_mem (hb : Built keccak256 ns tree) {i : ℕ} (hi : i < tree.entries.length + 2) :
    leafBytes (tree.keys.getD i 0) (tree.marks.getD i 0) ∈ treeHashed keccak256 tree := by
  refine List.mem_append_left _ (List.mem_of_getElem? (i := i) ?_)
  have hk : tree.keys[i]? = some (tree.keys.getD i 0) := by
    rw [List.getD_eq_getElem _ _ (by rw [hb.length_keys]; exact hi), List.getElem?_eq_getElem]
  have hm : tree.marks[i]? = some (tree.marks.getD i 0) := by
    rw [List.getD_eq_getElem _ _ (by rw [hb.length_marks]; exact hi), List.getElem?_eq_getElem]
  rw [List.getElem?_zipWith, hk, hm]

/-! ## The keys -/

theorem key_lt (hb : Built keccak256 ns tree) {i j : ℕ} (hij : i < j)
    (hj : j < tree.keys.length) : tree.keys.getD i 0 < tree.keys.getD j 0 := by
  rw [List.getD_eq_getElem _ _ (hij.trans hj), List.getD_eq_getElem _ _ hj]
  exact List.pairwise_iff_getElem.1 hb.sorted i j (hij.trans hj) hj hij

theorem key_zero (hb : Built keccak256 ns tree) : tree.keys.getD 0 0 = MIN_KEY := by
  rw [hb.keys]
  rfl

theorem key_last (hb : Built keccak256 ns tree) :
    tree.keys.getD (tree.keys.length - 1) 0 = MAX_KEY := by
  have hlen : tree.keys.length - 1 = tree.entries.length + 1 := by
    rw [hb.length_keys]
    rfl
  rw [hlen, hb.keys, List.getD_append_right _ _ _ _ (by simp)]
  simp

theorem mem_keys {k : Bytes32} :
    k ∈ tree.keys ↔ ∃ i < tree.keys.length, tree.keys.getD i 0 = k := by
  rw [List.mem_iff_getElem]
  constructor
  · rintro ⟨i, hi, h⟩
    exact ⟨i, hi, by rw [List.getD_eq_getElem _ _ hi, h]⟩
  · rintro ⟨i, hi, h⟩
    exact ⟨i, hi, by rw [← h, List.getD_eq_getElem _ _ hi]⟩

/-- Nothing lies in a gap. -/
theorem not_mem_of_gap (hb : Built keccak256 ns tree) {lo : ℕ} {k : Bytes32}
    (hlo : lo + 1 < tree.keys.length) (h1 : tree.keys.getD lo 0 < k)
    (h2 : k < tree.keys.getD (lo + 1) 0) : k ∉ tree.keys := by
  intro hk
  obtain ⟨i, hi, rfl⟩ := mem_keys.1 hk
  rw [BitVec.lt_def] at h1 h2
  rcases Nat.lt_trichotomy i lo with h | rfl | h
  · have hlt := BitVec.lt_def.1 (hb.key_lt h (by omega))
    omega
  · omega
  · rcases Nat.lt_or_ge i (lo + 1) with h' | h'
    · omega
    · rcases h'.eq_or_lt with rfl | h'
      · omega
      · have hlt := BitVec.lt_def.1 (hb.key_lt h' hi)
        omega

/-- **A key between the sentinels is a key of the tree or lies in a gap.** -/
theorem search (hb : Built keccak256 ns tree) {key : Bytes32} (hmin : MIN_KEY < key)
    (hmax : key < MAX_KEY) :
    ∃ lo, RosterBundle.lowerBound tree.keys key 1 (tree.keys.length - 1) = lo + 1 ∧
      lo + 1 < tree.keys.length ∧ tree.keys.getD lo 0 < key ∧ key ≤ tree.keys.getD (lo + 1) 0 := by
  have hlen := hb.length_keys
  obtain ⟨h1, h2, h3, h4⟩ := @lowerBound_spec tree.keys key 1 (tree.keys.length - 1) (by omega)
    (by omega)
    (Or.inr (by rw [Nat.sub_self, hb.key_zero]; exact hmin))
    (by rw [hb.key_last]; exact BitVec.le_of_lt hmax)
  refine ⟨RosterBundle.lowerBound tree.keys key 1 (tree.keys.length - 1) - 1, by omega, by omega, ?_, ?_⟩
  · rcases h3 with h3 | h3
    · omega
    · exact h3
  · rwa [Nat.sub_add_cancel h1]

/-! ## Proofs of a gap -/

/-- **The proof of a gap verifies.** -/
theorem gap_verifies (hb : Built keccak256 ns tree) {lo : ℕ} {k : Bytes32}
    (hlo : lo + 1 < tree.keys.length) (h1 : tree.keys.getD lo 0 < k)
    (h2 : k < tree.keys.getD (lo + 1) 0) :
    RosterProof.verifyNonInclusion keccak256 tree.root k (gapAt keccak256 tree lo).toNonInclusion =
      true := by
  rw [hb.length_keys] at hlo
  have hlen := hb.length_leaves
  have hcount := hb.count
  have hn (n : ℕ) (h : n ≤ tree.leaves.length) : (BitVec.ofNat 256 n).toNat = n :=
    toNat_ofNat_safe (h.trans hcount)
  have hleft := hb.verifies (hb.leaf_at (i := lo) (by omega))
  have hright := hb.verifies (hb.leaf_at (i := lo + 1) (by omega))
  have hsib := Merkle.length_siblings_eq (hashNode keccak256) tree.leaves (i := lo) (j := lo + 1)
    (by omega) (by omega)
  have hsafe : tree.leaves.length < 2 ^ 256 - 1 := by
    rw [MAX_SAFE_INTEGER] at hcount
    exact lt_of_le_of_lt hcount (by norm_num)
  have hmax : BitVec.ofNat 256 lo ≠ BitVec.allOnes 256 := by
    intro he
    have hnat := congrArg BitVec.toNat he
    rw [hn lo (by omega), BitVec.toNat_allOnes] at hnat
    omega
  have hnext : BitVec.ofNat 256 (lo + 1) = BitVec.ofNat 256 lo + 1 := by
    refine BitVec.eq_of_toNat_eq ?_
    rw [bv_toNat_add_one hmax, hn lo (by omega), hn (lo + 1) (by omega)]
  rw [verifyNonInclusion_eq]
  exact ⟨h1, h2, hmax, hnext, rfl, hsib, hleft, hright⟩

/-- The key of a leaf that verifies. -/
theorem key_of_verified (hb : Built keccak256 ns tree) {key mark : Bytes32}
    {p : RosterProof.Inclusion} {L : List Bytes} (hno : NoCollision keccak256 L)
    (htree : ∀ x ∈ treeHashed keccak256 tree, x ∈ L) (hleaf : leafBytes key mark ∈ L)
    (hproof : ∀ x ∈ RosterProof.inclusionHashed keccak256 (RosterProof.leafOf keccak256 key mark) p,
      x ∈ L)
    (h : RosterProof.verifyInclusion keccak256 tree.root (RosterProof.leafOf keccak256 key mark) p =
      true) :
    p.index.toNat < tree.keys.length ∧ tree.keys.getD p.index.toNat 0 = key := by
  have hsub : ∀ x ∈ nodesHashed keccak256 tree ++ RosterProof.inclusionHashed keccak256
      (RosterProof.leafOf keccak256 key mark) p, x ∈ L := by
    intro x hx
    rcases List.mem_append.1 hx with hx | hx
    · exact htree x (List.mem_append_right _ hx)
    · exact hproof x hx
  obtain ⟨-, hidx, -, r, hclimb, hroot⟩ := (verifyInclusion_eq _ _ _).1 h
  obtain ⟨hcount, hget, -⟩ := eq_of_climbs hb (hno.mono hsub) hidx hclimb hroot
  have hi : p.index.toNat < tree.entries.length + 2 := by
    rw [← hb.length_leaves, ← hcount]
    exact hidx
  rw [hb.leaf_at hi] at hget
  have hbytes := hno _ (htree _ (hb.leafBytes_mem hi)) _ hleaf (Option.some.inj hget)
  have hwords := abiEncode_injective (List.cons.inj hbytes).2
  simp only [List.cons.injEq, and_true] at hwords
  exact ⟨by rw [hb.length_keys]; exact hi, hwords.1⟩

/-- **Only gaps verify.** -/
theorem gap_of_verified (hb : Built keccak256 ns tree) {k : Bytes32} {p : RosterProof.NonInclusion}
    (hno : NoCollision keccak256
      (treeHashed keccak256 tree ++ RosterProof.nonInclusionHashed keccak256 p))
    (h : RosterProof.verifyNonInclusion keccak256 tree.root k p = true) :
    MIN_KEY < k ∧ k < MAX_KEY ∧ k ∉ tree.keys := by
  obtain ⟨hl, hr, hmax, hnext, -, -, hleft, hright⟩ := verifyNonInclusion_eq.1 h
  have htree (x) (hx : x ∈ treeHashed keccak256 tree) : x ∈ treeHashed keccak256 tree ++
      RosterProof.nonInclusionHashed keccak256 p := List.mem_append_left _ hx
  obtain ⟨hli, hlk⟩ := hb.key_of_verified hno htree
    (List.mem_append_right _ (by simp [RosterProof.nonInclusionHashed]))
    (fun x hx => List.mem_append_right _ (by simp [RosterProof.nonInclusionHashed, hx])) hleft
  obtain ⟨hri, hrk⟩ := hb.key_of_verified hno htree
    (List.mem_append_right _ (by simp [RosterProof.nonInclusionHashed]))
    (fun x hx => List.mem_append_right _ (by simp [RosterProof.nonInclusionHashed, hx])) hright
  rw [hnext, bv_toNat_add_one hmax] at hri hrk
  refine ⟨?_, ?_, hb.not_mem_of_gap hri (hlk ▸ hl) (hrk ▸ hr)⟩
  · rw [BitVec.lt_def] at hl ⊢
    exact lt_of_le_of_lt (Nat.zero_le _) hl
  · rw [BitVec.lt_def] at hr ⊢
    have hlt := p.rightKey.isLt
    have hm : MAX_KEY.toNat = 2 ^ 256 - 1 := BitVec.toNat_allOnes
    omega

/-! ## What the builder's side hands out -/

theorem safe_index (hb : Built keccak256 ns tree) {i : ℕ} (hi : i < tree.keys.length) :
    i < tree.leaves.length ∧ i ≤ MAX_SAFE_INTEGER := by
  have hcount := hb.count
  rw [hb.length_leaves] at hcount ⊢
  rw [hb.length_keys] at hi
  omega

/-- The proof of a gap, for the verifier of `roster.ts`. -/
theorem gap_verifies_local (hb : Built keccak256 ns tree) {lo : ℕ} {target : Address}
    (hlo : lo + 1 < tree.keys.length)
    (h1 : tree.keys.getD lo 0 < subjectKey keccak256 ns target)
    (h2 : subjectKey keccak256 ns target < tree.keys.getD (lo + 1) 0) :
    verifyNonInclusion keccak256 ns tree.root target (gapAt keccak256 tree lo) = true := by
  have hsafe := (hb.safe_index hlo).2
  rw [verifyNonInclusion_toNonInclusion (by exact (Nat.le_succ lo).trans hsafe) hb.count hsafe hb.count]
  exact hb.gap_verifies hlo h1 h2

/-- **`nonInclusionProof` finds the gap.** -/
theorem nonInclusionProof_ok (hb : Built keccak256 ns tree) {target : Address}
    (hmin : MIN_KEY < subjectKey keccak256 ns target)
    (hmax : subjectKey keccak256 ns target < MAX_KEY)
    (hk : subjectKey keccak256 ns target ∉ tree.keys) :
    ∃ proof, nonInclusionProof keccak256 ns tree target = .ok proof ∧
      verifyNonInclusion keccak256 ns tree.root target proof = true := by
  obtain ⟨lo, -, hlo, h1, h2⟩ := hb.search hmin hmax
  have h2' : subjectKey keccak256 ns target < tree.keys.getD (lo + 1) 0 := by
    rw [BitVec.lt_def]
    rw [BitVec.le_def] at h2
    exact h2.lt_of_ne fun he => hk (mem_keys.2 ⟨lo + 1, hlo, BitVec.eq_of_toNat_eq he.symm⟩)
  have hfind : tree.keys.findIdx? (fun k => subjectKey keccak256 ns target < k) = some (lo + 1) := by
    rw [List.findIdx?_eq_some_iff_getElem]
    refine ⟨hlo, ?_, fun j hj => ?_⟩
    · rw [List.getD_eq_getElem _ _ hlo] at h2'
      simpa using h2'
    · have hle : tree.keys.getD j 0 ≤ tree.keys.getD lo 0 := by
        rcases Nat.lt_or_ge j lo with h | h
        · exact BitVec.le_of_lt (hb.key_lt h (by omega))
        · rw [show j = lo by omega]
          exact BitVec.le_refl _
      rw [List.getD_eq_getElem _ _ (by omega : j < tree.keys.length)] at hle
      rw [BitVec.le_def] at hle
      rw [BitVec.lt_def] at h1
      simp only [decide_eq_true_eq, BitVec.not_lt, BitVec.le_def]
      omega
  have hleft := hb.inclusionProof (hb.safe_index (i := lo) (by omega)).1
  have hright := hb.inclusionProof (hb.safe_index hlo).1
  refine ⟨gapAt keccak256 tree lo, ?_, hb.gap_verifies_local hlo h1 h2'⟩
  rw [nonInclusionProof]
  simp only [revertIf_of_not hk, hfind, ok_bind, orRevert,
    revertIf_of_not (Nat.succ_ne_zero lo), Nat.add_sub_cancel, hleft, hright]
  rfl

end Roster.Built

/-! ## Bundles -/

/-- What a loaded bundle proves of a subject. -/
structure BundleProves (keccak256 : Bytes → Bytes32) (l : LoadedBundle) (subject : Address) :
    Prop where
  listed : subject ∈ l.bundle.entries.map (·.subject) →
    ∃ e ∈ l.bundle.entries, e.subject = subject ∧ ∃ proof,
      l.proof keccak256 subject =
        .ok (.inclusion subject ⟨e.attrs, e.claimsRoot, e.evidenceHash, e.issuer⟩ proof) ∧
      RosterProof.verifyInclusion keccak256 l.bundle.root
        (Roster.rosterLeaf keccak256 Roster.EVM_NAMESPACE e) proof.toInclusion = true
  absent : subject ∉ l.bundle.entries.map (·.subject) →
    ∃ proof, l.proof keccak256 subject = .ok (.nonInclusion subject proof) ∧
      RosterProof.verifyNonInclusion keccak256 l.bundle.root
        (Roster.subjectKey keccak256 Roster.EVM_NAMESPACE subject) proof.toNonInclusion = true ∧
      Roster.verifyNonInclusion keccak256 Roster.EVM_NAMESPACE l.bundle.root subject proof = true

section
variable {keccak256 sha256 : Bytes → Bytes32} {decode : Bytes → Option RosterBundle}
  {l : LoadedBundle} {bytes : Bytes} {expectedContentHash : Bytes32}

theorem loadRosterBundle_ok
    (h : RosterBundle.loadRosterBundle keccak256 sha256 decode bytes expectedContentHash = .ok l) :
    Roster.Built keccak256 Roster.EVM_NAMESPACE l.tree ∧ l.tree.entries.Perm l.bundle.entries ∧
      l.tree.root = l.bundle.root := by
  simp only [RosterBundle.loadRosterBundle, bind_ok, revertIf_ok, orRevert_ok, mapError_ok, pure_ok,
    not_not] at h
  obtain ⟨_, -, value, -, bundle, -, tree, htree, _, hroot, rfl⟩ := h
  obtain ⟨hb, hperm⟩ := Roster.built_of_buildRoster htree
  exact ⟨hb, hperm, hroot⟩

/-- The inner keys are those of the entries. -/
theorem Roster.Built.key_entry {ns : Bytes} {tree : RosterTree} (hb : Roster.Built keccak256 ns tree)
    {i : ℕ} {e : RosterEntry} (he : tree.entries[i]? = some e) :
    tree.keys.getD (i + 1) 0 = Roster.subjectKey keccak256 ns e.subject ∧
      tree.marks.getD (i + 1) 0 = Roster.markHash keccak256 e := by
  have hi : i < tree.entries.length := (List.getElem?_eq_some_iff.1 he).1
  constructor
  · rw [hb.keys, List.cons_append, List.getD_cons_succ,
      List.getD_append _ _ _ _ (by simpa using hi), List.getD_eq_getElem?_getD,
      List.getElem?_map, he]
    rfl
  · rw [hb.marks, List.cons_append, List.getD_cons_succ,
      List.getD_append _ _ _ _ (by simpa using hi), List.getD_eq_getElem?_getD,
      List.getElem?_map, he]
    rfl

/-- **A loaded bundle proves every subject.** -/
theorem bundleProves_of_load {subject : Address}
    (h : RosterBundle.loadRosterBundle keccak256 sha256 decode bytes expectedContentHash = .ok l)
    (hsubject : subject ≠ 0)
    (hno : NoCollision keccak256 ((subject :: l.bundle.entries.map (·.subject)).map
      (RosterProof.encodeSubject Roster.EVM_NAMESPACE)))
    (hmin : Roster.subjectKey keccak256 Roster.EVM_NAMESPACE subject ≠ Roster.MIN_KEY)
    (hmax : Roster.subjectKey keccak256 Roster.EVM_NAMESPACE subject ≠ Roster.MAX_KEY) :
    BundleProves keccak256 l subject := by
  obtain ⟨hb, hperm, hroot⟩ := loadRosterBundle_ok h
  obtain ⟨lo, hsearch, hlo, h1, h2⟩ := hb.search (Roster.min_lt hmin) (Roster.lt_max hmax)
  have hleft := hb.inclusionProof (hb.safe_index (i := lo) (by omega)).1
  have hright := hb.inclusionProof (hb.safe_index hlo).1
  have hsame (e : RosterEntry) (he : e ∈ l.bundle.entries)
      (hk : Roster.subjectKey keccak256 Roster.EVM_NAMESPACE e.subject =
        Roster.subjectKey keccak256 Roster.EVM_NAMESPACE subject) : e.subject = subject := by
    refine Roster.encodeSubject_injective (hno _ ?_ _ ?_ hk)
    · exact List.mem_map_of_mem (List.mem_cons_of_mem _ (List.mem_map_of_mem he))
    · exact List.mem_map_of_mem List.mem_cons_self
  constructor
  · intro hlisted
    obtain ⟨e, he, rfl⟩ := List.mem_map.1 hlisted
    obtain ⟨i, hi⟩ := List.mem_iff_getElem?.1 (hperm.mem_iff.2 he)
    obtain ⟨hkey, hmark⟩ := hb.key_entry hi
    have hlen := hb.length_keys
    have hlt : i < l.tree.entries.length := (List.getElem?_eq_some_iff.1 hi).1
    have hilo : i = lo := by
      rcases Nat.lt_trichotomy i lo with h | h | h
      · have hle : l.tree.keys.getD (i + 1) 0 ≤ l.tree.keys.getD lo 0 := by
          rcases Nat.lt_or_ge (i + 1) lo with h' | h'
          · exact BitVec.le_of_lt (hb.key_lt h' (by omega))
          · rw [show i + 1 = lo by omega]
            exact BitVec.le_refl _
        rw [hkey] at hle
        exact absurd h1 (BitVec.not_lt.2 hle)
      · exact h
      · have hgt := hb.key_lt (i := lo + 1) (j := i + 1) (by omega) (by omega)
        rw [hkey] at hgt
        exact absurd hgt (BitVec.not_lt.2 h2)
    subst hilo
    refine ⟨e, he, rfl, Roster.proofAt keccak256 l.tree (i + 1), ?_, ?_⟩
    · rw [LoadedBundle.proof, revertIf_of_not hsubject, ok_bind]
      simp only [hsearch, hkey, ne_eq, not_true, if_false, Nat.add_sub_cancel, hi, orRevert, ok_bind,
        Roster.leafIndexOf, hright, Except.mapError]
      rfl
    · have hver := hb.verifies (hb.leaf_at (i := i + 1) (by omega))
      rwa [hkey, hmark, hroot] at hver
  · intro habsent
    have hne : l.tree.keys.getD (lo + 1) 0 ≠
        Roster.subjectKey keccak256 Roster.EVM_NAMESPACE subject := by
      intro heq
      have hlen := hb.length_keys
      have hlt : lo < l.tree.entries.length := by
        by_contra hge
        have hlast := hb.key_last
        rw [show l.tree.keys.length - 1 = lo + 1 by omega, heq] at hlast
        exact hmax hlast
      have hget := List.getElem?_eq_getElem hlt
      have hmem : l.tree.entries[lo] ∈ l.bundle.entries :=
        hperm.mem_iff.1 (List.getElem_mem hlt)
      have hsub := hsame _ hmem ((hb.key_entry hget).1.symm.trans heq)
      exact habsent (hsub ▸ List.mem_map_of_mem hmem)
    have h2' : Roster.subjectKey keccak256 Roster.EVM_NAMESPACE subject <
        l.tree.keys.getD (lo + 1) 0 := by
      rw [BitVec.lt_def]
      rw [BitVec.le_def] at h2
      exact h2.lt_of_ne fun he => hne (BitVec.eq_of_toNat_eq he.symm)
    refine ⟨Roster.gapAt keccak256 l.tree lo, ?_, ?_, ?_⟩
    · rw [LoadedBundle.proof, revertIf_of_not hsubject, ok_bind]
      simp only [hsearch, ne_eq, hne, not_false_eq_true, if_true, Nat.add_sub_cancel, hleft, hright,
        Except.mapError, ok_bind]
      rfl
    · rw [← hroot]
      exact hb.gap_verifies hlo h1 h2'
    · rw [← hroot]
      exact hb.gap_verifies_local hlo h1 h2'

end

/-! ## Non-membership -/

/-- Non-membership in a built tree. -/
structure NonMembership (keccak256 : Bytes → Bytes32) (ns : Bytes) (tree : RosterTree) : Prop where
  sound : ∀ k p, NoCollision keccak256
      (Roster.treeHashed keccak256 tree ++ RosterProof.nonInclusionHashed keccak256 p) →
    RosterProof.verifyNonInclusion keccak256 tree.root k p = true →
    Roster.MIN_KEY < k ∧ k < Roster.MAX_KEY ∧ k ∉ tree.keys
  complete : ∀ k, Roster.MIN_KEY < k → k < Roster.MAX_KEY → k ∉ tree.keys →
    ∃ p, RosterProof.verifyNonInclusion keccak256 tree.root k p = true
  exclusive : ∀ k mark p q, NoCollision keccak256
      (Roster.treeHashed keccak256 tree ++ Roster.leafBytes k mark ::
        RosterProof.inclusionHashed keccak256 (RosterProof.leafOf keccak256 k mark) p ++
        RosterProof.nonInclusionHashed keccak256 q) →
    ¬ (RosterProof.verifyInclusion keccak256 tree.root (RosterProof.leafOf keccak256 k mark) p =
        true ∧
      RosterProof.verifyNonInclusion keccak256 tree.root k q = true)
  handed : ∀ target, Roster.MIN_KEY < Roster.subjectKey keccak256 ns target →
    Roster.subjectKey keccak256 ns target < Roster.MAX_KEY →
    Roster.subjectKey keccak256 ns target ∉ tree.keys →
    ∃ proof, Roster.nonInclusionProof keccak256 ns tree target = .ok proof ∧
      Roster.verifyNonInclusion keccak256 ns tree.root target proof = true

/-- **Non-membership is sound, complete and exclusive**, and a loaded bundle proves every
    subject whose key is not that of a sentinel. -/
theorem roster_non_membership (keccak256 : Bytes → Bytes32) :
    (∀ ns entries tree, Roster.buildRoster keccak256 ns entries = .ok tree →
      NonMembership keccak256 ns tree) ∧
    ∀ sha256 decode bytes expectedContentHash l,
      RosterBundle.loadRosterBundle keccak256 sha256 decode bytes expectedContentHash = .ok l →
      ∀ subject, subject ≠ 0 →
        NoCollision keccak256 ((subject :: l.bundle.entries.map (·.subject)).map
          (RosterProof.encodeSubject Roster.EVM_NAMESPACE)) →
        Roster.subjectKey keccak256 Roster.EVM_NAMESPACE subject ≠ Roster.MIN_KEY →
        Roster.subjectKey keccak256 Roster.EVM_NAMESPACE subject ≠ Roster.MAX_KEY →
        BundleProves keccak256 l subject := by
  refine ⟨fun ns entries tree htree => ?_, fun _ _ _ _ l h subject h1 h2 h3 h4 =>
    bundleProves_of_load h h1 h2 h3 h4⟩
  have hb := (Roster.built_of_buildRoster htree).1
  refine ⟨fun k p => hb.gap_of_verified, fun k hmin hmax hk => ?_, ?_, fun target =>
    hb.nonInclusionProof_ok⟩
  · obtain ⟨lo, -, hlo, h1, h2⟩ := hb.search hmin hmax
    refine ⟨_, hb.gap_verifies hlo h1 ?_⟩
    rw [BitVec.lt_def]
    rw [BitVec.le_def] at h2
    exact h2.lt_of_ne fun he =>
      hk (Roster.Built.mem_keys.2 ⟨lo + 1, hlo, BitVec.eq_of_toNat_eq he.symm⟩)
  · rintro k mark p q hno ⟨hin, hout⟩
    have hout' := hb.gap_of_verified (hno.mono fun x hx => by
      rcases List.mem_append.1 hx with hx | hx <;> simp [hx]) hout
    obtain ⟨hi, hk⟩ := hb.key_of_verified hno (fun x hx => by simp [hx]) (by simp)
      (fun x hx => by simp [hx]) hin
    exact hout'.2.2 (Roster.Built.mem_keys.2 ⟨_, hi, hk⟩)

namespace OneEntry

def bundle : RosterBundle := {
  bundleVersion := 1, rosterFormatVersion := 2, epochSchemaVersion := 2, rosterAuthVersion := 1
  scope := ⟨11155111, 1, 102031, 80, 81, 82⟩, epoch := 1, root := tree.root, listVersion := 1
  sourceCutoff := 2500, publishedAt := 3000, validUntil := 9000, snapshotId := 5
  approvedIssuers := [3], entries := [entry] }

theorem load : RosterBundle.loadRosterBundle keccak256 (fun _ => 6) (fun _ => some bundle) [0x7b] 6 =
    .ok ⟨bundle, tree, 6⟩ := by
  decide +kernel

end OneEntry

theorem roster_non_membership_entry :
    NonMembership OneEntry.keccak256 Roster.EVM_NAMESPACE OneEntry.tree ∧
      BundleProves OneEntry.keccak256 ⟨OneEntry.bundle, OneEntry.tree, 6⟩ 7 :=
  ⟨(roster_non_membership OneEntry.keccak256).1 _ _ _ OneEntry.build,
    (roster_non_membership OneEntry.keccak256).2 _ _ _ _ _ OneEntry.load 7 (by decide)
      (by decide +kernel) (by decide +kernel) (by decide +kernel)⟩

end Proofmark
