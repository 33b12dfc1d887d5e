/-
  Selective disclosure of claims (src/pipeline/claims.ts, merkle.ts).

  A proof lists the siblings on the way to the root, and a node without one is carried up.
  The preimage of a leaf is longer than the one of an inner node.

  `disclosure_sound_complete`: the disclosure of every claim is accepted, and only claims are.
-/
import Proofmark.Pipeline.Evidence
import Proofmark.Lib.Revert
import Proofmark.Roster.Inclusion

namespace Proofmark

open Words Revert

/-! ## Texts -/

theorem byteArray_toList_loop (bs : ByteArray) (i : ℕ) (r : List UInt8) :
    ByteArray.toList.loop bs i r = r.reverse ++ bs.data.toList.drop i := by
  induction hn : bs.size - i generalizing i r with
  | zero =>
    have hsize : bs.data.toList.length ≤ i := by
      rw [Array.length_toList]
      exact Nat.sub_eq_zero_iff_le.1 hn
    rw [ByteArray.toList.loop, if_neg (by omega), List.drop_eq_nil_of_le hsize, List.append_nil]
  | succ n ih =>
    have hlt : i < bs.size := by omega
    have hlt' : i < bs.data.toList.length := by
      rw [Array.length_toList]
      exact hlt
    have hget : bs.get! i = bs.data.toList[i] := by
      have hdata : bs.get! i = bs.data[i]! := rfl
      rw [hdata, Array.getElem_toList, getElem!_pos bs.data i hlt]
    rw [ByteArray.toList.loop, if_pos hlt, ih (i + 1) _ (by omega), List.reverse_cons,
      List.append_assoc, hget, List.singleton_append, ← List.drop_eq_getElem_cons hlt']

theorem utf8_injective : Function.Injective utf8 := by
  intro s t h
  have hbytes : s.toUTF8.toList = t.toUTF8.toList :=
    List.map_injective_iff.2 (fun a b => UInt8.toBitVec_inj.1) h
  rw [ByteArray.toList, ByteArray.toList, byteArray_toList_loop, byteArray_toList_loop] at hbytes
  rw [← String.toByteArray_inj]
  have hdata := Array.toList_inj.1 (by simpa using hbytes)
  exact ByteArray.ext hdata

/-- A string that the language can hold. -/
def Fits (s : String) : Prop := (utf8 s).length ≤ MAX_SAFE_INTEGER

instance (s : String) : Decidable (Fits s) :=
  inferInstanceAs (Decidable ((utf8 s).length ≤ MAX_SAFE_INTEGER))

theorem toBytes_inj {n x y : ℕ} (hx : x < 256 ^ n) (hy : y < 256 ^ n)
    (h : toBytes n x = toBytes n y) : x = y := by
  have ho := congrArg ofBytes h
  rwa [ofBytes_toBytes, ofBytes_toBytes, Nat.mod_eq_of_lt hx, Nat.mod_eq_of_lt hy] at ho

namespace Claims

theorem safe_lt {n : ℕ} (h : n ≤ MAX_SAFE_INTEGER) : n < 256 ^ 32 := by
  rw [MAX_SAFE_INTEGER] at h
  exact lt_of_le_of_lt h (by norm_num)

/-- The encoding of a string tells where it ends. -/
theorem abiString_append_inj {s t : String} {r r' : Bytes} (hs : Fits s) (ht : Fits t)
    (h : abiString s ++ r = abiString t ++ r') : s = t ∧ r = r' := by
  rw [abiString, abiString] at h
  simp only [List.append_assoc] at h
  obtain ⟨hlen, h⟩ := List.append_inj h (by simp)
  have hlen := toBytes_inj (safe_lt hs) (safe_lt ht) hlen
  obtain ⟨hbytes, h⟩ := List.append_inj h hlen
  rw [hlen] at h
  exact ⟨utf8_injective hbytes, List.append_cancel_left h⟩

/-- What is hashed into the leaf of a claim. -/
def leafBytes (c : Claim) : Bytes :=
  abiEncode [96, BitVec.ofNat 256 (96 + (abiString c.key).length), c.salt] ++
    abiString c.key ++ abiString c.value

theorem leafBytes_inj {c c' : Claim} (hk : Fits c.key) (hk' : Fits c'.key) (hv : Fits c.value)
    (hv' : Fits c'.value) (h : leafBytes c = leafBytes c') : c = c' := by
  rw [leafBytes, leafBytes, List.append_assoc, List.append_assoc] at h
  obtain ⟨hhead, h⟩ := List.append_inj h (by simp)
  have hsalt := abiEncode_injective hhead
  simp only [List.cons.injEq, true_and, and_true] at hsalt
  obtain ⟨hkey, h⟩ := abiString_append_inj hk hk' h
  have hvalue := (@abiString_append_inj _ _ [] [] hv hv' (by simpa using h)).1
  obtain ⟨key, value, salt⟩ := c
  obtain ⟨key', value', salt'⟩ := c'
  rw [Claim.mk.injEq]
  exact ⟨hkey, hvalue, hsalt.2⟩

/-- What is hashed into an inner node. -/
def pairBytes (a b : Bytes32) : Bytes :=
  if a.toNat ≤ b.toNat then abiEncode [a, b] else abiEncode [b, a]

theorem length_pairBytes (a b : Bytes32) : (pairBytes a b).length = 64 := by
  rw [pairBytes]
  split_ifs <;> rw [length_abiEncode] <;> rfl

theorem length_leafBytes (c : Claim) : 64 < (leafBytes c).length := by
  rw [leafBytes, List.length_append, List.length_append, length_abiEncode]
  simp only [List.length_cons, List.length_nil]
  omega

/-- An inner node has two children, in whichever order. -/
theorem pairBytes_inj {a b c d : Bytes32} (h : pairBytes a b = pairBytes c d) :
    a = c ∧ b = d ∨ a = d ∧ b = c := by
  rw [pairBytes, pairBytes] at h
  split_ifs at h <;>
  · have hw := abiEncode_injective h
    simp only [List.cons.injEq, and_true] at hw
    tauto

variable (keccak256 : Bytes → Bytes32)

theorem leaf_eq (c : Claim) : leaf keccak256 c = keccak256 (leafBytes c) := rfl

theorem hashPair_eq (a b : Bytes32) : hashPair keccak256 a b = keccak256 (pairBytes a b) := by
  rw [hashPair, pairBytes]
  split_ifs <;> rfl

theorem hashPair_comm (a b : Bytes32) : hashPair keccak256 a b = hashPair keccak256 b a := by
  rw [hashPair, hashPair]
  split_ifs with h h'
  · rw [BitVec.eq_of_toNat_eq (Nat.le_antisymm h h')]
  · rfl
  · rfl
  · omega

/-! ## Proofs -/

/-- The siblings from a place of a level up to the root. -/
def proofFrom : ℕ → List Bytes32 → ℕ → List Bytes32
  | 0, _, _ => []
  | n + 1, l, idx =>
    if l.length ≤ 1 then []
    else (l[if idx % 2 = 0 then idx + 1 else idx - 1]?).toList ++
      proofFrom n (nextLevel keccak256 l) (idx / 2)

inductive ClaimsError where
  | leafNotFound
  | noClaim (key : String)
deriving DecidableEq

def merkleProof (leaves : List Bytes32) (target : Bytes32) :
    Except ClaimsError (List Bytes32) := do
  let level := sortLeaves leaves
  revertIf (level.contains target = false) .leafNotFound
  pure (proofFrom keccak256 level.length level (level.idxOf target))

def verifyProof (root target : Bytes32) (proof : List Bytes32) : Bool :=
  proof.foldl (hashPair keccak256) target == root

def discloseClaim (claims : List Claim) (key : String) :
    Except ClaimsError (Claim × List Bytes32) := do
  let claim ← orRevert (claims.find? fun c => c.key == key) (.noClaim key)
  let proof ← merkleProof keccak256 (claims.map (leaf keccak256)) (leaf keccak256 claim)
  pure (claim, proof)

def verifyDisclosure (root : Bytes32) (claim : Claim) (proof : List Bytes32) : Bool :=
  verifyProof keccak256 root (leaf keccak256 claim) proof

/-! ## Completeness -/

/-- A node above a pair or a single node. -/
theorem getElem?_nextLevel (l : List Bytes32) (k : ℕ) :
    (nextLevel keccak256 l)[k]? = match l[2 * k]?, l[2 * k + 1]? with
      | some a, some b => some (hashPair keccak256 a b)
      | some a, none => some a
      | none, _ => none := by
  fun_induction nextLevel keccak256 l generalizing k with
  | case1 => simp
  | case2 a =>
    cases k with
    | zero => simp
    | succ k => simp
  | case3 a b l ih =>
    cases k with
    | zero => simp
    | succ k =>
      have hk : 2 * (k + 1) = 2 * k + 1 + 1 := by omega
      rw [List.getElem?_cons_succ, ih, hk]
      rfl

/-- The first step of a proof leads to the node above. -/
theorem climb_step {l : List Bytes32} {idx : ℕ} {a : Bytes32} (h : l[idx]? = some a) :
    (nextLevel keccak256 l)[idx / 2]? = some
      ((l[if idx % 2 = 0 then idx + 1 else idx - 1]?).toList.foldl (hashPair keccak256) a) := by
  rw [getElem?_nextLevel]
  rcases Nat.mod_two_eq_zero_or_one idx with hmod | hmod
  · have hidx : 2 * (idx / 2) = idx := by omega
    rw [hidx, if_pos hmod, h]
    cases l[idx + 1]? <;> rfl
  · have hidx : 2 * (idx / 2) = idx - 1 := by omega
    have hidx' : idx - 1 + 1 = idx := by omega
    have hlt : idx - 1 < l.length := by
      have := (List.getElem?_eq_some_iff.1 h).1
      omega
    rw [hidx, hidx', if_neg (by omega), h, List.getElem?_eq_getElem hlt]
    exact congrArg some (hashPair_comm keccak256 _ _)

/-- **The proof leads to the root.** -/
theorem foldl_proofFrom {n : ℕ} {l : List Bytes32} {idx : ℕ} {a : Bytes32} (hn : l.length ≤ n)
    (h : l[idx]? = some a) :
    (proofFrom keccak256 n l idx).foldl (hashPair keccak256) a = rootFrom keccak256 n l := by
  induction n generalizing l idx a with
  | zero =>
    have hnil : l = [] := List.length_eq_zero_iff.1 (by omega)
    rw [hnil] at h
    cases h
  | succ n ih =>
    rw [proofFrom]
    have hidx := (List.getElem?_eq_some_iff.1 h).1
    by_cases hone : l.length ≤ 1
    · rw [if_pos hone]
      obtain ⟨b, rfl⟩ := List.length_eq_one_iff.1 (show l.length = 1 by omega)
      have h0 : idx = 0 := by simpa using hidx
      subst h0
      cases h
      rfl
    · have hlen := length_nextLevel keccak256 l
      have hroot : rootFrom keccak256 (n + 1) l = rootFrom keccak256 n (nextLevel keccak256 l) := by
        rcases l with _ | ⟨x, _ | ⟨y, l⟩⟩
        · simp at hone
        · simp at hone
        · rfl
      rw [if_neg hone, List.foldl_append, hroot]
      exact ih (by omega) (climb_step keccak256 h)

theorem mem_sortLeaves {leaves : List Bytes32} {a : Bytes32} :
    a ∈ sortLeaves leaves ↔ a ∈ leaves := (List.perm_insertionSort _ _).mem_iff

/-- The disclosure of a claim, found by its key. -/
theorem discloseClaim_of_mem {claims : List Claim} (hkeys : (claims.map Claim.key).Nodup)
    {c : Claim} (hc : c ∈ claims) : ∃ proof, discloseClaim keccak256 claims c.key = .ok (c, proof) ∧
      verifyDisclosure keccak256 (claimsRoot keccak256 claims) c proof = true := by
  have hfind : claims.find? (fun d => d.key == c.key) = some c := by
    cases hf : claims.find? (fun d => d.key == c.key) with
    | none => simpa using List.find?_eq_none.1 hf c hc
    | some d =>
      have hkey : d.key = c.key := by simpa using List.find?_some hf
      rw [List.inj_on_of_nodup_map hkeys (List.mem_of_find?_eq_some hf) hc hkey]
  have hmem : leaf keccak256 c ∈ sortLeaves (claims.map (leaf keccak256)) :=
    mem_sortLeaves.2 (List.mem_map_of_mem hc)
  have hlen : (sortLeaves (claims.map (leaf keccak256))).length =
      (claims.map (leaf keccak256)).length := List.length_insertionSort _ _
  let level := sortLeaves (claims.map (leaf keccak256))
  refine ⟨proofFrom keccak256 level.length level (level.idxOf (leaf keccak256 c)), ?_, ?_⟩
  · have hcontains : ¬ (sortLeaves (claims.map (leaf keccak256))).contains
        (leaf keccak256 c) = false := by
      rw [List.contains_iff_mem.2 hmem]
      exact Bool.noConfusion
    rw [discloseClaim, hfind, orRevert, ok_bind, merkleProof, revertIf_of_not hcontains]
    rfl
  · rw [verifyDisclosure, verifyProof, beq_iff_eq, claimsRoot, merkleRoot, ← hlen]
    exact foldl_proofFrom keccak256 (le_refl _)
      (List.getElem?_eq_some_iff.2 ⟨List.idxOf_lt_length_iff.2 hmem, List.getElem_idxOf _⟩)

/-! ## Soundness -/

/-- The nodes of the levels from `l` up. -/
def nodesFrom : ℕ → List Bytes32 → List Bytes32
  | 0, l => l
  | n + 1, l => l ++ nodesFrom n (nextLevel keccak256 l)

/-- What is hashed into the next level. -/
def levelHashed : List Bytes32 → List Bytes
  | a :: b :: l => pairBytes a b :: levelHashed l
  | _ => []

def nodesHashed : ℕ → List Bytes32 → List Bytes
  | 0, _ => []
  | n + 1, l => levelHashed l ++ nodesHashed n (nextLevel keccak256 l)

/-- What `claimsRoot` hashes. -/
def rootHashed (claims : List Claim) : List Bytes :=
  claims.map leafBytes ++
    nodesHashed keccak256 claims.length (sortLeaves (claims.map (leaf keccak256)))

/-- What a proof hashes on its way from a node. -/
def climbHashed : Bytes32 → List Bytes32 → List Bytes
  | _, [] => []
  | a, p :: proof => pairBytes a p :: climbHashed (hashPair keccak256 a p) proof

/-- What `verifyDisclosure` hashes. -/
def disclosureHashed (claim : Claim) (proof : List Bytes32) : List Bytes :=
  leafBytes claim :: climbHashed keccak256 (leaf keccak256 claim) proof

section
variable {keccak256}

theorem mem_nextLevel {l : List Bytes32} {x : Bytes32} (h : x ∈ nextLevel keccak256 l) :
    x ∈ l ∨ ∃ a ∈ l, ∃ b ∈ l, pairBytes a b ∈ levelHashed l ∧ x = hashPair keccak256 a b := by
  fun_induction nextLevel keccak256 l with
  | case1 => cases h
  | case2 a => exact .inl h
  | case3 a b l ih =>
    rcases List.mem_cons.1 h with rfl | h
    · exact .inr ⟨a, by simp, b, by simp, by simp [levelHashed], rfl⟩
    · rcases ih h with h | ⟨c, hc, d, hd, hp, rfl⟩
      · exact .inl (by simp [h])
      · exact .inr ⟨c, by simp [hc], d, by simp [hd], by simp [levelHashed, hp], rfl⟩

/-- **A node is one of the lowest level or has two nodes below it.** -/
theorem node_cases {n : ℕ} {l : List Bytes32} {x : Bytes32} (h : x ∈ nodesFrom keccak256 n l) :
    x ∈ l ∨ ∃ a ∈ nodesFrom keccak256 n l, ∃ b ∈ nodesFrom keccak256 n l,
      pairBytes a b ∈ nodesHashed keccak256 n l ∧ x = hashPair keccak256 a b := by
  induction n generalizing l with
  | zero => exact .inl h
  | succ n ih =>
    rcases List.mem_append.1 h with h | h
    · exact .inl h
    rcases ih h with h | ⟨a, ha, b, hb, hp, rfl⟩
    · rcases mem_nextLevel h with h | ⟨a, ha, b, hb, hp, rfl⟩
      · exact .inl h
      · exact .inr ⟨a, List.mem_append_left _ ha, b, List.mem_append_left _ hb,
          List.mem_append_left _ hp, rfl⟩
    · exact .inr ⟨a, List.mem_append_right _ ha, b, List.mem_append_right _ hb,
        List.mem_append_right _ hp, rfl⟩

theorem rootFrom_mem {n : ℕ} {l : List Bytes32} (hl : l ≠ []) :
    rootFrom keccak256 n l ∈ nodesFrom keccak256 n l := by
  induction n generalizing l with
  | zero =>
    rcases l with _ | ⟨a, _ | ⟨b, l⟩⟩
    · exact absurd rfl hl
    · exact List.mem_singleton_self a
    · exact List.mem_cons_self
  | succ n ih =>
    rcases l with _ | ⟨a, _ | ⟨b, l⟩⟩
    · exact absurd rfl hl
    · exact List.mem_append_left _ (List.mem_singleton_self a)
    · exact List.mem_append_right _ (ih (by simp [nextLevel]))

variable {claims : List Claim} {n : ℕ} {l : List Bytes32} {L : List Bytes}

/-- **A proof that ends in a node starts in one**, as no pair hashes like a leaf. -/
theorem node_of_climb (hno : NoCollision keccak256 L) (hclaims : ∀ c ∈ claims, leafBytes c ∈ L)
    (hl : ∀ x ∈ l, ∃ c ∈ claims, x = leaf keccak256 c)
    (hnodes : ∀ b ∈ nodesHashed keccak256 n l, b ∈ L) {x : Bytes32} {proof : List Bytes32}
    (hproof : ∀ b ∈ climbHashed keccak256 x proof, b ∈ L)
    (h : proof.foldl (hashPair keccak256) x ∈ nodesFrom keccak256 n l) :
    x ∈ nodesFrom keccak256 n l := by
  induction proof generalizing x with
  | nil => exact h
  | cons p proof ih =>
    have hnode := ih (fun b hb => hproof b (List.mem_cons_of_mem _ hb)) h
    have hpair : pairBytes x p ∈ L := hproof _ List.mem_cons_self
    rcases node_cases hnode with hleaf | ⟨a, ha, b, hb, hp, heq⟩
    · obtain ⟨c, hc, heq⟩ := hl _ hleaf
      rw [hashPair_eq, leaf_eq] at heq
      have hbytes := congrArg List.length (hno _ hpair _ (hclaims c hc) heq)
      rw [length_pairBytes] at hbytes
      exact absurd hbytes (Nat.ne_of_lt (length_leafBytes c))
    · rw [hashPair_eq, hashPair_eq] at heq
      rcases pairBytes_inj (hno _ hpair _ (hnodes _ hp) heq) with ⟨rfl, -⟩ | ⟨rfl, -⟩
      · exact ha
      · exact hb

/-- **Only a claim is disclosed.** -/
theorem mem_of_verifyDisclosure (hne : claims ≠ []) {c : Claim} {proof : List Bytes32}
    (hno : NoCollision keccak256
      (rootHashed keccak256 claims ++ disclosureHashed keccak256 c proof))
    (hfits : ∀ d ∈ c :: claims, Fits d.key ∧ Fits d.value)
    (h : verifyDisclosure keccak256 (claimsRoot keccak256 claims) c proof = true) :
    c ∈ claims := by
  rw [verifyDisclosure, verifyProof, beq_iff_eq] at h
  have hlen : (claims.map (leaf keccak256)).length = claims.length := List.length_map _
  have hleaves : ∀ d ∈ claims, leafBytes d ∈
      rootHashed keccak256 claims ++ disclosureHashed keccak256 c proof := fun d hd =>
    List.mem_append_left _ (List.mem_append_left _ (List.mem_map_of_mem hd))
  have hself : leafBytes c ∈ rootHashed keccak256 claims ++ disclosureHashed keccak256 c proof :=
    List.mem_append_right _ List.mem_cons_self
  have hl : ∀ x ∈ sortLeaves (claims.map (leaf keccak256)), ∃ d ∈ claims,
      x = leaf keccak256 d := by
    intro x hx
    obtain ⟨d, hd, rfl⟩ := List.mem_map.1 (mem_sortLeaves.1 hx)
    exact ⟨d, hd, rfl⟩
  have hnonempty : sortLeaves (claims.map (leaf keccak256)) ≠ [] := by
    intro hnil
    have hz := congrArg List.length hnil
    rw [sortLeaves, List.length_insertionSort, hlen] at hz
    exact hne (List.length_eq_zero_iff.1 hz)
  have hroot : proof.foldl (hashPair keccak256) (leaf keccak256 c) ∈
      nodesFrom keccak256 claims.length (sortLeaves (claims.map (leaf keccak256))) := by
    rw [h, claimsRoot, merkleRoot, hlen]
    exact rootFrom_mem hnonempty
  have hnode := node_of_climb hno hleaves hl
    (fun b hb => List.mem_append_left _ (List.mem_append_right _ hb))
    (fun b hb => List.mem_append_right _ (List.mem_cons_of_mem _ hb)) hroot
  rcases node_cases hnode with hleaf | ⟨a, -, b, -, hp, heq⟩
  · obtain ⟨d, hd, heq⟩ := hl _ hleaf
    rw [leaf_eq, leaf_eq] at heq
    have hbytes := hno _ hself _ (hleaves d hd) heq
    obtain ⟨hck, hcv⟩ := hfits c List.mem_cons_self
    obtain ⟨hdk, hdv⟩ := hfits d (List.mem_cons_of_mem _ hd)
    rwa [leafBytes_inj hck hdk hcv hdv hbytes]
  · rw [leaf_eq, hashPair_eq] at heq
    have hbytes := congrArg List.length (hno _ hself _
      (List.mem_append_left _ (List.mem_append_right _ hp)) heq)
    rw [length_pairBytes] at hbytes
    exact absurd hbytes (Nat.ne_of_gt (length_leafBytes c))

end

namespace Three

def claims : List Claim := [⟨"dob", "1990-01-02", 5⟩, ⟨"fullName", "Kim", 6⟩, ⟨"idDocHash", "", 7⟩]

def polyHash (bs : Bytes) : Bytes32 :=
  BitVec.ofNat 256 (bs.foldl (fun n b => 257 * n + b.toNat + 1) 1)

def opening : Claim × List Bytes32 :=
  (value? (discloseClaim polyHash claims "dob")).getD (⟨"", "", 0⟩, [])

theorem noCollision : NoCollision polyHash
    (rootHashed polyHash claims ++ disclosureHashed polyHash opening.1 opening.2) := by
  decide +kernel

end Three

end Claims

end Proofmark
