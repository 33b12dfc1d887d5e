/-
  The query identity on both sides.

  `queryMemory_bytes` reads the 72 bytes that the hub contract assembles, which are those that
  the worker concatenates; `ProcessedInv` says that nothing but an accepted receipt is marked
  as processed.
-/
import Proofmark.Hub.Runs
import Proofmark.Hub.ReceiptFixture
import Proofmark.Worker.Proof

namespace Proofmark

open Words Revert Function

/-! ## The preimage -/

theorem getD_toBytes {n k : ℕ} (x : ℕ) (h : k < n) :
    (toBytes n x).getD k 0 = BitVec.ofNat 8 (x / 256 ^ (n - 1 - k)) := by
  induction n generalizing k with
  | zero => omega
  | succ n ih =>
    cases k with
    | zero => simp [toBytes]
    | succ k =>
      have hk : n + 1 - 1 - (k + 1) = n - 1 - k := by omega
      rw [toBytes, List.getD_cons_succ, ih (by omega), hk]

/-- A word is 32 bytes. -/
theorem mstore_of_mem (m : ℕ → Byte) {p k : ℕ} (w : U256) (h : p ≤ k ∧ k < p + 32) :
    ProofmarkASC.mstore m p w k = BitVec.ofNat 8 (w.toNat / 256 ^ (31 - (k - p))) := by
  have hk : k - p < 32 := by omega
  rw [ProofmarkASC.mstore, if_pos h, getD_toBytes _ hk]

theorem mstore_of_not_mem (m : ℕ → Byte) {p k : ℕ} (w : U256) (h : ¬ (p ≤ k ∧ k < p + 32)) :
    ProofmarkASC.mstore m p w k = m k := by
  rw [ProofmarkASC.mstore, if_neg h]

/-- The bytes that the hub contract hashes. -/
def ProofmarkASC.queryPreimage (chainKey blockHeight txIndex : U64) : Bytes :=
  (List.range 72).map (ProofmarkASC.queryMemory chainKey blockHeight txIndex)

theorem toNat_height_word (height : U64) : (toWord height <<< 192).toNat = height.toNat * 256 ^ 24 := by
  have hlt : height.toNat * 2 ^ 192 < 2 ^ 256 := by
    have := height.isLt
    omega
  have hpow : (2 : ℕ) ^ 192 = 256 ^ 24 := by norm_num
  rw [BitVec.toNat_shiftLeft, toNat_toWord _ (by norm_num), Nat.shiftLeft_eq, Nat.mod_eq_of_lt hlt, hpow]

/-- **Which bytes survive**: the height's eight high bytes between the two words. -/
theorem queryMemory_bytes (chainKey blockHeight txIndex : U64) :
    ProofmarkASC.queryPreimage chainKey blockHeight txIndex =
      toBytes 32 chainKey.toNat ++ toBytes 8 blockHeight.toNat ++ toBytes 32 txIndex.toNat := by
  have hlen : (ProofmarkASC.queryPreimage chainKey blockHeight txIndex).length = 72 := by
    simp [ProofmarkASC.queryPreimage]
  refine List.ext_getElem (by simp [hlen]) fun k hk _ => ?_
  rw [hlen] at hk
  have hget : ∀ (l : Bytes) (h : k < l.length), l[k] = l.getD k 0 := by
    intro l h
    rw [List.getD_eq_getElem _ _ h]
  rw [hget _ (by omega), hget]
  have hmem : (ProofmarkASC.queryPreimage chainKey blockHeight txIndex).getD k 0 =
      ProofmarkASC.queryMemory chainKey blockHeight txIndex k := by
    simp [ProofmarkASC.queryPreimage, hk]
  rw [hmem, ProofmarkASC.queryMemory]
  by_cases h1 : k < 32
  · -- only the first store reaches these bytes
    rw [mstore_of_not_mem _ _ (by omega), mstore_of_not_mem _ _ (by omega),
      mstore_of_mem _ _ (by omega), List.append_assoc, List.getD_append _ _ _ _ (by simpa using h1),
      getD_toBytes _ h1, toNat_toWord _ (by norm_num)]
    rfl
  by_cases h2 : k < 40
  · have hk8 : k - 32 < 8 := by omega
    have hpow : (256 : ℕ) ^ (31 - (k - 32)) = 256 ^ (8 - 1 - (k - 32)) * 256 ^ 24 := by
      rw [← Nat.pow_add]
      congr 1
      omega
    rw [mstore_of_not_mem _ _ (by omega), mstore_of_mem _ _ (by omega), toNat_height_word, hpow,
      Nat.mul_div_mul_right _ _ (by positivity), List.append_assoc,
      List.getD_append_right _ _ _ _ (by simpa using Nat.le_of_not_lt h1),
      List.getD_append _ _ _ _ (by simpa using hk8), length_toBytes, getD_toBytes _ hk8]
  · have hk32 : k - 40 < 32 := by omega
    rw [mstore_of_mem _ _ (by omega), List.getD_append_right _ _ _ _ (by simp; omega),
      toNat_toWord _ (by norm_num)]
    simp only [List.length_append, length_toBytes]
    rw [getD_toBytes _ hk32]

/-- The worker hashes the same bytes. -/
theorem worker_preimage (chainKey blockHeight txIndex : U64) :
    WorkerProof.preimage chainKey.toNat blockHeight.toNat txIndex.toNat =
      some (ProofmarkASC.queryPreimage chainKey blockHeight txIndex) := by
  rw [WorkerProof.preimage_eq chainKey.isLt blockHeight.isLt txIndex.isLt, queryMemory_bytes]

theorem toBytes_injective {n x y : ℕ} (hx : x < 256 ^ n) (hy : y < 256 ^ n)
    (h : toBytes n x = toBytes n y) : x = y := by
  have h' := congrArg ofBytes h
  rwa [ofBytes_toBytes, ofBytes_toBytes, Nat.mod_eq_of_lt hx, Nat.mod_eq_of_lt hy] at h'

/-- Distinct coordinates have distinct preimages. -/
theorem queryPreimage_injective {k k' h h' i i' : U64}
    (heq : ProofmarkASC.queryPreimage k h i = ProofmarkASC.queryPreimage k' h' i') :
    k = k' ∧ h = h' ∧ i = i' := by
  have hword : (2 : ℕ) ^ 64 ≤ 256 ^ 32 := by norm_num
  have hlow : (2 : ℕ) ^ 64 = 256 ^ 8 := by norm_num
  rw [queryMemory_bytes, queryMemory_bytes] at heq
  obtain ⟨h1, hi⟩ := List.append_inj heq (by simp)
  obtain ⟨hk, hh⟩ := List.append_inj h1 (by simp)
  refine ⟨BitVec.eq_of_toNat_eq ?_, BitVec.eq_of_toNat_eq ?_, BitVec.eq_of_toNat_eq ?_⟩
  · exact toBytes_injective (k.isLt.trans_le hword) (k'.isLt.trans_le hword) hk
  · exact toBytes_injective (hlow ▸ h.isLt) (hlow ▸ h'.isLt) hh
  · exact toBytes_injective (i.isLt.trans_le hword) (i'.isLt.trans_le hword) hi

/-! ## Processed queries -/

/-- Every processed query is that of an accepted receipt. -/
def ProcessedInv (env : HubEnv) (rs : List Receipt) (asc : ProofmarkASC) : Prop :=
  ∀ id, asc.processedQueries id = true → ∃ r ∈ rs, asc.queryId env r = id

theorem ProcessedInv.step {env : HubEnv} {rs : List Receipt} {e : HubEntry}
    (hinv : HubInv env rs e.pre) (h : ProcessedInv env rs e.pre)
    (hs : (ProofmarkASC.machine env).IsStep e) :
    ProcessedInv env (rs ++ (e.act.2.receipt? env).toList) e.post := by
  obtain ⟨asc, ⟨msg, c⟩, _, asc'⟩ := e
  have hok : asc.call env msg c = .ok asc' := by
    simp only [Machine.IsStep, ProofmarkASC.machine, map_ok] at hs
    obtain ⟨_, hc, hs⟩ := hs
    cases hs
    exact hc
  cases c with
  | ownership c =>
    simp only [ProofmarkASC.call, bind_ok, pure_ok] at hok
    obtain ⟨o, -, rfl⟩ := hok
    have hinv' : ProcessedInv env rs { asc with ownable := o } := h
    simpa [ProofmarkASC.Call.receipt?] using hinv'
  | configureSource chainKey source =>
    simp only [ProofmarkASC.call, ProofmarkASC.configureSource, bind_ok, revertIf_ok, pure_ok] at hok
    obtain ⟨_, -, _, hsrc, _, -, _, -, rfl⟩ := hok
    -- a source is configured once, before any receipt
    have hrs : rs = [] := by
      by_contra hne
      exact hsrc (hinv.configured hne)
    subst hrs
    intro id hid
    obtain ⟨r, hr, -⟩ := h id hid
    cases hr
  | execute x =>
    obtain ⟨r, hr, hx⟩ := execute_executed hok
    have hmark : Mirrors asc.sourceContract (rs.flatMap Receipt.applied) { asc with
        processedQueries := update asc.processedQueries (asc.queryId env r) true } :=
      hinv.mirrors.congr ⟨rfl, rfl, rfl, rfl, rfl, rfl, rfl, rfl, rfl⟩
    obtain ⟨-, hcfg⟩ := applyLogs_mirrors hmark rfl hx.applied
    rw [hr]
    intro id hid
    have hkey : ∀ r' : Receipt, asc'.queryId env r' = asc.queryId env r' := by
      intro r'
      simp [ProofmarkASC.queryId, hcfg.expectedChainKey]
    rw [hcfg.processedQueries] at hid
    by_cases heq : id = asc.queryId env r
    · exact ⟨r, by simp, by rw [hkey, heq]⟩
    · dsimp only at hid
      rw [update_of_ne heq] at hid
      obtain ⟨r', hr', hid'⟩ := h id hid
      exact ⟨r', by simp [hr'], by rw [hkey, hid']⟩

theorem processedInv_run {env : HubEnv} {owner : Address} {es : List HubEntry} {asc : ProofmarkASC}
    (h : (ProofmarkASC.machine env).Run (.deployed owner) es asc) :
    ProcessedInv env (accepted env es) asc := by
  refine h.history (H := fun es asc => ProcessedInv env (accepted env es) asc) ?_ ?_
  · intro id hid
    simp [ProofmarkASC.deployed] at hid
  · intro es e hrun hinv hstep
    have hnext := hinv.step (hubInv_run hrun) hstep
    have happ : accepted env (es ++ [e]) = accepted env es ++ (e.act.2.receipt? env).toList := by
      cases hr : e.act.2.receipt? env <;> simp [accepted, hr]
    rwa [happ]

/-! ## The result -/

/-- The hash separates the preimages of queries. -/
def SeparatesQueries (keccak256 : Bytes → Bytes32) : Prop :=
  ∀ k h i k' h' i' : U64, keccak256 (ProofmarkASC.queryPreimage k h i) =
    keccak256 (ProofmarkASC.queryPreimage k' h' i') →
      ProofmarkASC.queryPreimage k h i = ProofmarkASC.queryPreimage k' h' i'

/-- The index that the precompile returns: bit `k` is the side of sibling `k`. -/
def BlockProver.Indexes (prover : BlockProver) : Prop :=
  ∀ (p : MerkleProof) (k : ℕ), k < 64 →
    (prover.calculateTxIndex p).getLsbD k = p.siblings[k]?.any MerkleProofEntry.isLeft

/-- The two indices agree exactly on the proofs whose index fits 64 bits. -/
theorem txIndex_agrees_iff {prover : BlockProver} (h : prover.Indexes) (root : Bytes32)
    (siblings : List MerkleProofEntry) :
    WorkerProof.txIndexFromProof siblings = (prover.calculateTxIndex ⟨root, siblings⟩).toNat ↔
      ∀ e ∈ siblings.drop 64, e.isLeft = false := by
  constructor
  · intro heq e he
    obtain ⟨j, hj, rfl⟩ := List.getElem_of_mem he
    have hlt : WorkerProof.txIndexFromProof siblings < 2 ^ (64 + j) := by
      rw [heq]
      exact (prover.calculateTxIndex ⟨root, siblings⟩).isLt.trans_le
        (Nat.pow_le_pow_right (by norm_num) (by omega))
    have hbit := WorkerProof.testBit_txIndexFromProof siblings (64 + j)
    rw [Nat.testBit_lt_two_pow hlt] at hbit
    rw [List.length_drop] at hj
    rw [List.getElem?_eq_getElem (by omega)] at hbit
    simpa using hbit.symm
  · intro hdrop
    refine Nat.eq_of_testBit_eq fun k => ?_
    rw [WorkerProof.testBit_txIndexFromProof, BitVec.testBit_toNat]
    by_cases hk : k < 64
    · rw [h _ k hk]
    · rw [BitVec.getLsbD_of_ge _ _ (by omega)]
      cases hs : siblings[k]? with
      | none => rfl
      | some e =>
        obtain ⟨hlt, rfl⟩ := List.getElem?_eq_some_iff.1 hs
        have hmem : siblings[k] ∈ siblings.drop 64 := by
          have hd : (siblings.drop 64)[k - 64]? = some siblings[k] := by
            rw [List.getElem?_drop, show 64 + (k - 64) = k by omega, hs]
          exact List.mem_of_getElem? hd
        simpa using hdrop _ hmem

/-- **Query identity**: the worker and the hub contract give a source transaction the same id,
    the hub contract has processed it exactly if it accepted that receipt, which it does once,
    and both find its index in a proof, unless the index does not fit 64 bits. -/
theorem query_identity {env : HubEnv} {owner : Address} {es : List HubEntry} {asc : ProofmarkASC}
    {prover : BlockProver} (hrun : (ProofmarkASC.machine env).Run (.deployed owner) es asc)
    (hhash : SeparatesQueries env.keccak256) (hprover : prover.Indexes) :
    (∀ k h i : U64, WorkerProof.computeQueryId env.keccak256 k.toNat h.toNat i.toNat =
      some (ProofmarkASC.computeQueryId env.keccak256 k h i)) ∧
    (∀ k h i k' h' i' : U64, ProofmarkASC.queryPreimage k h i = ProofmarkASC.queryPreimage k' h' i' →
      k = k' ∧ h = h' ∧ i = i') ∧
    (∀ k h i : U64, asc.processedQueries (ProofmarkASC.computeQueryId env.keccak256 k h i) = true ↔
      k = asc.expectedChainKey ∧ ∃ r ∈ accepted env es, r.height = h ∧ r.txIndex = i) ∧
    ((accepted env es).map fun r => (r.height, r.txIndex)).Nodup ∧
    ∀ (root : Bytes32) (siblings : List MerkleProofEntry),
      WorkerProof.txIndexFromProof siblings = (prover.calculateTxIndex ⟨root, siblings⟩).toNat ↔
        ∀ e ∈ siblings.drop 64, e.isLeft = false := by
  have hinv := hubInv_run hrun
  refine ⟨?_, fun _ _ _ _ _ _ => queryPreimage_injective, ?_, hinv.distinct,
    txIndex_agrees_iff hprover⟩
  · intro k h i
    rw [WorkerProof.computeQueryId, worker_preimage]
    rfl
  · intro k h i
    constructor
    · intro hp
      obtain ⟨r, hr, hid⟩ := processedInv_run hrun _ hp
      obtain ⟨rfl, rfl, rfl⟩ := queryPreimage_injective (hhash _ _ _ _ _ _ hid)
      exact ⟨rfl, r, hr, rfl, rfl⟩
    · rintro ⟨rfl, r, hr, rfl, rfl⟩
      exact hinv.processed r hr

/-! A source transaction at block 101, delivered once, and a proof of a third transaction. -/

/-- A hash that keeps the coordinates apart, and is `keccak256` where the run hashes. -/
def coordinateHash (bs : Bytes) : Bytes32 :=
  if bs = ProofmarkASC.queryPreimage 2 101 0 then
    0xd0de3aaf82cac192bcaa91038c713b3b95fced0cfb4e88ae6152938273585964
  else BitVec.ofNat 256 (ofBytes (bs.take 32) * 2 ^ 128 + ofBytes ((bs.drop 32).take 8) * 2 ^ 64 +
    ofBytes (bs.drop 40))

/-- A precompile that reads the sides of the first 64 siblings. -/
def sideProver : BlockProver :=
  ⟨fun _ _ _ _ _ => true, fun p => BitVec.ofNat 64 (WorkerProof.txIndexFromProof p.siblings)⟩

theorem indexes_sideProver : sideProver.Indexes := by
  intro p k hk
  simp only [sideProver, BitVec.getLsbD_ofNat, WorkerProof.testBit_txIndexFromProof]
  simp [hk]

def thirdProof : List MerkleProofEntry := [⟨5, false⟩, ⟨6, true⟩]

def oneReceipt : Receipt := ⟨101, 0, [(SourceEvent.sanctionDenied 7 1 1).log 80]⟩

def oneReceiptEnv : HubEnv := ⟨coordinateHash, ReceiptFixture.decoder [oneReceipt.logs]⟩

def oneReceiptCalls : List (Msg × ProofmarkASC.Call) :=
  [(⟨1, 0, 5000, Sender.owner⟩, .configureSource 2 80),
    (⟨3, 0, 5000, Sender.issuer⟩, ReceiptFixture.deliver 2 2 oneReceipt)]

def oneReceiptHub : ProofmarkASC :=
  (ProofmarkASC.machine oneReceiptEnv).final (.deployed 1) oneReceiptCalls

theorem ofBytes_coordinates (k h i : U64) :
    let bs := ProofmarkASC.queryPreimage k h i
    ofBytes (bs.take 32) = k.toNat ∧ ofBytes ((bs.drop 32).take 8) = h.toNat ∧
      ofBytes (bs.drop 40) = i.toNat := by
  have hk := k.isLt
  have hh := h.isLt
  have hi := i.isLt
  simp only [queryMemory_bytes, List.append_assoc]
  refine ⟨?_, ?_, ?_⟩
  · rw [List.take_left' (by simp), ofBytes_toBytes, Nat.mod_eq_of_lt (by omega)]
  · rw [List.drop_left' (by simp), List.take_left' (by simp), ofBytes_toBytes,
      Nat.mod_eq_of_lt (by omega)]
  · rw [← List.append_assoc, List.drop_left' (by simp), ofBytes_toBytes, Nat.mod_eq_of_lt (by omega)]

/-- Off the one preimage, the hash is a number below `2 ^ 192` made of the coordinates. -/
theorem coordinateHash_of_ne {k h i : U64}
    (hne : ProofmarkASC.queryPreimage k h i ≠ ProofmarkASC.queryPreimage 2 101 0) :
    (coordinateHash (ProofmarkASC.queryPreimage k h i)).toNat =
      k.toNat * 2 ^ 128 + h.toNat * 2 ^ 64 + i.toNat := by
  obtain ⟨h1, h2, h3⟩ := ofBytes_coordinates k h i
  have hk := k.isLt
  have hh := h.isLt
  have hi := i.isLt
  rw [coordinateHash, if_neg hne, h1, h2, h3, BitVec.toNat_ofNat, Nat.mod_eq_of_lt (by omega)]

theorem separatesQueries_coordinateHash : SeparatesQueries coordinateHash := by
  intro k h i k' h' i' heq
  have hlt : ∀ a b c : U64, a.toNat * 2 ^ 128 + b.toNat * 2 ^ 64 + c.toNat < 2 ^ 192 := by
    intro a b c
    have := a.isLt
    have := b.isLt
    have := c.isLt
    omega
  have hbig : 2 ^ 192 ≤ (coordinateHash (ProofmarkASC.queryPreimage 2 101 0)).toNat := by
    rw [coordinateHash, if_pos rfl]
    decide
  have hn := congrArg BitVec.toNat heq
  by_cases hp : ProofmarkASC.queryPreimage k h i = ProofmarkASC.queryPreimage 2 101 0
  · by_cases hp' : ProofmarkASC.queryPreimage k' h' i' = ProofmarkASC.queryPreimage 2 101 0
    · rw [hp, hp']
    · rw [hp, coordinateHash_of_ne hp'] at hn
      exact absurd hbig (by rw [hn]; exact Nat.not_le_of_lt (hlt k' h' i'))
  · by_cases hp' : ProofmarkASC.queryPreimage k' h' i' = ProofmarkASC.queryPreimage 2 101 0
    · rw [hp', coordinateHash_of_ne hp] at hn
      exact absurd hbig (by rw [← hn]; exact Nat.not_le_of_lt (hlt k h i))
    · rw [coordinateHash_of_ne hp, coordinateHash_of_ne hp'] at hn
      have := h.isLt
      have := i.isLt
      have := h'.isLt
      have := i'.isLt
      have hk : k = k' := BitVec.eq_of_toNat_eq (by omega)
      have hh : h = h' := BitVec.eq_of_toNat_eq (by omega)
      have hi : i = i' := BitVec.eq_of_toNat_eq (by omega)
      rw [hk, hh, hi]

theorem query_identity_one :
    oneReceiptHub.processedQueries (ProofmarkASC.computeQueryId oneReceiptEnv.keccak256 2 101 0) =
        true ∧
      oneReceiptHub.processedQueries (ProofmarkASC.computeQueryId oneReceiptEnv.keccak256 2 101 1) ≠
        true ∧
      WorkerProof.computeQueryId oneReceiptEnv.keccak256 2 101 0 =
        some (ProofmarkASC.computeQueryId oneReceiptEnv.keccak256 2 101 0) ∧
      WorkerProof.txIndexFromProof thirdProof = (sideProver.calculateTxIndex ⟨1, thirdProof⟩).toNat := by
  obtain ⟨hid, -, hproc, -, hindex⟩ := query_identity
    ((ProofmarkASC.machine oneReceiptEnv).run_trace (.deployed 1) oneReceiptCalls)
    separatesQueries_coordinateHash indexes_sideProver
  have hacc : accepted oneReceiptEnv ((ProofmarkASC.machine oneReceiptEnv).trace (.deployed 1)
      oneReceiptCalls) = [oneReceipt] := by decide +kernel
  have hkey : 2 = oneReceiptHub.expectedChainKey := by decide +kernel
  rw [hacc, ← oneReceiptHub] at hproc
  have h0 := (hproc 2 101 0).2 ⟨hkey, oneReceipt, by simp, rfl, rfl⟩
  refine ⟨h0, ?_, hid 2 101 0, (hindex 1 thirdProof).2 (by simp [thirdProof])⟩
  intro h
  obtain ⟨-, r, hr, -, hi⟩ := (hproc 2 101 1).1 h
  rw [List.mem_singleton.1 hr] at hi
  exact absurd hi (by decide)

/-- A left sibling at level 64: no 64-bit index is that of the worker. -/
def longProof : List MerkleProofEntry := List.replicate 64 ⟨5, false⟩ ++ [⟨6, true⟩]

theorem query_index_exceeds :
    WorkerProof.txIndexFromProof longProof = 2 ^ 64 ∧
      ∀ (prover : BlockProver) (root : Bytes32),
        WorkerProof.txIndexFromProof longProof ≠ (prover.calculateTxIndex ⟨root, longProof⟩).toNat := by
  have h : WorkerProof.txIndexFromProof longProof = 2 ^ 64 := by decide +kernel
  refine ⟨h, fun prover root heq => ?_⟩
  have hlt := (prover.calculateTxIndex ⟨root, longProof⟩).isLt
  exact Nat.ne_of_lt hlt (heq.symm.trans h)

end Proofmark
