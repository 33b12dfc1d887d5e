/-
  What the circuit of the policy states.

  `kyc_policy_iff`: its constraints have a solution exactly when the public values are in
  range and a credential whose leaf climbs to the root satisfies the policy, with the
  nullifier of its secret.
-/
import Proofmark.Lib.PositionalMerkle
import Proofmark.Lib.PrimeCertificate
import Proofmark.Zk.KycPolicy
import Mathlib.Tactic.NormNum.Prime

namespace Proofmark

/-! ## The field -/

/-- The factors of `SNARK_SCALAR_FIELD - 1`, of the predecessors of the large ones, and so on. -/
def fieldCertificates : List (ℕ × ℕ × ℕ × List ℕ) := [
  (SNARK_SCALAR_FIELD, 254, 5, 13818364434197438864469338081 :: 1670836401704629 :: 405928799 ::
    List.replicate 28 2 ++ [3, 3, 13, 29, 983, 11003, 237073]),
  (13818364434197438864469338081, 94, 3, [65865678001877903, 2, 2, 2, 2, 2, 5, 823, 1593227]),
  (65865678001877903, 56, 5, [639533339, 2, 83, 1637, 379]),
  (639533339, 30, 2, [2, 853, 229, 1637]),
  (1670836401704629, 51, 2, [5156902474397, 2, 2, 3, 3, 3, 3]),
  (5156902474397, 43, 2, [12048837557, 2, 2, 107]),
  (12048837557, 34, 2, [2, 2, 7, 7, 661, 93001]),
  (405928799, 29, 22, [2, 11, 4999, 3691])]

theorem prime_SNARK_SCALAR_FIELD : SNARK_SCALAR_FIELD.Prime := by
  have hknown : ∀ q ∈ [2, 3, 5, 7, 11, 13, 29, 83, 107, 229, 379, 661, 823, 853, 983, 1637, 3691, 4999,
      11003, 93001, 237073, 1593227], q.Prime := by norm_num
  exact PrimeCertificate.prime_of_checkAll hknown
    (show PrimeCertificate.checkAll _ fieldCertificates = true by decide +kernel) _ List.mem_cons_self

instance : Fact SNARK_SCALAR_FIELD.Prime := ⟨prime_SNARK_SCALAR_FIELD⟩

/-- A machine word as a scalar. -/
def scalar {w : ℕ} (v : BitVec w) : Fr := v.toNat

/-- The low bits of a scalar. -/
def word (w : ℕ) (a : Fr) : BitVec w := BitVec.ofNat w a.val

section
variable {w : ℕ}

theorem val_scalar {v : BitVec w} (h : v.toNat < SNARK_SCALAR_FIELD) : (scalar v).val = v.toNat :=
  ZMod.val_natCast_of_lt h

theorem toNat_lt_field (hw : w ≤ 253) (v : BitVec w) : v.toNat < SNARK_SCALAR_FIELD :=
  calc v.toNat < 2 ^ w := v.isLt
    _ ≤ 2 ^ 253 := Nat.pow_le_pow_right (by norm_num) hw
    _ < SNARK_SCALAR_FIELD := by rw [SNARK_SCALAR_FIELD]; norm_num

theorem val_scalar_small (hw : w ≤ 253) (v : BitVec w) : (scalar v).val = v.toNat :=
  val_scalar (toNat_lt_field hw v)

theorem toNat_word {a : Fr} (h : a.val < 2 ^ w) : (word w a).toNat = a.val := by
  rw [word, BitVec.toNat_ofNat, Nat.mod_eq_of_lt h]

theorem scalar_word {a : Fr} (h : a.val < 2 ^ w) : scalar (word w a) = a := by
  rw [scalar, toNat_word h, ZMod.natCast_zmod_val]

theorem scalar_inj {v v' : BitVec w} (h : v.toNat < SNARK_SCALAR_FIELD) (h' : v'.toNat < SNARK_SCALAR_FIELD)
    (he : scalar v = scalar v') : v = v' := by
  apply BitVec.eq_of_toNat_eq
  rw [← val_scalar h, ← val_scalar h', he]

end

/-! ## Credentials -/

/-- What circomlib documents of its templates. -/
structure Circomlib.Documented (lib : Circomlib) : Prop where
  isEqual : ∀ a b out, lib.IsEqual a b out ↔ out = if a = b then 1 else 0
  num2Bits : ∀ n a, n ≤ 253 → (lib.Num2Bits n a ↔ a.val < 2 ^ n)
  lessEqThan : ∀ n a b out, n ≤ 252 → a.val < 2 ^ n → b.val < 2 ^ n →
    (lib.LessEqThan n a b out ↔ out = if a.val ≤ b.val then 1 else 0)

/-- A credential of the active set. -/
structure Credential where
  secret : Fr
  holder : Address
  country : U16
  birthDay : U32
  credentialExpiry : U64
  credentialId : U64
deriving DecidableEq

def Credential.opening (c : Credential) : List Fr :=
  [c.secret, scalar c.holder, scalar c.country, scalar c.birthDay, scalar c.credentialExpiry,
    scalar c.credentialId]

/-- The context of a presentation. -/
def KycPublic.context (x : KycPublic) : List Fr :=
  [x.holder, x.applicationId, x.policyId, x.epoch, x.deadline]

namespace Circomlib

variable (lib : Circomlib)

def leaf (c : Credential) : Fr := lib.Poseidon c.opening

def node (a b : Fr) : Fr := lib.Poseidon [a, b]

def nullifier (x : KycPublic) (secret : Fr) : Fr := lib.Poseidon [secret, lib.Poseidon x.context]

/-- What a presentation of `c` at `idx` hashes. -/
def hashed (x : KycPublic) (c : Credential) (idx : ℕ) (ss : List Fr) : List (List Fr) :=
  c.opening :: (Merkle.climbPairs lib.node (lib.leaf c) idx ss).map (fun p => [p.1, p.2]) ++
    [x.context, [c.secret, lib.Poseidon x.context]]

end Circomlib

/-- The public values fit their types. -/
structure KycPublic.Ranged (x : KycPublic) : Prop where
  holder : x.holder.val < 2 ^ 160
  policyId : x.policyId.val < 2 ^ 64
  allowedCountryA : x.allowedCountryA.val < 2 ^ 16
  allowedCountryB : x.allowedCountryB.val < 2 ^ 16
  maxBirthDay : x.maxBirthDay.val < 2 ^ 32
  epoch : x.epoch.val < 2 ^ 64
  deadline : x.deadline.val < 2 ^ 64

/-- `c` satisfies the policy of `x`, from the position `idx` of the tree. -/
structure Opens (lib : Circomlib) (x : KycPublic) (c : Credential) (idx : ℕ) (ss : List Fr) : Prop where
  path : Merkle.climb? lib.node (lib.leaf c) idx 4 ss = some x.root
  holder : c.holder.toNat = x.holder.val
  country : c.country.toNat = x.allowedCountryA.val ∨ c.country.toNat = x.allowedCountryB.val
  oldEnough : c.birthDay.toNat ≤ x.maxBirthDay.val
  unexpired : x.deadline.val ≤ c.credentialExpiry.toNat
  nullifier : x.nullifier = lib.nullifier x c.secret

/-! ## The path -/

/-- The scalar that selects the side of `idx`. -/
def side (idx : ℕ) : Fr := if idx % 2 = 0 then 0 else 1

theorem turn_side (idx : ℕ) (m s : Fr) :
    (m + side idx * (s - m), s + side idx * (m - s)) = Merkle.turn idx m s := by
  rw [side, Merkle.turn]
  split_ifs with h
  · simp
  · simp

/-- A selector is a side. -/
theorem side_of_bit {p : Fr} (h : p * (p - 1) = 0) : ∃ b < 2, side b = p := by
  rcases mul_eq_zero.1 h with h | h
  · exact ⟨0, by norm_num, h.symm⟩
  · exact ⟨1, by norm_num, (sub_eq_zero.1 h).symm⟩

theorem side_bit (idx : ℕ) : side idx * (side idx - 1) = 0 := by
  rw [side]
  split_ifs with h
  · simp
  · simp

theorem side_add_two_mul (b b' : ℕ) : side (b + 2 * b') = side b := by
  rw [side, side, Nat.add_mul_mod_self_left]

/-- Paths in a tree of four leaves. -/
theorem climb?_four {node : Fr → Fr → Fr} {acc r : Fr} {idx : ℕ} {ss : List Fr} :
    Merkle.climb? node acc idx 4 ss = some r ↔ idx < 4 ∧ ∃ s s', ss = [s, s'] ∧
      Merkle.hash node (Merkle.turn (idx / 2) (Merkle.hash node (Merkle.turn idx acc s)) s') = r := by
  constructor
  · intro h
    rcases ss with _ | ⟨s, _ | ⟨s', _ | ⟨t, ss⟩⟩⟩
    · simp [Merkle.climb?] at h
    · simp only [Merkle.climb?] at h
      split_ifs at h
      all_goals omega
    · simp only [Merkle.climb?] at h
      split_ifs at h with _ _ _ _ hend
      exact ⟨by omega, s, s', rfl, Option.some.inj h⟩
    · simp only [Merkle.climb?] at h
      split_ifs at h
      all_goals omega
  · rintro ⟨hidx, s, s', rfl, rfl⟩
    have hpair : Merkle.pair idx < 4 := by
      rw [Merkle.pair]
      split_ifs
      · omega
      · omega
    have hpair' : Merkle.pair (idx / 2) < 2 := by
      rw [Merkle.pair]
      split_ifs
      · omega
      · omega
    simp only [Merkle.climb?]
    rw [if_neg (by omega), if_neg (by omega), if_neg (by omega), if_neg (by omega),
      if_pos ⟨trivial, by omega⟩]

/-! ## The statement -/

section
variable {lib : Circomlib} {x : KycPublic} {w : KycPrivate} {g : KycSignals}

/-- The credential that a solution opens. -/
def KycPrivate.credential (w : KycPrivate) (x : KycPublic) : Credential where
  secret := w.secret
  holder := word 160 x.holder
  country := word 16 w.country
  birthDay := word 32 w.birthDay
  credentialExpiry := word 64 w.credentialExpiry
  credentialId := word 64 w.credentialId

namespace KycPolicy

theorem ranged (hlib : lib.Documented) (h : KycPolicy lib x w g) : x.Ranged where
  holder := (hlib.num2Bits 160 _ (by norm_num)).1 h.holderBits
  policyId := (hlib.num2Bits 64 _ (by norm_num)).1 h.policyBits
  allowedCountryA := (hlib.num2Bits 16 _ (by norm_num)).1 h.countryABits
  allowedCountryB := (hlib.num2Bits 16 _ (by norm_num)).1 h.countryBBits
  maxBirthDay := (hlib.num2Bits 32 _ (by norm_num)).1 h.cutoffBits
  epoch := (hlib.num2Bits 64 _ (by norm_num)).1 h.epochBits
  deadline := (hlib.num2Bits 64 _ (by norm_num)).1 h.deadlineBits

theorem opening_credential (hlib : lib.Documented) (h : KycPolicy lib x w g) :
    (w.credential x).opening = w.opening x := by
  have hcountry := (hlib.num2Bits 16 _ (by norm_num)).1 h.countryBits
  have hbirth := (hlib.num2Bits 32 _ (by norm_num)).1 h.birthBits
  have hexpiry := (hlib.num2Bits 64 _ (by norm_num)).1 h.credentialExpiryBits
  have hid := (hlib.num2Bits 64 _ (by norm_num)).1 h.credentialIdBits
  simp only [Credential.opening, KycPrivate.credential, KycPrivate.opening,
    scalar_word (h.ranged hlib).holder, scalar_word hcountry, scalar_word hbirth,
    scalar_word hexpiry, scalar_word hid]

/-- One of the two countries is the credential's. -/
theorem country (hlib : lib.Documented) (h : KycPolicy lib x w g) :
    w.country = x.allowedCountryA ∨ w.country = x.allowedCountryB := by
  by_contra hne
  obtain ⟨hneA, hneB⟩ := not_or.1 hne
  have hA := (hlib.isEqual _ _ _).1 h.countryA
  have hB := (hlib.isEqual _ _ _).1 h.countryB
  have hone := h.allowed
  rw [hA, hB, if_neg hneA, if_neg hneB] at hone
  simp at hone

/-- **A solution opens a credential below the root.** -/
theorem opens (hlib : lib.Documented) (h : KycPolicy lib x w g) :
    ∃ idx ss, Opens lib x (w.credential x) idx ss ∧
      lib.hashed x (w.credential x) idx ss =
        [w.opening x, [g.left 0, g.right 0], [g.left 1, g.right 1], x.context,
          [w.secret, g.contextHash]] := by
  have hr := h.ranged hlib
  have hcountry := (hlib.num2Bits 16 _ (by norm_num)).1 h.countryBits
  have hbirth := (hlib.num2Bits 32 _ (by norm_num)).1 h.birthBits
  have hexpiry := (hlib.num2Bits 64 _ (by norm_num)).1 h.credentialExpiryBits
  have hleaf : lib.leaf (w.credential x) = g.merkleNodes 0 := by
    rw [Circomlib.leaf, h.opening_credential hlib, h.leafHash]
  obtain ⟨b, hb, hside⟩ := side_of_bit (h.pathBit 0)
  obtain ⟨b', hb', hside'⟩ := side_of_bit (h.pathBit 1)
  have hhalf : (b + 2 * b') / 2 = b' := by omega
  have hturn : Merkle.turn (b + 2 * b') (g.merkleNodes 0) (w.siblings 0) = (g.left 0, g.right 0) := by
    rw [← turn_side, side_add_two_mul, hside, h.left 0, h.right 0]
    rfl
  have hnode : Merkle.hash lib.node (g.left 0, g.right 0) = g.merkleNodes 1 := (h.levelHash 0).symm
  have hturn' : Merkle.turn b' (g.merkleNodes 1) (w.siblings 1) = (g.left 1, g.right 1) := by
    rw [← turn_side, hside', h.left 1, h.right 1]
    rfl
  have hnode' : Merkle.hash lib.node (g.left 1, g.right 1) = x.root :=
    (h.levelHash 1).symm.trans h.root
  have hcontext : g.contextHash = lib.Poseidon x.context := h.contextHash
  refine ⟨b + 2 * b', [w.siblings 0, w.siblings 1], ⟨?_, ?_, ?_, ?_, ?_, ?_⟩, ?_⟩
  · refine climb?_four.2 ⟨by omega, _, _, rfl, ?_⟩
    rw [hleaf, hturn, hnode, hhalf, hturn', hnode']
  · exact toNat_word hr.holder
  · simp only [KycPrivate.credential, toNat_word hcountry]
    rcases h.country hlib with heq | heq
    · exact .inl (by rw [heq])
    · exact .inr (by rw [heq])
  · have hle := (hlib.lessEqThan 32 _ _ _ (by norm_num) hbirth hr.maxBirthDay).1 h.ageCutoff
    rw [h.oldEnough] at hle
    simp only [KycPrivate.credential, toNat_word hbirth]
    by_contra hlt
    rw [if_neg hlt] at hle
    exact one_ne_zero hle
  · have hle := (hlib.lessEqThan 64 _ _ _ (by norm_num) hr.deadline hexpiry).1 h.credentialFresh
    rw [h.unexpired] at hle
    simp only [KycPrivate.credential, toNat_word hexpiry]
    by_contra hlt
    rw [if_neg hlt] at hle
    exact one_ne_zero hle
  · rw [h.nullifierHash, hcontext]
    rfl
  · simp only [Circomlib.hashed, Merkle.climbPairs, hleaf, hturn, hnode, hhalf, hturn', List.map_cons,
      List.map_nil, h.opening_credential hlib, hcontext]
    rfl

end KycPolicy

/-- The private inputs that present `c`. -/
def Credential.toPrivate (c : Credential) (idx : ℕ) (s s' : Fr) : KycPrivate where
  secret := c.secret
  country := scalar c.country
  birthDay := scalar c.birthDay
  credentialExpiry := scalar c.credentialExpiry
  credentialId := scalar c.credentialId
  siblings := ![s, s']
  pathIndices := ![side idx, side (idx / 2)]

/-- The signals of `KycPolicy()` on these inputs. -/
def KycPrivate.signals (lib : Circomlib) (x : KycPublic) (w : KycPrivate) : KycSignals :=
  let m := lib.Poseidon (w.opening x)
  let l := m + w.pathIndices 0 * (w.siblings 0 - m)
  let r := w.siblings 0 + w.pathIndices 0 * (m - w.siblings 0)
  let m' := lib.Poseidon [l, r]
  let l' := m' + w.pathIndices 1 * (w.siblings 1 - m')
  let r' := w.siblings 1 + w.pathIndices 1 * (m' - w.siblings 1)
  { merkleNodes := ![m, m', lib.Poseidon [l', r']]
    left := ![l, l']
    right := ![r, r']
    countryA := if w.country = x.allowedCountryA then 1 else 0
    countryB := if w.country = x.allowedCountryB then 1 else 0
    ageCutoff := 1
    credentialFresh := 1
    contextHash := lib.Poseidon x.context }

/-- **A credential below the root is a solution.** -/
theorem Opens.solves {c : Credential} {idx : ℕ} {s s' : Fr} (hlib : lib.Documented) (hr : x.Ranged)
    (h : Opens lib x c idx [s, s']) :
    KycPolicy lib x (c.toPrivate idx s s') ((c.toPrivate idx s s').signals lib x) := by
  obtain ⟨hidx, _, _, hss, hroot⟩ := climb?_four.1 h.path
  obtain ⟨rfl, rfl⟩ : s = _ ∧ s' = _ := by simpa using hss
  have hholder : scalar c.holder = x.holder := by rw [scalar, h.holder, ZMod.natCast_zmod_val]
  have hfits : ∀ {n : ℕ} (v : BitVec n), n ≤ 253 → lib.Num2Bits n (scalar v) := by
    intro n v hn
    exact (hlib.num2Bits n _ hn).2 (by rw [val_scalar_small hn]; exact v.isLt)
  have hopening : (c.toPrivate idx s s').opening x = c.opening := by
    rw [KycPrivate.opening, Credential.opening, hholder]
    rfl
  constructor
  case leafHash => rfl
  case pathBit => exact Fin.forall_fin_two.2 ⟨side_bit idx, side_bit (idx / 2)⟩
  case left => exact Fin.forall_fin_two.2 ⟨rfl, rfl⟩
  case right => exact Fin.forall_fin_two.2 ⟨rfl, rfl⟩
  case levelHash => exact Fin.forall_fin_two.2 ⟨rfl, rfl⟩
  case root =>
    rw [← hroot, ← turn_side, ← turn_side, Circomlib.leaf, ← hopening]
    rfl
  case countryA => exact (hlib.isEqual _ _ _).2 rfl
  case countryB => exact (hlib.isEqual _ _ _).2 rfl
  case allowed =>
    have hcountry : scalar c.country = x.allowedCountryA ∨ scalar c.country = x.allowedCountryB := by
      refine h.country.imp ?_ ?_
      · intro he
        rw [scalar, he, ZMod.natCast_zmod_val]
      · intro he
        rw [scalar, he, ZMod.natCast_zmod_val]
    change (if scalar c.country = x.allowedCountryA then (1 : Fr) else 0) +
      (if scalar c.country = x.allowedCountryB then 1 else 0) -
      (if scalar c.country = x.allowedCountryA then 1 else 0) *
        (if scalar c.country = x.allowedCountryB then 1 else 0) = 1
    rcases hcountry with he | he
    · simp [he]
    · simp [he]
  case ageCutoff =>
    refine (hlib.lessEqThan 32 _ _ _ (by norm_num) ?_ hr.maxBirthDay).2 ?_
    · exact (hlib.num2Bits 32 _ (by norm_num)).1 (hfits c.birthDay (by norm_num))
    · rw [if_pos]
      · rfl
      · exact (val_scalar_small (by norm_num) c.birthDay).trans_le h.oldEnough
  case oldEnough => rfl
  case credentialFresh =>
    refine (hlib.lessEqThan 64 _ _ _ (by norm_num) hr.deadline ?_).2 ?_
    · exact (hlib.num2Bits 64 _ (by norm_num)).1 (hfits c.credentialExpiry (by norm_num))
    · rw [if_pos]
      · rfl
      · exact h.unexpired.trans_eq (val_scalar_small (by norm_num) c.credentialExpiry).symm
  case unexpired => rfl
  case holderBits => exact (hlib.num2Bits 160 _ (by norm_num)).2 hr.holder
  case policyBits => exact (hlib.num2Bits 64 _ (by norm_num)).2 hr.policyId
  case countryABits => exact (hlib.num2Bits 16 _ (by norm_num)).2 hr.allowedCountryA
  case countryBBits => exact (hlib.num2Bits 16 _ (by norm_num)).2 hr.allowedCountryB
  case countryBits => exact hfits c.country (by norm_num)
  case birthBits => exact hfits c.birthDay (by norm_num)
  case cutoffBits => exact (hlib.num2Bits 32 _ (by norm_num)).2 hr.maxBirthDay
  case credentialExpiryBits => exact hfits c.credentialExpiry (by norm_num)
  case credentialIdBits => exact hfits c.credentialId (by norm_num)
  case epochBits => exact (hlib.num2Bits 64 _ (by norm_num)).2 hr.epoch
  case deadlineBits => exact (hlib.num2Bits 64 _ (by norm_num)).2 hr.deadline
  case contextHash => rfl
  case nullifierHash => exact h.nullifier

theorem Opens.solution {c : Credential} {idx : ℕ} {ss : List Fr} (hlib : lib.Documented)
    (hr : x.Ranged) (h : Opens lib x c idx ss) : ∃ w g, KycPolicy lib x w g := by
  obtain ⟨-, s, s', rfl, -⟩ := climb?_four.1 h.path
  exact ⟨_, _, h.solves hlib hr⟩

end

/-- **The circuit states the policy.** -/
theorem kyc_policy_iff {lib : Circomlib} (hlib : lib.Documented) (x : KycPublic) :
    (∃ w g, KycPolicy lib x w g) ↔ x.Ranged ∧ ∃ c idx ss, Opens lib x c idx ss := by
  constructor
  · rintro ⟨w, g, h⟩
    obtain ⟨idx, ss, hopens, -⟩ := h.opens hlib
    exact ⟨h.ranged hlib, _, idx, ss, hopens⟩
  · rintro ⟨hr, c, idx, ss, h⟩
    exact h.solution hlib hr

/-! The proof fixture of zk/scripts/prove-fixture.mjs. -/

def fixtureCredential : Credential := ⟨112233445566778899, 0xa11ce, 410, 10000, 2100000000, 9001⟩

def fixtureSiblings : List Fr := [
  19545050505924082824213885009734294110919686920751166133075861669993365715659,
  54962651673503462751720231871047179347150084679705549162976073806010165291]

/-- The hashes of the fixture. -/
def fixtureHashes : List (List ℕ × ℕ) := [
  ([112233445566778899, 0xa11ce, 410, 10000, 2100000000, 9001],
    5866208638174066336034731847238875370513740239096072505411708073243348271032),
  ([41, 42, 43, 44, 45, 46],
    19545050505924082824213885009734294110919686920751166133075861669993365715659),
  ([51, 52, 53, 54, 55, 56],
    20515474615467721212431755289579851234155947538643627493575486358735636461767),
  ([61, 62, 63, 64, 65, 66],
    14967970119032767189214252614300909310826565832591946898121156962536977533549),
  ([5866208638174066336034731847238875370513740239096072505411708073243348271032,
    19545050505924082824213885009734294110919686920751166133075861669993365715659],
    13468067488607079849926918726197937811362398391937414628435230298484064409890),
  ([20515474615467721212431755289579851234155947538643627493575486358735636461767,
    14967970119032767189214252614300909310826565832591946898121156962536977533549],
    54962651673503462751720231871047179347150084679705549162976073806010165291),
  ([13468067488607079849926918726197937811362398391937414628435230298484064409890,
    54962651673503462751720231871047179347150084679705549162976073806010165291],
    12793416525695990375282917133940433003954959674339531076250732997494611668637),
  ([0xa11ce, 3250162062533471447538495730628722666881011379663305981082613662888375706148, 20260910, 7,
    2000000000],
    14461829990448885963989426768074059535163834362328696029195122701030736195698),
  ([112233445566778899, 14461829990448885963989426768074059535163834362328696029195122701030736195698],
    3852774765118190665090046619510162823183954496283533734999687225374205521594)]

def fixtureLib : Circomlib where
  Poseidon l := ((fixtureHashes.lookup (l.map ZMod.val)).getD 0 : ℕ)
  IsEqual a b out := out = if a = b then 1 else 0
  LessEqThan _ a b out := out = if a.val ≤ b.val then 1 else 0
  Num2Bits n a := a.val < 2 ^ n

theorem documented_fixtureLib : fixtureLib.Documented where
  isEqual _ _ _ := Iff.rfl
  num2Bits _ _ _ := Iff.rfl
  lessEqThan _ _ _ _ _ _ _ := Iff.rfl

def fixtureSignals : PublicSignals where
  nullifier := 3852774765118190665090046619510162823183954496283533734999687225374205521594
  root := 12793416525695990375282917133940433003954959674339531076250732997494611668637
  policyId := 20260910
  countryA := 410
  countryB := 392
  maxBirthDay := 13949
  holder := 0xa11ce
  applicationId := 3250162062533471447538495730628722666881011379663305981082613662888375706148
  epoch := 7
  deadline := 2000000000

theorem opens_fixture : fixtureSignals.scalars.Ranged ∧
    Opens fixtureLib fixtureSignals.scalars fixtureCredential 0 fixtureSiblings := by
  refine ⟨?_, ?_⟩ <;> constructor <;> decide +kernel

theorem kyc_policy_iff_fixture : ∃ w g, KycPolicy fixtureLib fixtureSignals.scalars w g :=
  (kyc_policy_iff documented_fixtureLib fixtureSignals.scalars).2
    ⟨opens_fixture.1, fixtureCredential, 0, fixtureSiblings, opens_fixture.2⟩

end Proofmark
