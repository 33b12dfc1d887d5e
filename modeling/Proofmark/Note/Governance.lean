/-
  Runs of the note.

  `NoteInv` says what every run leaves: the bypass is closed, the balances sum up to the
  supply, and every stored recovery request goes back to its proposal and its approval in
  the run.  `note_governance` reads the gate, the recovery protocol and conservation off
  it.
-/
import Proofmark.Hub.FrozenPolicy
import Proofmark.Note.NoteEffects

namespace Proofmark

open Revert Function ERC20

/-! ## Histories of requests -/

/-- The transaction `p` proposed the request `d` under `id`. -/
structure ProposesRecovery (p : NoteEntry) (id : U256) (d : RecoveryRequest) : Prop where
  call : p.act.call = .proposeRecovery d.kind d.from_ d.to_ d.amount d.reasonHash
  recoveryId : p.pre.nextRecoveryId = id
  sender : p.act.msg.sender = p.pre.recoveryProposer
  proposer : d.proposer = p.act.msg.sender
  executeAfter : d.executeAfter =
    BitVec.ofNat 40 (p.act.msg.timestamp + GatedRwaNote.MIN_RECOVERY_DELAY)
  recipient : d.recipient = d.to_
  stored : p.post.recoveryRequests id = { d with approver := 0, executed := false }

/-- The transaction `q` approved the request `d` under `id`. -/
structure ApprovesRecovery (q : NoteEntry) (id : U256) (d : RecoveryRequest) : Prop where
  call : q.act.call = .approveRecovery id
  sender : q.act.msg.sender = q.pre.recoveryApprover
  approver : d.approver = q.act.msg.sender
  other : d.approver ≠ d.proposer

/-- The request `d` was proposed and, when it has an approver, approved later on. -/
def Requested (es : List NoteEntry) (id : U256) (d : RecoveryRequest) : Prop :=
  ∃ es₁ p es₂, es = es₁ ++ p :: es₂ ∧ ProposesRecovery p id d ∧
    (d.approver ≠ 0 → ∃ es₃ q es₄, es₂ = es₃ ++ q :: es₄ ∧ ApprovesRecovery q id d)

theorem Requested.concat {es : List NoteEntry} {id : U256} {d : RecoveryRequest} (e : NoteEntry)
    (h : Requested es id d) : Requested (es ++ [e]) id d := by
  obtain ⟨es₁, p, es₂, rfl, hp, ha⟩ := h
  refine ⟨es₁, p, es₂ ++ [e], by simp, hp, fun h0 => ?_⟩
  obtain ⟨es₃, q, es₄, rfl, hq⟩ := ha h0
  exact ⟨es₃, q, es₄ ++ [e], by simp, hq⟩

/-- Executing a request leaves its history. -/
theorem Requested.execute {es : List NoteEntry} {id : U256} {d : RecoveryRequest}
    (h : Requested es id d) : Requested es id { d with executed := true } := by
  obtain ⟨es₁, p, es₂, rfl, hp, ha⟩ := h
  refine ⟨es₁, p, es₂, rfl, ⟨hp.1, hp.2, hp.3, hp.4, hp.5, hp.6, hp.7⟩, fun h0 => ?_⟩
  obtain ⟨es₃, q, es₄, rfl, hq⟩ := ha h0
  exact ⟨es₃, q, es₄, rfl, ⟨hq.1, hq.2, hq.3, hq.4⟩⟩

/-- Approving a request completes its history. -/
theorem Requested.approve {es : List NoteEntry} {id : U256} {d : RecoveryRequest} {e : NoteEntry}
    {approver : Address} (h : Requested es id d) (ha : ApprovesRecovery e id { d with approver }) :
    Requested (es ++ [e]) id { d with approver } := by
  obtain ⟨es₁, p, es₂, rfl, hp, -⟩ := h
  refine ⟨es₁, p, es₂ ++ [e], by simp, ⟨hp.1, hp.2, hp.3, hp.4, hp.5, hp.6, hp.7⟩, fun _ => ?_⟩
  exact ⟨es₂, e, [], rfl, ha⟩

/-- **The invariant of the note**, after the transactions `es`. -/
structure NoteInv (es : List NoteEntry) (s : GatedRwaNote) : Prop where
  bypass : s.complianceBypass = false
  conserved : s.token.Conserved
  governance : s.recoveryProposer ≠ 0 → s.recoveryProposer ≠ s.recoveryApprover
  fresh : ∀ id, s.nextRecoveryId ≤ id → s.recoveryRequests id = .empty
  proposer : ∀ id, (s.recoveryRequests id).proposer ≠ 0 →
    (s.recoveryRequests id).proposer = s.recoveryProposer
  requested : ∀ id, (s.recoveryRequests id).proposer ≠ 0 → Requested es id (s.recoveryRequests id)
  executed : ∀ e ∈ es, ∀ id, e.act.call = .executeRecovery id →
    (s.recoveryRequests id).executed = true

namespace NoteInv

variable {es : List NoteEntry} {e : NoteEntry}

/-- A transaction outside the recovery protocol keeps the invariant. -/
theorem keep (hi : NoteInv es e.pre) (hord : e.act.call.ordinary = true)
    (hs : GatedRwaNote.SameRecovery e.pre e.post) (hc : e.post.token.Conserved) :
    NoteInv (es ++ [e]) e.post := by
  obtain ⟨-, h2, h3, h4, h5, h6⟩ := hs
  refine ⟨h2 ▸ hi.bypass, hc, h3 ▸ h4 ▸ hi.governance, h5 ▸ h6 ▸ hi.fresh, ?_, ?_, ?_⟩
  · rw [h6, h3]
    exact hi.proposer
  · rw [h6]
    exact fun id h0 => (hi.requested id h0).concat e
  · intro e' he' id hcall
    rw [h6]
    rcases List.mem_append.1 he' with he' | he'
    · exact hi.executed e' he' id hcall
    · rw [List.mem_singleton.1 he'] at hcall
      rw [hcall] at hord
      cases hord

/-- Writing one request keeps what is said of the others. -/
theorem write (id : U256) {d : RecoveryRequest} (hi : NoteInv es e.pre)
    (hconf : e.post.recoveryProposer = e.pre.recoveryProposer)
    (hreq : e.post.recoveryRequests = update e.pre.recoveryRequests id d)
    (hbypass : e.post.complianceBypass = false) (hcons : e.post.token.Conserved)
    (hgov : e.post.recoveryApprover = e.pre.recoveryApprover)
    (hnext : ∀ id', e.post.nextRecoveryId ≤ id' → e.pre.nextRecoveryId ≤ id' ∧ id' ≠ id)
    (hprop : d.proposer = e.pre.recoveryProposer) (hd : Requested (es ++ [e]) id d)
    (hexec : ∀ e' ∈ es ++ [e], e'.act.call = .executeRecovery id → d.executed = true)
    (hother : ∀ id', e.act.call = .executeRecovery id' → id' = id) :
    NoteInv (es ++ [e]) e.post := by
  refine ⟨hbypass, hcons, hconf ▸ hgov ▸ hi.governance, fun id' hle => ?_, fun id' h0 => ?_,
    fun id' h0 => ?_, fun e' he' id' hcall => ?_⟩
  · obtain ⟨hle', hne⟩ := hnext id' hle
    rw [hreq, update_of_ne hne]
    exact hi.fresh id' hle'
  · rw [hreq] at h0 ⊢
    by_cases hid : id' = id
    · subst hid
      simpa [hconf] using hprop
    · rw [update_of_ne hid] at h0 ⊢
      rw [hconf]
      exact hi.proposer id' h0
  · rw [hreq] at h0 ⊢
    by_cases hid : id' = id
    · subst hid
      simpa using hd
    · rw [update_of_ne hid] at h0 ⊢
      exact (hi.requested id' h0).concat e
  · rw [hreq]
    by_cases hid : id' = id
    · subst hid
      simpa using hexec e' he' hcall
    · rw [update_of_ne hid]
      rcases List.mem_append.1 he' with he' | he'
      · exact hi.executed e' he' id' hcall
      · rw [List.mem_singleton.1 he'] at hcall
        exact absurd (hother id' hcall) hid

theorem step (hi : NoteInv es e.pre) (hs : GatedRwaNote.machine.IsStep e) :
    NoteInv (es ++ [e]) e.post := by
  obtain ⟨s, ⟨isVerified, msg, c⟩, _, s'⟩ := e
  have hok : s.call isVerified msg c = .ok s' := by
    simpa [Machine.IsStep, GatedRwaNote.machine] using hs
  have heff : GatedRwaNote.NoteEffect isVerified msg s c s' :=
    GatedRwaNote.call_effect hi.conserved hi.bypass hok
  cases heff with
  | quiet hord hsame hbal hsup => exact hi.keep hord hsame (hi.conserved.congr hbal hsup)
  | moved hord hsame hm hc _ _ => exact hi.keep hord hsame hc
  | @configured proposer approver h0 hne =>
    refine ⟨hi.bypass, hi.conserved, fun _ => hne, hi.fresh, fun id hp => ?_,
      fun id hp => (hi.requested id hp).concat _, fun e' he' id hcall => ?_⟩
    · -- nobody can have proposed before
      exact absurd ((hi.proposer id hp).trans h0) hp
    · rcases List.mem_append.1 he' with he' | he'
      · exact hi.executed e' he' id hcall
      · rw [List.mem_singleton.1 he'] at hcall
        cases hcall
  | @proposed kind from_ to_ amount reasonHash hsender h0 hburn hmax =>
    have hfresh := hi.fresh s.nextRecoveryId (BitVec.le_refl _)
    refine hi.write s.nextRecoveryId rfl rfl hi.bypass hi.conserved rfl ?_ hsender ?_ ?_
      (fun _ h => by cases h)
    · intro id' hle
      have hle' : s.nextRecoveryId + 1 ≤ id' := hle
      rw [BitVec.le_def, bv_toNat_add_one hmax] at hle'
      have hlt : s.nextRecoveryId < id' := BitVec.lt_def.2 hle'
      exact ⟨BitVec.le_of_lt hlt, (BitVec.ne_of_lt hlt).symm⟩
    · refine ⟨es, _, [], rfl, ⟨rfl, rfl, hsender, rfl, rfl, ?_, ?_⟩, fun h => absurd rfl h⟩
      · cases kind with
        | transfer => rfl
        | burn => exact (hburn rfl).symm
      · simp
    · intro e' he' hcall
      rcases List.mem_append.1 he' with he' | he'
      · -- no earlier transaction executed an id that was not given out
        have := hi.executed e' he' _ hcall
        rw [hfresh] at this
        cases this
      · rw [List.mem_singleton.1 he'] at hcall
        cases hcall
  | @approved id hsender hp ha hx =>
    have hprop := hi.proposer id hp
    refine hi.write id rfl rfl hi.bypass hi.conserved rfl (fun id' hle => ⟨hle, ?_⟩) hprop ?_ ?_
      (fun _ h => by cases h)
    · rintro rfl
      rw [hi.fresh _ hle] at hp
      exact hp rfl
    · refine (hi.requested id hp).approve ⟨rfl, hsender, rfl, ?_⟩
      change msg.sender ≠ (s.recoveryRequests id).proposer
      rw [hsender, hprop]
      exact (hi.governance (hprop ▸ hp)).symm
    · intro e' he' hcall
      rcases List.mem_append.1 he' with he' | he'
      · exact hi.executed e' he' _ hcall
      · rw [List.mem_singleton.1 he'] at hcall
        cases hcall
  | @executed id token hp hx ha ht hm hc hto =>
    refine hi.write id rfl rfl rfl hc rfl (fun id' hle => ⟨hle, ?_⟩) (hi.proposer id hp)
      ((hi.requested id hp).execute.concat _) (fun _ _ _ => rfl) fun id' hcall => ?_
    · rintro rfl
      rw [hi.fresh _ hle] at hp
      exact hp rfl
    · cases hcall
      rfl

end NoteInv

theorem noteInv_construct {view : RegistryView} {registry : Address} {policyId : U256}
    {initialOwner : Address} {note : GatedRwaNote}
    (h : GatedRwaNote.construct view registry policyId initialOwner = .ok note) :
    NoteInv [] note ∧ note.POLICY_ID = policyId ∧ view.policyFrozen policyId = true ∧
      view.policyRequiresRoster policyId = true := by
  simp only [GatedRwaNote.construct, bind_ok, mapError_ok, revertIf_ok, not_not, pure_ok] at h
  obtain ⟨o, -, _, -, _, hfrozen, _, -, _, hroster, rfl⟩ := h
  refine ⟨⟨rfl, conserved_deployed, fun h => absurd rfl h, fun _ _ => rfl, fun _ h => absurd rfl h,
    fun _ h => absurd rfl h, by simp⟩, rfl, hfrozen, hroster⟩

/-- **Every run keeps the invariant.** -/
theorem noteInv_run {note₀ note : GatedRwaNote} {es : List NoteEntry} (h₀ : NoteInv [] note₀)
    (hrun : GatedRwaNote.machine.Run note₀ es note) : NoteInv es note :=
  hrun.history (H := NoteInv) h₀ fun _ _ _ hi hs => hi.step hs

/-! ## The gate and the protocol -/

/-- What a transaction does to balances, with respect to the registry at that moment. -/
structure Gated (e : NoteEntry) : Prop where
  credited : ∀ a, e.pre.token.balances a < e.post.token.balances a →
    e.act.isVerified a e.pre.POLICY_ID = true
  debited : (∀ id, e.act.call ≠ .executeRecovery id) → ∀ a,
    e.post.token.balances a < e.pre.token.balances a → e.act.isVerified a e.pre.POLICY_ID = true

/-- An execution after the transactions `es`: its request was proposed by the proposer and
    approved by a different approver, the delay has elapsed, and exactly the amount moves. -/
def Recovered (es : List NoteEntry) (e : NoteEntry) (id : U256) : Prop :=
  ∃ es₁ p es₂ q es₃ kind from_ to_ amount reasonHash,
    es = es₁ ++ p :: (es₂ ++ q :: es₃) ∧
    p.act.call = .proposeRecovery kind from_ to_ amount reasonHash ∧ p.pre.nextRecoveryId = id ∧
    p.post.recoveryRequests id = ⟨from_, to_, amount, reasonHash, p.act.msg.sender, 0,
      BitVec.ofNat 40 (p.act.msg.timestamp + GatedRwaNote.MIN_RECOVERY_DELAY), kind, false⟩ ∧
    p.act.msg.sender = p.pre.recoveryProposer ∧
    q.act.call = .approveRecovery id ∧ q.act.msg.sender = q.pre.recoveryApprover ∧
    q.act.msg.sender ≠ p.act.msg.sender ∧
    p.act.msg.timestamp + GatedRwaNote.MIN_RECOVERY_DELAY ≤ e.act.msg.timestamp ∧
    Moved from_ to_ amount e.pre.token e.post.token

theorem Moved.credited {t t' : ERC20} {from_ to_ a : Address} {value : U256}
    (h : Moved from_ to_ value t t') (hlt : t.balances a < t'.balances a) : a = to_ ∧ to_ ≠ 0 := by
  have hb := h.balances a
  rw [BitVec.lt_def] at hlt
  by_cases ha : a = to_ ∧ a ≠ 0
  · exact ⟨ha.1, ha.1 ▸ ha.2⟩
  · rw [if_neg ha] at hb
    omega

theorem Moved.debited {t t' : ERC20} {from_ to_ a : Address} {value : U256}
    (h : Moved from_ to_ value t t') (hlt : t'.balances a < t.balances a) :
    a = from_ ∧ from_ ≠ 0 := by
  have hb := h.balances a
  rw [BitVec.lt_def] at hlt
  by_cases ha : a = from_ ∧ a ≠ 0
  · exact ⟨ha.1, ha.1 ▸ ha.2⟩
  · rw [if_neg ha] at hb
    omega

section
variable {es : List NoteEntry} {e : NoteEntry}

theorem noteEffect_of_step (hi : NoteInv es e.pre) (hs : GatedRwaNote.machine.IsStep e) :
    GatedRwaNote.NoteEffect e.act.isVerified e.act.msg e.pre e.act.call e.post := by
  refine GatedRwaNote.call_effect hi.conserved hi.bypass ?_
  simpa [Machine.IsStep, GatedRwaNote.machine] using hs

/-- **Every transaction is gated.** -/
theorem gated_of_step (hi : NoteInv es e.pre) (hs : GatedRwaNote.machine.IsStep e) : Gated e := by
  have heff := noteEffect_of_step hi hs
  obtain ⟨s, ⟨isVerified, msg, c⟩, _, s'⟩ := e
  dsimp only at heff
  cases heff with
  | quiet _ _ hbal _ =>
    constructor
    · intro a hlt
      rw [hbal] at hlt
      exact absurd hlt (BitVec.lt_irrefl _)
    · intro _ a hlt
      rw [hbal] at hlt
      exact absurd hlt (BitVec.lt_irrefl _)
  | moved _ _ hm _ hfrom hto =>
    constructor
    · intro a hlt
      obtain ⟨rfl, h0⟩ := Moved.credited hm hlt
      exact hto h0
    · intro _ a hlt
      obtain ⟨rfl, h0⟩ := Moved.debited hm hlt
      exact hfrom h0
  | configured _ _ => exact ⟨fun a h => absurd h (BitVec.lt_irrefl _), fun _ a h => absurd h (BitVec.lt_irrefl _)⟩
  | proposed _ _ _ _ =>
    exact ⟨fun a h => absurd h (BitVec.lt_irrefl _), fun _ a h => absurd h (BitVec.lt_irrefl _)⟩
  | approved _ _ _ _ =>
    exact ⟨fun a h => absurd h (BitVec.lt_irrefl _), fun _ a h => absurd h (BitVec.lt_irrefl _)⟩
  | @executed id token _ _ _ _ hm _ hto =>
    constructor
    · intro a hlt
      obtain ⟨rfl, h0⟩ := Moved.credited hm hlt
      exact hto h0
    · intro hne
      exact absurd rfl (hne id)

/-- **Every execution goes back to its proposal and its approval.** -/
theorem recovered_of_step (hi : NoteInv es e.pre) (hs : GatedRwaNote.machine.IsStep e) {id : U256}
    (hcall : e.act.call = .executeRecovery id)
    (htime : ∀ p ∈ es, p.act.msg.timestamp < 2 ^ 40 - GatedRwaNote.MIN_RECOVERY_DELAY) :
    Recovered es e id := by
  have heff := noteEffect_of_step hi hs
  obtain ⟨s, ⟨isVerified, msg, c⟩, _, s'⟩ := e
  dsimp only at heff hcall
  subst hcall
  cases heff with
  | quiet hord => cases hord
  | moved hord => cases hord
  | @executed _ token hp hx ha ht hm hc hto =>
    obtain ⟨es₁, p, es₂, rfl, hpp, hq⟩ := hi.requested id hp
    obtain ⟨es₃, q, es₄, rfl, hqq⟩ := hq ha
    have hpt := htime p (by simp)
    refine ⟨es₁, p, es₃, q, es₄, _, _, _, _, _, rfl, hpp.call, hpp.recoveryId, ?_, hpp.sender, hqq.call,
      hqq.sender, ?_, ?_, ?_⟩
    · rw [hpp.stored, ← hpp.proposer, ← hpp.executeAfter]
    · rw [← hqq.approver, ← hpp.proposer]
      exact hqq.other
    · rw [hpp.executeAfter, BitVec.toNat_ofNat, Nat.mod_eq_of_lt (by omega)] at ht
      exact ht
    · rw [hpp.recipient] at hm
      exact hm

/-- An executed request is not executed again. -/
theorem not_executed_twice (hi : NoteInv es e.pre) (hs : GatedRwaNote.machine.IsStep e) {id : U256}
    {e' : NoteEntry} (he' : e' ∈ es) (hcall' : e'.act.call = .executeRecovery id) :
    e.act.call ≠ .executeRecovery id := by
  intro hcall
  have heff := noteEffect_of_step hi hs
  have hex := hi.executed e' he' id hcall'
  rw [hcall] at heff
  generalize e.post = s' at heff
  cases heff with
  | quiet hord => cases hord
  | moved hord => cases hord
  | executed _ hx =>
    rw [hex] at hx
    cases hx

end

/-- What the constructor of the note reads of the registry. -/
def ProofmarkRegistry.view (r : ProofmarkRegistry) : RegistryView :=
  ⟨r.policyFrozen, r.policyRequiresRoster, 1⟩

/-- **The gate, the recovery protocol and conservation**, in every run of the note from its
    construction, whatever the registry answers; and over `ProofmarkRegistry` the policy of
    the gate stays what it was at construction. -/
theorem note_governance {view : RegistryView} {registry : Address} {policyId : U256}
    {initialOwner : Address} {note₀ note : GatedRwaNote} {es : List NoteEntry}
    (hconstruct : GatedRwaNote.construct view registry policyId initialOwner = .ok note₀)
    (hrun : GatedRwaNote.machine.Run note₀ es note)
    (htime : ∀ e ∈ es, e.act.msg.timestamp < 2 ^ 40 - GatedRwaNote.MIN_RECOVERY_DELAY) :
    (∀ e ∈ es, Gated e) ∧
    (∀ es₁ e es₂ id, es = es₁ ++ e :: es₂ → e.act.call = .executeRecovery id →
      Recovered es₁ e id) ∧
    (∀ es₁ e es₂ e' es₃ id, es = es₁ ++ e :: (es₂ ++ e' :: es₃) →
      e.act.call = .executeRecovery id → e'.act.call ≠ .executeRecovery id) ∧
    note.complianceBypass = false ∧ note.token.held = note.token.totalSupply.toNat ∧
    ∀ (env : HubEnv) (owner : Address) (hes₁ hes₂ : List HubChainEntry) (h₁ h₂ : Hub),
      (Hub.machine env).Run (.deployed owner) hes₁ h₁ → view = h₁.registry.view →
      (Hub.machine env).Run h₁ hes₂ h₂ →
      h₂.registry.policies policyId = h₁.registry.policies policyId ∧
        h₂.registry.policyKind policyId = h₁.registry.policyKind policyId ∧
        h₂.registry.policyFrozen policyId = true ∧
        h₂.registry.policyRequiresRoster policyId = true := by
  obtain ⟨h₀, -, hfrozen, hroster⟩ := noteInv_construct hconstruct
  have hi := noteInv_run h₀ hrun
  refine ⟨?_, ?_, ?_, hi.bypass, hi.conserved, ?_⟩
  · intro e he
    obtain ⟨es₁, es₂, -, h1, h2, -⟩ := hrun.of_mem he
    exact gated_of_step (noteInv_run h₀ h1) h2
  · rintro es₁ e es₂ id rfl hcall
    obtain ⟨h1, h2, -⟩ := hrun.split
    exact recovered_of_step (noteInv_run h₀ h1) h2 hcall fun p hp => htime p (by simp [hp])
  · rintro es₁ e es₂ e' es₃ id rfl hcall
    rw [← List.cons_append, ← List.append_assoc] at hrun
    obtain ⟨h1, h2, -⟩ := hrun.split
    exact not_executed_twice (noteInv_run h₀ h1) h2 (by simp) hcall
  · rintro env owner hes₁ hes₂ h₁ h₂ hr₁ rfl hr₂
    obtain ⟨hp, hk, hf⟩ := frozen_policy_kept hr₁ hr₂ hfrozen
    have hreq : h₂.registry.policyRequiresRoster policyId = true := by
      rw [ProofmarkRegistry.policyRequiresRoster, hp]
      exact hroster
    exact ⟨hp, hk, hf, hreq⟩

/-! A note over the roster policy, once its owner has frozen it: a holder who is no longer
verified loses 40 of 100 units to a verified one. -/

def frozenHub : Hub :=
  (Hub.machine rosterEnv).final (.deployed 1)
    (rosterCalls ++ [(⟨9, 0, 4600, Sender.outsider⟩, .registry (.freezePolicy 1))])

def recoveryNote : GatedRwaNote :=
  { token := .deployed
    ownable := ⟨1, 0⟩
    REGISTRY := 70
    POLICY_ID := 1
    complianceBypass := false
    recoveryProposer := 0
    recoveryApprover := 0
    nextRecoveryId := 1
    recoveryRequests := fun _ => .empty }

def recoveryActions : List NoteAction :=
  let all : Address → U256 → Bool := fun _ _ => true
  let others : Address → U256 → Bool := fun a _ => a != 7
  [⟨all, ⟨1, 0, 5000, Sender.owner⟩, .mint 7 100⟩,
    ⟨all, ⟨1, 0, 5000, Sender.owner⟩, .configureRecoveryGovernance 3 4⟩,
    ⟨others, ⟨3, 0, 6000, Sender.issuer⟩, .proposeRecovery .transfer 7 8 40 5⟩,
    ⟨others, ⟨4, 0, 6100, Sender.approver⟩, .approveRecovery 1⟩,
    ⟨others, ⟨9, 0, 9600, Sender.outsider⟩, .executeRecovery 1⟩]

def recoveryRun : List NoteEntry := GatedRwaNote.machine.trace recoveryNote recoveryActions

theorem note_governance_recovery :
    (∃ e ∈ recoveryRun, e.act.call = .executeRecovery 1 ∧ Recovered (recoveryRun.take 4) e 1) ∧
      (GatedRwaNote.machine.final recoveryNote recoveryActions).token.held = 100 := by
  have hconstruct : GatedRwaNote.construct frozenHub.registry.view 70 1 1 = .ok recoveryNote := by
    simp only [GatedRwaNote.construct, bind_ok, mapError_ok, revertIf_ok, pure_ok]
    exact ⟨⟨1, 0⟩, by rfl, (), by decide, (), by decide +kernel, (), by decide, (), by decide +kernel,
      rfl⟩
  have h := note_governance hconstruct (GatedRwaNote.machine.run_trace recoveryNote recoveryActions)
    (by decide +kernel)
  constructor
  · have hcall : (recoveryRun[4]?.map fun e => (e.act.msg.timestamp, e.pre.nextRecoveryId)) =
      some (9600, 2) := by decide +kernel
    obtain ⟨e, he, -⟩ := Option.map_eq_some_iff.1 hcall
    obtain ⟨hlt, rfl⟩ := List.getElem?_eq_some_iff.1 he
    have hex : recoveryRun[4].act.call = .executeRecovery 1 := by rfl
    refine ⟨_, List.getElem_mem hlt, hex, h.2.1 _ _ (recoveryRun.drop 5) 1 ?_ hex⟩
    rw [← recoveryRun, List.getElem_cons_drop, List.take_append_drop]
  · have hsupply : (GatedRwaNote.machine.final recoveryNote recoveryActions).token.totalSupply =
      100 := by decide +kernel
    rw [h.2.2.2.2.1, hsupply]
    rfl

end Proofmark
