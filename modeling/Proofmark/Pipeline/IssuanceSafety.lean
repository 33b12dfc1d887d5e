/-
  The safety of issuance delivery.

  `StoreInv` is what holds of the journal: a request with a signed transaction that needs
  its signer holds the gate.  `RunInv` ties each run that still owns the lease of its
  request to the stored payload.  From both, the transaction of a request is replaced only
  after its revert was observed, and a run that lost its lease changes nothing.
-/
import Proofmark.Pipeline.IssuanceEffects
import Proofmark.Pipeline.VaultCompliance

namespace Proofmark

open Revert

/-! ## The journal -/

/-- The owner that a call writes for. -/
def IssuanceCall.owner : IssuanceCall → Option ℕ
  | .get => none
  | .acquire o _ | .save o _ | .release o => some o

theorem SoundEntry.mono {R R' : SignedIssuance → Prop} {D D' : Option VaultRecord → Prop}
    {id : RequestId} {p : IssuanceEntry} (hs : SoundEntry R D id p) (hR : ∀ t, R t → R' t)
    (hD : ∀ x, D x → D' x) : SoundEntry R' D' id p :=
  ⟨hs.requestId, hs.stored, fun h => hD _ (hs.put h), fun hp hl t ht => hR t (hs.reverted hp hl t ht)⟩

namespace IssuanceRedis

variable {s s' : IssuanceRedis} {id : RequestId} {c : IssuanceCall} {n : ℕ}
  {r : Except IssuanceJournalError (Option JournalSnapshot)}
  {R R' : RequestId → SignedIssuance → Prop} {D D' : RequestId → Option VaultRecord → Prop}

/-- What holds of the journal after any run, with owners below `n`. -/
structure StoreInv (R : RequestId → SignedIssuance → Prop)
    (D : RequestId → Option VaultRecord → Prop) (s : IssuanceRedis) (n : ℕ) : Prop where
  sound : ∀ id h, s.requests id = some h → SoundEntry (R id) (D id) id h.payload
  signer : ∀ id h, s.requests id = some h →
    h.needsSigner = h.payload.needsSigner ∧ h.signer = h.payload.signerKey
  gate : ∀ id h, s.requests id = some h → h.payload.transaction.isSome = true →
    h.needsSigner = true → s.signers h.signer = some id
  owners : ∀ id h l, s.requests id = some h → h.lease = some l → l.1 < n

theorem StoreInv.mono (hi : StoreInv R D s n) {n' : ℕ} (hR : ∀ id t, R id t → R' id t)
    (hD : ∀ id x, D id x → D' id x) (hn : n ≤ n') : StoreInv R' D' s n' :=
  ⟨fun id h hh => (hi.sound id h hh).mono (hR id) (hD id), hi.signer, hi.gate,
    fun id h l hh hl => (hi.owners id h l hh hl).trans_le hn⟩

/-- A request other than the one that changed keeps its gate. -/
theorem gate_other {h : IssuanceHash} {id' : RequestId} (hne : id' ≠ id)
    (hg : s.signers h.signer = some id') (signer : SignerKey) (b : Bool)
    (hgate : b = true → ¬ s.signerBusy id signer) :
    s.savedGates id signer b h.signer = some id' := by
  unfold savedGates
  by_cases hs : h.signer = signer
  · subst hs
    split
    · next hb => exact absurd ⟨id', hg, hne⟩ (hgate hb)
    · rw [if_neg]
      · exact hg
      · rw [hg, Option.some.injEq]
        exact hne
  · split
    · rw [Function.update_of_ne hs, hg]
    · split
      · rw [Function.update_of_ne hs, hg]
      · exact hg

/-- **The calls keep the journal's invariant.** -/
theorem StoreInv.call (hi : StoreInv R D s n) (heff : CallEffect s id c s' r)
    (howner : ∀ o ∈ c.owner, o < n)
    (hsave : ∀ o snapshot, c = .save o snapshot → SoundEntry (R id) (D id) id snapshot.entry) :
    StoreInv R D s' n := by
  cases heff with
  | failed _ e => exact hi
  | kept _ => exact hi
  | read h hh => exact hi
  | acquired owner h _ hh hfree hgate hr =>
    refine ⟨fun id' g hg => ?_, fun id' g hg => ?_, fun id' g hg ht hn => ?_, fun id' g l hg hl => ?_⟩
    all_goals
      dsimp only at hg
      rw [Function.update_apply] at hg
      split at hg
    · next he =>
      cases hg
      exact he ▸ hi.sound id h hh
    · exact hi.sound id' g hg
    · cases hg
      exact hi.signer id h hh
    · exact hi.signer id' g hg
    · next he =>
      cases hg
      change (if h.needsSigner = true then _ else s.signers) h.signer = some id'
      change h.needsSigner = true at hn
      rw [if_pos hn, Function.update_self, he]
    · next he =>
      have hold := hi.gate id' g hg ht hn
      have hother := gate_other he hold h.signer h.needsSigner hgate
      change (if h.needsSigner = true then _ else s.signers) g.signer = some id'
      unfold savedGates at hother
      split
      · next hb => rwa [if_pos hb] at hother
      · exact hold
    · cases hg
      cases hl
      exact howner owner rfl
    · exact hi.owners id' g l hg hl
  | saved owner u snapshot h h' _ hh hlease hlive hsigner hgate hp hn' hs' hl' hr =>
    refine ⟨fun id' g hg => ?_, fun id' g hg => ?_, fun id' g hg ht hn => ?_, fun id' g l hg hl => ?_⟩
    all_goals
      dsimp only at hg
      rw [Function.update_apply] at hg
      split at hg
    · next he =>
      cases hg
      subst he
      rw [hp]
      exact hsave owner snapshot rfl
    · exact hi.sound id' g hg
    · cases hg
      rw [hp, hs', hn']
      exact ⟨rfl, hsigner⟩
    · exact hi.signer id' g hg
    · next he =>
      cases hg
      change s.savedGates id h.signer _ h'.signer = some id'
      rw [hs', savedGates, if_pos (hn' ▸ hn), Function.update_self, he]
    · next he => exact gate_other he (hi.gate id' g hg ht hn) h.signer _ hgate
    · cases hg
      rw [hl'] at hl
      cases hl
      exact howner owner rfl
    · exact hi.owners id' g l hg hl
  | released owner h _ hh hlease =>
    refine ⟨fun id' g hg => ?_, fun id' g hg => ?_, fun id' g hg ht hn => ?_, fun id' g l hg hl => ?_⟩
    all_goals
      dsimp only at hg
      rw [Function.update_apply] at hg
      split at hg
    · next he =>
      cases hg
      exact he ▸ hi.sound id h hh
    · exact hi.sound id' g hg
    · cases hg
      exact hi.signer id h hh
    · exact hi.signer id' g hg
    · next he =>
      cases hg
      exact he ▸ hi.gate id h hh ht hn
    · exact hi.gate id' g hg ht hn
    · cases hg
      cases hl
    · exact hi.owners id' g l hg hl

/-- **What `create` does.** -/
theorem create_effect (s : IssuanceRedis) (entry : IssuanceEntry) :
    s.create entry = s ∨ s.requests entry.requestId = none ∧ ∃ h : IssuanceHash,
      s.create entry =
        { s with requests := Function.update s.requests entry.requestId (some h) } ∧
      h.payload = entry ∧ h.needsSigner = entry.needsSigner ∧ h.signer = entry.signerKey ∧
      h.lease = none := by
  unfold create
  split
  · exact .inl rfl
  · next hn =>
    split
    · exact .inl rfl
    · exact .inr ⟨by simpa using hn, _, rfl, rfl, rfl, rfl, rfl⟩

theorem StoreInv.create (hi : StoreInv R D s n) {entry : IssuanceEntry} (hf : entry.fresh) :
    StoreInv R D (s.create entry) n := by
  obtain ⟨hp, ht, he⟩ := hf
  rw [Option.isNone_iff_eq_none] at ht
  rcases create_effect s entry with heq | ⟨hnone, h, heq, hpay, hneeds, hsign, hlease⟩
  · rw [heq]
    exact hi
  rw [heq]
  refine ⟨fun id g hg => ?_, fun id g hg => ?_, fun id g hg hts hn => ?_, fun id g l hg hl => ?_⟩
  all_goals
    dsimp only at hg
    rw [Function.update_apply] at hg
    split at hg
  · next hid =>
    cases hg
    rw [hpay]
    refine ⟨hid.symm, fun h => ?_, fun h => ?_, fun h => ?_⟩
    · rw [ht] at h
      cases h
    · rw [he] at h
      cases h
    · rw [hp] at h
      cases h
  · exact hi.sound id g hg
  · cases hg
    rw [hpay]
    exact ⟨hneeds, hsign⟩
  · exact hi.signer id g hg
  · cases hg
    rw [hpay, ht] at hts
    cases hts
  · exact hi.gate id g hg hts hn
  · cases hg
    rw [hlease] at hl
    cases hl
  · exact hi.owners id g l hg hl

theorem create_frame {entry : IssuanceEntry} {g : IssuanceHash} {l : ℕ × ℕ}
    (hg : (s.create entry).requests id = some g) (hl : g.lease = some l) :
    s.requests id = some g := by
  rcases create_effect s entry with heq | ⟨-, h, heq, -, -, -, hlease⟩
  · rwa [heq] at hg
  · rw [heq] at hg
    dsimp only at hg
    rw [Function.update_apply] at hg
    split at hg
    · cases hg
      rw [hlease] at hl
      cases hl
    · exact hg

/-- What is leased to another owner is not touched. -/
theorem CallEffect.frame (heff : CallEffect s id c s' r) {id' : RequestId} {g : IssuanceHash}
    {l : ℕ × ℕ} (hg : s'.requests id' = some g) (hl : g.lease = some l) (hne : c.owner ≠ some l.1) :
    s.requests id' = some g := by
  cases heff with
  | failed _ e => exact hg
  | kept _ => exact hg
  | read h hh => exact hg
  | acquired owner h _ hh hfree hgate hr =>
    dsimp only at hg
    rw [Function.update_apply] at hg
    split at hg
    · cases hg
      cases hl
      exact absurd rfl hne
    · exact hg
  | saved owner u snapshot h h' _ hh hlease hlive hsigner hgate hp hn' hs' hl' hr =>
    dsimp only at hg
    rw [Function.update_apply] at hg
    split at hg
    · cases hg
      rw [hl'] at hl
      cases hl
      exact absurd rfl hne
    · exact hg
  | released owner h _ hh hlease =>
    dsimp only at hg
    rw [Function.update_apply] at hg
    split at hg
    · cases hg
      cases hl
    · exact hg

/-- Only the caller's request is touched. -/
theorem CallEffect.other (heff : CallEffect s id c s' r) {id' : RequestId} (hne : id' ≠ id) :
    s'.requests id' = s.requests id' := by
  cases heff with
  | failed _ e => rfl
  | kept _ => rfl
  | read h hh => rfl
  | acquired owner h _ hh hfree hgate hr => exact Function.update_of_ne hne ..
  | saved owner u snapshot h h' _ hh hlease hlive hsigner hgate hp hn' hs' hl' hr =>
    exact Function.update_of_ne hne ..
  | released owner h _ hh hlease => exact Function.update_of_ne hne ..

theorem CallEffect.now (heff : CallEffect s id c s' r) : s'.now = s.now := by
  cases heff <;> rfl

end IssuanceRedis

/-! ## The runs -/

/-- The request whose finished entry an action drops. -/
def IssuanceAction.expired : IssuanceAction → Option RequestId
  | .expire id => some id
  | _ => none

/-- The request that an action may create. -/
def IssuanceAction.created : IssuanceAction → Option RequestId
  | .create entry => some entry.requestId
  | _ => none

/-- A wallet flow is over, and its request not created again, when the finished entry expires. -/
def SingleUse (es : List IssuanceStep) : Prop :=
  es.Pairwise fun e e' => ∀ id ∈ e.act.expired, e'.act.created ≠ some id

instance (e e' : IssuanceStep) : Decidable (∀ id ∈ e.act.expired, e'.act.created ≠ some id) :=
  Option.decidableForallMem e.act.expired

instance (es : List IssuanceStep) : Decidable (SingleUse es) :=
  inferInstanceAs (Decidable (List.Pairwise _ _))

namespace IssuanceHost

variable {env : IssuanceEnv} {es es' : List IssuanceStep} {e : IssuanceStep} {s s' : IssuanceHost}
  {id : RequestId} {o : ℕ} {run : AdvanceRun} {w w' : AdvanceWork} {t : SignedIssuance}

/-- A step settles a service that a run for `id` awaits. -/
def Settles (e : IssuanceStep) (id : RequestId) (w : AdvanceWork) (reply : AdvanceReply) : Prop :=
  ∃ owner now run, e.act = .settle owner now reply ∧ e.pre.runs owner = some run ∧
    run.requestId = id ∧ run.stage = .advance w

/-- The transaction was observed as reverted, with the required confirmations. -/
def RevertObserved (env : IssuanceEnv) (es : List IssuanceStep) (id : RequestId)
    (t : SignedIssuance) : Prop :=
  ∃ e ∈ es, ∃ w reads, Settles e id w (.receipt reads) ∧
    (w.await = .receipt ∨ w.await = .receiptAgain) ∧ w.entry.transaction = some t ∧
    reads.Reverted env t

/-- The evidence was put into the vault. -/
def EvidencePut (es : List IssuanceStep) (id : RequestId) (record : Option VaultRecord) : Prop :=
  ∃ e ∈ es, ∃ w, Settles e id w .done ∧ w.await = .put ∧ w.entry.evidenceRecord = record

/-- The payload was in the journal. -/
def Journaled (es : List IssuanceStep) (id : RequestId) (p : IssuanceEntry) : Prop :=
  ∃ e ∈ es, ∃ h, e.post.redis.requests id = some h ∧ h.payload = p

theorem RevertObserved.mono (hsub : es ⊆ es') (h : RevertObserved env es id t) :
    RevertObserved env es' id t :=
  h.imp fun _ he => ⟨hsub he.1, he.2⟩

theorem EvidencePut.mono {x : Option VaultRecord} (hsub : es ⊆ es') (h : EvidencePut es id x) :
    EvidencePut es' id x :=
  h.imp fun _ he => ⟨hsub he.1, he.2⟩

theorem Journaled.mono {p : IssuanceEntry} (hsub : es ⊆ es') (h : Journaled es id p) :
    Journaled es' id p :=
  h.imp fun _ he => ⟨hsub he.1, he.2⟩

/-- The stored payload, as the run that holds the lease knows it. -/
def Held (R : SignedIssuance → Prop) (w : AdvanceWork) (p : IssuanceEntry) : Prop :=
  match w.await with
  | .save _ => KeepsTransaction R p w.entry
  | .saveReloaded c => c.entry.transaction = p.transaction
  | .reload | .release => True
  | _ => p = w.entry

/-- What holds of a run that works on a snapshot. -/
structure WorkInv (env : IssuanceEnv) (es : List IssuanceStep) (id : RequestId) (w : AdvanceWork) :
    Prop where
  facts : w.Facts (RevertObserved env es id)
  journaled : w.await.service = true → Journaled es id w.entry ∧
    SoundEntry (RevertObserved env es id) (EvidencePut es id) id w.entry
  saves : ∀ k, w.await = .save k →
    SoundEntry (RevertObserved env es id) (EvidencePut es id) id w.entry
  reloaded : ∀ c, w.await = .saveReloaded c →
    SoundEntry (RevertObserved env es id) (EvidencePut es id) id c.entry

structure RunInv (env : IssuanceEnv) (es : List IssuanceStep) (s : IssuanceHost) (o : ℕ)
    (run : AdvanceRun) : Prop where
  owner : o < s.nextOwner
  lease : ∀ id h u, s.redis.requests id = some h → h.lease = some (o, u) →
    id = run.requestId ∧ ∃ w, run.stage = .advance w ∧ Held (RevertObserved env es id) w h.payload
  work : ∀ w, run.stage = .advance w → WorkInv env es run.requestId w

structure HostInv (env : IssuanceEnv) (es : List IssuanceStep) (s : IssuanceHost) : Prop where
  store : IssuanceRedis.StoreInv (RevertObserved env es) (EvidencePut es) s.redis s.nextOwner
  runs : ∀ o run, s.runs o = some run → RunInv env es s o run

theorem Held.mono {R R' : SignedIssuance → Prop} {p : IssuanceEntry} (h : Held R w p)
    (hR : ∀ t, R t → R' t) : Held R' w p := by
  unfold Held at h ⊢
  split
  · next ha =>
    rw [ha] at h
    exact fun t ht => (h t ht).imp_right (hR t)
  · next ha => simpa only [ha] using h
  · trivial
  · trivial
  · next h1 h2 h3 h4 => simpa only [h1, h2, h3, h4] using h

theorem facts_mono {R R' : SignedIssuance → Prop} (h : w.Facts R) (hR : ∀ t, R t → R' t) :
    w.Facts R' := by
  unfold AdvanceWork.Facts at h ⊢
  generalize w.await = a at h ⊢
  cases a with
  | reconcile r =>
    cases r with
    | reverted c => exact fun t ht => hR t (h t ht)
    | pending => trivial
    | success c => trivial
  | reserve t => cases t <;> exact h
  | save k => cases k <;> exact h
  | _ => exact h

theorem WorkInv.mono (h : WorkInv env es id w) (hsub : es ⊆ es') : WorkInv env es' id w := by
  have hsound {p : IssuanceEntry}
      (hs : SoundEntry (RevertObserved env es id) (EvidencePut es id) id p) :
      SoundEntry (RevertObserved env es' id) (EvidencePut es' id) id p :=
    hs.mono (fun t => .mono hsub) (fun x => .mono hsub)
  exact ⟨facts_mono h.facts fun t => .mono hsub,
    fun ha => ⟨(h.journaled ha).1.mono hsub, hsound (h.journaled ha).2⟩,
    fun k ha => hsound (h.saves k ha), fun c ha => hsound (h.reloaded c ha)⟩

theorem RunInv.frame (hi : RunInv env es s o run) (hsub : es ⊆ es')
    (hn : s.nextOwner ≤ s'.nextOwner)
    (hframe : ∀ id h u, s'.redis.requests id = some h → h.lease = some (o, u) →
      s.redis.requests id = some h) : RunInv env es' s' o run := by
  refine ⟨hi.owner.trans_le hn, fun id h u hh hl => ?_, fun w hw => (hi.work w hw).mono hsub⟩
  obtain ⟨h1, w, hw, hheld⟩ := hi.lease id h u (hframe id h u hh hl) hl
  exact ⟨h1, w, hw, hheld.mono fun t => .mono hsub⟩

theorem workInv_of_follow (hj : Journaled es id w.entry)
    (hs : SoundEntry (RevertObserved env es id) (EvidencePut es id) id w.entry)
    (hf : AdvanceWork.Follow (RevertObserved env es id) (EvidencePut es id) id w w') :
    WorkInv env es id w' := by
  cases hf.edited with
  | kept he ha =>
    refine ⟨hf.facts, fun _ => by rw [he]; exact ⟨hj, hs⟩, fun k hk => ?_, fun c hc => ?_⟩
    · rcases ha with ha | ha | ha <;> rw [hk] at ha <;> cases ha
    · rcases ha with ha | ha | ha <;> rw [hc] at ha <;> cases ha
  | changed k ha hs' ht =>
    refine ⟨hf.facts, fun hserv => ?_, fun _ _ => hs', fun c hc => ?_⟩
    · rw [ha] at hserv
      cases hserv
    · rw [ha] at hc
      cases hc

theorem held_of_follow {R : SignedIssuance → Prop} {D : Option VaultRecord → Prop}
    (hf : AdvanceWork.Follow R D id w w') : Held R w' w.entry := by
  unfold Held
  cases hf.edited with
  | kept he ha =>
    split
    · next hk => rcases ha with ha | ha | ha <;> rw [hk] at ha <;> cases ha
    · next hk => rcases ha with ha | ha | ha <;> rw [hk] at ha <;> cases ha
    · trivial
    · trivial
    · exact he.symm
  | changed k ha hs' ht =>
    rw [ha]
    exact ht

/-- A run awaits a service where it does not await the journal. -/
theorem call_eq_none : w.call o = none ↔ w.await.service = true := by
  obtain ⟨revision, entry, reserved, await⟩ := w
  cases await <;> simp [AdvanceWork.call, AdvanceAwait.service]

theorem held_service {R : SignedIssuance → Prop} {p : IssuanceEntry} (hs : w.await.service = true)
    (hh : Held R w p) : p = w.entry := by
  unfold Held at hh
  unfold AdvanceAwait.service at hs
  split at hh
  · next k hk =>
    rw [hk] at hs
    cases hs
  · next c hk =>
    rw [hk] at hs
    cases hs
  · next hk =>
    rw [hk] at hs
    cases hs
  · next hk =>
    rw [hk] at hs
    cases hs
  · exact hh

/-- A run that is released relies on nothing. -/
theorem workInv_released (ha : w.await = .release) : WorkInv env es id w := by
  refine ⟨?_, fun h => ?_, fun k h => ?_, fun c h => ?_⟩
  · unfold AdvanceWork.Facts
    rw [ha]
    trivial
  · rw [ha] at h
    cases h
  · rw [ha] at h
    cases h
  · rw [ha] at h
    cases h

/-- Only the owner's calls write for it. -/
theorem callOf_owner {c : IssuanceCall} {stage : AdvanceStage} (hc : callOf o stage = some c) :
    ∀ x ∈ c.owner, x = o := by
  intro x hx
  unfold callOf AdvanceWork.call at hc
  split at hc
  · cases hc
    cases hx
  · cases hc
    cases hx
    rfl
  · split at hc <;> cases hc <;> cases hx <;> rfl

/-- What a run saves is sound. -/
theorem RunInv.saves {c : IssuanceCall} (hi : RunInv env es s o run)
    (hc : callOf o run.stage = some c) {x : ℕ} {snapshot : JournalSnapshot}
    (hs : c = .save x snapshot) :
    SoundEntry (RevertObserved env es run.requestId) (EvidencePut es run.requestId) run.requestId
      snapshot.entry := by
  subst hs
  unfold callOf AdvanceWork.call at hc
  split at hc
  · cases hc
  · cases hc
  · next w hw =>
    have hwork := hi.work w hw
    split at hc
    · next k ha =>
      cases hc
      exact hwork.saves k ha
    · cases hc
    · next c ha =>
      cases hc
      exact hwork.reloaded _ ha
    · cases hc
    · cases hc

theorem onResponse_save {options : AdvanceOptions} {now : ℕ} {k : AfterSave} {h : IssuanceHash}
    (ha : w.await = .save k) : w.onResponse options now (.ok (some h.snapshot)) =
      { w with revision := h.revision, entry := h.payload }.afterSave options now k := by
  cases w
  cases ha
  rfl

/-- Where nothing comes back the run ends. -/
theorem onResponse_lost {options : AdvanceOptions} {now : ℕ}
    {r : Except IssuanceJournalError (Option JournalSnapshot)}
    (ha : (∃ k, w.await = .save k) ∧ (∀ x, r ≠ .ok (some x)) ∨ ∃ c, w.await = .saveReloaded c) :
    (w.onResponse options now r).await = .release := by
  obtain ⟨revision, entry, reserved, await⟩ := w
  rcases ha with ⟨⟨k, ha⟩, hr⟩ | ⟨c, ha⟩
  · cases ha
    match r, hr with
    | .error e, _ => rfl
    | .ok none, _ => rfl
    | .ok (some x), hr => exact absurd rfl (hr x)
  · cases ha
    rfl

/-- A run goes on from the response of a journal call. -/
theorem onResponse_inv {c : IssuanceCall} {now : ℕ} {options : AdvanceOptions}
    {redis redis' : IssuanceRedis} {r : Except IssuanceJournalError (Option JournalSnapshot)}
    (hi : WorkInv env es id w)
    (hheld : ∀ h u, redis.requests id = some h → h.lease = some (o, u) →
      Held (RevertObserved env es id) w h.payload)
    (hsound : ∀ h, redis.requests id = some h →
      SoundEntry (RevertObserved env es' id) (EvidencePut es' id) id h.payload)
    (hsub : es ⊆ es') (hj' : ∀ h, redis'.requests id = some h → Journaled es' id h.payload)
    (hc : w.call o = some c) (hnr : w.await = .release → False)
    (heff : redis.CallEffect id c redis' r) :
    WorkInv env es' id (w.onResponse options now r) ∧
    ∀ h u, redis'.requests id = some h → h.lease = some (o, u) →
      Held (RevertObserved env es' id) (w.onResponse options now r) h.payload := by
  have hreleased (h : (w.onResponse options now r).await = .release) :
      WorkInv env es' id (w.onResponse options now r) ∧
      ∀ h u, redis'.requests id = some h → h.lease = some (o, u) →
        Held (RevertObserved env es' id) (w.onResponse options now r) h.payload := by
    refine ⟨workInv_released h, fun _ _ _ _ => ?_⟩
    unfold Held
    rw [h]
    trivial
  unfold AdvanceWork.call at hc
  split at hc
  · next k ha =>
    cases hc
    cases heff with
    | failed _ e => exact hreleased (onResponse_lost (.inl ⟨⟨k, ha⟩, fun x h => by cases h⟩))
    | kept _ => exact hreleased (onResponse_lost (.inl ⟨⟨k, ha⟩, fun x h => by cases h⟩))
    | saved _ u snapshot h h' _ hh hl hlive hsigner hgate hp hn' hs' hl' hr =>
      cases r with
      | error e => exact hreleased (onResponse_lost (.inl ⟨⟨k, ha⟩, fun x h => by cases h⟩))
      | ok x =>
        have hx := hr x rfl
        subst hx
        rw [onResponse_save ha]
        have hw : SoundEntry (RevertObserved env es' id) (EvidencePut es' id) id h'.payload := by
          rw [hp]
          exact (hi.saves k ha).mono (fun t => .mono hsub) (fun x => .mono hsub)
        have hself := hj' h' (Function.update_self ..)
        have hf : AdvanceWork.Follow (RevertObserved env es' id) (EvidencePut es' id) id
            { w with revision := h'.revision, entry := h'.payload }
            ({ w with revision := h'.revision, entry := h'.payload }.afterSave options now k) :=
          AdvanceWork.afterSave_follow hw (by
            have hfacts := facts_mono hi.facts fun t => RevertObserved.mono hsub
            unfold AdvanceWork.Facts at hfacts ⊢
            rw [ha] at hfacts
            change match AdvanceAwait.save k with
              | _ => _
            rw [hp]
            exact hfacts)
        refine ⟨workInv_of_follow hself hw hf, fun g u hg _ => ?_⟩
        dsimp only at hg
        rw [Function.update_self] at hg
        cases hg
        exact held_of_follow hf
  · next ha =>
    cases hc
    have hnone (hr : ∀ x, r ≠ .ok (some x)) : (w.onResponse options now r).await = .release := by
      obtain ⟨revision, entry, reserved, await⟩ := w
      cases ha
      match r, hr with
      | .error e, _ => rfl
      | .ok none, _ => rfl
      | .ok (some x), hr => exact absurd rfl (hr x)
    cases heff with
    | failed _ e => exact hreleased (hnone fun x h => by cases h)
    | kept _ => exact hreleased (hnone fun x h => by cases h)
    | read h hh =>
      have hs := hsound h hh
      have hw : w.onResponse options now (.ok (some h.snapshot)) =
          if h.revision = w.revision ∧ h.payload.phase ≠ .failed then
            w.goto (.saveReloaded ⟨h.revision,
              { h.payload with lastError := some .dependencyUnavailable }⟩)
          else w.goto .release := by
        cases w
        cases ha
        rfl
      rw [hw] at hreleased ⊢
      split at hreleased
      · next hcond =>
        rw [if_pos hcond]
        refine ⟨⟨trivial, fun h => (by cases h), fun k h => (by cases h), fun c hc => ?_⟩,
          fun g u hg _ => ?_⟩
        · cases hc
          exact ⟨hs.requestId, hs.stored, hs.put, fun hp => absurd hp hcond.2⟩
        · rw [hh] at hg
          cases hg
          exact rfl
      · next hcond =>
        rw [if_neg hcond]
        exact hreleased rfl
  · next current ha =>
    cases hc
    exact hreleased (onResponse_lost (.inr ⟨current, ha⟩))
  · next ha => exact absurd ha hnr
  · cases hc

/-- **The run whose journal call ends keeps its invariant.** -/
theorem RunInv.respond {c : IssuanceCall} {now : ℕ} {redis : IssuanceRedis} {run' : AdvanceRun}
    {r : Except IssuanceJournalError (Option JournalSnapshot)}
    (hi : RunInv env es s o run) (hstore : IssuanceRedis.StoreInv (RevertObserved env es)
      (EvidencePut es) s.redis s.nextOwner) (hsub : es ⊆ es')
    (hj' : ∀ id h, redis.requests id = some h → Journaled es' id h.payload)
    (hc : callOf o run.stage = some c) (heff : s.redis.CallEffect run.requestId c redis r)
    (hrun : run.respond now r = some run') (hred : s'.redis = redis)
    (hn : s'.nextOwner = s.nextOwner) : RunInv env es' s' o run' := by
  have hsound {id : RequestId} {h : IssuanceHash} (hh : s.redis.requests id = some h) :
      SoundEntry (RevertObserved env es' id) (EvidencePut es' id) id h.payload :=
    (hstore.sound id h hh).mono (fun t => RevertObserved.mono hsub)
      fun x => EvidencePut.mono hsub
  have howner : o < s'.nextOwner := hn ▸ hi.owner
  -- a lease that was there before the call, on a run that has one
  have hlease {id : RequestId} {h : IssuanceHash} {u : ℕ} (hh : s.redis.requests id = some h)
      (hl : h.lease = some (o, u)) : id = run.requestId ∧ ∃ w, run.stage = .advance w ∧
        Held (RevertObserved env es id) w h.payload := hi.lease id h u hh hl
  unfold AdvanceRun.respond at hrun
  split at hrun
  · next snapshot hst =>
    cases hrun
    rw [hst] at hc
    cases hc
    cases heff with
    | read h hh =>
      refine ⟨howner, fun id g u hg hl => ?_, fun w hw => by cases hw⟩
      rw [hred] at hg
      obtain ⟨-, w, hw, -⟩ := hlease hg hl
      rw [hst] at hw
      cases hw
  · next signer snapshot hst =>
    cases hrun
    rw [hst] at hc
    cases hc
    generalize hsnap : (Except.ok (some snapshot) :
      Except IssuanceJournalError (Option JournalSnapshot)) = r at heff
    cases heff with
    | failed _ e => cases hsnap
    | kept _ => cases hsnap
    | acquired _ h _ hh hfree hgate hr =>
      have hs := hr _ hsnap.symm
      cases hs
      have hself : s'.redis.requests run.requestId =
          some { h with lease := some (o, s.redis.now + requestLease) } := by
        rw [hred]
        exact Function.update_self ..
      have hjournal := hj' _ _ (hred ▸ hself)
      have hf : AdvanceWork.Follow (RevertObserved env es' run.requestId)
          (EvidencePut es' run.requestId) run.requestId ⟨h.revision, h.payload, false, .release⟩
          (AdvanceWork.begin_ run.options now ⟨h.revision, h.payload, false, .release⟩) :=
        AdvanceWork.follow_begin (hsound hh)
      refine ⟨howner, fun id g u hg hl => ?_, fun w hw => ?_⟩
      · by_cases hid : id = run.requestId
        · subst hid
          rw [hself] at hg
          cases hg
          exact ⟨rfl, _, rfl, held_of_follow hf⟩
        · rw [hred] at hg
          dsimp only at hg
          rw [Function.update_of_ne hid] at hg
          exact absurd (hlease hg hl).1 hid
      · cases hw
        exact workInv_of_follow hjournal (hsound hh) hf
  · next w hst =>
    split at hrun
    · cases hrun
    next hnr =>
    cases hrun
    rw [hst] at hc
    have hid (id : RequestId) (g : IssuanceHash) (u : ℕ) (hg : s'.redis.requests id = some g)
        (hl : g.lease = some (o, u)) : id = run.requestId := by
      by_contra hne
      rw [hred, heff.other hne] at hg
      exact hne (hlease hg hl).1
    obtain ⟨hwork, hheld⟩ := onResponse_inv (hi.work w hst)
      (fun h u hh hl => by
        obtain ⟨-, w', hw', hheld⟩ := hlease hh hl
        rw [hst] at hw'
        cases hw'
        exact hheld) (fun h hh => hsound hh) hsub (hj' run.requestId) hc hnr heff
    refine ⟨howner, fun id g u hg hl => ?_, fun w' hw' => ?_⟩
    · have he := hid id g u hg hl
      subst he
      exact ⟨rfl, _, rfl, hheld g u (hred ▸ hg) hl⟩
    · cases hw'
      exact hwork
  · cases hrun

/-- **How a run is resumed**: by the end of a journal call or by the answer of a service. -/
theorem resume_cases {now : ℕ} {reply : AdvanceReply} {r : IssuanceHost × IssuanceOutput}
    (h : s.resume env o now run reply = some r) :
    (∃ c d, callOf o run.stage = some c ∧ reply = .journal d ∧
      r = (s.answered o now run c d, .done)) ∨
    ∃ w w', run.stage = .advance w ∧ w.await.service = true ∧
      w.receive run.options now env reply = some w' ∧
      r = (s.setRun o (some { run with stage := .advance w' }), sends run.requestId w reply) := by
  unfold resume at h
  split at h
  · next c d hc =>
    cases h
    exact .inl ⟨c, d, hc, rfl, rfl⟩
  · next w hc hst =>
    rw [hst] at hc
    obtain ⟨w', hw', he⟩ := Option.map_eq_some_iff.1 h
    exact .inr ⟨w, w', hst, call_eq_none.1 hc, hw', he.symm⟩
  · cases h

/-- **Every step keeps the invariant of the host.** -/
theorem HostInv.step (hi : HostInv env es e.pre) (hs : (machine env).IsStep e) :
    HostInv env (es ++ [e]) e.post := by
  have hsub : es ⊆ es ++ [e] := List.subset_append_left ..
  have hmono {n : ℕ} (hn : e.pre.nextOwner ≤ n) : IssuanceRedis.StoreInv
      (RevertObserved env (es ++ [e])) (EvidencePut (es ++ [e])) e.pre.redis n :=
    hi.store.mono (fun _ _ => RevertObserved.mono hsub) (fun _ _ => EvidencePut.mono hsub) hn
  have hj' (id : RequestId) (h : IssuanceHash) (hh : e.post.redis.requests id = some h) :
      Journaled (es ++ [e]) id h.payload := ⟨e, by simp, h, hh, rfl⟩
  obtain ⟨s, a, out, s'⟩ := e
  dsimp only at hi hmono hj'
  -- the runs that a step leaves alone
  have hkeep {run : AdvanceRun} {o : ℕ} (hrun : s.runs o = some run)
      (hn : s.nextOwner ≤ s'.nextOwner)
      (hframe : ∀ id h u, s'.redis.requests id = some h → h.lease = some (o, u) →
        s.redis.requests id = some h) : RunInv env (es ++ [⟨s, a, out, s'⟩]) s' o run :=
    (hi.runs o run hrun).frame hsub hn hframe
  cases a with
  | tick ms =>
    rw [Machine.IsStep] at hs
    simp only [machine, pure_ok, Prod.mk.injEq] at hs
    obtain ⟨rfl, rfl⟩ := hs
    have hst := hmono le_rfl
    exact ⟨⟨hst.sound, hst.signer, hst.gate, hst.owners⟩,
      fun o run hrun => hkeep hrun le_rfl fun _ _ _ hh _ => hh⟩
  | create entry =>
    rw [Machine.IsStep] at hs
    simp only [machine, bind_ok, revertIf_ok, pure_ok, Prod.mk.injEq] at hs
    obtain ⟨_, hf, rfl, rfl⟩ := hs
    rw [not_not] at hf
    exact ⟨(hmono le_rfl).create hf,
      fun o run hrun => hkeep hrun le_rfl fun _ _ _ hh hl => IssuanceRedis.create_frame hh hl⟩
  | expire id =>
    rw [Machine.IsStep] at hs
    simp only [machine, bind_ok, revertIf_ok, pure_ok, Prod.mk.injEq] at hs
    obtain ⟨_, hf, rfl, rfl⟩ := hs
    have hst := hmono le_rfl
    have hold {id' : RequestId} {h : IssuanceHash}
        (hh : Function.update s.redis.requests id none id' = some h) :
        s.redis.requests id' = some h := by
      rw [Function.update_apply] at hh
      split at hh
      · cases hh
      · exact hh
    exact ⟨⟨fun id' h hh => hst.sound id' h (hold hh), fun id' h hh => hst.signer id' h (hold hh),
      fun id' h hh => hst.gate id' h (hold hh), fun id' h l hh => hst.owners id' h l (hold hh)⟩,
      fun o run hrun => hkeep hrun le_rfl fun _ _ _ hh _ => hold hh⟩
  | start id options =>
    rw [Machine.IsStep] at hs
    simp only [machine, pure_ok, Prod.mk.injEq] at hs
    obtain ⟨rfl, rfl⟩ := hs
    refine ⟨hmono (Nat.le_succ _), fun o run hrun => ?_⟩
    dsimp only at hrun
    rw [Function.update_apply] at hrun
    split at hrun
    · next ho =>
      cases hrun
      refine ⟨by rw [ho]; exact Nat.lt_succ_self _, fun id' h u hh hl => ?_, fun w hw => by cases hw⟩
      exact absurd (hi.store.owners id' h _ hh hl) (by rw [ho]; exact lt_irrefl _)
    · exact hkeep hrun (Nat.le_succ _) fun _ _ _ hh _ => hh
  | crash o =>
    rw [Machine.IsStep] at hs
    simp only [machine, pure_ok, Prod.mk.injEq] at hs
    obtain ⟨rfl, rfl⟩ := hs
    refine ⟨hmono le_rfl, fun o' run hrun => ?_⟩
    rw [setRun] at hrun
    dsimp only at hrun
    rw [Function.update_apply] at hrun
    split at hrun
    · cases hrun
    · exact hkeep hrun le_rfl fun _ _ _ hh _ => hh
  | settle o now reply =>
    rw [Machine.IsStep] at hs
    simp only [machine, bind_ok, orRevert_ok] at hs
    obtain ⟨run, hrun, hres⟩ := hs
    have hir := hi.runs o run hrun
    rcases resume_cases hres with ⟨c, d, hc, rfl, he⟩ | ⟨w, w', hst, hserv, hw', he⟩
    · cases he
      have heff := IssuanceRedis.call_effect s.redis run.requestId c d
      have hown (x : ℕ) (hx : x ∈ c.owner) : x < s.nextOwner := by
        rw [callOf_owner hc x hx]
        exact hir.owner
      refine ⟨(hmono le_rfl).call heff hown fun x snapshot hx =>
        (hir.saves hc hx).mono (fun t => .mono hsub) (fun x => .mono hsub), fun o' run' hrun' => ?_⟩
      rw [answered, setRun] at hrun'
      dsimp only at hrun'
      rw [Function.update_apply] at hrun'
      split at hrun'
      · next ho =>
        subst ho
        exact hir.respond hi.store hsub hj' hc heff hrun' rfl rfl
      · next ho =>
        refine hkeep hrun' le_rfl fun id h u hh hl => heff.frame hh hl fun hx => ho ?_
        exact callOf_owner hc o' hx
    · cases he
      have hwork := (hir.work w hst).mono hsub
      obtain ⟨hjw, hsw⟩ := hwork.journaled hserv
      have hsettles : Settles ⟨s, .settle o now reply, sends run.requestId w reply,
          s.setRun o (some { run with stage := .advance w' })⟩ run.requestId w reply :=
        ⟨o, now, run, rfl, hrun, rfl, hst⟩
      have hlast := List.mem_append_right es (List.mem_singleton_self (⟨s, .settle o now reply,
        sends run.requestId w reply, s.setRun o (some { run with stage := .advance w' })⟩ : IssuanceStep))
      have hf := AdvanceWork.receive_follow hsw hwork.facts
        (fun ha hr => ⟨_, hlast, w, hr ▸ hsettles, ha, rfl⟩)
        (fun reads t ha hr ht hrev => ⟨_, hlast, w, reads, hr ▸ hsettles, ha, ht, hrev⟩) hw'
      refine ⟨hmono le_rfl, fun o' run' hrun' => ?_⟩
      rw [setRun] at hrun'
      dsimp only at hrun'
      rw [Function.update_apply] at hrun'
      split at hrun'
      · next ho =>
        cases hrun'
        subst ho
        refine ⟨hir.owner, fun id h u hh hl => ?_, fun w'' hw'' => ?_⟩
        · obtain ⟨rfl, w₀, hw₀, hheld⟩ := hir.lease id h u hh hl
          rw [hst] at hw₀
          cases hw₀
          have hp := held_service hserv hheld
          exact ⟨rfl, w', rfl, hp ▸ held_of_follow hf⟩
        · cases hw''
          exact workInv_of_follow hjw hsw hf
      · exact hkeep hrun' le_rfl fun _ _ _ hh _ => hh

theorem hostInv_initial : HostInv env [] initial :=
  ⟨⟨fun _ _ h => (by cases h), fun _ _ h => (by cases h), fun _ _ h => (by cases h),
    fun _ _ _ h => (by cases h)⟩, fun _ _ h => (by cases h)⟩

/-- The transaction was in the journal. -/
def JournaledTx (es : List IssuanceStep) (id : RequestId) (t : SignedIssuance) : Prop :=
  ∃ p, Journaled es id p ∧ p.transaction = some t

theorem hostInv_run (hr : (machine env).Run initial es s) : HostInv env es s :=
  hr.history hostInv_initial fun _ _ _ hi hs => hi.step hs

/-! ## The transaction of a request -/

theorem RunInv.keeps (hi : RunInv env es s o run) {x u : ℕ} {snapshot : JournalSnapshot}
    {h : IssuanceHash} (hc : callOf o run.stage = some (.save x snapshot))
    (hh : s.redis.requests run.requestId = some h) (hl : h.lease = some (x, u)) :
    KeepsTransaction (RevertObserved env es run.requestId) h.payload snapshot.entry := by
  obtain rfl : x = o := callOf_owner hc x rfl
  obtain ⟨-, w, hw, hheld⟩ := hi.lease _ h u hh hl
  rw [hw, callOf] at hc
  unfold AdvanceWork.call at hc
  unfold Held at hheld
  split at hc
  · next k ha =>
    cases hc
    rwa [ha] at hheld
  · cases hc
  · next c ha =>
    cases hc
    rw [ha] at hheld
    intro t ht
    left
    rw [← ht]
    exact hheld
  · cases hc
  · cases hc

/-- **A step replaces a transaction only after its revert was observed.** -/
theorem HostInv.keeps (hi : HostInv env es e.pre) (hs : (machine env).IsStep e) {h h' : IssuanceHash}
    (hh : e.pre.redis.requests id = some h) (hh' : e.post.redis.requests id = some h') :
    KeepsTransaction (RevertObserved env es id) h.payload h'.payload := by
  have hsame (he : e.post.redis.requests id = e.pre.redis.requests id) :
      KeepsTransaction (RevertObserved env es id) h.payload h'.payload := by
    rw [he, hh] at hh'
    cases hh'
    exact fun t ht => .inl ht
  obtain ⟨s, a, out, s'⟩ := e
  dsimp only at hi hh hh' hsame
  rw [Machine.IsStep] at hs
  cases a with
  | tick ms =>
    simp only [machine, pure_ok, Prod.mk.injEq] at hs
    obtain ⟨rfl, rfl⟩ := hs
    exact hsame rfl
  | create entry =>
    simp only [machine, bind_ok, revertIf_ok, pure_ok, Prod.mk.injEq] at hs
    obtain ⟨_, -, rfl, rfl⟩ := hs
    refine hsame ?_
    rcases IssuanceRedis.create_effect s.redis entry with heq | ⟨hnone, g, heq, -⟩
    · dsimp only
      rw [heq]
    · dsimp only
      rw [heq]
      refine Function.update_of_ne (fun he => ?_) ..
      rw [← he, hh] at hnone
      cases hnone
  | expire id' =>
    simp only [machine, bind_ok, revertIf_ok, pure_ok, Prod.mk.injEq] at hs
    obtain ⟨_, -, rfl, rfl⟩ := hs
    refine hsame (Function.update_of_ne (fun he => ?_) ..)
    subst he
    dsimp only at hh'
    rw [Function.update_self] at hh'
    cases hh'
  | start id' options =>
    simp only [machine, pure_ok, Prod.mk.injEq] at hs
    obtain ⟨rfl, rfl⟩ := hs
    exact hsame rfl
  | crash o =>
    simp only [machine, pure_ok, Prod.mk.injEq] at hs
    obtain ⟨rfl, rfl⟩ := hs
    exact hsame rfl
  | settle o now reply =>
    simp only [machine, bind_ok, orRevert_ok] at hs
    obtain ⟨run, hrun, hres⟩ := hs
    rcases resume_cases hres with ⟨c, d, hc, rfl, he⟩ | ⟨w, w', hst, hserv, hw', he⟩
    · cases he
      have heff := IssuanceRedis.call_effect s.redis run.requestId c d
      by_cases hid : id = run.requestId
      · subst hid
        rw [answered, setRun] at hh'
        dsimp only at hh'
        generalize s.redis.call run.requestId c d = r at heff hh'
        obtain ⟨redis, resp⟩ := r
        dsimp only at heff hh'
        have hpay (hp : h'.payload = h.payload) :
            KeepsTransaction (RevertObserved env es run.requestId) h.payload h'.payload :=
          fun t ht => .inl (hp ▸ ht)
        cases heff with
        | failed _ e => exact hpay (by rw [hh] at hh'; cases hh'; rfl)
        | kept _ => exact hpay (by rw [hh] at hh'; cases hh'; rfl)
        | read g hg => exact hpay (by rw [hh] at hh'; cases hh'; rfl)
        | acquired owner g _ hg hfree hgate hr =>
          dsimp only at hh'
          rw [Function.update_self] at hh'
          rw [hh] at hg
          cases hg
          cases hh'
          exact hpay rfl
        | saved owner u snapshot g g' _ hg hl hlive hsigner hgate hp hn' hs' hl' hr =>
          dsimp only at hh'
          rw [Function.update_self] at hh'
          rw [hh] at hg
          cases hg
          cases hh'
          rw [hp]
          exact (hi.runs o run hrun).keeps hc hh hl
        | released owner g _ hg hl =>
          dsimp only at hh'
          rw [Function.update_self] at hh'
          rw [hh] at hg
          cases hg
          cases hh'
          exact hpay rfl
      · exact hsame (heff.other hid)
    · cases he
      exact hsame rfl

/-- What a step stores is in the journal after it. -/
theorem journaled_now (hr : (machine env).Run initial es s) {h : IssuanceHash}
    (hh : s.redis.requests id = some h) : Journaled es id h.payload := by
  cases hr with
  | nil => cases hh
  | @snoc es s a s' out hr hs => exact ⟨_, List.mem_append_right _ (List.mem_singleton_self _), h, hh, rfl⟩

/-- A call neither adds nor drops a request. -/
theorem call_isSome {redis redis' : IssuanceRedis} {c : IssuanceCall} {id' : RequestId}
    {r : Except IssuanceJournalError (Option JournalSnapshot)}
    (heff : redis.CallEffect id c redis' r) :
    (redis'.requests id').isSome = (redis.requests id').isSome := by
  by_cases hid : id' = id
  · subst hid
    cases heff with
    | failed _ e => rfl
    | kept _ => rfl
    | read h hh => rfl
    | acquired owner h _ hh hfree hgate hr =>
      dsimp only
      rw [Function.update_self, hh]
      rfl
    | saved owner u snapshot h h' _ hh hl hlive hsigner hgate hp hn' hs' hl' hr =>
      dsimp only
      rw [Function.update_self, hh]
      rfl
    | released owner h _ hh hl =>
      dsimp only
      rw [Function.update_self, hh]
      rfl
  · rw [heff.other hid]

/-- **Which steps add or drop a request.** -/
theorem request_changes (hs : (machine env).IsStep e)
    (hne : (e.post.redis.requests id).isSome ≠ (e.pre.redis.requests id).isSome) :
    ((e.pre.redis.requests id).isSome = false ∧ e.act.created = some id) ∨
      ((e.pre.redis.requests id).isSome = true ∧ e.act.expired = some id) := by
  obtain ⟨s, a, out, s'⟩ := e
  rw [Machine.IsStep] at hs
  dsimp only at hne
  cases a with
  | tick ms =>
    simp only [machine, pure_ok, Prod.mk.injEq] at hs
    obtain ⟨rfl, rfl⟩ := hs
    exact absurd rfl hne
  | create entry =>
    simp only [machine, bind_ok, revertIf_ok, pure_ok, Prod.mk.injEq] at hs
    obtain ⟨_, -, rfl, rfl⟩ := hs
    rcases IssuanceRedis.create_effect s.redis entry with heq | ⟨hnone, g, heq, -⟩
    · rw [heq] at hne
      exact absurd rfl hne
    · rw [heq] at hne
      by_cases hid : id = entry.requestId
      · subst hid
        exact .inl ⟨by rw [hnone]; rfl, rfl⟩
      · dsimp only at hne
        rw [Function.update_of_ne hid] at hne
        exact absurd rfl hne
  | expire id' =>
    simp only [machine, bind_ok, revertIf_ok, pure_ok, Prod.mk.injEq] at hs
    obtain ⟨_, hf, rfl, rfl⟩ := hs
    rw [not_not] at hf
    obtain ⟨h, hh, -⟩ := hf
    by_cases hid : id = id'
    · subst hid
      exact .inr ⟨Option.isSome_iff_exists.2 ⟨h, hh⟩, rfl⟩
    · dsimp only at hne
      rw [Function.update_of_ne hid] at hne
      exact absurd rfl hne
  | start id' options =>
    simp only [machine, pure_ok, Prod.mk.injEq] at hs
    obtain ⟨rfl, rfl⟩ := hs
    exact absurd rfl hne
  | crash o =>
    simp only [machine, pure_ok, Prod.mk.injEq] at hs
    obtain ⟨rfl, rfl⟩ := hs
    exact absurd rfl hne
  | settle o now reply =>
    simp only [machine, bind_ok, orRevert_ok] at hs
    obtain ⟨run, hrun, hres⟩ := hs
    rcases resume_cases hres with ⟨c, d, hc, rfl, he⟩ | ⟨w, w', hst, hserv, hw', he⟩
    · cases he
      exact absurd (call_isSome (IssuanceRedis.call_effect s.redis run.requestId c d)) hne
    · cases he
      exact absurd rfl hne

/-- A request that comes into the journal was created by the step. -/
theorem created_of_new (hs : (machine env).IsStep e) {h : IssuanceHash}
    (hn : e.pre.redis.requests id = none) (hh : e.post.redis.requests id = some h) :
    e.act.created = some id := by
  rcases request_changes hs (by rw [hn, hh]; simp) with ⟨-, h⟩ | ⟨h, -⟩
  · exact h
  · rw [hn] at h
    cases h

/-- A request that leaves the journal expired. -/
theorem expired_of_gone (hs : (machine env).IsStep e) {h : IssuanceHash}
    (hh : e.pre.redis.requests id = some h) (hn : e.post.redis.requests id = none) :
    e.act.expired = some id := by
  rcases request_changes hs (by rw [hn, hh]; simp) with ⟨h, -⟩ | ⟨-, h⟩
  · rw [hh] at h
    cases h
  · exact h

/-- What holds of the transactions of a request after any run. -/
structure TxInv (env : IssuanceEnv) (es : List IssuanceStep) (s : IssuanceHost) (id : RequestId) :
    Prop where
  single : ∀ t t', JournaledTx es id t → JournaledTx es id t' →
    t = t' ∨ RevertObserved env es id t ∨ RevertObserved env es id t'
  stored : ∀ h t, s.redis.requests id = some h → JournaledTx es id t →
    RevertObserved env es id t ∨ h.payload.transaction = some t
  gone : ∀ p, s.redis.requests id = none → Journaled es id p → ∃ e ∈ es, e.act.expired = some id

theorem journaled_concat {p : IssuanceEntry} (h : Journaled (es ++ [e]) id p) :
    Journaled es id p ∨ ∃ g, e.post.redis.requests id = some g ∧ g.payload = p := by
  obtain ⟨x, hx, g, hg, hp⟩ := h
  rcases List.mem_append.1 hx with hx | hx
  · exact .inl ⟨x, hx, g, hg, hp⟩
  · rw [List.mem_singleton.1 hx] at hg
    exact .inr ⟨g, hg, hp⟩

theorem TxInv.step (hi : TxInv env es e.pre id) (hh : HostInv env es e.pre)
    (hs : (machine env).IsStep e) (hsingle : SingleUse (es ++ [e])) :
    TxInv env (es ++ [e]) e.post id := by
  have hsub : es ⊆ es ++ [e] := List.subset_append_left ..
  -- an earlier transaction is reverted or still stored
  have hold (h : IssuanceHash) (hp : e.post.redis.requests id = some h) (t : SignedIssuance)
      (ht : JournaledTx es id t) : RevertObserved env (es ++ [e]) id t ∨
        h.payload.transaction = some t := by
    cases hpre : e.pre.redis.requests id with
    | none =>
      obtain ⟨p, hj, -⟩ := ht
      obtain ⟨x, hx, hexp⟩ := hi.gone p hpre hj
      have hcr := created_of_new hs hpre hp
      exact absurd hcr ((List.pairwise_append.1 hsingle).2.2 x hx e (List.mem_singleton_self e) id hexp)
    | some g =>
      rcases hi.stored g t hpre ht with hr | hg
      · exact .inl (hr.mono hsub)
      · rcases hh.keeps hs hpre hp t hg with h' | hr
        · exact .inr h'
        · exact .inl (hr.mono hsub)
  -- the transactions after the step
  have hnew {t : SignedIssuance} (ht : JournaledTx (es ++ [e]) id t) :
      JournaledTx es id t ∨ ∃ h, e.post.redis.requests id = some h ∧ h.payload.transaction = some t := by
    obtain ⟨p, hp, ht⟩ := ht
    rcases journaled_concat hp with hj | ⟨g, hg, hgp⟩
    · exact .inl ⟨p, hj, ht⟩
    · exact .inr ⟨g, hg, hgp ▸ ht⟩
  refine ⟨fun t t' ht ht' => ?_, fun h t hp ht => ?_, fun p hn hj => ?_⟩
  · rcases hnew ht with ht | ⟨h, hp, ht⟩
    · rcases hnew ht' with ht' | ⟨h', hp', ht'⟩
      · rcases hi.single t t' ht ht' with he | hr | hr
        · exact .inl he
        · exact .inr (.inl (hr.mono hsub))
        · exact .inr (.inr (hr.mono hsub))
      · rcases hold h' hp' t ht with hr | hs
        · exact .inr (.inl hr)
        · exact .inl (Option.some.inj (hs.symm.trans ht'))
    · rcases hnew ht' with ht' | ⟨h', hp', ht'⟩
      · rcases hold h hp t' ht' with hr | hs
        · exact .inr (.inr hr)
        · exact .inl (Option.some.inj (ht.symm.trans hs))
      · rw [hp] at hp'
        cases hp'
        exact .inl (Option.some.inj (ht.symm.trans ht'))
  · rcases hnew ht with ht | ⟨h', hp', ht'⟩
    · exact hold h hp t ht
    · rw [hp] at hp'
      cases hp'
      exact .inr ht'
  · rcases journaled_concat hj with hj | ⟨g, hg, -⟩
    · cases hpre : e.pre.redis.requests id with
      | none =>
        obtain ⟨x, hx, hexp⟩ := hi.gone p hpre hj
        exact ⟨x, hsub hx, hexp⟩
      | some g => exact ⟨e, by simp, expired_of_gone hs hpre hn⟩
    · rw [hn] at hg
      cases hg

theorem txInv_run (hr : (machine env).Run initial es s) (hsingle : SingleUse es) :
    TxInv env es s id := by
  refine hr.history (H := fun es s => SingleUse es → TxInv env es s id) ?_ ?_ hsingle
  · intro _
    refine ⟨fun t t' ht => ?_, fun h t hh => (by cases hh), fun p _ hj => ?_⟩
    · obtain ⟨p, ⟨x, hx, -⟩, -⟩ := ht
      cases hx
    · obtain ⟨x, hx, -⟩ := hj
      cases hx
  · intro es e hr hi hs hsingle
    exact (hi (List.pairwise_append.1 hsingle).1).step (hostInv_run hr) hs hsingle

/-! ## Lost leases -/

def HoldsLease (s : IssuanceHost) (o : ℕ) (id : RequestId) : Prop :=
  ∃ h u, s.redis.requests id = some h ∧ h.lease = some (o, u) ∧ s.redis.now < u

/-- A run without its lease; `J` are the payloads it may still work on. -/
structure LostRun (J : IssuanceEntry → Prop) (s : IssuanceHost) (o : ℕ) (id : RequestId) : Prop where
  owner : o < s.nextOwner
  lost : ¬ HoldsLease s o id
  run : ∀ run, s.runs o = some run →
    run.requestId = id ∧ ∃ w, run.stage = .advance w ∧ (w.await.service = true → J w.entry)

/-- What a step leaves of the revisions and payloads. -/
def SameSnapshots (s s' : IssuanceHost) : Prop :=
  ∀ id, (s'.redis.requests id).map IssuanceHash.snapshot =
    (s.redis.requests id).map IssuanceHash.snapshot

theorem onResponse_service {options : AdvanceOptions} {now : ℕ}
    {r : Except IssuanceJournalError (Option JournalSnapshot)} (hn : w.await.service = false)
    (hr : ∀ k x, w.await = .save k → r ≠ .ok (some x)) :
    (w.onResponse options now r).await.service = false := by
  obtain ⟨revision, entry, reserved, await⟩ := w
  cases await with
  | save k =>
    match r, hr with
    | .error e, _ => rfl
    | .ok none, _ => rfl
    | .ok (some x), hr => exact absurd rfl (hr k x rfl)
  | reload =>
    match r with
    | .error e => rfl
    | .ok none => rfl
    | .ok (some x) =>
      unfold AdvanceWork.onResponse
      dsimp only
      split <;> rfl
  | saveReloaded c => rfl
  | release => rfl
  | _ => cases hn

theorem LostRun.frame {J : IssuanceEntry → Prop} (hi : LostRun J s o id)
    (hn : s.nextOwner ≤ s'.nextOwner) (hnow : s.redis.now ≤ s'.redis.now)
    (hruns : s'.runs o = s.runs o ∨ s'.runs o = none)
    (hframe : ∀ id h u, s'.redis.requests id = some h → h.lease = some (o, u) →
      s.redis.requests id = some h) : LostRun J s' o id := by
  refine ⟨hi.owner.trans_le hn, ?_, fun run hrun => ?_⟩
  · rintro ⟨h, u, hh, hl, hu⟩
    exact hi.lost ⟨h, u, hframe id h u hh hl, hl, hnow.trans_lt hu⟩
  · rcases hruns with hr | hr <;> rw [hr] at hrun
    · exact hi.run run hrun
    · cases hrun

/-- **A run without its lease saves nothing**, and sends only what it already worked on. -/
theorem LostRun.resume {J : IssuanceEntry → Prop} {now : ℕ} {reply : AdvanceReply}
    {out : IssuanceOutput} (hi : LostRun J s o id) (hh : HostInv env es s)
    (hrun : s.runs o = some run) (hr : s.resume env o now run reply = some (s', out)) :
    LostRun J s' o id ∧ SameSnapshots s s' ∧
      ∀ id' t, out = .broadcast id' t → ∃ p, J p ∧ p.transaction = some t := by
  obtain ⟨rfl, w, hst, hJ⟩ := hi.run run hrun
  rcases resume_cases hr with ⟨c, d, hc, rfl, he⟩ | ⟨w₁, w', hst', hserv, hw', he⟩
  · cases he
    rw [hst, callOf] at hc
    have hn : w.await.service = false := by
      rw [← Bool.not_eq_true, ← call_eq_none, hc]
      exact Option.some_ne_none c
    have heff := IssuanceRedis.call_effect s.redis run.requestId c d
    -- the working copies after the response
    have hnext (r : Except IssuanceJournalError (Option JournalSnapshot))
        (hresp : ∀ k x, w.await = .save k → r ≠ .ok (some x)) (run' : AdvanceRun)
        (hrun' : run.respond now r = some run') : run'.requestId = run.requestId ∧
          ∃ w, run'.stage = .advance w ∧ (w.await.service = true → J w.entry) := by
      unfold AdvanceRun.respond at hrun'
      rw [hst] at hrun'
      dsimp only at hrun'
      split at hrun'
      · cases hrun'
      · cases hrun'
        refine ⟨rfl, _, rfl, fun hs => ?_⟩
        rw [onResponse_service hn hresp] at hs
        cases hs
    have hcall : callOf o (.advance w) = some c := hc
    have hsaves {x : ℕ} {snapshot : JournalSnapshot} (hx : c = .save x snapshot) : x = o :=
      callOf_owner hcall x (by rw [hx]; rfl)
    unfold answered setRun
    generalize s.redis.call run.requestId c d = r at heff
    obtain ⟨redis, resp⟩ := r
    dsimp only at heff ⊢
    -- it remains to see that the response is not that of a save
    have hdone (hresp : ∀ k x, w.await = .save k → resp ≠ .ok (some x))
        (hlost : ¬ HoldsLease { s with redis := redis } o run.requestId)
        (hsnap : SameSnapshots s { s with redis := redis }) :
        LostRun J (IssuanceHost.mk redis (Function.update s.runs o (run.respond now resp)) s.nextOwner)
          o run.requestId ∧ SameSnapshots s (IssuanceHost.mk redis
            (Function.update s.runs o (run.respond now resp)) s.nextOwner) ∧
        ∀ id' t, IssuanceOutput.done = .broadcast id' t → ∃ p, J p ∧ p.transaction = some t := by
      refine ⟨⟨hi.owner, hlost, fun run' hrun' => ?_⟩, hsnap, fun _ _ h => (by cases h)⟩
      dsimp only at hrun'
      rw [Function.update_self] at hrun'
      exact hnext resp hresp run' hrun'
    cases heff with
    | failed _ e => exact hdone (fun _ _ _ h => by cases h) hi.lost fun _ => rfl
    | kept _ => exact hdone (fun _ _ _ h => by cases h) hi.lost fun _ => rfl
    | read h hh =>
      refine hdone (fun k x hk => ?_) hi.lost fun _ => rfl
      unfold AdvanceWork.call at hc
      rw [hk] at hc
      cases hc
    | acquired owner h _ hh hfree hgate hr =>
      unfold AdvanceWork.call at hc
      split at hc <;> cases hc
    | saved owner u snapshot h h' _ hh hl hlive hsigner hgate hp hn' hs' hl' hr =>
      rw [hsaves rfl] at hl
      exact absurd ⟨h, u, hh, hl, hlive⟩ hi.lost
    | released owner h _ hh hl =>
      refine hdone (fun k x hk => ?_) ?_ fun id' => ?_
      · unfold AdvanceWork.call at hc
        rw [hk] at hc
        cases hc
      · rintro ⟨g, u, hg, hgl, -⟩
        dsimp only at hg
        rw [Function.update_self] at hg
        cases hg
        cases hgl
      · dsimp only
        rw [Function.update_apply]
        split
        · next hid =>
          rw [hid, hh]
          rfl
        · rfl
  · cases he
    rw [hst] at hst'
    cases hst'
    have hwork := (hh.runs o run hrun).work w hst
    have hf := AdvanceWork.receive_follow (R := fun _ => True) (D := fun _ => True)
      ((hwork.journaled hserv).2.mono (fun _ _ => trivial) fun _ _ => trivial)
      (facts_mono hwork.facts fun _ _ => trivial) (fun _ _ => trivial)
      (fun _ _ _ _ _ _ => trivial) hw'
    refine ⟨⟨hi.owner, hi.lost, fun run' hrun' => ?_⟩, fun _ => rfl, fun id' t hout => ?_⟩
    · rw [setRun] at hrun'
      dsimp only at hrun'
      rw [Function.update_self] at hrun'
      cases hrun'
      refine ⟨rfl, w', rfl, fun hs => ?_⟩
      cases hf.edited with
      | kept he ha => exact he ▸ hJ hserv
      | changed k ha hs' ht =>
        rw [ha] at hs
        cases hs
    · unfold sends at hout
      split at hout
      · next t' _ _ ht =>
        cases hout
        exact ⟨w.entry, hJ hserv, ht⟩
      · cases hout

theorem LostRun.step {J : IssuanceEntry → Prop} (hi : LostRun J e.pre o id)
    (hh : HostInv env es e.pre) (hs : (machine env).IsStep e) : LostRun J e.post o id := by
  obtain ⟨s, a, out, s'⟩ := e
  rw [Machine.IsStep] at hs
  dsimp only at hi hh ⊢
  cases a with
  | tick ms =>
    simp only [machine, pure_ok, Prod.mk.injEq] at hs
    obtain ⟨rfl, rfl⟩ := hs
    exact hi.frame le_rfl (Nat.le_add_right ..) (.inl rfl) fun _ _ _ h _ => h
  | create entry =>
    simp only [machine, bind_ok, revertIf_ok, pure_ok, Prod.mk.injEq] at hs
    obtain ⟨_, -, rfl, rfl⟩ := hs
    refine hi.frame le_rfl ?_ (.inl rfl) fun _ _ _ hg hl => IssuanceRedis.create_frame hg hl
    rcases IssuanceRedis.create_effect s.redis entry with heq | ⟨-, g, heq, -⟩
    all_goals
      dsimp only
      rw [heq]
  | expire id' =>
    simp only [machine, bind_ok, revertIf_ok, pure_ok, Prod.mk.injEq] at hs
    obtain ⟨_, -, rfl, rfl⟩ := hs
    refine hi.frame le_rfl le_rfl (.inl rfl) fun id₁ h u hg _ => ?_
    dsimp only at hg
    rw [Function.update_apply] at hg
    split at hg
    · cases hg
    · exact hg
  | start id' options =>
    simp only [machine, pure_ok, Prod.mk.injEq] at hs
    obtain ⟨rfl, rfl⟩ := hs
    refine hi.frame (Nat.le_succ _) le_rfl (.inl ?_) fun _ _ _ h _ => h
    exact Function.update_of_ne hi.owner.ne ..
  | crash o' =>
    simp only [machine, pure_ok, Prod.mk.injEq] at hs
    obtain ⟨rfl, rfl⟩ := hs
    refine hi.frame le_rfl le_rfl ?_ fun _ _ _ h _ => h
    rw [setRun]
    dsimp only
    rw [Function.update_apply]
    split
    · exact .inr rfl
    · exact .inl rfl
  | settle o' now reply =>
    simp only [machine, bind_ok, orRevert_ok] at hs
    obtain ⟨run, hrun, hres⟩ := hs
    by_cases ho : o' = o
    · subst ho
      exact (hi.resume hh hrun hres).1
    · have hne : o ≠ o' := fun h => ho h.symm
      rcases resume_cases hres with ⟨c, d, hc, rfl, he⟩ | ⟨w, w', hst, hserv, hw', he⟩
      · cases he
        have heff := IssuanceRedis.call_effect s.redis run.requestId c d
        exact hi.frame le_rfl heff.now.ge (.inl (Function.update_of_ne hne ..))
          fun _ _ _ hg hl => heff.frame hg hl fun hx => hne (callOf_owner hc o hx)
      · cases he
        exact hi.frame le_rfl le_rfl (.inl (Function.update_of_ne hne ..)) fun _ _ _ h _ => h

theorem LostRun.run_of_run {J : IssuanceEntry → Prop} {s₁ : IssuanceHost} (hi : LostRun J s₁ o id)
    (hr₁ : (machine env).Run initial es s₁) (hr : (machine env).Run s₁ es' s) : LostRun J s o id :=
  hr.history (H := fun _ s => LostRun J s o id) hi fun _ _ hr hi hs =>
    hi.step (hostInv_run (hr₁.append hr)) hs

/-! ## Exactly-once delivery -/

/-- The delivery after a run. -/
structure IssuanceExactlyOnce (env : IssuanceEnv) (es : List IssuanceStep) (s : IssuanceHost) :
    Prop where
  /-- Bytes leave only after they and the evidence were stored. -/
  storedFirst : ∀ es₁ e es₂, es = es₁ ++ e :: es₂ → ∀ id t, e.out = .broadcast id t →
    ∃ p, Journaled es₁ id p ∧ p.transaction = some t ∧ p.evidenceStored = true ∧
      EvidencePut es₁ id p.evidenceRecord
  /-- At most one transaction of a request is outstanding. -/
  single : ∀ id t t', JournaledTx es id t → JournaledTx es id t' →
    ¬ RevertObserved env es id t → ¬ RevertObserved env es id t' → t = t'
  /-- A different one is stored only after the previous was observed as reverted. -/
  replaced : ∀ es₁ e es₂, es = es₁ ++ e :: es₂ → ∀ id h t t',
    e.post.redis.requests id = some h → h.payload.transaction = some t' →
      JournaledTx es₁ id t → t ≠ t' → RevertObserved env es₁ id t
  /-- One request of a signer at a time holds a transaction that may be pending. -/
  exclusive : ∀ id id' h h', s.redis.requests id = some h → s.redis.requests id' = some h' →
    h.payload.signerKey = h'.payload.signerKey →
    h.payload.transaction.isSome = true → h'.payload.transaction.isSome = true →
    h.payload.phase = .prepared ∨ h.payload.phase = .submitted →
    h'.payload.phase = .prepared ∨ h'.payload.phase = .submitted → id = id'
  /-- A run that lost its lease saves nothing, and sends only bytes stored before. -/
  lostLease : ∀ es₁ e₀ es₂ e es₃, es = es₁ ++ e₀ :: (es₂ ++ e :: es₃) → ∀ o run w now reply,
    e₀.post.runs o = some run → run.stage = .advance w → ¬ HoldsLease e₀.post o run.requestId →
    e.act = .settle o now reply → SameSnapshots e.pre e.post ∧
      ∀ id t, e.out = .broadcast id t → JournaledTx (es₁ ++ [e₀]) run.requestId t

theorem broadcast_journaled (hi : HostInv env es e.pre) (hs : (machine env).IsStep e)
    (hout : e.out = .broadcast id t) :
    ∃ p, Journaled es id p ∧ p.transaction = some t ∧ p.evidenceStored = true ∧
      EvidencePut es id p.evidenceRecord := by
  obtain ⟨s, a, out, s'⟩ := e
  rw [Machine.IsStep] at hs
  dsimp only at hi hout
  subst hout
  cases a with
  | settle o now reply =>
    simp only [machine, bind_ok, orRevert_ok] at hs
    obtain ⟨run, hrun, hres⟩ := hs
    rcases resume_cases hres with ⟨c, d, hc, rfl, he⟩ | ⟨w, w', hst, hserv, hw', he⟩
    · cases he
    · obtain ⟨hj, hsound⟩ := ((hi.runs o run hrun).work w hst).journaled hserv
      rw [Prod.mk.injEq] at he
      have hsend := he.2
      unfold sends at hsend
      split at hsend
      · next ht =>
        cases hsend
        have hstored := (hsound.stored (by rw [ht]; rfl)).1
        exact ⟨w.entry, hj, ht, hstored, hsound.put hstored⟩
      · cases hsend
  | tick ms =>
    simp only [machine, pure_ok, Prod.mk.injEq, reduceCtorEq, and_false] at hs
  | create entry =>
    simp only [machine, bind_ok, revertIf_ok, pure_ok, Prod.mk.injEq, reduceCtorEq, and_false,
      exists_const] at hs
  | expire id' =>
    simp only [machine, bind_ok, revertIf_ok, pure_ok, Prod.mk.injEq, reduceCtorEq, and_false,
      exists_const] at hs
  | start id' options =>
    simp only [machine, pure_ok, Prod.mk.injEq, reduceCtorEq, and_false] at hs
  | crash o =>
    simp only [machine, pure_ok, Prod.mk.injEq, reduceCtorEq, and_false] at hs

/-- **Issuance delivery is exactly-once.** -/
theorem issuance_exactly_once (hr : (machine env).Run initial es s) (hsingle : SingleUse es) :
    IssuanceExactlyOnce env es s := by
  have hi := hostInv_run hr
  refine ⟨?_, ?_, ?_, ?_, ?_⟩
  · rintro es₁ e es₂ rfl id t hout
    obtain ⟨hpre, hs, -⟩ := hr.split
    exact broadcast_journaled (hostInv_run hpre) hs hout
  · intro id t t' ht ht' hn hn'
    rcases (txInv_run hr hsingle).single t t' ht ht' with he | hrev | hrev
    · exact he
    · exact absurd hrev hn
    · exact absurd hrev hn'
  · rintro es₁ e es₂ rfl id h t t' hh ht' ht hne
    obtain ⟨hpre, hs, -⟩ := hr.split
    have hsub : SingleUse (es₁ ++ [e]) := by
      rw [List.append_cons] at hsingle
      exact (List.pairwise_append.1 hsingle).1
    cases hn : e.pre.redis.requests id with
    | none =>
      obtain ⟨p, hj, -⟩ := ht
      obtain ⟨x, hx, hexp⟩ := (txInv_run hpre (List.pairwise_append.1 hsub).1).gone p hn hj
      exact absurd (created_of_new hs hn hh)
        ((List.pairwise_append.1 hsub).2.2 x hx e (List.mem_singleton_self e) id hexp)
    | some g =>
      rcases (txInv_run hpre (List.pairwise_append.1 hsub).1).stored g t hn ht with hrev | hg
      · exact hrev
      · rcases (hostInv_run hpre).keeps hs hn hh t hg with h' | hrev
        · exact absurd (Option.some.inj (h'.symm.trans ht')) hne
        · exact hrev
  · intro id id' h h' hh hh' hkey ht ht' hn hn'
    obtain ⟨hneeds, hsign⟩ := hi.store.signer id h hh
    obtain ⟨hneeds', hsign'⟩ := hi.store.signer id' h' hh'
    have hpending {id : RequestId} {h : IssuanceHash} (hh : s.redis.requests id = some h)
        (ht : h.payload.transaction.isSome = true)
        (hp : h.payload.phase = .prepared ∨ h.payload.phase = .submitted) :
        h.payload.needsSigner = true := by
      have ho := ((hi.store.sound id h hh).stored ht).2
      rcases hp with hp | hp <;> simp [IssuanceEntry.needsSigner, ho, hp]
    have hg := hi.store.gate id h hh ht (hneeds.trans (hpending hh ht hn))
    have hg' := hi.store.gate id' h' hh' ht' (hneeds'.trans (hpending hh' ht' hn'))
    rw [hsign, hkey, ← hsign', hg', Option.some.injEq] at hg
    exact hg.symm
  · rintro es₁ e₀ es₂ e es₃ rfl o run w now reply hrun hst hlost hact
    obtain ⟨hpre, hs₀, htail⟩ := hr.split
    obtain ⟨hmid, hs, -⟩ := htail.split
    have hr₁ := hpre.snoc hs₀
    have hi₁ := hostInv_run hr₁
    -- what the run may still work on was stored when it lost the lease
    have hl : LostRun (fun p => Journaled (es₁ ++ [e₀]) run.requestId p) e₀.post o run.requestId := by
      refine ⟨(hi₁.runs o run hrun).owner, hlost, fun run' hrun' => ?_⟩
      rw [hrun, Option.some.injEq] at hrun'
      subst hrun'
      exact ⟨rfl, w, hst, fun hserv => (((hi₁.runs o run hrun).work w hst).journaled hserv).1⟩
    have hl' := hl.run_of_run hr₁ hmid
    have hpre' := hostInv_run (hr₁.append hmid)
    rw [Machine.IsStep, hact] at hs
    simp only [machine, bind_ok, orRevert_ok] at hs
    obtain ⟨run', hrun', hres⟩ := hs
    obtain ⟨-, hsame, hout⟩ := hl'.resume hpre' hrun' hres
    refine ⟨hsame, fun id t ho => ?_⟩
    obtain ⟨p, hp, ht⟩ := hout id t ho
    exact ⟨p, hp, ht⟩

/-- A run signs a transaction. -/
def Signs (e : IssuanceStep) (id : RequestId) (t : SignedIssuance) : Prop :=
  ∃ w, Settles e id w (.signed t) ∧ w.await = .prepare

/-- A transaction is signed only when the different ones stored before were observed as
    reverted. -/
def SignsAfterRevert (env : IssuanceEnv) (es : List IssuanceStep) : Prop :=
  ∀ es₁ e es₂, es = es₁ ++ e :: es₂ → ∀ id t t', Signs e id t → JournaledTx es₁ id t' → t ≠ t' →
    RevertObserved env es₁ id t'

end IssuanceHost

/-! Two runs of one request.  The first is stopped before it signs and loses its lease, the
second stores and sends its transaction; then the first one signs too. -/

def issuanceEnv : IssuanceEnv :=
  ⟨6, fun e t => decide (t.chainId = e.target.chainId ∧ t.source = e.target.source ∧
    t.issuer = e.target.issuer)⟩

def issuanceEntry : IssuanceEntry :=
  { requestId := 1
    prepareUntil := 900000
    phase := .prepared
    target := ⟨11155111, 5, 6, none⟩
    outcome := .issued 2000
    evidenceRecord := some vaultCase
    evidenceStored := false
    transaction := none
    revertedTransactions := []
    sourceConfirmation := none
    broadcastAcceptedAt := none
    materializedAt := none
    lastError := none }

def issuanceTx (n : Bytes32) : SignedIssuance := ⟨n, [2], 7, 11155111, 5, 6, some 21000⟩

def answeredCall (o : ℕ) : IssuanceAction := .settle o 0 (.journal .answered)

/-- From the start to the signature. -/
def toSignature (o : ℕ) (stored : Bool) : List IssuanceAction :=
  [.start 1 ⟨true, false⟩, answeredCall o, answeredCall o] ++
    (if stored then [] else [.settle o 0 .done, answeredCall o]) ++
    [.settle o 0 .done, .settle o 0 (.answer false), .settle o 0 .done]

/-- From the signature to the broadcast. -/
def toBroadcast (o : ℕ) (n : Bytes32) : List IssuanceAction :=
  [.settle o 0 (.signed (issuanceTx n)), answeredCall o,
    .settle o 0 (.receipt ⟨none, 0, none, false⟩), .settle o 0 .done, answeredCall o,
    .settle o 0 .done, .settle o 0 .done, answeredCall o]

def revertedReads (n : Bytes32) : ReceiptReads := ⟨some ⟨n, 6, some 5, 0, 100, 9, 0, 21000⟩, 6, some 9, false⟩

/-- One delivery whose transaction reverts, and its retry. -/
def revertedDelivery : List IssuanceAction :=
  .create issuanceEntry :: (toSignature 0 false ++ toBroadcast 0 50 ++
    [.settle 0 0 (.receipt (revertedReads 50)), answeredCall 0, answeredCall 0])

def retriedDelivery : List IssuanceAction :=
  revertedDelivery ++ [.start 1 ⟨true, false⟩, answeredCall 1, answeredCall 1, .settle 1 0 .done,
    answeredCall 1, .settle 1 0 (.answer false), .settle 1 0 .done] ++ toBroadcast 1 51

def staleDelivery : List IssuanceAction :=
  .create issuanceEntry :: (toSignature 0 false ++ .tick 30001 :: toSignature 1 true ++
    toBroadcast 1 50)

theorem issuance_exactly_once_retried :
    IssuanceHost.IssuanceExactlyOnce issuanceEnv
      ((IssuanceHost.machine issuanceEnv).trace .initial retriedDelivery)
      ((IssuanceHost.machine issuanceEnv).final .initial retriedDelivery) :=
  IssuanceHost.issuance_exactly_once
    ((IssuanceHost.machine issuanceEnv).run_trace .initial retriedDelivery) (by decide +kernel)

/-- The run at an owner awaits a signature. -/
def awaitsSignature (s : IssuanceHost) (o : ℕ) : Bool :=
  match s.runs o with
  | some ⟨1, _, .advance ⟨_, _, _, .prepare⟩⟩ => true
  | _ => false

theorem issuance_signs_while_outstanding :
    ¬ ∀ (es : List IssuanceStep) (s : IssuanceHost), (IssuanceHost.machine issuanceEnv).Run .initial es s →
      IssuanceHost.SignsAfterRevert issuanceEnv es := by
  intro hall
  have hr := (IssuanceHost.machine issuanceEnv).run_trace .initial staleDelivery
  have hawait : awaitsSignature ((IssuanceHost.machine issuanceEnv).final .initial staleDelivery) 0 =
      true := by decide +kernel
  have hstored : (((IssuanceHost.machine issuanceEnv).final .initial staleDelivery).redis.requests 1).bind
      (fun h => h.payload.transaction) = some (issuanceTx 50) := by decide +kernel
  have hreads : ∀ e ∈ (IssuanceHost.machine issuanceEnv).trace .initial staleDelivery,
      (match e.act with
        | .settle _ _ (.receipt reads) => reads.receipt.isNone
        | _ => true) = true := by decide +kernel
  generalize (IssuanceHost.machine issuanceEnv).trace .initial staleDelivery = es at hr hreads
  generalize (IssuanceHost.machine issuanceEnv).final .initial staleDelivery = s at hr hawait hstored
  unfold awaitsSignature at hawait
  split at hawait
  · next o revision entry reserved hrun =>
    obtain ⟨h, hh, ht⟩ := Option.bind_eq_some_iff.1 hstored
    have hstep : ∃ s', (IssuanceHost.machine issuanceEnv).step s
        (.settle 0 0 (.signed (issuanceTx 51))) = .ok (s', .done) := by
      simp only [IssuanceHost.machine, hrun]
      exact ⟨_, rfl⟩
    obtain ⟨s', hstep⟩ := hstep
    obtain ⟨e, he, w, reads, ⟨o', now, run, hact, -⟩, -, -, hrev⟩ :=
      hall _ _ (hr.snoc hstep) es _ [] rfl 1 (issuanceTx 51) (issuanceTx 50)
        ⟨_, ⟨0, 0, _, rfl, hrun, rfl, rfl⟩, rfl⟩
        ⟨_, IssuanceHost.journaled_now hr hh, ht⟩ (by decide)
    have hnone := hreads e he
    rw [hact] at hnone
    obtain ⟨r, hr, -⟩ := hrev
    rw [Option.isNone_iff_eq_none.1 hnone] at hr
    cases hr
  · cases hawait

end Proofmark
