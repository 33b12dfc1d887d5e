/-
  What the calls of the issuance journal do, and how a run goes on between two awaits.

  A run's working copy is a payload that was in the journal, except while it awaits a
  save; `Follow` says what may then be different.
-/
import Proofmark.Pipeline.IssuanceDelivery

namespace Proofmark

open Revert

/-! ## The journal -/

namespace IssuanceRedis

variable {s s' : IssuanceRedis} {id : RequestId} {c : IssuanceCall}

/-- The gates after a save of `id`. -/
def savedGates (s : IssuanceRedis) (id : RequestId) (signer : SignerKey) (needs : Bool) :
    SignerKey → Option RequestId :=
  if needs then Function.update s.signers signer (some id)
  else if s.signers signer = some id then Function.update s.signers signer none
  else s.signers

/-- **What a call does**, whether or not its response arrives. -/
inductive CallEffect (s : IssuanceRedis) (id : RequestId) : IssuanceCall → IssuanceRedis →
    Except IssuanceJournalError (Option JournalSnapshot) → Prop
  | failed (c : IssuanceCall) (e : IssuanceJournalError) : CallEffect s id c s (.error e)
  | kept (c : IssuanceCall) : CallEffect s id c s (.ok none)
  | read (h : IssuanceHash) (hh : s.requests id = some h) :
    CallEffect s id .get s (.ok (some h.snapshot))
  | acquired (owner : ℕ) (h : IssuanceHash) (r : Except IssuanceJournalError (Option JournalSnapshot))
      (hh : s.requests id = some h) (hfree : ∀ l ∈ h.lease, l.2 ≤ s.now)
      (hgate : h.needsSigner = true → ¬ s.signerBusy id h.signer)
      (hr : ∀ x, r = .ok x → x = some h.snapshot) :
    CallEffect s id (.acquire owner h.signer)
      { s with
        requests := Function.update s.requests id
          (some { h with lease := some (owner, s.now + requestLease) })
        signers :=
          if h.needsSigner then Function.update s.signers h.signer (some id) else s.signers } r
  | saved (owner until_ : ℕ) (snapshot : JournalSnapshot) (h h' : IssuanceHash)
      (r : Except IssuanceJournalError (Option JournalSnapshot))
      (hh : s.requests id = some h) (hlease : h.lease = some (owner, until_)) (hlive : s.now < until_)
      (hsigner : h.signer = snapshot.entry.signerKey)
      (hgate : snapshot.entry.needsSigner = true → ¬ s.signerBusy id h.signer)
      (hpayload : h'.payload = snapshot.entry) (hneeds : h'.needsSigner = snapshot.entry.needsSigner)
      (hsigner' : h'.signer = h.signer) (hlease' : h'.lease = some (owner, s.now + requestLease))
      (hr : ∀ x, r = .ok x → x = some h'.snapshot) :
    CallEffect s id (.save owner snapshot)
      { s with
        requests := Function.update s.requests id (some h')
        signers := s.savedGates id h.signer snapshot.entry.needsSigner } r
  | released (owner : ℕ) (h : IssuanceHash)
      (r : Except IssuanceJournalError (Option JournalSnapshot)) (hh : s.requests id = some h)
      (hlease : h.lease.map Prod.fst = some owner) :
    CallEffect s id (.release owner)
      { s with requests := Function.update s.requests id (some { h with lease := none }) } r

theorem existing_ok {h : IssuanceHash} (he : s.existing id = .ok h) : s.requests id = some h := by
  simp only [existing, bind_ok, orRevert_ok, revertIf_ok, pure_ok] at he
  obtain ⟨_, h1, -, -, rfl⟩ := he
  exact h1

theorem eval_effect {x : Option JournalSnapshot} (h : s.eval id c = .ok (s', x))
    {r : Except IssuanceJournalError (Option JournalSnapshot)} (hr : ∀ y, r = .ok y → y = x) :
    CallEffect s id c s' r := by
  have hsame (c : IssuanceCall) (hx : x = none) : CallEffect s id c s r := by
    cases r with
    | error e => exact .failed c e
    | ok y =>
      rw [hr y rfl, hx]
      exact .kept c
  cases c with
  | get =>
    rw [eval] at h
    split at h
    · next g hg =>
      cases h
      cases r with
      | error e => exact .failed _ e
      | ok y =>
        rw [hr y rfl]
        exact .read g (existing_ok hg)
    · cases h
      exact hsame _ rfl
    · cases h
  | acquire owner signer =>
    simp only [eval, map_ok] at h
    obtain ⟨⟨_, _⟩, h, he⟩ := h
    simp only [acquire, bind_ok, revertIf_ok, pure_ok, Prod.mk.injEq] at h he
    obtain ⟨g, hg, -, hs, -, hl, -, hgate, rfl, rfl⟩ := h
    obtain ⟨rfl, rfl⟩ := he
    rw [not_not] at hs
    subst hs
    exact .acquired owner g r (existing_ok hg) (fun l hm => not_lt.1 fun hlt => hl ⟨l, hm, hlt⟩)
      (fun hn hb => hgate ⟨hn, hb⟩) hr
  | save owner snapshot =>
    simp only [eval, map_ok] at h
    obtain ⟨⟨_, _⟩, h, he⟩ := h
    simp only [save, bind_ok, revertIf_ok, pure_ok, Prod.mk.injEq] at h he
    obtain ⟨g, hg, -, hs, -, hl, -, -, -, -, -, hgate, rfl, rfl⟩ := h
    obtain ⟨rfl, rfl⟩ := he
    rw [not_not] at hs hl
    obtain ⟨l, hl, hlo, hlu⟩ := hl
    have hlease : g.lease = some (owner, l.2) := by rw [← hlo]; exact hl
    exact .saved owner l.2 snapshot g _ r (existing_ok hg) hlease hlu hs
      (fun hn hb => hgate ⟨hn, hb⟩) rfl rfl rfl rfl hr
  | release owner =>
    simp only [eval, map_ok, release, bind_ok, pure_ok, Prod.mk.injEq] at h
    obtain ⟨_, ⟨g, hg, rfl⟩, rfl, rfl⟩ := h
    split
    · next hl => exact .released owner g r (existing_ok hg) hl
    · exact hsame _ rfl

theorem call_effect (s : IssuanceRedis) (id : RequestId) (c : IssuanceCall) (d : CallEnd) :
    CallEffect s id c (s.call id c d).1 (s.call id c d).2 := by
  unfold call
  split
  · exact .failed c _
  · exact .failed c _
  · next s' x he =>
    refine eval_effect he fun y hy => ?_
    cases hy
    rfl
  · next s' x he =>
    refine eval_effect he fun y hy => ?_
    cases hy

end IssuanceRedis

/-! ## The runs -/

/-- The evidence is in the vault and the issuance is approved. -/
def IssuanceEntry.Ready (p : IssuanceEntry) : Prop :=
  p.evidenceStored = true ∧ p.outcome.isIssued = true

/-- What holds of a payload, where `R` are the transactions observed as reverted and `D` the
    evidence that was put into the vault. -/
structure SoundEntry (R : SignedIssuance → Prop) (D : Option VaultRecord → Prop) (id : RequestId)
    (p : IssuanceEntry) : Prop where
  requestId : p.requestId = id
  stored : p.transaction.isSome = true → p.Ready
  put : p.evidenceStored = true → D p.evidenceRecord
  reverted : p.phase = .failed → p.lastError = some .sourceReverted →
    ∀ t, p.transaction = some t → R t

/-- The transaction of a payload stays, unless it was observed as reverted. -/
def KeepsTransaction (R : SignedIssuance → Prop) (p q : IssuanceEntry) : Prop :=
  ∀ t, p.transaction = some t → q.transaction = some t ∨ R t

/-- An await of a service. -/
def AdvanceAwait.service : AdvanceAwait → Bool
  | .save _ | .reload | .saveReloaded _ | .release => false
  | _ => true

/-- An await that relies on nothing. -/
def AdvanceAwait.free : AdvanceAwait → Bool
  | .put | .reserve none | .receipt | .maySubmit | .maySend | .broadcast | .receiptAgain
  | .sourceConfirmed _ | .materialized _ | .activate _ | .release | .reload => true
  | _ => false

namespace AdvanceWork

variable {R : SignedIssuance → Prop} {D : Option VaultRecord → Prop} {id : RequestId}
  {o : AdvanceOptions} {now : ℕ} {w w' : AdvanceWork} {env : IssuanceEnv} {reply : AdvanceReply}

/-- What a run relies on at an await. -/
def Facts (R : SignedIssuance → Prop) (w : AdvanceWork) : Prop :=
  match w.await with
  | .save .evidenceStored => w.entry.evidenceStored = true
  | .assertTarget => w.entry.Ready
  | .save .retried => w.entry.Ready ∧ w.entry.phase ≠ .failed
  | .processed | .mayPrepare | .prepare | .reserve (some _) =>
    w.entry.Ready ∧ w.entry.phase ≠ .failed ∧ w.entry.transaction = none
  | .reconcile (.reverted _) => ∀ t, w.entry.transaction = some t → R t
  | _ => True

/-- The working copy is kept, or changed for the save that follows. -/
inductive Edited (R : SignedIssuance → Prop) (D : Option VaultRecord → Prop) (id : RequestId)
    (w w' : AdvanceWork) : Prop
  | kept (he : w'.entry = w.entry) (ha : w'.await.service = true ∨ w'.await = .release ∨
      w'.await = .reload)
  | changed (k : AfterSave) (ha : w'.await = .save k) (hs : SoundEntry R D id w'.entry)
      (ht : KeepsTransaction R w.entry w'.entry)

structure Follow (R : SignedIssuance → Prop) (D : Option VaultRecord → Prop) (id : RequestId)
    (w w' : AdvanceWork) : Prop where
  facts : Facts R w'
  edited : Edited R D id w w'

theorem follow_goto {a : AdvanceAwait} (h : AdvanceAwait.free a = true) :
    Follow R D id w (w.goto a) := by
  cases a with
  | reserve t =>
    cases t with
    | none => exact ⟨trivial, .kept rfl (.inl rfl)⟩
    | some t => cases h
  | assertTarget | processed | mayPrepare | prepare | reconcile r | save k | saveReloaded c => cases h
  | release => exact ⟨trivial, .kept rfl (.inr (.inl rfl))⟩
  | reload => exact ⟨trivial, .kept rfl (.inr (.inr rfl))⟩
  | _ => exact ⟨trivial, .kept rfl (.inl rfl)⟩

/-- An await before the signature. -/
theorem follow_unsigned {a : AdvanceAwait} (he : w.entry.Ready)
    (hp : w.entry.phase ≠ .failed) (ht : w.entry.transaction = none)
    (ha : a = .processed ∨ a = .mayPrepare ∨ a = .prepare ∨ ∃ t, a = .reserve (some t)) :
    Follow R D id w (w.goto a) := by
  rcases ha with rfl | rfl | rfl | ⟨t, rfl⟩
  all_goals exact ⟨⟨he, hp, ht⟩, .kept rfl (.inl rfl)⟩

/-- A save that keeps the transaction and the evidence and records no revert. -/
theorem follow_same {q : IssuanceEntry} {k : AfterSave} (hs : SoundEntry R D id w.entry)
    (hid : q.requestId = w.entry.requestId) (ht : q.transaction = w.entry.transaction)
    (ho : q.outcome = w.entry.outcome) (he : q.evidenceStored = w.entry.evidenceStored)
    (hr : q.evidenceRecord = w.entry.evidenceRecord)
    (hf : q.phase = .failed → q.lastError ≠ some .sourceReverted ∨
      w.entry.phase = .failed ∧ w.entry.lastError = some .sourceReverted)
    (hk : Facts R (w.saveAs q k)) : Follow R D id w (w.saveAs q k) := by
  refine ⟨hk, .changed k rfl ⟨hid.trans hs.requestId, ?_, ?_, ?_⟩ fun t h => .inl (ht.trans h)⟩
  · intro h
    change q.evidenceStored = true ∧ q.outcome.isIssued = true
    rw [he, ho]
    exact hs.stored (ht ▸ h)
  · intro h
    change D q.evidenceRecord
    rw [hr]
    exact hs.put (he ▸ h)
  · intro hp hl t h
    rcases hf hp with hl' | ⟨hp', hl'⟩
    · exact absurd hl hl'
    · exact hs.reverted hp' hl' t (ht ▸ h)

theorem follow_failWith {fault : IssuanceFault} (hs : SoundEntry R D id w.entry)
    (hf : fault ≠ .sourceReverted) : Follow R D id w (w.failWith fault) := by
  refine follow_same hs rfl rfl rfl rfl rfl (fun _ => .inl ?_) trivial
  simpa using hf

theorem follow_toReceipt : Follow R D id w (w.toReceipt o) := by
  rw [toReceipt]
  split <;> exact follow_goto rfl

theorem follow_toTransaction (hs : SoundEntry R D id w.entry) (he : w.entry.Ready)
    (hp : w.entry.phase ≠ .failed) : Follow R D id w (w.toTransaction o now) := by
  rw [toTransaction]
  split
  · next ht =>
    split
    · exact follow_failWith hs (by decide)
    · exact follow_unsigned he hp (by simpa using ht) (.inl rfl)
  · exact follow_toReceipt

theorem follow_toTarget (hs : SoundEntry R D id w.entry) (he : w.entry.evidenceStored = true) :
    Follow R D id w w.toTarget := by
  rw [toTarget]
  split
  · next ho => exact ⟨⟨he, ho⟩, .kept rfl (.inl rfl)⟩
  · exact follow_failWith hs (by decide)

theorem follow_begin (hs : SoundEntry R D id w.entry) : Follow R D id w (w.begin_ o now) := by
  rw [begin_]
  split
  · exact follow_goto rfl
  · split
    · exact follow_failWith hs (by decide)
    · split
      · exact follow_goto rfl
      · next he => exact follow_toTarget hs (by simpa using he)

theorem follow_afterTarget (hs : SoundEntry R D id w.entry) (he : w.entry.Ready) :
    Follow R D id w (w.afterTarget o now) := by
  rw [afterTarget]
  split
  · exact follow_goto rfl
  · next hn =>
    split
    · next hp =>
      -- only a recorded revert is retried
      have hl : w.entry.lastError = some .sourceReverted := by
        by_contra hl
        exact hn ⟨hp, .inr hl⟩
      have hk : Facts R (w.saveAs (retried now w.entry) .retried) :=
        ⟨he, fun h => by cases h⟩
      refine ⟨hk, .changed .retried rfl ⟨hs.requestId, fun _ => he, hs.put, ?_⟩ ?_⟩
      · intro _ _ t ht
        cases ht
      · exact fun t ht => .inr (hs.reverted hp hl t ht)
    · next hp => exact follow_toTransaction hs he hp

theorem follow_signed (hs : SoundEntry R D id w.entry) (he : w.entry.Ready)
    (hp : w.entry.phase ≠ .failed) (ht : w.entry.transaction = none) (t : SignedIssuance) :
    Follow R D id w (w.saveAs { w.entry with transaction := some t } .signed) := by
  refine ⟨trivial, .changed .signed rfl ⟨hs.requestId, fun _ => he, hs.put, ?_⟩ ?_⟩
  · exact fun h => absurd h hp
  · intro t' h
    rw [ht] at h
    cases h

theorem follow_prepared (hs : SoundEntry R D id w.entry) (he : w.entry.Ready)
    (hp : w.entry.phase ≠ .failed) (ht : w.entry.transaction = none) (t : SignedIssuance) :
    Follow R D id w (w.prepared o t) := by
  rw [prepared]
  split
  · exact follow_goto rfl
  · split
    · exact follow_unsigned he hp ht (.inr (.inr (.inr ⟨t, rfl⟩)))
    · exact follow_signed hs he hp ht t

theorem follow_conclude {r : IssuanceReceipt} (hs : SoundEntry R D id w.entry)
    (hr : ∀ c, r = .reverted c → ∀ t, w.entry.transaction = some t → R t) :
    Follow R D id w (w.conclude r) := by
  cases r with
  | pending => exact follow_goto rfl
  | reverted c =>
    refine ⟨trivial, .changed .return_ rfl ⟨hs.requestId, hs.stored, hs.put, ?_⟩ fun t h => .inl h⟩
    exact fun _ _ => hr c rfl
  | success c => exact follow_goto rfl

theorem follow_afterReceipt {r : IssuanceReceipt} (hs : SoundEntry R D id w.entry)
    (hr : ∀ c, r = .reverted c → ∀ t, w.entry.transaction = some t → R t) :
    Follow R D id w (w.afterReceipt o r) := by
  have hbudget {c : SourceConfirmation} (hf : Facts R (w.goto (.reconcile r))) :
      Follow R D id w (if o.budget = true then if c.gasUsed.isNone = true then w.goto .release
        else w.goto (.reconcile r) else w.conclude r) := by
    split
    · split
      · exact follow_goto rfl
      · exact ⟨hf, .kept rfl (.inl rfl)⟩
    · exact follow_conclude hs hr
  cases r with
  | pending => exact follow_goto rfl
  | reverted c => exact hbudget (hr c rfl)
  | success c => exact hbudget trivial

/-- A reverting receipt was read with the required confirmations. -/
theorem reverted_of_receiptOf {reads : ReceiptReads} {e : IssuanceEntry} {c : SourceConfirmation}
    {t : SignedIssuance} (h : reads.receiptOf env e now = some (.reverted c))
    (ht : e.transaction = some t) : reads.Reverted env t := by
  simp only [ReceiptReads.receiptOf, ht, Option.bind_eq_bind, Option.bind_some] at h
  split at h
  · cases h
  · split at h
    · cases h
    next r hr =>
    split at h
    · cases h
    next h1 =>
    split at h
    · cases h
    next h2 =>
    split at h
    · cases h
    split at h
    · cases h
    next h5 =>
    split at h
    · next h6 => exact ⟨r, hr, not_not.1 h5, h6, not_lt.1 h1, not_not.1 h2⟩
    · split at h <;> cases h

theorem follow_onReceipt {reads : ReceiptReads} {a : AdvanceAwait} (ha : a.free = true)
    (hs : SoundEntry R D id w.entry)
    (hr : ∀ t, w.entry.transaction = some t → reads.Reverted env t → R t) :
    Follow R D id w (w.onReceipt o (w.goto a) (reads.receiptOf env w.entry now)) := by
  generalize h : reads.receiptOf env w.entry now = r
  have hr' (c : SourceConfirmation) (hc : r = some (.reverted c)) (t : SignedIssuance)
      (ht : w.entry.transaction = some t) : R t := hr t ht (reverted_of_receiptOf (h.trans hc) ht)
  match r with
  | none => exact follow_goto rfl
  | some .pending => exact follow_goto ha
  | some (.reverted c) => exact follow_afterReceipt hs fun c' hc => hr' c' (congrArg some hc)
  | some (.success c) =>
    show Follow R D id w (w.afterReceipt o (.success c))
    refine follow_afterReceipt hs fun c' hc => ?_
    cases hc

theorem follow_afterSourceConfirmed {c : SourceConfirmation} (hs : SoundEntry R D id w.entry) :
    Follow R D id w (w.afterSourceConfirmed c) := by
  rw [afterSourceConfirmed]
  split
  · exact follow_goto rfl
  · exact follow_same hs rfl rfl rfl rfl rfl (fun _ => .inl (by simp)) trivial

/-- **How a run goes on from a service's answer.** -/
theorem receive_follow (hs : SoundEntry R D id w.entry) (hf : Facts R w)
    (hput : w.await = .put → reply = .done → D w.entry.evidenceRecord)
    (hrev : ∀ reads t, w.await = .receipt ∨ w.await = .receiptAgain → reply = .receipt reads →
      w.entry.transaction = some t → reads.Reverted env t → R t)
    (h : w.receive o now env reply = some w') : Follow R D id w w' := by
  unfold receive at h
  unfold Facts at hf
  split at h <;> cases h
  · next ha =>
    have hk : Facts R (w.saveAs { w.entry with evidenceStored := true } .evidenceStored) := rfl
    exact ⟨hk, .changed .evidenceStored rfl
      ⟨hs.requestId, fun h => ⟨rfl, (hs.stored h).2⟩, fun _ => hput ha rfl, hs.reverted⟩ fun t h => .inl h⟩
  · next ha =>
    rw [ha] at hf
    exact follow_afterTarget hs hf
  · exact follow_failWith hs (by decide)
  · next ha =>
    rw [ha] at hf
    exact follow_unsigned hf.1 hf.2.1 hf.2.2 (.inr (.inl rfl))
  · next ha =>
    rw [ha] at hf
    exact follow_unsigned hf.1 hf.2.1 hf.2.2 (.inr (.inr (.inl rfl)))
  · next t ha =>
    rw [ha] at hf
    exact follow_prepared hs hf.1 hf.2.1 hf.2.2 t
  · next t ha =>
    rw [ha] at hf
    obtain ⟨h1, h2⟩ := @follow_signed R D id { w with budgetReserved := true } hs hf.1 hf.2.1 hf.2.2 t
    exact ⟨h1, by cases h2 with
      | kept he ha => exact .kept he ha
      | changed k ha hs ht => exact .changed k ha hs ht⟩
  · exact follow_goto rfl
  · next reads ha => exact follow_onReceipt rfl hs fun t => hrev reads t (.inl ha) rfl
  · exact follow_same hs rfl rfl rfl rfl rfl (fun h => by cases h) trivial
  · exact follow_goto rfl
  · exact follow_same hs rfl rfl rfl rfl rfl (fun _ => .inl (by simp)) trivial
  · exact follow_same hs rfl rfl rfl rfl rfl (fun _ => .inl (by simp)) trivial
  · exact follow_same hs rfl rfl rfl rfl rfl (fun _ => .inl (by simp)) trivial
  · next reads ha => exact follow_onReceipt rfl hs fun t => hrev reads t (.inr ha) rfl
  · next r ha =>
    rw [ha] at hf
    refine follow_conclude hs fun c hc => ?_
    subst hc
    exact hf
  · exact follow_afterSourceConfirmed hs
  · exact follow_goto rfl
  · exact follow_goto rfl
  · exact follow_goto rfl
  · exact follow_same hs rfl rfl rfl rfl rfl (fun h => by cases h) trivial
  · exact follow_goto rfl
  · exact follow_goto rfl

theorem afterSave_follow {k : AfterSave} (hs : SoundEntry R D id w.entry)
    (hf : Facts R (w.goto (.save k))) : Follow R D id w (w.afterSave o now k) := by
  cases k with
  | return_ => exact follow_goto rfl
  | evidenceStored => exact follow_toTarget hs hf
  | retried => exact follow_toTransaction hs hf.1 hf.2
  | signed => exact follow_toReceipt
  | submitted => exact follow_goto rfl
  | broadcast => exact follow_goto rfl
  | confirmed c => exact follow_goto rfl

end AdvanceWork

end Proofmark
