/-
  The safety of epoch publication.

  `WellFormed` is what a passed validation says of the entries, `PlanEffect` what one
  operation changes in them, and `CallEffect` where a write leaves the file and the
  journal.  `PublicationInv` keeps the file and an unpoisoned journal equal, so that what a
  call of `advancePublication` holds was saved before.
-/
import Proofmark.Pipeline.PublicationDelivery
import Mathlib.Data.List.Nodup

namespace Proofmark

open Revert Function

namespace PublicationEntry

variable {entries next : List PublicationEntry}

/-! ## Entries -/

/-- The signed bytes of an entry that was not abandoned are among the entries. -/
def Stored (entries : List PublicationEntry) (id : String) (t : PublicationTransaction) : Prop :=
  ∃ e ∈ entries, e.id = id ∧ e.transaction = some t ∧ e.abandonment = none

/-- What a passed validation says of the entries. -/
structure WellFormed (entries : List PublicationEntry) : Prop where
  ids : (entries.map PublicationEntry.id).Nodup
  abandoned : ∀ e ∈ entries, e.abandonment.isSome → e.transaction = none
  confirmed : ∀ e ∈ entries, ∀ c, e.confirmation = some c →
    ∃ t, e.transaction = some t ∧ t.hash = c.transactionHash
  last : ∀ l₁ e l₂, entries = l₁ ++ e :: l₂ → e.unresolved = true → l₂ = []

theorem WellFormed.stored (h : WellFormed entries) {e : PublicationEntry} (he : e ∈ entries)
    {t : PublicationTransaction} (ht : e.transaction = some t) : Stored entries e.id t := by
  refine ⟨e, he, rfl, ht, ?_⟩
  cases ha : e.abandonment with
  | none => rfl
  | some a =>
    have hn := h.abandoned e he (by rw [ha]; rfl)
    rw [hn] at ht
    cases ht

/-- Only the last entry is unresolved, so there is at most one. -/
theorem WellFormed.countP_unresolved (h : WellFormed entries) : entries.countP unresolved ≤ 1 := by
  rcases List.eq_nil_or_concat entries with rfl | ⟨l, e, rfl⟩
  · simp
  · rw [List.concat_eq_append] at h ⊢
    have hl : l.countP unresolved = 0 := by
      refine List.countP_eq_zero.2 fun a ha hu => ?_
      obtain ⟨l₁, l₂, rfl⟩ := List.append_of_mem ha
      have hnil := h.last l₁ a (l₂ ++ [e]) (by simp) hu
      exact absurd hnil (by simp)
    rw [List.countP_append, hl, Nat.zero_add]
    exact List.countP_le_length

/-- **What one operation saves**: a new unsigned entry, or a change of one entry that signs it
    with a fresh nonce or leaves its transaction as it is. -/
inductive PlanEffect (entries : List PublicationEntry) : List PublicationEntry → Prop
  | begun (e : PublicationEntry) (ht : e.transaction = none) : PlanEffect entries (entries ++ [e])
  | signed (l₁ : List PublicationEntry) (e e' : PublicationEntry) (l₂ : List PublicationEntry)
      (t : PublicationTransaction) (hl : entries = l₁ ++ e :: l₂) (hid : e'.id = e.id)
      (ht : e.transaction = none) (ht' : e'.transaction = some t) (hn : t.nonce ∉ nonces entries) :
      PlanEffect entries (l₁ ++ e' :: l₂)
  | kept (l₁ : List PublicationEntry) (e e' : PublicationEntry) (l₂ : List PublicationEntry)
      (hl : entries = l₁ ++ e :: l₂) (hid : e'.id = e.id) (ht : e'.transaction = e.transaction) :
      PlanEffect entries (l₁ ++ e' :: l₂)

theorem nonces_append (l l' : List PublicationEntry) : nonces (l ++ l') = nonces l ++ nonces l' :=
  List.filterMap_append

theorem nonces_cons (e : PublicationEntry) (l : List PublicationEntry) :
    nonces (e :: l) = (e.transaction.map PublicationTransaction.nonce).toList ++ nonces l := by
  rw [nonces, List.filterMap_cons]
  cases e.transaction <;> rfl

theorem PlanEffect.nonces (h : PlanEffect entries next) (hn : (nonces entries).Nodup) :
    (nonces next).Nodup := by
  cases h with
  | begun e ht =>
    rw [nonces_append, nonces_cons, ht]
    simpa [PublicationEntry.nonces] using hn
  | signed l₁ e e' l₂ t hl hid ht ht' hfresh =>
    subst hl
    rw [nonces_append, nonces_cons, ht] at hn hfresh
    rw [nonces_append, nonces_cons, ht']
    simp only [Option.map_none, Option.toList_none, List.nil_append] at hn hfresh
    exact List.nodup_middle.2 (List.nodup_cons.2 ⟨hfresh, hn⟩)
  | kept l₁ e e' l₂ hl hid ht =>
    subst hl
    rw [nonces_append, nonces_cons] at hn
    rw [nonces_append, nonces_cons, ht]
    exact hn

/-- **Stored bytes stay**: no operation replaces, abandons or removes a signed transaction. -/
theorem PlanEffect.stored (h : PlanEffect entries next) (hw : WellFormed next) {id : String}
    {t : PublicationTransaction} (hs : Stored entries id t) : Stored next id t := by
  obtain ⟨a, ha, rfl, hat, -⟩ := hs
  cases h with
  | begun e ht => exact hw.stored (List.mem_append_left _ ha) hat
  | signed l₁ e e' l₂ t' hl hid ht ht' hfresh =>
    subst hl
    have hne : a ≠ e := by
      rintro rfl
      rw [ht] at hat
      cases hat
    have ha' : a ∈ l₁ ++ e' :: l₂ := by
      simp only [List.mem_append, List.mem_cons, hne, false_or] at ha ⊢
      exact ha.imp_right .inr
    exact hw.stored ha' hat
  | kept l₁ e e' l₂ hl hid ht =>
    subst hl
    by_cases hae : a = e
    · subst hae
      rw [← hid]
      exact hw.stored (by simp) (ht.trans hat)
    · have ha' : a ∈ l₁ ++ e' :: l₂ := by
        simp only [List.mem_append, List.mem_cons, hae, false_or] at ha ⊢
        exact ha.imp_right .inr
      exact hw.stored ha' hat

end PublicationEntry

open PublicationEntry

namespace PublicationEnv

variable {env : PublicationEnv} {entries next : List PublicationEntry}

/-! ## Validation -/

theorem validateConfirmation_ok {e : PublicationEntry} {last : Bool} {u : Unit}
    (h : validateConfirmation e last = .ok u) :
    (e.confirmation = none → last = true) ∧
    ∀ c, e.confirmation = some c → ∃ t, e.transaction = some t ∧ t.hash = c.transactionHash := by
  rw [validateConfirmation] at h
  cases hc : e.confirmation with
  | none =>
    simp only [hc, revertIf_ok, not_not] at h
    exact ⟨fun _ => h, fun c hc' => (by cases hc')⟩
  | some c =>
    simp only [hc, bind_ok, orRevert_ok, revertIf_ok, not_or, ne_eq, not_not] at h
    obtain ⟨t, ht, hh, -⟩ := h
    refine ⟨fun hn => (by cases hn), fun c' hc' => ?_⟩
    cases hc'
    exact ⟨t, ht, hh.symm⟩

theorem validateEntry_ok {e : PublicationEntry} {last : Bool} {u : Unit}
    (h : env.validateEntry e last = .ok u) :
    (e.abandonment.isSome → e.transaction = none) ∧
    (∀ c, e.confirmation = some c → ∃ t, e.transaction = some t ∧ t.hash = c.transactionHash) ∧
    (e.unresolved = true → last = true) := by
  rw [validateEntry] at h
  cases ha : e.abandonment with
  | some a =>
    simp only [ha, revertIf_ok, not_or, Bool.not_eq_true, Option.isSome_eq_false_iff,
      Option.isNone_iff_eq_none] at h
    obtain ⟨ht, hc, -⟩ := h
    refine ⟨fun _ => ht, fun c hc' => ?_, fun hu => ?_⟩
    · rw [hc] at hc'
      cases hc'
    · simp [unresolved, ha] at hu
  | none =>
    simp only [ha, bind_ok] at h
    obtain ⟨-, -, h⟩ := h
    obtain ⟨hn, hc⟩ := validateConfirmation_ok h
    refine ⟨fun h => (by cases h), hc, fun hu => hn ?_⟩
    simpa [unresolved, ha] using hu

theorem validateEntries_ids {ids : List String} {u : Unit}
    (h : env.validateEntries ids entries = .ok u) :
    (∀ e ∈ entries, e.id ∉ ids) ∧ (entries.map PublicationEntry.id).Nodup := by
  induction entries generalizing ids with
  | nil => exact ⟨by simp, List.nodup_nil⟩
  | cons e l ih =>
    simp only [validateEntries, bind_ok, revertIf_ok, not_or] at h
    obtain ⟨-, -, -, ⟨-, he⟩, _, -, hrest⟩ := h
    obtain ⟨hout, hn⟩ := ih hrest
    refine ⟨fun a ha => ?_, List.nodup_cons.2 ⟨fun hmem => ?_, hn⟩⟩
    · rcases List.mem_cons.1 ha with rfl | ha
      · exact he
      · exact fun hi => hout a ha (List.mem_cons_of_mem _ hi)
    · obtain ⟨a, ha, hid⟩ := List.mem_map.1 hmem
      exact hout a ha (hid ▸ List.mem_cons_self)

theorem validateEntries_wellFormed {ids : List String} {u : Unit}
    (h : env.validateEntries ids entries = .ok u) : WellFormed entries := by
  induction entries generalizing ids with
  | nil => exact ⟨List.nodup_nil, by simp, by simp, by simp⟩
  | cons e l ih =>
    have hids := (validateEntries_ids h).2
    simp only [validateEntries, bind_ok, revertIf_ok] at h
    obtain ⟨-, -, -, -, _, hentry, hrest⟩ := h
    obtain ⟨hab, hconf, hlast⟩ := validateEntry_ok hentry
    have hl := ih hrest
    refine ⟨hids, fun a ha => ?_, fun a ha => ?_, fun l₁ a l₂ hl' hu => ?_⟩
    · rcases List.mem_cons.1 ha with rfl | ha
      · exact hab
      · exact hl.abandoned a ha
    · rcases List.mem_cons.1 ha with rfl | ha
      · exact hconf
      · exact hl.confirmed a ha
    · cases l₁ with
      | nil =>
        obtain ⟨rfl, rfl⟩ := List.cons.inj hl'
        exact List.isEmpty_iff.1 (hlast hu)
      | cons b l₁ =>
        obtain ⟨-, rfl⟩ := List.cons.inj hl'
        exact hl.last l₁ a l₂ rfl hu

theorem validate_wellFormed (h : env.validate entries = .ok ()) : WellFormed entries := by
  unfold validate at h
  simp only [bind_ok] at h
  obtain ⟨-, -, h⟩ := h
  exact validateEntries_wellFormed h

/-! ## Operations -/

theorem plan_effect {c : JournalCall} {e : PublicationEntry}
    (h : env.plan entries c = .ok (e, some next)) : PlanEffect entries next ∧ e ∈ next := by
  cases c with
  | begin_ value =>
    simp only [plan, begin_, bind_ok] at h
    obtain ⟨-, -, h⟩ := h
    split at h
    · simp only [pure_ok, Prod.mk.injEq, reduceCtorEq, and_false] at h
    · simp only [bind_ok, revertIf_ok, pure_ok, Prod.mk.injEq, Option.some.injEq] at h
      obtain ⟨-, -, -, -, rfl, rfl⟩ := h
      exact ⟨.begun _ rfl, by simp⟩
  | prepare id raw =>
    simp only [plan, prepare, bind_ok, orRevert_ok, revertIf_ok] at h
    obtain ⟨a, ha, -, -, t, ht, h⟩ := h
    split at h
    · simp only [bind_ok, pure_ok, Prod.mk.injEq, reduceCtorEq, and_false, exists_const] at h
    · next hnone =>
      simp only [bind_ok, revertIf_ok, pure_ok, Prod.mk.injEq, Option.some.injEq] at h
      obtain ⟨-, hn, rfl, rfl⟩ := h
      obtain ⟨l₁, l₂, hl, hid, hf⟩ := Keyed.change_eq ha
      rw [change, hf]
      exact ⟨.signed l₁ a _ l₂ t hl rfl hnone rfl hn, by simp⟩
  | confirm id c =>
    simp only [plan, confirm, bind_ok, orRevert_ok] at h
    obtain ⟨a, ha, h⟩ := h
    split at h
    · simp only [bind_ok, pure_ok, Prod.mk.injEq, reduceCtorEq, and_false, exists_const] at h
    · simp only [pure_ok, Prod.mk.injEq, Option.some.injEq] at h
      obtain ⟨rfl, rfl⟩ := h
      obtain ⟨l₁, l₂, hl, hid, hf⟩ := Keyed.change_eq ha
      rw [change, hf]
      exact ⟨.kept l₁ a _ l₂ hl rfl rfl, by simp⟩
  | abandonUnsigned id at_ =>
    simp only [plan, abandonUnsigned, bind_ok, orRevert_ok, revertIf_ok] at h
    obtain ⟨a, ha, -, -, h⟩ := h
    split at h
    · simp only [pure_ok, Prod.mk.injEq, reduceCtorEq, and_false] at h
    · simp only [pure_ok, Prod.mk.injEq, Option.some.injEq] at h
      obtain ⟨rfl, rfl⟩ := h
      obtain ⟨l₁, l₂, hl, hid, hf⟩ := Keyed.change_eq ha
      rw [change, hf]
      exact ⟨.kept l₁ a _ l₂ hl rfl rfl, by simp⟩

/-- A plan that saves nothing returns an entry that is there. -/
theorem plan_none {c : JournalCall} {e : PublicationEntry}
    (h : env.plan entries c = .ok (e, none)) : e ∈ entries := by
  cases c with
  | begin_ value =>
    simp only [plan, begin_, bind_ok] at h
    obtain ⟨-, -, h⟩ := h
    split at h
    · next same hs =>
      simp only [pure_ok, Prod.mk.injEq, and_true] at h
      exact h ▸ (Keyed.mem_of_find hs).1
    · simp only [bind_ok, pure_ok, Prod.mk.injEq, reduceCtorEq, and_false, exists_const] at h
  | prepare id raw =>
    simp only [plan, prepare, bind_ok, orRevert_ok, revertIf_ok] at h
    obtain ⟨a, ha, -, -, t, ht, h⟩ := h
    split at h
    · simp only [bind_ok, pure_ok, Prod.mk.injEq, and_true] at h
      obtain ⟨-, -, rfl⟩ := h
      exact (Keyed.mem_of_find ha).1
    · simp only [bind_ok, pure_ok, Prod.mk.injEq, reduceCtorEq, and_false, exists_const] at h
  | confirm id c =>
    simp only [plan, confirm, bind_ok, orRevert_ok] at h
    obtain ⟨a, ha, h⟩ := h
    split at h
    · simp only [bind_ok, pure_ok, Prod.mk.injEq, and_true] at h
      obtain ⟨-, -, rfl⟩ := h
      exact (Keyed.mem_of_find ha).1
    · simp only [pure_ok, Prod.mk.injEq, reduceCtorEq, and_false] at h
  | abandonUnsigned id at_ =>
    simp only [plan, abandonUnsigned, bind_ok, orRevert_ok, revertIf_ok] at h
    obtain ⟨a, ha, -, -, h⟩ := h
    split at h
    · simp only [pure_ok, Prod.mk.injEq, and_true] at h
      exact h ▸ (Keyed.mem_of_find ha).1
    · simp only [pure_ok, Prod.mk.injEq, reduceCtorEq, and_false] at h

/-- An entry that `prepare` returns is signed. -/
theorem plan_prepare {id raw : String} {e : PublicationEntry} {o : Option (List PublicationEntry)}
    (h : env.plan entries (.prepare id raw) = .ok (e, o)) : e.transaction.isSome := by
  simp only [plan, prepare, bind_ok, orRevert_ok, revertIf_ok] at h
  obtain ⟨a, ha, -, -, t, ht, h⟩ := h
  split at h
  · next hsome =>
    simp only [bind_ok, pure_ok, Prod.mk.injEq] at h
    obtain ⟨-, -, rfl, -⟩ := h
    rw [hsome]
    rfl
  · simp only [bind_ok, pure_ok, Prod.mk.injEq] at h
    obtain ⟨-, -, rfl, -⟩ := h
    rfl

end PublicationEnv

namespace PublicationHost

variable {env : PublicationEnv} {h h' : PublicationHost}

/-! ## Writes -/

/-- **Where an operation leaves the host.** -/
inductive CallEffect (env : PublicationEnv) (h : PublicationHost) (i : ℕ) (c : JournalCall) :
    PublicationHost → Except PublicationError PublicationEntry → Prop
  | refused (e : PublicationError) : CallEffect env h i c h (.error e)
  | unchanged (j : PublicationJournal) (entry : PublicationEntry) (hj : h.assertOpen i = .ok j)
      (hp : env.plan j.entries c = .ok (entry, none)) : CallEffect env h i c h (.ok entry)
  | saved (j : PublicationJournal) (entry : PublicationEntry) (next : List PublicationEntry)
      (hj : h.assertOpen i = .ok j) (hp : env.plan j.entries c = .ok (entry, some next))
      (hv : env.validate next = .ok ()) (hb : env.envelopeBytes next ≤ publicationMaxBytes) :
      CallEffect env h i c
        { h with file := some next, journal := some { j with entries := next } } (.ok entry)
  | torn (j : PublicationJournal) (entry : PublicationEntry) (next : List PublicationEntry)
      (file : Option (List PublicationEntry)) (hj : h.assertOpen i = .ok j)
      (hp : env.plan j.entries c = .ok (entry, some next)) (hv : env.validate next = .ok ())
      (hb : env.envelopeBytes next ≤ publicationMaxBytes)
      (hf : file = h.file ∨ file = some next) :
      CallEffect env h i c
        { h with file := file, journal := some { j with poisoned := true } }
        (.error .writeUnconfirmed)

theorem call_effect (i : ℕ) (c : JournalCall) (w : EnvelopeWrite) :
    CallEffect env h i c (h.call env i c w).1 (h.call env i c w).2 := by
  unfold call
  cases hj : h.assertOpen i with
  | error e => exact .refused e
  | ok j =>
    dsimp only
    cases hp : env.plan j.entries c with
    | error e => exact .refused e
    | ok r =>
      obtain ⟨entry, _ | next⟩ := r
      · exact .unchanged j entry hj hp
      · dsimp only
        unfold save
        cases hv : env.validate next with
        | error e => exact .refused e
        | ok u =>
          dsimp only
          by_cases hb : env.envelopeBytes next > publicationMaxBytes
          · rw [if_pos hb]
            exact .refused _
          · rw [if_neg hb]
            have hb' := Nat.le_of_not_gt hb
            cases w with
            | acknowledged => exact .saved j entry next hj hp hv hb'
            | beforeRename => exact .torn j entry next h.file hj hp hv hb' (.inl rfl)
            | afterRename => exact .torn j entry next (some next) hj hp hv hb' (.inr rfl)

theorem assertOpen_ok {i : ℕ} {j : PublicationJournal} :
    h.assertOpen i = .ok j ↔ h.journal = some j ∧ j.instance_ = i ∧ j.poisoned = false := by
  unfold assertOpen
  simp only [bind_ok, orRevert_ok, revertIf_ok, pure_ok, ne_eq, not_not, Bool.not_eq_true]
  constructor
  · rintro ⟨j', hj, _, hi, _, hp, rfl⟩
    exact ⟨hj, hi, hp⟩
  · rintro ⟨hj, hi, hp⟩
    exact ⟨j, hj, (), hi, (), hp, rfl⟩

/-! ## The invariant -/

/-- What the file holds. -/
def stored (h : PublicationHost) : List PublicationEntry := h.file.getD []

/-- The awaits that a call reaches with a signed entry only. -/
def signedPc : AdvancePc → Bool
  | .rechecking | .reobserving | .broadcasting | .settling => true
  | _ => false

/-- What a call of `advancePublication` holds was saved before. -/
def Backed (h : PublicationHost) (t : AdvanceTask) : Prop :=
  (∀ x, t.entry.transaction = some x → Stored h.stored t.entry.id x) ∧
  (signedPc t.pc = true → t.entry.transaction.isSome)

end PublicationHost

open PublicationHost

structure PublicationInv (env : PublicationEnv) (h : PublicationHost) : Prop where
  file : ∀ l, h.file = some l →
    env.validate l = .ok () ∧ env.envelopeBytes l ≤ publicationMaxBytes
  wellFormed : WellFormed h.stored
  fresh : (nonces h.stored).Nodup
  journal : ∀ j, h.journal = some j → WellFormed j.entries ∧ (nonces j.entries).Nodup ∧
    (j.poisoned = false → j.entries = h.stored)
  tasks : ∀ k t, h.tasks k = some t → Backed h t

section
variable {env : PublicationEnv} {h h' : PublicationHost} {i : ℕ} {c : JournalCall}
  {r : Except PublicationError PublicationEntry}

/-- Stored bytes stay between two states. -/
def Keeps (h h' : PublicationHost) : Prop := ∀ id t, Stored h.stored id t → Stored h'.stored id t

theorem PublicationHost.Backed.keeps {t : AdvanceTask} (hb : Backed h t) (hk : Keeps h h') :
    Backed h' t := ⟨fun x hx => hk _ _ (hb.1 x hx), hb.2⟩

theorem PublicationInv.open_journal (hi : PublicationInv env h) {j : PublicationJournal}
    (hj : h.assertOpen i = .ok j) : j.entries = h.stored := by
  obtain ⟨hj, -, hp⟩ := assertOpen_ok.1 hj
  exact (hi.journal j hj).2.2 hp

/-- **Operations keep the invariant**, and an entry they return is backed by the file. -/
theorem PublicationInv.call (hi : PublicationInv env h) (he : CallEffect env h i c h' r) :
    PublicationInv env h' ∧ Keeps h h' ∧ h'.tasks = h.tasks ∧
    ∀ entry, r = .ok entry → ∀ x, entry.transaction = some x → Stored h'.stored entry.id x := by
  cases he with
  | refused e => exact ⟨hi, fun _ _ hs => hs, rfl, fun _ he => (by cases he)⟩
  | unchanged j entry hj hp =>
    refine ⟨hi, fun _ _ hs => hs, rfl, fun a ha x hx => ?_⟩
    cases ha
    have hmem := PublicationEnv.plan_none hp
    rw [hi.open_journal hj] at hmem
    exact hi.wellFormed.stored hmem hx
  | saved j entry next hj hp hv hb =>
    have hopen := hi.open_journal hj
    obtain ⟨heff, hmem⟩ := PublicationEnv.plan_effect hp
    rw [hopen] at heff
    have hw := PublicationEnv.validate_wellFormed hv
    have hk : Keeps h { h with file := some next, journal := some { j with entries := next } } :=
      fun _ _ hs => heff.stored hw hs
    have hn := heff.nonces hi.fresh
    refine ⟨⟨fun l hl => ?_, hw, hn, fun j' hj' => ?_, fun k t ht => (hi.tasks k t ht).keeps hk⟩,
      hk, rfl, fun a ha x hx => ?_⟩
    · cases hl
      exact ⟨hv, hb⟩
    · cases hj'
      exact ⟨hw, hn, fun _ => rfl⟩
    · cases ha
      exact hw.stored hmem hx
  | torn j entry next file hj hp hv hb hf =>
    have hopen := hi.open_journal hj
    obtain ⟨heff, -⟩ := PublicationEnv.plan_effect hp
    rw [hopen] at heff
    have hw := PublicationEnv.validate_wellFormed hv
    have hn := heff.nonces hi.fresh
    have hjw := hi.journal j (assertOpen_ok.1 hj).1
    -- the write took effect or not
    rcases hf with rfl | rfl
    · refine ⟨⟨hi.file, hi.wellFormed, hi.fresh, fun j' hj' => ?_, hi.tasks⟩, fun _ _ hs => hs, rfl,
        fun _ he => (by cases he)⟩
      cases hj'
      exact ⟨hjw.1, hjw.2.1, fun hp => by cases hp⟩
    · have hk : Keeps h { h with file := some next, journal := some { j with poisoned := true } } :=
        fun _ _ hs => heff.stored hw hs
      refine ⟨⟨fun l hl => ?_, hw, hn, fun j' hj' => ?_, fun k t ht => (hi.tasks k t ht).keeps hk⟩,
        hk, rfl, fun _ he => (by cases he)⟩
      · cases hl
        exact ⟨hv, hb⟩
      · cases hj'
        exact ⟨hjw.1, hjw.2.1, fun hp => by cases hp⟩

/-! ## The delivery -/

/-- **How a call goes on.** -/
inductive ResumeEffect (env : PublicationEnv) (h : PublicationHost) (t : AdvanceTask) :
    PublicationHost → AdvanceStep → Prop
  | moved (pc : AdvancePc)
      (hpc : signedPc pc = true → signedPc t.pc = true ∨ t.entry.transaction.isSome) :
      ResumeEffect env h t h (.await { t with pc := pc })
  | broadcast (hpc : signedPc t.pc = true) :
      ResumeEffect env h t h (.broadcast { t with pc := .broadcasting })
  | prepared (raw : String) (h' : PublicationHost) (entry : PublicationEntry)
      (he : CallEffect env h t.journal (.prepare t.entry.id raw) h' (.ok entry)) :
      ResumeEffect env h t h' (.await { t with entry := entry, pc := .rechecking })
  | ended (c : JournalCall) (h' : PublicationHost) (r : Except PublicationError PublicationEntry)
      (he : CallEffect env h t.journal c h' r) (step : AdvanceStep)
      (hs : (∃ o, step = .returned o) ∨ ∃ e, step = .threw e) : ResumeEffect env h t h' step

theorem ResumeEffect.same {t : AdvanceTask} {step : AdvanceStep}
    (hs : (∃ o, step = .returned o) ∨ ∃ e, step = .threw e) : ResumeEffect env h t h step :=
  .ended (.abandonUnsigned "" 0) h _ (.refused .transport) step hs

theorem finish_effect {t : AdvanceTask} (o : PublicationObservation) (w : EnvelopeWrite) :
    ResumeEffect env h t (h.finish env t o w).1 (h.finish env t o w).2 := by
  unfold finish
  split
  · split
    · exact .same (.inr ⟨_, rfl⟩)
    · exact .same (.inl ⟨_, rfl⟩)
  · exact .same (.inr ⟨_, rfl⟩)
  · next c _ =>
    have heff := @call_effect env h t.journal (.confirm t.entry.id c) w
    generalize h.call env t.journal (.confirm t.entry.id c) w = r at heff
    obtain ⟨h', _ | entry⟩ := r
    · exact .ended _ h' _ heff _ (.inr ⟨_, rfl⟩)
    · exact .ended _ h' _ heff _ (.inl ⟨_, rfl⟩)
  · exact .same (.inl ⟨_, rfl⟩)

theorem resume_effect {t : AdvanceTask} {reply : TransportReply} {w : EnvelopeWrite}
    {r : PublicationHost × AdvanceStep} (hr : h.resume env t reply w = some r) :
    ResumeEffect env h t r.1 r.2 := by
  unfold resume at hr
  split at hr
  · next hpc =>
    cases hr
    exact .moved _ fun _ => .inl (by rw [hpc]; rfl)
  · next hpc =>
    cases hr
    exact .moved _ fun _ => .inl (by rw [hpc]; rfl)
  · cases hr
    exact .same (.inr ⟨_, rfl⟩)
  · split at hr
    · cases hr
      exact finish_effect _ w
    · cases hr
      exact .moved _ fun h => by cases h
  · split at hr
    · cases hr
      exact .same (.inr ⟨_, rfl⟩)
    · cases hr
      refine .moved _ fun hs => .inr ?_
      cases ht : t.entry.transaction with
      | none =>
        rw [ht] at hs
        cases hs
      | some x => rfl
  · next raw _ =>
    have heff := @call_effect env h t.journal (.prepare t.entry.id raw) w
    generalize h.call env t.journal (.prepare t.entry.id raw) w = q at heff hr
    obtain ⟨h', _ | entry⟩ := q
    · cases hr
      exact .ended _ h' _ heff _ (.inr ⟨_, rfl⟩)
    · cases hr
      exact .prepared raw h' entry heff
  · next hpc =>
    cases hr
    exact .moved _ fun _ => .inl (by rw [hpc]; rfl)
  · next hpc =>
    split at hr
    · cases hr
      exact finish_effect _ w
    · split at hr
      · cases hr
        exact .same (.inr ⟨_, rfl⟩)
      · cases hr
        exact .broadcast (by rw [hpc]; rfl)
  · cases hr
    exact finish_effect _ w
  · cases hr

/-- A signed entry that `prepare` returned. -/
theorem signed_of_prepare {id raw : String} {entry : PublicationEntry}
    (he : CallEffect env h i (.prepare id raw) h' (.ok entry)) : entry.transaction.isSome := by
  cases he with
  | unchanged j _ hj hp => exact PublicationEnv.plan_prepare hp
  | saved j _ next hj hp hv hb => exact PublicationEnv.plan_prepare hp

theorem PublicationInv.setTask (hi : PublicationInv env h) {k : ℕ} {o : Option AdvanceTask}
    (ho : ∀ t, o = some t → Backed h t) :
    PublicationInv env { h with tasks := update h.tasks k o } := by
  refine ⟨hi.file, hi.wellFormed, hi.fresh, hi.journal, fun k' t ht => ?_⟩
  change update h.tasks k o k' = some t at ht
  by_cases hk : k' = k
  · rw [hk, update_self] at ht
    exact ho t ht
  · rw [update_of_ne hk] at ht
    exact hi.tasks k' t ht

/-- Going on with a call keeps the invariant, and what it broadcasts is backed by the file. -/
theorem PublicationInv.resume (hi : PublicationInv env h) {k : ℕ} {t : AdvanceTask}
    {step : AdvanceStep} (ht : Backed h t) (he : ResumeEffect env h t h' step) :
    PublicationInv env (settle k (h', step)).1 ∧ Keeps h (settle k (h', step)).1 ∧
    ∀ entry, (settle k (h', step)).2 = .broadcast entry →
      ∃ x, entry.transaction = some x ∧ Stored h.stored entry.id x := by
  have hkeep : Keeps h h := fun _ _ hs => hs
  cases he with
  | moved pc hpc =>
    refine ⟨hi.setTask fun t' ht' => ?_, hkeep, fun entry ho => by cases ho⟩
    cases ht'
    exact ⟨ht.1, fun hs => (hpc hs).elim ht.2 id⟩
  | broadcast hpc =>
    refine ⟨hi.setTask fun t' ht' => ?_, hkeep, fun entry ho => ?_⟩
    · cases ht'
      exact ⟨ht.1, fun _ => ht.2 hpc⟩
    · cases ho
      obtain ⟨x, hx⟩ := Option.isSome_iff_exists.1 (ht.2 hpc)
      exact ⟨x, hx, ht.1 x hx⟩
  | prepared raw _ entry hc =>
    obtain ⟨hi', hk, htasks, hstored⟩ := hi.call hc
    refine ⟨hi'.setTask fun t' ht' => ?_, hk, fun entry ho => by cases ho⟩
    cases ht'
    exact ⟨hstored entry rfl, fun _ => signed_of_prepare hc⟩
  | ended c _ r hc _ hs =>
    obtain ⟨hi', hk, htasks, hstored⟩ := hi.call hc
    rcases hs with ⟨o, rfl⟩ | ⟨e, rfl⟩
    · exact ⟨hi'.setTask fun t' ht' => (by cases ht'), hk, fun entry ho => by cases ho⟩
    · exact ⟨hi'.setTask fun t' ht' => (by cases ht'), hk, fun entry ho => by cases ho⟩

theorem PublicationInv.initial : PublicationInv env .initial :=
  ⟨fun l hl => (by cases hl), ⟨List.nodup_nil, by simp [stored, PublicationHost.initial],
    by simp [stored, PublicationHost.initial], by simp [stored, PublicationHost.initial]⟩,
    List.nodup_nil, fun j hj => (by cases hj), fun k t ht => (by cases ht)⟩

/-- What the constructor loads is what the file holds. -/
theorem load_ok {entries : List PublicationEntry} (hl : h.load env = .ok entries) :
    entries = h.stored := by
  unfold load at hl
  unfold stored
  cases hf : h.file with
  | none =>
    simp only [hf, Except.ok.injEq] at hl
    exact hl.symm
  | some l =>
    simp only [hf, bind_ok, pure_ok] at hl
    obtain ⟨-, -, -, -, rfl⟩ := hl
    rfl

theorem PublicationInv.load (hi : PublicationInv env h) : h.load env = .ok h.stored := by
  unfold PublicationHost.load stored
  cases hf : h.file with
  | none => rfl
  | some l =>
    obtain ⟨hv, hb⟩ := hi.file l hf
    simp only [hv, revertIf_of_not (Nat.not_lt.2 hb)]
    rfl

/-- **Each action keeps the invariant and the stored bytes.** -/
theorem PublicationInv.step {e : PublicationStep} (hi : PublicationInv env e.pre)
    (hs : (PublicationHost.machine env).IsStep e) :
    PublicationInv env e.post ∧ Keeps e.pre e.post ∧
    ∀ entry, e.out = .broadcast entry →
      ∃ x, entry.transaction = some x ∧ Stored e.pre.stored entry.id x := by
  obtain ⟨h, a, out, h'⟩ := e
  change (PublicationHost.machine env).step h a = .ok (h', out) at hs
  dsimp only at hi ⊢
  have hkeep : Keeps h h := fun _ _ hs => hs
  cases a with
  | open_ =>
    simp only [PublicationHost.machine, open_, bind_ok, revertIf_ok, pure_ok, Prod.mk.injEq] at hs
    obtain ⟨-, ⟨-, -, entries, hl, rfl⟩, rfl, rfl⟩ := hs
    refine ⟨⟨hi.file, hi.wellFormed, hi.fresh, fun j hj => ?_, hi.tasks⟩, hkeep,
      fun entry ho => (by cases ho)⟩
    cases hj
    rw [load_ok hl]
    exact ⟨hi.wellFormed, hi.fresh, fun _ => rfl⟩
  | close unlinked =>
    simp only [PublicationHost.machine, pure_ok, Prod.mk.injEq] at hs
    obtain ⟨rfl, rfl⟩ := hs
    refine ⟨?_, ?_, fun entry ho => (by cases ho)⟩
    · unfold close
      split
      · exact hi
      · exact ⟨hi.file, hi.wellFormed, hi.fresh, fun j hj => (by cases hj), hi.tasks⟩
    · unfold close
      split
      · exact hkeep
      · exact hkeep
  | crash =>
    simp only [PublicationHost.machine, pure_ok, Prod.mk.injEq] at hs
    obtain ⟨rfl, rfl⟩ := hs
    exact ⟨⟨hi.file, hi.wellFormed, hi.fresh, fun j hj => (by cases hj), fun k t ht => (by cases ht)⟩,
      hkeep, fun entry ho => (by cases ho)⟩
  | unlock =>
    simp only [PublicationHost.machine, bind_ok, pure_ok, Prod.mk.injEq] at hs
    obtain ⟨-, -, rfl, rfl⟩ := hs
    exact ⟨⟨hi.file, hi.wellFormed, hi.fresh, hi.journal, hi.tasks⟩, hkeep,
      fun entry ho => (by cases ho)⟩
  | call c w =>
    simp only [PublicationHost.machine, pure_ok, Prod.mk.injEq] at hs
    obtain ⟨rfl, rfl⟩ := hs
    obtain ⟨hi', hk, -⟩ := hi.call (call_effect h.opened c w)
    exact ⟨hi', hk, fun entry ho => (by cases ho)⟩
  | advance k id =>
    simp only [PublicationHost.machine, advance, bind_ok, orRevert_ok, pure_ok, Prod.mk.injEq] at hs
    obtain ⟨-, -, t, ⟨j, hj, entry, he, -, -, rfl⟩, rfl, rfl⟩ := hs
    refine ⟨hi.setTask fun t' ht' => ?_, hkeep, fun entry ho => (by cases ho)⟩
    cases ht'
    have hmem := (Keyed.mem_of_find he).1
    rw [hi.open_journal hj] at hmem
    exact ⟨fun x hx => hi.wellFormed.stored hmem hx, fun hs => (by cases hs)⟩
  | resume k reply w =>
    simp only [PublicationHost.machine, bind_ok, orRevert_ok, pure_ok] at hs
    obtain ⟨t, ht, r, hr, hset⟩ := hs
    have hres := hi.resume (k := k) (hi.tasks k t ht) (resume_effect hr)
    rw [Prod.mk.eta, hset] at hres
    exact hres

theorem publicationInv_run {s : PublicationHost} {es : List PublicationStep}
    (hr : (PublicationHost.machine env).Run .initial es s) : PublicationInv env s :=
  hr.invariant .initial fun _ hi hs => (hi.step hs).1

/-- One publication at a time, on distinct nonces, confirmed by its own receipt. -/
structure SingleFlight (entries : List PublicationEntry) : Prop where
  ids : (entries.map PublicationEntry.id).Nodup
  atMostOne : entries.countP unresolved ≤ 1
  last : ∀ l₁ e l₂, entries = l₁ ++ e :: l₂ → e.unresolved = true → l₂ = []
  nonces : (PublicationEntry.nonces entries).Nodup
  confirmed : ∀ e ∈ entries, ∀ c, e.confirmation = some c →
    ∃ t, e.transaction = some t ∧ t.hash = c.transactionHash

theorem PublicationEntry.WellFormed.singleFlight {entries : List PublicationEntry}
    (hw : WellFormed entries) (hn : (PublicationEntry.nonces entries).Nodup) :
    SingleFlight entries :=
  ⟨hw.ids, hw.countP_unresolved, hw.last, hn, hw.confirmed⟩

/-- **Epoch publication is single-flight.**  In every reached state the file and an open
    journal hold single-flight entries, and the journal can be reopened on the file; signed
    bytes that are stored stay stored; and what is handed to the network is stored. -/
theorem epoch_publication_single_flight {s₁ s₂ : PublicationHost} {es₁ es₂ : List PublicationStep}
    (h₁ : (PublicationHost.machine env).Run .initial es₁ s₁)
    (h₂ : (PublicationHost.machine env).Run s₁ es₂ s₂) :
    SingleFlight s₁.stored ∧ (∀ j, s₁.journal = some j → SingleFlight j.entries) ∧
    (∃ s, ({ s₁ with lock := false }.open_ env) = .ok s ∧
      s.journal.map PublicationJournal.entries = some s₁.stored) ∧
    (∀ id t, Stored s₁.stored id t → Stored s₂.stored id t) ∧
    (∀ e ∈ es₂, ∀ entry, e.out = .broadcast entry →
      ∃ t, entry.transaction = some t ∧ Stored e.pre.stored entry.id t) := by
  have hi := publicationInv_run h₁
  refine ⟨hi.wellFormed.singleFlight hi.fresh, fun j hj => ?_, ?_, ?_, fun e he entry ho => ?_⟩
  · obtain ⟨hw, hn, -⟩ := hi.journal j hj
    exact hw.singleFlight hn
  · have hload : ({ s₁ with lock := false } : PublicationHost).load env = .ok s₁.stored := hi.load
    refine ⟨{ s₁ with
      lock := true
      opened := s₁.opened + 1
      journal := some ⟨s₁.opened + 1, s₁.stored, false⟩ }, ?_, rfl⟩
    rw [open_, hload]
    rfl
  · -- stored bytes stay along the second run
    have hrun : PublicationInv env s₂ ∧ Keeps s₁ s₂ :=
      h₂.invariant (I := fun s => PublicationInv env s ∧ Keeps s₁ s) ⟨hi, fun _ _ hs => hs⟩
        fun e hi hs =>
          have hstep := hi.1.step hs
          ⟨hstep.1, fun id t ht => hstep.2.1 id t (hi.2 id t ht)⟩
    exact hrun.2
  · obtain ⟨es, es', -, hpre, hs, -⟩ := h₂.of_mem he
    exact ((publicationInv_run (h₁.append hpre)).step hs).2.2 entry ho

end

/-! A publication that is signed, survives a crash and is sent and confirmed after it. -/

def publicationTx : EthersTransaction :=
  ⟨"0x02", true, some "0x0a", some 7, 1, some 9, 0, "0xaabb", 0⟩

def publicationEnv : PublicationEnv where
  scope := ⟨1, 9, 7⟩
  id intent := intent.calldata
  isPublishCall data := data = "0xaabb"
  parseTransaction raw := if raw = "0x02" then some publicationTx else none
  envelopeBytes entries := 400 * entries.length

def publicationHash : String := "0xe3b0c44298fc1c149afbf4c8996fb92427ae41e4649b934ca495991b7852b855"

def publicationRun : List PublicationAction :=
  let receipt : PublicationConfirmation := ⟨"0x0a", 12, publicationHash, 1, 6, 50⟩
  [.open_, .call (.begin_ ⟨"0xaabb", ⟨5, publicationHash⟩, none, 40⟩) .acknowledged,
    .advance 0 "0xaabb", .resume 0 (.observed .absent) .acknowledged, .resume 0 .ready .acknowledged,
    .resume 0 (.signed "0x02") .afterRename, .crash, .unlock, .open_, .advance 0 "0xaabb",
    .resume 0 (.observed .absent) .acknowledged, .resume 0 .ready .acknowledged,
    .resume 0 .ready .acknowledged, .resume 0 (.observed .absent) .acknowledged,
    .resume 0 .failed .acknowledged, .resume 0 (.observed (.confirmed receipt)) .acknowledged]

def publicationMachine : Machine PublicationHost PublicationAction PublicationOutput PublicationError :=
  PublicationHost.machine publicationEnv

theorem epoch_publication_single_flight_crash :
    let s₁ := publicationMachine.final .initial (publicationRun.take 7)
    let es₂ := publicationMachine.trace s₁ (publicationRun.drop 7)
    let s₂ := publicationMachine.final s₁ (publicationRun.drop 7)
    SingleFlight s₁.stored ∧ (∀ j, s₁.journal = some j → SingleFlight j.entries) ∧
    (∃ s, ({ s₁ with lock := false }.open_ publicationEnv) = .ok s ∧
      s.journal.map PublicationJournal.entries = some s₁.stored) ∧
    (∀ id t, Stored s₁.stored id t → Stored s₂.stored id t) ∧
    (∀ e ∈ es₂, ∀ entry, e.out = .broadcast entry →
      ∃ t, entry.transaction = some t ∧ Stored e.pre.stored entry.id t) :=
  epoch_publication_single_flight (publicationMachine.run_trace _ _) (publicationMachine.run_trace _ _)

example : ((publicationMachine.final .initial publicationRun).stored.map fun e =>
    (e.transaction.map (·.raw), e.confirmation.isSome)) = [(some "0x02", true)] := by decide +kernel

end Proofmark
