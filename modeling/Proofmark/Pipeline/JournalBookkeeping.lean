/-
  The bookkeeping of the issuance journal.

  `JournalEffect` lists what an action can write.  `Bookkeeping` is what holds between the
  keys: the sorted set is that of the requests that are not terminal, a hash that is terminal
  has one deadline, and a gate is held by a request that needs it.  Every run keeps it.
-/
import Proofmark.Pipeline.JournalScript

namespace Proofmark

open Revert Function

theorem IssuanceEntry.not_terminal {e : IssuanceEntry} (h : e.needsSigner = true) :
    e.terminal = false := by
  unfold IssuanceEntry.needsSigner at h
  unfold IssuanceEntry.terminal
  cases hp : e.phase <;> simp_all

/-- What `retain` makes of a hash. -/
def JournalHash.retained (h : JournalHash) (terminalUntil : ℕ) : JournalHash :=
  if h.payload.terminal then
    { h with terminalExpiresAt := some terminalUntil, expiry := some terminalUntil }
  else { h with terminalExpiresAt := none, expiry := none }

namespace JournalHash

variable (h : JournalHash) (u : ℕ)

@[simp] theorem retained_payload : (h.retained u).payload = h.payload := by
  unfold retained
  split <;> rfl

@[simp] theorem retained_signer : (h.retained u).signer = h.signer := by
  unfold retained
  split <;> rfl

@[simp] theorem retained_needsSigner : (h.retained u).needsSigner = h.needsSigner := by
  unfold retained
  split <;> rfl

theorem retained_expiry : (h.retained u).expiry = (h.retained u).terminalExpiresAt := by
  unfold retained
  split <;> rfl

theorem retained_terminal :
    (h.retained u).terminalExpiresAt = if h.payload.terminal then some u else none := by
  unfold retained
  split <;> rfl

end JournalHash

namespace JournalRedis

variable (s : JournalRedis) (id : RequestId) (h : JournalHash) (u : ℕ)

@[simp] theorem zadd_requests : (s.zadd id).requests = s.requests := by
  unfold zadd
  split <;> rfl

@[simp] theorem zadd_signers : (s.zadd id).signers = s.signers := by
  unfold zadd
  split <;> rfl

@[simp] theorem zadd_activeSigners : (s.zadd id).activeSigners = s.activeSigners := by
  unfold zadd
  split <;> rfl

@[simp] theorem retain_requests :
    (s.retain id h u).requests = update s.requests id (some (h.retained u)) := by
  unfold retain JournalHash.retained
  split <;> simp [zrem]

@[simp] theorem retain_signers : (s.retain id h u).signers = s.signers := by
  unfold retain
  split <;> simp [zrem]

@[simp] theorem retain_activeSigners : (s.retain id h u).activeSigners = s.activeSigners := by
  unfold retain
  split <;> simp [zrem]

/-- The requests of the sorted set. -/
def indexed : List RequestId := s.pending.map Prod.fst

theorem mem_indexed_zadd {id' : RequestId} :
    id' ∈ (s.zadd id).indexed ↔ id' = id ∨ id' ∈ s.indexed := by
  unfold zadd
  split
  · next hany =>
    have hmem : id ∈ s.indexed := by
      obtain ⟨p, hp, hid⟩ := List.any_eq_true.1 hany
      exact List.mem_map.2 ⟨p, hp, by simpa using hid⟩
    constructor
    · exact .inr
    · rintro (rfl | h)
      · exact hmem
      · exact h
  · simp [indexed, or_comm]

theorem nodup_zadd (hn : s.indexed.Nodup) : (s.zadd id).indexed.Nodup := by
  unfold zadd
  split
  · exact hn
  · next hany =>
    have hid : id ∉ s.indexed := by simpa [indexed] using hany
    simp only [indexed, List.map_append, List.map_cons, List.map_nil, List.nodup_append]
    refine ⟨hn, List.nodup_singleton _, ?_⟩
    rintro a ha b hb rfl
    exact hid (List.mem_singleton.1 hb ▸ ha)

theorem mem_indexed_retain {id' : RequestId} : id' ∈ (s.retain id h u).indexed ↔
    if id' = id then h.payload.terminal = false else id' ∈ s.indexed := by
  unfold retain
  split
  · next ht =>
    by_cases hid : id' = id
    · simp [hid, ht, indexed, zrem]
    · simp [hid, indexed, zrem]
  · next ht =>
    dsimp only
    rw [mem_indexed_zadd]
    by_cases hid : id' = id
    · simpa [hid] using ht
    · simp [hid, indexed]

theorem nodup_retain (hn : s.indexed.Nodup) : (s.retain id h u).indexed.Nodup := by
  unfold retain
  split
  · exact hn.sublist (List.filter_sublist.map _)
  · exact nodup_zadd _ id hn

/-- The gate and the hash are written in either order. -/
theorem hold_retain (k : SignerKey) : (s.hold id k).retain id h u = (s.retain id h u).hold id k := by
  unfold retain
  split
  · rfl
  · unfold zadd hold
    dsimp only
    split <;> rfl

/-! ## What an action writes -/

/-- The hash of a new entry. -/
def fresh (entry : IssuanceEntry) : JournalHash where
  revision := 1
  payload := entry
  signer := entry.signerKey
  needsSigner := entry.needsSigner
  lease := none
  terminalExpiresAt := none
  expiry := none

/-- The hash that a save writes, before `retain`. -/
def resaved (owner : ℕ) (entry : IssuanceEntry) : JournalHash :=
  { h with
    payload := entry
    needsSigner := entry.needsSigner
    lease := some (owner, s.now + requestLease)
    revision := h.revision + 1 }

@[simp] theorem resaved_payload (owner : ℕ) (entry : IssuanceEntry) :
    (s.resaved h owner entry).payload = entry := rfl

@[simp] theorem resaved_signer (owner : ℕ) (entry : IssuanceEntry) :
    (s.resaved h owner entry).signer = h.signer := rfl

@[simp] theorem resaved_needsSigner (owner : ℕ) (entry : IssuanceEntry) :
    (s.resaved h owner entry).needsSigner = entry.needsSigner := rfl

/-- The gates after a save. -/
def regated (entry : IssuanceEntry) : JournalRedis :=
  if entry.needsSigner then s.hold entry.requestId h.signer else s.giveBack entry.requestId h.signer

/-- All that an action can write. -/
inductive JournalEffect (s : JournalRedis) : JournalRedis → Prop
  | kept : JournalEffect s s
  | created {entry : IssuanceEntry} : s.requests entry.requestId = none →
      JournalEffect s (s.retain entry.requestId (fresh entry) (s.now + terminalRetention))
  | leased {id : RequestId} {h : JournalHash} {lease : Option (ℕ × ℕ)} : s.requests id = some h →
      JournalEffect s { s with requests := update s.requests id (some { h with lease := lease }) }
  | acquired {id : RequestId} {h : JournalHash} {lease : Option (ℕ × ℕ)} :
      s.requests id = some h → h.needsSigner = true → ¬ s.signerBusy id h.signer →
      JournalEffect s { s.hold id h.signer with
        requests := update s.requests id (some { h with lease := lease }) }
  | saved {owner : ℕ} {entry : IssuanceEntry} {h : JournalHash} :
      s.requests entry.requestId = some h → h.signer = entry.signerKey →
      (entry.needsSigner = true → ¬ s.signerBusy entry.requestId h.signer) →
      JournalEffect s ((s.regated h entry).retain entry.requestId (s.resaved h owner entry)
        (s.terminalDeadline h))
  | expired {id : RequestId} {h : JournalHash} {u : ℕ} : s.requests id = some h →
      h.expiry = some u → JournalEffect s { s with requests := update s.requests id none }

@[simp] theorem regated_requests (entry : IssuanceEntry) : (s.regated h entry).requests = s.requests := by
  unfold regated
  split <;> rfl

@[simp] theorem regated_indexed (entry : IssuanceEntry) : (s.regated h entry).indexed = s.indexed := by
  unfold regated
  split <;> rfl

variable {s s' : JournalRedis} {reply : JournalReply}

theorem create_effect {entry : IssuanceEntry} (h : s.create entry = .ok (s', reply)) :
    JournalEffect s s' := by
  unfold create at h
  split at h
  · cases h
    exact .kept
  · next hnone =>
    simp only [bind_ok, revertIf_ok, pure_ok, Prod.mk.injEq] at h
    obtain ⟨_, -, rfl, -⟩ := h
    exact .created hnone

theorem acquire_effect {id : RequestId} {owner : ℕ} {signer : SignerKey}
    (h : s.acquire id owner signer = .ok (s', reply)) : JournalEffect s s' := by
  simp only [acquire, bind_ok, orRevert_ok, revertIf_ok, pure_ok, Prod.mk.injEq] at h
  obtain ⟨h, hh, _, hsigner, _, -, _, hbusy, rfl, -⟩ := h
  rw [not_not] at hsigner
  subst hsigner
  split
  · next hneeds => exact .acquired hh hneeds fun hb => hbusy ⟨hneeds, hb⟩
  · exact .leased hh

theorem save_effect {owner : ℕ} {snapshot : JournalSnapshot}
    (h : s.save owner snapshot = .ok (s', reply)) : JournalEffect s s' := by
  simp only [save, bind_ok, orRevert_ok, revertIf_ok, pure_ok, Prod.mk.injEq] at h
  obtain ⟨h, hh, _, hsigner, _, -, _, -, _, -, _, hbusy, rfl, -⟩ := h
  exact .saved hh (not_not.1 hsigner) fun hneeds hb => hbusy ⟨hneeds, hb⟩

theorem release_effect {id : RequestId} {owner : ℕ} (h : s.release id owner = .ok (s', reply)) :
    JournalEffect s s' := by
  simp only [release, bind_ok, orRevert_ok, pure_ok, Prod.mk.injEq] at h
  obtain ⟨h, hh, rfl, -⟩ := h
  split
  · exact .leased hh
  · exact .kept

theorem script_effect {capable : Bool} {op : JournalOp} (h : s.script capable op = .ok (s', reply)) :
    JournalEffect s s' := by
  simp only [script, bind_ok] at h
  obtain ⟨_, -, h⟩ := h
  cases op with
  | create entry => exact create_effect h
  | get id =>
    simp only [perform, map_ok, orRevert_ok, Prod.mk.injEq] at h
    obtain ⟨_, -, rfl, -⟩ := h
    exact .kept
  | acquire id owner signer => exact acquire_effect h
  | save owner snapshot => exact save_effect h
  | release id owner => exact release_effect h
  | pending =>
    cases h
    exact .kept


end JournalRedis

theorem journal_effect {e : JournalStep} (he : JournalRedis.machine.IsStep e) :
    ∃ now, JournalRedis.JournalEffect { e.pre with now := now } e.post := by
  obtain ⟨s, a, w, s'⟩ := e
  cases a with
  | eval now capable op =>
    simp only [Machine.IsStep, JournalRedis.machine, bind_ok, revertIf_ok, mapError_ok, pure_ok,
      Prod.mk.injEq] at he
    obtain ⟨_, -, ⟨s₁, reply⟩, h, rfl, -⟩ := he
    exact ⟨now, JournalRedis.script_effect h⟩
  | expire now id =>
    simp only [Machine.IsStep, JournalRedis.machine, bind_ok, revertIf_ok, pure_ok,
      Prod.mk.injEq] at he
    obtain ⟨_, -, _, hdue, rfl, -⟩ := he
    refine ⟨now, ?_⟩
    cases hh : s.requests id with
    | none => simp [hh] at hdue
    | some h =>
      cases hu : h.expiry with
      | none => simp [hh, hu] at hdue
      | some u => exact .expired hh hu

/-! ## What holds between the keys -/

/-- What holds of a stored hash. -/
structure HashInv (id : RequestId) (h : JournalHash) : Prop where
  requestId : h.payload.requestId = id
  signer : h.signer = h.payload.signerKey
  needsSigner : h.needsSigner = h.payload.needsSigner
  expiry : h.expiry = h.terminalExpiresAt
  terminal : h.terminalExpiresAt.isSome = h.payload.terminal

structure Bookkeeping (s : JournalRedis) : Prop where
  hash : ∀ id h, s.requests id = some h → HashInv id h
  index : ∀ id, id ∈ s.indexed ↔ ∃ h, s.requests id = some h ∧ h.payload.terminal = false
  nodup : s.indexed.Nodup
  gate : ∀ k id, s.signers k = some id → ∃ h, s.requests id = some h ∧ h.signer = k ∧ h.needsSigner = true
  active : ∀ id, id ∈ s.activeSigners ↔ ∃ k, s.signers k = some id

namespace HashInv

variable {id : RequestId} {h : JournalHash}

theorem leased (hi : HashInv id h) (lease : Option (ℕ × ℕ)) : HashInv id { h with lease := lease } :=
  ⟨hi.requestId, hi.signer, hi.needsSigner, hi.expiry, hi.terminal⟩

theorem retained (hid : h.payload.requestId = id) (hs : h.signer = h.payload.signerKey)
    (hn : h.needsSigner = h.payload.needsSigner) (u : ℕ) : HashInv id (h.retained u) := by
  refine ⟨?_, ?_, ?_, h.retained_expiry u, ?_⟩
  · rw [h.retained_payload, hid]
  · rw [h.retained_payload, h.retained_signer, hs]
  · rw [h.retained_payload, h.retained_needsSigner, hn]
  · rw [h.retained_terminal, h.retained_payload]
    cases h.payload.terminal <;> rfl

/-- A hash with an expiry needs no signer. -/
theorem not_needsSigner (hi : HashInv id h) {u : ℕ} (hu : h.expiry = some u) :
    h.needsSigner = false ∧ h.payload.terminal = true := by
  have ht : h.payload.terminal = true := by rw [← hi.terminal, ← hi.expiry, hu]; rfl
  refine ⟨?_, ht⟩
  rw [hi.needsSigner]
  by_contra hn
  rw [IssuanceEntry.not_terminal (by simpa using hn)] at ht
  cases ht

end HashInv

namespace Bookkeeping

variable {s : JournalRedis} {id : RequestId} {h h' : JournalHash}

theorem initial : Bookkeeping .initial := by
  constructor <;> simp [JournalRedis.initial, JournalRedis.indexed]

/-- **The lease of a hash** has no part in the bookkeeping. -/
theorem leased (hi : Bookkeeping s) (hh : s.requests id = some h) (lease : Option (ℕ × ℕ)) :
    Bookkeeping { s with requests := update s.requests id (some { h with lease := lease }) } where
  hash id' g hg := by
    rcases eq_or_ne id' id with rfl | hid
    · simp only [update_self, Option.some.injEq] at hg
      subst hg
      exact (hi.hash id' h hh).leased lease
    · exact hi.hash id' g (by simpa [hid] using hg)
  index id' := by
    rcases eq_or_ne id' id with rfl | hid
    · simpa [hh, JournalRedis.indexed] using hi.index id'
    · simpa [hid, JournalRedis.indexed] using hi.index id'
  nodup := hi.nodup
  gate k id' hk := by
    obtain ⟨g, hg, hs, hn⟩ := hi.gate k id' hk
    rcases eq_or_ne id' id with rfl | hid
    · obtain rfl : h = g := by simpa [hh] using hg
      exact ⟨{ h with lease := lease }, by simp, hs, hn⟩
    · exact ⟨g, by simpa [hid] using hg, hs, hn⟩
  active := hi.active

/-- **A request that needs its signer takes the gate.** -/
theorem hold (hi : Bookkeeping s) (hh : s.requests id = some h) (hn : h.needsSigner = true)
    (hbusy : ¬ s.signerBusy id h.signer) : Bookkeeping (s.hold id h.signer) where
  hash := hi.hash
  index := hi.index
  nodup := hi.nodup
  gate k id' hk := by
    simp only [JournalRedis.hold] at hk ⊢
    rcases eq_or_ne k h.signer with rfl | hs
    · simp only [update_self, Option.some.injEq] at hk
      subst hk
      exact ⟨h, hh, rfl, hn⟩
    · exact hi.gate k id' (by simpa [hs] using hk)
  active id' := by
    simp only [JournalRedis.hold, List.mem_insert_iff, hi.active]
    constructor
    · rintro (rfl | ⟨k, hk⟩)
      · exact ⟨h.signer, by simp⟩
      · rcases eq_or_ne k h.signer with rfl | hs
        · -- another holder would make the signer busy
          obtain rfl : id' = id := by
            by_contra hid
            exact hbusy ⟨id', hk, hid⟩
          exact ⟨h.signer, by simp⟩
        · exact ⟨k, by simpa [hs] using hk⟩
    · rintro ⟨k, hk⟩
      rcases eq_or_ne k h.signer with rfl | hs
      · simp only [update_self, Option.some.injEq] at hk
        exact .inl hk.symm
      · exact .inr ⟨k, by simpa [hs] using hk⟩

/-- **A request that needs no signer gives its gate back.** -/
theorem giveBack_gate (hi : Bookkeeping s) (hh : s.requests id = some h) {k : SignerKey}
    {id' : RequestId} (hk : (s.giveBack id h.signer).signers k = some id') :
    id' ≠ id ∧ s.signers k = some id' := by
  simp only [JournalRedis.giveBack] at hk
  split at hk
  · next hheld =>
    rcases eq_or_ne k h.signer with rfl | hs
    · simp at hk
    · rw [update_of_ne hs] at hk
      refine ⟨?_, hk⟩
      rintro rfl
      obtain ⟨g, hg, hgs, -⟩ := hi.gate k id' hk
      obtain rfl : h = g := by simpa [hh] using hg
      exact hs hgs.symm
  · next hfree =>
    refine ⟨?_, hk⟩
    rintro rfl
    obtain ⟨g, hg, rfl, -⟩ := hi.gate k id' hk
    obtain rfl : h = g := by simpa [hh] using hg
    exact hfree hk

theorem giveBack_active (hi : Bookkeeping s) (hh : s.requests id = some h) (id' : RequestId) :
    id' ∈ (s.giveBack id h.signer).activeSigners ↔
      ∃ k, (s.giveBack id h.signer).signers k = some id' := by
  constructor
  · intro hmem
    obtain ⟨hmem, hid⟩ : id' ∈ s.activeSigners ∧ id' ≠ id := by
      simpa [JournalRedis.giveBack] using hmem
    obtain ⟨k, hk⟩ := (hi.active id').1 hmem
    refine ⟨k, ?_⟩
    simp only [JournalRedis.giveBack]
    split
    · next hheld =>
      rw [update_of_ne]
      · exact hk
      rintro rfl
      rw [hheld] at hk
      exact hid (Option.some.inj hk).symm
    · exact hk
  · rintro ⟨k, hk⟩
    obtain ⟨hid, hk⟩ := hi.giveBack_gate hh hk
    have hmem := (hi.active id').2 ⟨k, hk⟩
    simpa [JournalRedis.giveBack, hid] using hmem

theorem giveBack (hi : Bookkeeping s) (hh : s.requests id = some h) :
    Bookkeeping (s.giveBack id h.signer) where
  hash := hi.hash
  index := hi.index
  nodup := hi.nodup
  gate k id' hk := hi.gate k id' (hi.giveBack_gate hh hk).2
  active := hi.giveBack_active hh

/-- A hash that is written anew keeps the bookkeeping, when the gates fit it. -/
theorem retained (hi : Bookkeeping s) (hid : h.payload.requestId = id)
    (hs : h.signer = h.payload.signerKey) (hn : h.needsSigner = h.payload.needsSigner)
    (hgate : ∀ k, s.signers k = some id → h.signer = k ∧ h.needsSigner = true) (u : ℕ) :
    Bookkeeping (s.retain id h u) where
  hash id' g hg := by
    rw [s.retain_requests] at hg
    rcases eq_or_ne id' id with rfl | hne
    · simp only [update_self, Option.some.injEq] at hg
      subst hg
      exact .retained hid hs hn u
    · exact hi.hash id' g (by simpa [hne] using hg)
  index id' := by
    rw [s.mem_indexed_retain, s.retain_requests]
    rcases eq_or_ne id' id with rfl | hne
    · simp
    · simpa [hne] using hi.index id'
  nodup := s.nodup_retain id h u hi.nodup
  gate k id' hk := by
    rw [s.retain_signers] at hk
    rw [s.retain_requests]
    rcases eq_or_ne id' id with rfl | hne
    · obtain ⟨hsk, hnk⟩ := hgate k hk
      exact ⟨h.retained u, by simp, by simpa using hsk, by simpa using hnk⟩
    · simpa [hne] using hi.gate k id' hk
  active id' := by
    rw [s.retain_signers, s.retain_activeSigners]
    exact hi.active id'

theorem expired (hi : Bookkeeping s) (hh : s.requests id = some h) {u : ℕ} (hu : h.expiry = some u) :
    Bookkeeping { s with requests := update s.requests id none } where
  hash id' g hg := by
    rcases eq_or_ne id' id with rfl | hne
    · simp at hg
    · exact hi.hash id' g (by simpa [hne] using hg)
  index id' := by
    rcases eq_or_ne id' id with rfl | hne
    · have ht := ((hi.hash id' h hh).not_needsSigner hu).2
      simpa [hh, ht, JournalRedis.indexed] using hi.index id'
    · simpa [hne, JournalRedis.indexed] using hi.index id'
  nodup := hi.nodup
  gate k id' hk := by
    obtain ⟨g, hg, hs, hn⟩ := hi.gate k id' hk
    rcases eq_or_ne id' id with rfl | hne
    · obtain rfl : h = g := by simpa [hh] using hg
      rw [((hi.hash id' h hh).not_needsSigner hu).1] at hn
      cases hn
    · exact ⟨g, by simpa [hne] using hg, hs, hn⟩
  active := hi.active

theorem step (hi : Bookkeeping s) {s' : JournalRedis} (he : JournalRedis.JournalEffect s s') :
    Bookkeeping s' := by
  cases he with
  | kept => exact hi
  | @created entry hnone =>
    refine hi.retained rfl rfl rfl ?_ _
    intro k hk
    obtain ⟨g, hg, -⟩ := hi.gate k entry.requestId hk
    rw [hnone] at hg
    cases hg
  | leased hh => exact hi.leased hh _
  | acquired hh hn hbusy => exact (hi.hold hh hn hbusy).leased hh _
  | @saved owner entry h hh hs hbusy =>
    unfold JournalRedis.regated
    split
    · next hn =>
      -- the gate is taken for the new hash, and it may have been held for the old one
      rw [JournalRedis.hold_retain]
      have hnew : Bookkeeping
          (s.retain entry.requestId (s.resaved h owner entry) (s.terminalDeadline h)) := by
        refine hi.retained rfl hs rfl ?_ _
        intro k hk
        obtain ⟨g, hg, hgs, -⟩ := hi.gate k entry.requestId hk
        obtain rfl : h = g := by simpa [hh] using hg
        exact ⟨hgs, hn⟩
      have hstored : (s.retain entry.requestId (s.resaved h owner entry)
          (s.terminalDeadline h)).requests entry.requestId =
          some ((s.resaved h owner entry).retained (s.terminalDeadline h)) := by simp
      have hgate := hnew.hold hstored (by simpa using hn)
        (by simpa [JournalRedis.signerBusy] using hbusy hn)
      simpa using hgate
    · refine (hi.giveBack hh).retained (h := s.resaved h owner entry) rfl hs rfl ?_ _
      intro k hk
      exact absurd rfl (hi.giveBack_gate hh hk).1
  | expired hh hu => exact hi.expired hh hu

end Bookkeeping

/-! ## The journal that the runs of a delivery see -/

/-- The call of a delivery that an operation executes. -/
def JournalOp.call : JournalOp → Option IssuanceCall
  | .get _ => some .get
  | .acquire _ owner signer => some (.acquire owner signer)
  | .save owner snapshot => some (.save owner snapshot)
  | .release _ owner => some (.release owner)
  | .create _ | .pending => none

def JournalReply.snapshot? : JournalReply → Option JournalSnapshot
  | .snapshot x => some x
  | _ => none

namespace JournalRedis

/-- The state without the keys that only the bookkeeping has. -/
def view (s : JournalRedis) : IssuanceRedis :=
  ⟨s.now, fun id => (s.requests id).map JournalHash.toIssuanceHash, s.signers⟩

variable {s s' : JournalRedis} {id : RequestId} {h : JournalHash}

theorem view_requests_update (f : RequestId → Option JournalHash) (id : RequestId) (h : JournalHash) :
    (fun id' => (update f id (some h) id').map JournalHash.toIssuanceHash) =
      update (fun id' => (f id').map JournalHash.toIssuanceHash) id (some h.toIssuanceHash) := by
  ext1 id'
  rcases eq_or_ne id' id with rfl | hid
  · simp
  · simp [hid]

theorem view_retain (u : ℕ) : (s.retain id h u).view =
    { s.view with
      requests := update s.view.requests id (some { h.toIssuanceHash with
        terminalExpiresAt := if h.payload.terminal then some u else none }) } := by
  have hnow : (s.retain id h u).now = s.now := by
    unfold retain zadd
    split
    · rfl
    · dsimp only
      split <;> rfl
  have hhash : (h.retained u).toIssuanceHash = { h.toIssuanceHash with
      terminalExpiresAt := if h.payload.terminal then some u else none } := by
    unfold JournalHash.retained
    split <;> rfl
  simp only [view, hnow, retain_requests, retain_signers, view_requests_update, hhash]

theorem terminalDeadline_eq (hi : HashInv id h) :
    s.terminalDeadline h = h.terminalExpiresAt.getD (s.now + terminalRetention) := by
  unfold terminalDeadline
  rw [hi.expiry]
  cases h.terminalExpiresAt <;> simp

/-- The checks before an operation are those of the hash that it finds. -/
theorem existing_view {capable : Bool} {op : JournalOp} (hp : s.prelude capable op = .ok ())
    (hh : s.requests op.id = some h) : s.view.existing op.id = .ok h.toIssuanceHash := by
  simp only [prelude, bind_ok, revertIf_ok, hh] at hp
  obtain ⟨_, -, _, -, hdue⟩ := hp
  simp only [IssuanceRedis.existing, bind_ok, orRevert_ok, revertIf_ok, pure_ok]
  exact ⟨h.toIssuanceHash, by simp [view, hh], (), hdue, rfl⟩

/-- **The script refines the calls** that a delivery makes. -/
theorem script_view (hi : Bookkeeping s) {capable : Bool} {op : JournalOp} {reply : JournalReply}
    (hs : s.script capable op = .ok (s', reply)) :
    match op.call with
    | some c => s.view.eval op.id c = .ok (s'.view, reply.snapshot?)
    | none => s'.view = match op with
      | .create entry => s.view.create entry
      | _ => s.view := by
  simp only [script, bind_ok] at hs
  obtain ⟨_, hp, hs⟩ := hs
  cases op with
  | create entry =>
    simp only [perform, create] at hs
    simp only [JournalOp.call]
    unfold IssuanceRedis.create
    split at hs
    · next h hh =>
      cases hs
      simp [view, hh]
    · next hnone =>
      simp only [bind_ok, revertIf_ok, pure_ok, Prod.mk.injEq] at hs
      obtain ⟨_, hvalid, rfl, -⟩ := hs
      have hview : s.view.requests entry.requestId = none := by simp [view, hnone]
      simp only [view_retain, hview, Option.isSome_none, Bool.false_eq_true, if_false, if_neg hvalid]
      rfl
  | get id =>
    simp only [perform, map_ok, orRevert_ok, Prod.mk.injEq] at hs
    obtain ⟨h, hh, rfl, rfl⟩ := hs
    simp only [JournalOp.call, IssuanceRedis.eval, existing_view hp hh]
    rfl
  | acquire id owner signer =>
    simp only [perform, acquire, bind_ok, orRevert_ok, revertIf_ok, pure_ok, Prod.mk.injEq] at hs
    obtain ⟨h, hh, _, hsigner, _, hfree, _, hbusy, rfl, rfl⟩ := hs
    simp only [JournalOp.call, IssuanceRedis.eval, map_ok, IssuanceRedis.acquire, bind_ok, revertIf_ok,
      pure_ok]
    refine ⟨_, ⟨_, existing_view hp hh, (), hsigner, (), hfree, (), hbusy, rfl⟩, ?_⟩
    simp only [view, view_requests_update]
    split <;> rfl
  | save owner snapshot =>
    simp only [perform, save, bind_ok, orRevert_ok, revertIf_ok, pure_ok, Prod.mk.injEq] at hs
    obtain ⟨h, hh, _, hsigner, _, hlease, _, hrevision, _, hvalid, _, hbusy, rfl, rfl⟩ := hs
    simp only [JournalOp.call, IssuanceRedis.eval, map_ok, IssuanceRedis.save, bind_ok, revertIf_ok,
      pure_ok]
    refine ⟨_, ⟨_, existing_view hp hh, (), hsigner, (), hlease, (), hrevision, (), hvalid, (), hbusy,
      rfl⟩, ?_⟩
    rw [view_retain, terminalDeadline_eq (hi.hash _ h hh)]
    by_cases hn : snapshot.entry.needsSigner = true
    · simp only [hn, if_true]
      rfl
    · simp only [hn, Bool.false_eq_true, if_false]
      rfl
  | release id owner =>
    simp only [perform, release, bind_ok, orRevert_ok, pure_ok, Prod.mk.injEq] at hs
    obtain ⟨h, hh, rfl, rfl⟩ := hs
    simp only [JournalOp.call, IssuanceRedis.eval, map_ok, IssuanceRedis.release, bind_ok, pure_ok]
    refine ⟨_, ⟨_, existing_view hp hh, rfl⟩, ?_⟩
    split
    · simp only [view, view_requests_update]
      rfl
    · rfl
  | pending =>
    cases hs
    rfl

end JournalRedis

/-! ## Runs -/

section runs

variable {es : List JournalStep} {s : JournalRedis}

theorem bookkeeping_step {e : JournalStep} (hi : Bookkeeping e.pre)
    (he : JournalRedis.machine.IsStep e) : Bookkeeping e.post := by
  obtain ⟨now, heffect⟩ := journal_effect he
  have hlater : Bookkeeping { e.pre with now := now } := ⟨hi.hash, hi.index, hi.nodup, hi.gate, hi.active⟩
  exact hlater.step heffect

theorem bookkeeping_run (h : JournalRedis.machine.Run .initial es s) : Bookkeeping s :=
  h.invariant .initial fun _ => bookkeeping_step

/-- What an action leaves of a hash that is there before and after it. -/
theorem JournalRedis.JournalEffect.hash {s s' : JournalRedis} (heffect : JournalEffect s s')
    {id : RequestId} {h h' : JournalHash} (hpre : s.requests id = some h)
    (hpost : s'.requests id = some h') : (∃ lease, h' = { h with lease := lease }) ∨
      ∃ owner entry, h' = (s.resaved h owner entry).retained (s.terminalDeadline h) := by
  have hsame : some h = some h' → ∃ lease, h' = { h with lease := lease } := by
    rintro ⟨⟩
    exact ⟨h.lease, rfl⟩
  cases heffect with
  | kept => exact .inl (hsame (by rw [← hpre, hpost]))
  | @created entry hnone =>
    rw [retain_requests] at hpost
    rcases eq_or_ne id entry.requestId with rfl | hid
    · rw [hpre] at hnone
      cases hnone
    · exact .inl (hsame (by simpa [hid, hpre] using hpost))
  | @leased id₀ g lease hg =>
    rcases eq_or_ne id id₀ with rfl | hid
    · obtain rfl : h = g := by simpa [hpre] using hg
      exact .inl ⟨lease, by simpa using hpost.symm⟩
    · exact .inl (hsame (by simpa [hid, hpre] using hpost))
  | @acquired id₀ g lease hg =>
    rcases eq_or_ne id id₀ with rfl | hid
    · obtain rfl : h = g := by simpa [hpre] using hg
      exact .inl ⟨lease, by simpa using hpost.symm⟩
    · exact .inl (hsame (by simpa [hid, hpre] using hpost))
  | @saved owner entry g hg =>
    rw [retain_requests, regated_requests] at hpost
    rcases eq_or_ne id entry.requestId with rfl | hid
    · obtain rfl : h = g := by simpa [hpre] using hg
      exact .inr ⟨owner, entry, by simpa using hpost.symm⟩
    · exact .inl (hsame (by simpa [hid, hpre] using hpost))
  | @expired id₀ g u hg =>
    rcases eq_or_ne id id₀ with rfl | hid
    · simp at hpost
    · exact .inl (hsame (by simpa [hid, hpre] using hpost))

/-- **A completion has one deadline**, which only a new episode clears. -/
theorem retention_step {e : JournalStep} (hi : Bookkeeping e.pre)
    (he : JournalRedis.machine.IsStep e) {id : RequestId} {h h' : JournalHash}
    (hpre : e.pre.requests id = some h) (hpost : e.post.requests id = some h')
    (ht : h.payload.terminal = true) :
    (h'.payload.terminal = true →
      h'.terminalExpiresAt = h.terminalExpiresAt ∧ h'.expiry = h.expiry) ∧
    (h'.payload.terminal = false → h'.terminalExpiresAt = none ∧ h'.expiry = none) := by
  obtain ⟨now, heffect⟩ := journal_effect he
  rcases heffect.hash hpre hpost with ⟨lease, rfl⟩ | ⟨owner, entry, rfl⟩
  · simp [ht]
  · have hinv := hi.hash id h hpre
    obtain ⟨u, hu⟩ := Option.isSome_iff_exists.1 (hinv.terminal.trans ht)
    have hexpiry := hinv.expiry.trans hu
    simp only [JournalHash.retained_expiry, JournalHash.retained_terminal,
      JournalRedis.terminalDeadline, hu, hexpiry, JournalHash.retained_payload,
      JournalRedis.resaved_payload]
    constructor
    · intro hterm
      simp [hterm]
    · intro hterm
      simp [hterm]

/-- **A gate is never stuck**: any owner takes its request over once the lease is over. -/
theorem acquire_holder (hi : Bookkeeping s) {k : SignerKey} {id : RequestId}
    (hk : s.signers k = some id) {h : JournalHash} (hh : s.requests id = some h) {now : ℕ}
    (hlease : ∀ l ∈ h.lease, l.2 ≤ now) (owner : ℕ) (capable : Bool) :
    ∃ s', { s with now := now }.script capable (.acquire id owner k) = .ok (s', .snapshot h.snapshot) := by
  obtain ⟨g, hg, hs, hn⟩ := hi.gate k id hk
  obtain rfl : h = g := by simpa [hh] using hg
  have hsaved : h.terminalExpiresAt = none := by
    have ht := (hi.hash id h hh).terminal
    rw [IssuanceEntry.not_terminal ((hi.hash id h hh).needsSigner ▸ hn)] at ht
    simpa using ht
  have hfree : ¬ ∃ l ∈ h.lease, now < l.2 := by
    rintro ⟨l, hl, hlt⟩
    exact absurd (hlease l hl) (Nat.not_le.2 hlt)
  have hbusy : ¬ { s with now := now }.signerBusy id k := by
    rintro ⟨id', hid', hne⟩
    simp only [hk, Option.mem_def, Option.some.injEq] at hid'
    exact hne hid'.symm
  have hprelude : { s with now := now }.prelude capable (.acquire id owner k) = .ok () := by
    simp [JournalRedis.prelude, JournalOp.id, JournalOp.retains, revertIf, hh, hsaved]
  simp only [JournalRedis.script, hprelude, JournalRedis.perform, JournalRedis.acquire, hh, orRevert,
    ok_bind, hs, hn, revertIf_of_not (not_not.2 rfl : ¬ k ≠ k), revertIf_of_not hfree,
    revertIf_of_not (not_and_of_not_right _ hbusy)]
  exact ⟨_, rfl⟩

/-- **The bookkeeping of the journal** over every run: the pending index, the deadlines of the
    completions and the gates. -/
theorem journal_bookkeeping (h : JournalRedis.machine.Run .initial es s) :
    (∀ id, id ∈ s.pending.map Prod.fst ↔
      ∃ h, s.requests id = some h ∧ h.payload.terminal = false) ∧
    (∀ e ∈ es, ∀ id h h', e.pre.requests id = some h → e.post.requests id = some h' →
      h.payload.terminal = true →
      (h'.payload.terminal = true →
        h'.terminalExpiresAt = h.terminalExpiresAt ∧ h'.expiry = h.expiry) ∧
      (h'.payload.terminal = false → h'.terminalExpiresAt = none ∧ h'.expiry = none)) ∧
    ∀ k id, s.signers k = some id → ∃ h, s.requests id = some h ∧ h.payload.signerKey = k ∧
      h.payload.needsSigner = true ∧ h.payload.terminal = false ∧
      ∀ now owner capable, (∀ l ∈ h.lease, l.2 ≤ now) →
        ∃ s', { s with now := now }.script capable (.acquire id owner k) =
          .ok (s', .snapshot h.snapshot) := by
  have hi := bookkeeping_run h
  refine ⟨hi.index, ?_, ?_⟩
  · intro e he id h₀ h' hpre hpost ht
    obtain ⟨es₁, es₂, -, hrun, hstep, -⟩ := h.of_mem he
    exact retention_step (bookkeeping_run hrun) hstep hpre hpost ht
  · intro k id hk
    obtain ⟨g, hg, hs, hn⟩ := hi.gate k id hk
    have hinv := hi.hash id g hg
    rw [hinv.needsSigner] at hn
    refine ⟨g, hg, hinv.signer ▸ hs, hn, IssuanceEntry.not_terminal hn, ?_⟩
    intro now owner capable hlease
    exact acquire_holder hi hk hg hlease owner capable

end runs

def journalEntry (phase : IssuancePhase) : IssuanceEntry where
  requestId := 1
  prepareUntil := 1000
  phase := phase
  target := ⟨1, 5, 7, none⟩
  outcome := .issued 100
  evidenceRecord := none
  evidenceStored := true
  transaction := none
  revertedTransactions := []
  sourceConfirmation := none
  broadcastAcceptedAt := none
  materializedAt := none
  lastError := none

/-- A request that is created, taken, failed and retried. -/
def retriedRequest : List JournalAction :=
  [.eval 0 true (.create (journalEntry .prepared)), .eval 1 true (.acquire 1 9 ⟨1, 7⟩),
    .eval 2 true (.save 9 ⟨1, journalEntry .failed⟩), .eval 3 true (.save 9 ⟨2, journalEntry .failed⟩),
    .eval 4 true (.save 9 ⟨3, journalEntry .prepared⟩)]

theorem journal_bookkeeping_retried :
    let s := JournalRedis.machine.final .initial retriedRequest
    s.pending = [(1, 4)] ∧ s.signers ⟨1, 7⟩ = some 1 ∧
      ∃ h, s.requests 1 = some h ∧ h.payload.terminal = false := by
  refine ⟨by decide, by decide, ?_⟩
  exact ((journal_bookkeeping (JournalRedis.machine.run_trace .initial retriedRequest)).1 1).1 (by decide)

end Proofmark
