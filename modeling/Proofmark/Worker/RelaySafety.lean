/-
  The safety of the relay sender.

  `SenderEffect` lists what a call of `step` does between two awaits.  What a call holds is
  still what the store says (`Holds`), and every envelope that was ever reserved is the
  reserved one or resolved (`RelayInv`).
-/
import Proofmark.Worker.StoreEffects

namespace Proofmark

open Revert

/-- The state of a job whose envelope was mined. -/
def RelayStatus.jobState : RelayStatus → JobState
  | .success => .done
  | .reverted => .dead

/-- The reserved envelope that a call holds. -/
def SenderAwait.reserved : SenderAwait → Option RelayEnvelope
  | .guardHub _ | .observe _ | .guardSkip _ _ | .observeFinal _ _ | .guardPrepare _ | .prepare _
  | .guardReserve _ => none
  | .receipt relay | .guardBroadcast relay | .broadcast relay | .receiptAgain relay
  | .guardFinal relay _ | .processed relay _ | .finalReceipt relay _ => some relay

/-- The preparation that a call holds. -/
def SenderAwait.preparation : SenderAwait → Option RelayPreparation
  | .guardHub p | .observe p | .guardSkip p _ | .observeFinal p _ | .guardPrepare p
  | .prepare p => some p
  | _ => none

/-- The signed envelope that a call has not reserved yet. -/
def SenderAwait.unreserved : SenderAwait → Option RelayEnvelope
  | .guardReserve relay => some relay
  | _ => none

/-- The receipt that a call has seen for its envelope. -/
def SenderAwait.seen : SenderAwait → Option (RelayEnvelope × RelayReceipt)
  | .guardFinal relay r | .processed relay r | .finalReceipt relay r => some (relay, r)
  | _ => none

/-- A call asks for the receipt of its envelope. -/
def SenderAwait.asks (a : SenderAwait) (relay : RelayEnvelope) : Prop :=
  a = .receipt relay ∨ a = .receiptAgain relay

namespace StoreData

variable {env : RelayEnv} {d d' next : StoreData} {tx : TxHash} {relay : RelayEnvelope}
  {receipt : RelayReceipt}

/-- The job of an envelope with the receipt that resolved it. -/
def Recorded (d : StoreData) (relay : RelayEnvelope) (receipt : RelayReceipt) : Prop :=
  ∃ j, d.get relay.sourceTxHash = some j ∧ j.state = receipt.status.jobState ∧
    j.relayHistory = [⟨relay.hash, relay.nonce, receipt⟩]

/-- The job of an envelope that is resolved. -/
def Resolved (d : StoreData) (relay : RelayEnvelope) : Prop :=
  ∃ j r, d.get relay.sourceTxHash = some j ∧ j.state.terminal = true ∧
    j.ascTxHash = some relay.hash ∧ j.relayHistory = [⟨relay.hash, relay.nonce, r⟩]

theorem Kept.pending {d' : StoreData} (hk : Kept d d') (hr : d.relay = some relay)
    (hp : d.Pending relay) : d'.Pending relay := by
  obtain ⟨j, hj, hs, ha, hq, hh⟩ := hp
  obtain ⟨j', hj', hkj⟩ := hk.signed _ _ hj (by rw [ha]; rfl)
  obtain ⟨hs', hq'⟩ := hkj.reserved (by rw [hr, get_txHash hj]; rfl)
  exact ⟨j', hj', hs'.trans hs, hkj.ascTxHash.trans ha, hq'.trans hq, hkj.relayHistory.trans hh⟩

theorem Kept.resolved {d' : StoreData} (hk : Kept d d') (h : d.Resolved relay) :
    d'.Resolved relay := by
  obtain ⟨j, r, hj, ht, ha, hh⟩ := h
  obtain ⟨j', hj', hkj⟩ := hk.signed _ _ hj (by rw [ha]; rfl)
  exact ⟨j', r, hj', hkj.terminal ht, hkj.ascTxHash.trans ha, hkj.relayHistory.trans hh⟩

/-- The job that is changed along with the relay. -/
theorem get_changed {f : Job → Job} {o : Option RelayEnvelope} {j : Job} (hj : d.get tx = some j)
    (hf : ∀ j, (f j).txHash = j.txHash) :
    ({ d.setJob tx f with relay := o } : StoreData).get tx = some (f j) := by
  change (d.setJob tx f).get tx = some (f j)
  rw [get_setJob_self hf, hj]
  rfl

/-- A change of another job leaves a resolved one. -/
theorem Resolved.setJob {f : Job → Job} {o : Option RelayEnvelope} (h : d.Resolved relay)
    (hf : ∀ j, (f j).txHash = j.txHash) (hne : relay.sourceTxHash ≠ tx) :
    ({ d.setJob tx f with relay := o } : StoreData).Resolved relay := by
  obtain ⟨j, r, hj, h⟩ := h
  exact ⟨j, r, (get_setJob_of_ne hf hne).trans hj, h⟩

/-! ## Reserving and finishing -/

theorem reserveRelay_ok (h : d.reserveRelay relay = .ok next) :
    d.relay = none ∧ ∃ j, d.get relay.sourceTxHash = some j ∧ j.state.terminal = false ∧
      next = { d.setJob relay.sourceTxHash fun j =>
        { j with state := .submitted, ascTxHash := some relay.hash, queryId := some relay.queryId } with
        relay := some relay } := by
  simp only [reserveRelay, bind_ok, revertIf_ok, orRevert_ok, pure_ok] at h
  obtain ⟨-, -, -, -, -, hn, j, hj, -, ht, rfl⟩ := h
  refine ⟨by simpa using hn, j, hj, by simpa using ht, ?_⟩
  rw [get_txHash hj]

theorem finishRelay_ok {hash : TxHash} (h : d.finishRelay hash receipt = .ok next)
    (hr : d.relay = some relay) :
    next = { d.setJob relay.sourceTxHash (finished relay receipt) with relay := none } := by
  simp only [finishRelay, bind_ok, revertIf_ok, orRevert_ok, pure_ok] at h
  obtain ⟨-, -, relay', hr', -, -, rfl⟩ := h
  rw [hr] at hr'
  cases hr'
  rfl

/-! ## The parts of a call -/

/-- What a call writes to its job. -/
inductive SenderWrite (d : StoreData) (tx : TxHash) (a : SenderAwait) (reply : SenderReply) :
    StoreData → Prop
  | none : SenderWrite d tx a reply d
  | lastError (e : String) (d' : StoreData) (h : d.update tx (.lastError e) = .ok d') :
      SenderWrite d tx a reply d'
  | skipped (p : RelayPreparation) (query final : QueryObservation) (d' : StoreData)
      (ha : a = .observeFinal p query) (hr : reply = .observed final)
      (hs : final.status = .confirmed) (h : d.update tx (.skipped p.queryId
        ⟨final.blockNumber, final.blockHash, final.confirmations, final.observedAt⟩) = .ok d') :
      SenderWrite d tx a reply d'

theorem SenderWrite.kept {a : SenderAwait} {reply : SenderReply}
    (hp : ∀ relay, d.relay = some relay → d.Pending relay) (h : SenderWrite d tx a reply d') :
    Kept d d' := by
  cases h with
  | none => exact .refl d
  | lastError e _ h =>
    refine update_kept hp ?_ h
    exact fun j _ ht => ht
  | skipped p query final _ ha hr hs h => exact update_kept hp (fun j _ _ => rfl) h

/-- **What a call does between two awaits.** -/
inductive SenderEffect (env : RelayEnv) (d : StoreData) (tx : TxHash) (a : SenderAwait)
    (reply : SenderReply) : StoreData → SenderStep → Prop
  | moved (d' : StoreData) (a' : SenderAwait)
      (hw : d' = d ∨ ∃ e, d.update tx (.lastError e) = .ok d') (hr : a'.reserved = a.reserved)
      (hu : a'.unreserved = none)
      (hf : ∀ relay r, a' = .finalReceipt relay r → r.status = .success →
        a = .processed relay r ∧ reply = .processed true)
      (hp : ∀ p, a'.preparation = some p → a.preparation = some p)
      (hs : ∀ relay r, a'.seen = some (relay, r) →
        a.seen = some (relay, r) ∨ a.asks relay ∧ reply = .receipt (some r)) :
      SenderEffect env d tx a reply d' (.await a')
  | ended (d' : StoreData) (step : SenderStep) (hw : SenderWrite d tx a reply d')
      (hs : step = .returned ∨ ∃ e, step = .threw e) : SenderEffect env d tx a reply d' step
  | accepted (p : RelayPreparation) (relay : RelayEnvelope) (ha : a = .prepare p)
      (hr : reply = .prepared relay) (hv : env.validateRelay relay = .ok ())
      (ht : relay.sourceTxHash = tx) (hd : relay.data = p.data) :
      SenderEffect env d tx a reply d (.await (.guardReserve relay))
  | broadcast (relay : RelayEnvelope) (ha : a = .guardBroadcast relay) :
      SenderEffect env d tx a reply d (.broadcast relay)
  | reserved (relay : RelayEnvelope) (next : StoreData) (step : SenderStep)
      (ha : a = .guardReserve relay) (hn : d.reserveRelay relay = .ok next)
      (hs : step = .await (.receipt relay) ∨ ∃ e, step = .threw e) :
      SenderEffect env d tx a reply next step
  | finished (relay : RelayEnvelope) (r : RelayReceipt) (next : StoreData) (step : SenderStep)
      (ha : a = .finalReceipt relay r) (hr : reply = .receipt (some r))
      (hn : d.finishRelay relay.hash r = .ok next) (hs : step = .returned ∨ ∃ e, step = .threw e) :
      SenderEffect env d tx a reply next step

section resume

variable {a : SenderAwait} {reply : SenderReply} {w : CommitEnd}

theorem SenderEffect.threw (e : StoreError) : SenderEffect env d tx a reply d (.threw e) :=
  .ended d _ .none (.inr ⟨e, rfl⟩)

theorem SenderEffect.returned : SenderEffect env d tx a reply d .returned :=
  .ended d _ .none (.inl rfl)

/-- A saved write ends in one of three ways. -/
theorem saveThen_cases (r : Except StoreError StoreData) (w : CommitEnd) (k : SenderStep) :
    (∃ e, d.saveThen r w k = (d, .threw e)) ∨
    ∃ next, r = .ok next ∧ (d.saveThen r w k = (next, k) ∨ ∃ e, d.saveThen r w k = (next, .threw e)) := by
  cases r with
  | error e => exact .inl ⟨e, rfl⟩
  | ok next =>
    cases w with
    | committed => exact .inr ⟨next, rfl, .inl rfl⟩
    | beforeRename => exact .inl ⟨.write, rfl⟩
    | afterRename => exact .inr ⟨next, rfl, .inr ⟨.write, rfl⟩⟩

theorem skipJob_effect {p : RelayPreparation} {query final : QueryObservation} :
    SenderEffect env d tx (.observeFinal p query) (.observed final) (d.skipJob tx p query final w).1
      (d.skipJob tx p query final w).2 := by
  unfold skipJob
  split
  · exact .returned
  · next hf =>
    simp only [not_or, not_not] at hf
    split
    · exact .threw _
    · -- the job is saved as skipped
      rcases saveThen_cases (d := d) (d.update tx (.skipped p.queryId
        ⟨final.blockNumber, final.blockHash, final.confirmations, final.observedAt⟩)) w .returned with
        ⟨e, h⟩ | ⟨next, hn, h⟩
      · rw [h]
        exact .threw e
      · have hw := SenderWrite.skipped p query final next rfl rfl hf.1 hn
        rcases h with h | ⟨e, h⟩
        · rw [h]
          exact .ended next _ hw (.inl rfl)
        · rw [h]
          exact .ended next _ hw (.inr ⟨e, rfl⟩)

theorem finalize_effect {r : RelayReceipt} {final : Option RelayReceipt} :
    SenderEffect env d tx (.finalReceipt relay r) (.receipt final) (d.finalize relay r final w).1
      (d.finalize relay r final w).2 := by
  unfold finalize
  split
  · exact .returned
  · next hf =>
    have hf' : final = some r := not_not.1 hf
    subst hf'
    split
    · exact .threw _
    · exact .threw _
    · rcases saveThen_cases (d := d) (d.finishRelay relay.hash r) w .returned with
        ⟨e, h⟩ | ⟨next, hn, h | ⟨e, h⟩⟩
      · rw [h]
        exact .threw e
      · rw [h]
        exact .finished relay r next _ rfl rfl hn (.inl rfl)
      · rw [h]
        exact .finished relay r next _ rfl rfl hn (.inr ⟨e, rfl⟩)

theorem resumeStep_effect {r : StoreData × SenderStep}
    (h : d.resumeStep env tx a reply w = some r) : SenderEffect env d tx a reply r.1 r.2 := by
  have moves : ∀ a' : SenderAwait, a'.reserved = a.reserved → a'.unreserved = none →
      (∀ p, a'.preparation = some p → a.preparation = some p) → a'.seen = none →
      SenderEffect env d tx a reply d (.await a') := by
    intro a' hr hu hp' hs
    refine .moved d a' (.inl rfl) hr hu (fun relay r h => ?_) hp' fun relay r h => ?_
    · subst h
      cases hs
    · rw [hs] at h
      cases h
  unfold resumeStep at h
  split at h
  · cases h
    exact moves _ rfl rfl (fun p h => h) rfl
  · -- the broadcast failed
    next relay =>
    cases h
    rcases saveThen_cases (d := d) (d.update tx (.lastError "ASC_BROADCAST_UNCONFIRMED")) w
      (.await (.receiptAgain relay)) with ⟨e, h⟩ | ⟨next, hn, h⟩
    · rw [h]
      exact .threw e
    · rcases h with h | ⟨e, h⟩
      · rw [h]
        exact .moved next _ (.inr ⟨_, hn⟩) rfl rfl (fun _ _ h => by cases h) (fun p h => h)
          fun relay r h => by cases h
      · rw [h]
        exact .ended next _ (.lastError _ _ hn) (.inr ⟨e, rfl⟩)
  · cases h
    exact .threw _
  · split at h
    · cases h
      exact .threw _
    · cases h
      exact moves _ rfl rfl (fun p h => h) rfl
  · split at h
    · cases h
      exact .returned
    · cases h
      exact moves _ rfl rfl (fun p h => h) rfl
    · cases h
      exact moves _ rfl rfl (fun p h => h) rfl
  · cases h
    exact moves _ rfl rfl (fun p h => h) rfl
  · cases h
    exact skipJob_effect
  · cases h
    exact moves _ rfl rfl (fun p h => h) rfl
  · next p relay =>
    cases h
    dsimp only [acceptPrepared]
    split
    · exact .threw _
    · next hv =>
      split
      · exact .threw _
      · next hne =>
        simp only [not_or, not_not] at hne
        exact .accepted p relay rfl rfl hv hne.1 hne.2.2
  · next relay =>
    cases h
    rcases saveThen_cases (d := d) (d.reserveRelay relay) w (.await (.receipt relay)) with
      ⟨e, h⟩ | ⟨next, hn, h | ⟨e, h⟩⟩
    · rw [h]
      exact .threw e
    · rw [h]
      exact .reserved relay next _ rfl hn (.inl rfl)
    · rw [h]
      exact .reserved relay next _ rfl hn (.inr ⟨e, rfl⟩)
  · cases h
    exact moves _ rfl rfl (fun p h => h) rfl
  · split at h
    · cases h
      exact .threw _
    · cases h
      exact .broadcast _ rfl
  · cases h
    exact .returned
  · next relay r =>
    cases h
    exact .moved d _ (.inl rfl) rfl rfl (fun _ _ h => by cases h) (fun p h => h) fun relay' r' h => by
      cases h
      exact .inr ⟨.inl rfl, rfl⟩
  · next relay r =>
    cases h
    exact .moved d _ (.inl rfl) rfl rfl (fun _ _ h => by cases h) (fun p h => h) fun relay' r' h => by
      cases h
      exact .inr ⟨.inr rfl, rfl⟩
  · split at h
    · cases h
      exact .moved d _ (.inl rfl) rfl rfl (fun _ _ h => by cases h) (fun p h => h)
        fun relay' r' h => .inl h
    · next hs =>
      cases h
      refine .moved d _ (.inl rfl) rfl rfl (fun relay' r' h hsucc => ?_) (fun p h => h)
        fun relay' r' h => .inl h
      cases h
      rw [hs] at hsucc
      cases hsucc
  · cases h
    refine .moved d _ (.inl rfl) rfl rfl (fun relay' r' h _ => ?_) (fun p h => h)
      fun relay' r' h => .inl h
    cases h
    exact ⟨rfl, rfl⟩
  · cases h
    exact .threw _
  · cases h
    exact finalize_effect
  · cases h

end resume

end StoreData

/-! ## Histories -/

open StoreData

/-- The envelope that a step reserves. -/
def reserves (e : RelayEntry) : Option RelayEnvelope :=
  if e.pre.data.relay = none then e.post.data.relay else none

/-- The envelopes that were reserved, in order. -/
def relayReservations (es : List RelayEntry) : List RelayEnvelope := es.filterMap reserves

/-- The preparation that a step calls `step` with. -/
def calls (e : RelayEntry) : Option (TxHash × RelayPreparation) :=
  match e.act with
  | .step tx (some p) => some (tx, p)
  | _ => none

/-- `step` was called with a preparation. -/
def Called (es : List RelayEntry) (tx : TxHash) (p : RelayPreparation) : Prop :=
  (tx, p) ∈ es.filterMap calls

/-- An envelope signs the call that `step` was asked to make. -/
structure Signs (env : RelayEnv) (es : List RelayEntry) (relay : RelayEnvelope) : Prop where
  valid : env.validateRelay relay = .ok ()
  called : ∃ p, Called es relay.sourceTxHash p ∧ relay.data = p.data

/-- A receipt of an envelope was observed before the final one. -/
def Observed (es : List RelayEntry) (relay : RelayEnvelope) (r : RelayReceipt) : Prop :=
  ∃ e ∈ es, ∃ tx a w, e.pre.sender = some (tx, a) ∧ a.asks relay ∧
    e.act = .settle (.receipt (some r)) w

/-- The nonces that the store has recorded a receipt for. -/
def StoreData.usedNonces (d : StoreData) : List ℕ :=
  d.jobs.flatMap fun j => j.relayHistory.map RelayHistory.nonce

/-- The envelope that `prepare` answers a step with. -/
def prepares (e : RelayEntry) : Option RelayEnvelope :=
  match e.pre.sender, e.act with
  | some (_, .prepare _), .settle (.prepared relay) _ => some relay
  | _, _ => none

/-- `prepare` does not return a used nonce. -/
def FreshNonce (e : RelayEntry) : Prop :=
  ∀ relay ∈ prepares e, relay.nonce ∉ e.pre.data.usedNonces

instance (e : RelayEntry) : Decidable (FreshNonce e) := Option.decidableForallMem _

/-- What a call holds in a reached state. -/
structure Sends (env : RelayEnv) (es : List RelayEntry) (d : StoreData) (tx : TxHash)
    (a : SenderAwait) : Prop where
  reserved : a.reserved = d.relay
  prepared : ∀ p, a.preparation = some p → Called es tx p
  signs : ∀ relay, a.unreserved = some relay → Signs env es relay
  fresh : (∀ e ∈ es, FreshNonce e) → ∀ relay, a.unreserved = some relay →
    relay.nonce ∉ (relayReservations es).map RelayEnvelope.nonce
  seen : ∀ relay r, a.seen = some (relay, r) → Observed es relay r

structure RelayInv (env : RelayEnv) (es : List RelayEntry) (h : RelayHost) : Prop where
  keys : h.data.Keys
  pending : ∀ relay, h.data.relay = some relay → h.data.Pending relay
  member : ∀ relay, h.data.relay = some relay → relay ∈ relayReservations es
  resolved : ∀ relay ∈ relayReservations es, h.data.relay = some relay ∨ h.data.Resolved relay
  signs : ∀ relay ∈ relayReservations es, Signs env es relay
  histories : ∀ j ∈ h.data.jobs, j.relayHistory = [] ∨ ∃ relay ∈ relayReservations es,
    relay.sourceTxHash = j.txHash ∧ ∃ r, j.relayHistory = [⟨relay.hash, relay.nonce, r⟩]
  once : ((relayReservations es).map RelayEnvelope.sourceTxHash).Nodup
  nonces : (∀ e ∈ es, FreshNonce e) → ((relayReservations es).map RelayEnvelope.nonce).Nodup
  sender : ∀ tx a, h.sender = some (tx, a) → Sends env es h.data tx a

section

variable {env : RelayEnv} {es : List RelayEntry} {e : RelayEntry} {d : StoreData} {tx : TxHash}
  {a : SenderAwait} {relay : RelayEnvelope}

theorem relayReservations_concat :
    relayReservations (es ++ [e]) = relayReservations es ++ (reserves e).toList := by
  rw [relayReservations, List.filterMap_append, ← relayReservations]
  cases h : reserves e with
  | none => rw [List.filterMap_cons_none h, List.filterMap_nil]; rfl
  | some relay => rw [List.filterMap_cons_some h, List.filterMap_nil]; rfl

theorem Called.concat {p : RelayPreparation} (h : Called es tx p) : Called (es ++ [e]) tx p := by
  rw [Called, List.filterMap_append]
  exact List.mem_append_left _ h

theorem Signs.concat (h : Signs env es relay) : Signs env (es ++ [e]) relay := by
  obtain ⟨hv, p, hc, hd⟩ := h
  exact ⟨hv, p, hc.concat, hd⟩

theorem Observed.concat {r : RelayReceipt} (h : Observed es relay r) :
    Observed (es ++ [e]) relay r := by
  obtain ⟨e', he', h⟩ := h
  exact ⟨e', List.mem_append_left _ he', h⟩

theorem freshNonces_concat (h : ∀ e' ∈ es ++ [e], FreshNonce e') : ∀ e' ∈ es, FreshNonce e' :=
  fun e' he' => h e' (List.mem_append_left _ he')

/-- A step that keeps the reservation reserves nothing. -/
theorem reserves_of_relay (h : e.post.data.relay = e.pre.data.relay) : reserves e = none := by
  unfold reserves
  split
  · next hn => rw [h, hn]
  · rfl

/-- **A step that reserves and finishes nothing keeps the invariant.** -/
theorem RelayInv.kept (hi : RelayInv env es e.pre) (hk : Kept e.pre.data e.post.data)
    (hs : ∀ tx a, e.post.sender = some (tx, a) → Sends env (es ++ [e]) e.post.data tx a) :
    RelayInv env (es ++ [e]) e.post := by
  have hres : relayReservations (es ++ [e]) = relayReservations es := by
    rw [relayReservations_concat, reserves_of_relay hk.relay]
    exact List.append_nil _
  refine ⟨hk.keys hi.keys, fun relay hr => ?_, fun relay hr => ?_, fun relay hr => ?_,
    fun relay hr => ?_, fun j hj => ?_, ?_, fun hf => ?_, hs⟩
  · rw [hk.relay] at hr
    exact hk.pending hr (hi.pending relay hr)
  · rw [hres]
    exact hi.member relay (hk.relay ▸ hr)
  · rw [hres] at hr
    rw [hk.relay]
    exact (hi.resolved relay hr).imp_right hk.resolved
  · rw [hres] at hr
    exact (hi.signs relay hr).concat
  · rcases hk.history j hj with hh | ⟨j', hj', htx, hh⟩
    · exact .inl hh
    · rw [hres, ← htx, ← hh]
      exact hi.histories j' hj'
  · rw [hres]
    exact hi.once
  · rw [hres]
    exact hi.nonces (freshNonces_concat hf)

/-- An envelope whose job is not terminal was not resolved. -/
theorem RelayInv.source_ne {h : RelayHost} {j : Job} (hr : h.data.Resolved relay)
    (hj : h.data.get tx = some j) (ht : j.state.terminal = false) : relay.sourceTxHash ≠ tx := by
  rintro rfl
  obtain ⟨j', -, hj', ht', -⟩ := hr
  rw [hj] at hj'
  cases hj'
  rw [ht] at ht'
  cases ht'

/-- **A reservation keeps the invariant.** -/
theorem RelayInv.reserve (hi : RelayInv env es e.pre)
    (hs : e.pre.sender = some (tx, .guardReserve relay))
    (hn : e.pre.data.reserveRelay relay = .ok e.post.data)
    (hpost : ∀ tx' a, e.post.sender = some (tx', a) → a = .receipt relay) :
    RelayInv env (es ++ [e]) e.post := by
  obtain ⟨hnone, j, hj, ht, hd⟩ := reserveRelay_ok hn
  have hsend := hi.sender _ _ hs
  have hrel : e.post.data.relay = some relay := by rw [hd]
  have hres : relayReservations (es ++ [e]) = relayReservations es ++ [relay] := by
    rw [relayReservations_concat, reserves, if_pos hnone, hrel]
    rfl
  have hresolved : ∀ r ∈ relayReservations es, e.pre.data.Resolved r := by
    intro r hr
    rcases hi.resolved r hr with h | h
    · rw [hnone] at h
      cases h
    · exact h
  have hne : ∀ r ∈ relayReservations es, r.sourceTxHash ≠ relay.sourceTxHash := fun r hr =>
    source_ne (hresolved r hr) hj ht
  have hempty : j.relayHistory = [] := by
    rcases hi.histories j (Keyed.mem_of_find hj).1 with h | ⟨r, hr, hsrc, -⟩
    · exact h
    · exact absurd (hsrc.trans (get_txHash hj)) (hne r hr)
  refine ⟨?_, fun r hr => ?_, fun r hr => ?_, fun r hr => ?_, fun r hr => ?_, fun j' hj' => ?_, ?_,
    fun hf => ?_, fun tx' a ha => ?_⟩
  · rw [hd]
    exact keys_setJob (fun _ => rfl) hi.keys
  · rw [hrel] at hr
    cases hr
    rw [hd]
    exact ⟨_, get_changed hj fun _ => rfl, rfl, rfl, rfl, hempty⟩
  · rw [hrel] at hr
    cases hr
    rw [hres]
    simp
  · rw [hres] at hr
    rcases List.mem_append.1 hr with hr | hr
    · rw [hd]
      exact .inr ((hresolved r hr).setJob (fun _ => rfl) (hne r hr))
    · rw [List.mem_singleton.1 hr]
      exact .inl hrel
  · rw [hres] at hr
    rcases List.mem_append.1 hr with hr | hr
    · exact (hi.signs r hr).concat
    · rw [List.mem_singleton.1 hr]
      exact (hsend.signs relay rfl).concat
  · have hold : ∀ j₀ ∈ e.pre.data.jobs, j₀.relayHistory = [] ∨ ∃ r ∈ relayReservations (es ++ [e]),
        r.sourceTxHash = j₀.txHash ∧ ∃ x, j₀.relayHistory = [⟨r.hash, r.nonce, x⟩] := by
      intro j₀ hj₀
      refine (hi.histories j₀ hj₀).imp_right fun ⟨r, hr, h⟩ => ⟨r, ?_, h⟩
      rw [hres]
      exact List.mem_append_left _ hr
    rw [hd] at hj'
    rcases mem_setJob hj' with hj' | ⟨j₀, hj₀, -, rfl⟩
    · exact hold j' hj'
    · exact hold j₀ hj₀
  · rw [hres, List.map_append, List.map_singleton]
    refine List.nodup_append.2 ⟨hi.once, List.nodup_singleton _, fun x hx y hy => ?_⟩
    obtain ⟨r, hr, rfl⟩ := List.mem_map.1 hx
    rw [List.mem_singleton.1 hy]
    exact hne r hr
  · rw [hres, List.map_append, List.map_singleton]
    have hf' := freshNonces_concat hf
    refine List.nodup_append.2 ⟨hi.nonces hf', List.nodup_singleton _, fun x hx y hy => ?_⟩
    rw [List.mem_singleton.1 hy]
    rintro rfl
    exact hsend.fresh hf' relay rfl hx
  · cases hpost tx' a ha
    exact ⟨hrel.symm, fun p h => (by cases h), fun r h => (by cases h), fun _ r h => (by cases h),
      fun r x h => (by cases h)⟩

/-- **A finish resolves the reserved envelope and keeps the invariant.** -/
theorem RelayInv.finish {r : RelayReceipt} (hi : RelayInv env es e.pre)
    (hs : e.pre.sender = some (tx, .finalReceipt relay r))
    (hn : e.pre.data.finishRelay relay.hash r = .ok e.post.data) (hpost : e.post.sender = none) :
    RelayInv env (es ++ [e]) e.post ∧ e.post.data.relay = none ∧ e.post.data.Recorded relay r := by
  have hsend := hi.sender _ _ hs
  have hrel : e.pre.data.relay = some relay := hsend.reserved.symm
  have hd := finishRelay_ok hn hrel
  have hnone : e.post.data.relay = none := by rw [hd]
  obtain ⟨j, hj, hsub, hasc, -, hempty⟩ := hi.pending relay hrel
  have hres : relayReservations (es ++ [e]) = relayReservations es := by
    rw [relayReservations_concat, reserves, if_neg (by rw [hrel]; exact Option.some_ne_none _)]
    exact List.append_nil _
  have hget : e.post.data.get relay.sourceTxHash = some (finished relay r j) := by
    rw [hd]
    exact get_changed hj fun _ => rfl
  have hhist : (finished relay r j).relayHistory = [⟨relay.hash, relay.nonce, r⟩] := by
    rw [finished, hempty]
    rfl
  have hstate : (finished relay r j).state = r.status.jobState := by
    rw [finished]
    cases r.status <;> rfl
  refine ⟨⟨?_, fun r' hr => ?_, fun r' hr => ?_, fun r' hr => ?_, fun r' hr => ?_, fun j' hj' => ?_,
    ?_, fun hf => ?_, fun tx' a ha => ?_⟩, hnone, _, hget, hstate, hhist⟩
  · rw [hd]
    exact keys_setJob (fun _ => rfl) hi.keys
  · rw [hnone] at hr
    cases hr
  · rw [hnone] at hr
    cases hr
  · rw [hres] at hr
    right
    rcases hi.resolved r' hr with hr' | hr'
    · rw [hrel] at hr'
      cases hr'
      refine ⟨_, r, hget, ?_, hasc, hhist⟩
      rw [hstate]
      cases r.status <;> rfl
    · rw [hd]
      exact hr'.setJob (fun _ => rfl) (source_ne hr' hj (by rw [hsub]; rfl))
  · rw [hres] at hr
    exact (hi.signs r' hr).concat
  · rw [hres]
    rw [hd] at hj'
    rcases mem_setJob hj' with hj' | ⟨j₀, hj₀, htx, rfl⟩
    · exact hi.histories j' hj'
    · have hj₀' := Keyed.find_of_mem hi.keys hj₀
      rw [htx] at hj₀'
      cases hj.symm.trans hj₀'
      exact .inr ⟨relay, hi.member relay hrel, htx.symm, r, hhist⟩
  · rw [hres]
    exact hi.once
  · rw [hres]
    exact hi.nonces (freshNonces_concat hf)
  · rw [hpost] at ha
    cases ha

/-- The step that resolves an envelope: its receipt is observed once more, and recorded. -/
structure Released (es : List RelayEntry) (e : RelayEntry) (relay : RelayEnvelope)
    (r : RelayReceipt) : Prop where
  observed : Observed es relay r
  again : ∃ tx w, e.pre.sender = some (tx, .finalReceipt relay r) ∧
    e.act = .settle (.receipt (some r)) w
  cleared : e.post.data.relay = none
  recorded : e.post.data.Recorded relay r

/-- What one step does to the reservation and the network. -/
structure StepSafe (es : List RelayEntry) (e : RelayEntry) : Prop where
  broadcast : ∀ relay, e.out = .broadcast relay → e.pre.data.relay = some relay
  released : ∀ relay, e.pre.data.relay = some relay →
    e.post.data.relay = some relay ∨ ∃ r, Released es e relay r

/-- A step that keeps the reservation and broadcasts nothing. -/
theorem StepSafe.of_kept (hk : Kept e.pre.data e.post.data)
    (hb : ∀ relay, e.out = .broadcast relay → e.pre.data.relay = some relay) : StepSafe es e :=
  ⟨hb, fun _ hr => .inl (hk.relay.trans hr)⟩

/-- Where a call that ends leaves the host. -/
theorem settle_ended {step : SenderStep} {h : RelayHost} {out : RelayOutput}
    (hs : step = .returned ∨ ∃ x, step = .threw x) (hset : RelayHost.settle tx (d, step) = (h, out)) :
    h = ⟨d, none⟩ ∧ ∀ relay, out ≠ .broadcast relay := by
  rcases hs with rfl | ⟨x, rfl⟩
  · cases hset
    exact ⟨rfl, fun relay h => by cases h⟩
  · cases hset
    exact ⟨rfl, fun relay h => by cases h⟩

/-- Where a reservation leaves the host. -/
theorem settle_reserved {step : SenderStep} {h : RelayHost} {out : RelayOutput}
    (hs : step = .await a ∨ ∃ x, step = .threw x) (hset : RelayHost.settle tx (d, step) = (h, out)) :
    h.data = d ∧ (∀ tx' a', h.sender = some (tx', a') → a' = a) ∧ ∀ relay, out ≠ .broadcast relay := by
  rcases hs with rfl | ⟨x, rfl⟩
  · cases hset
    exact ⟨rfl, fun tx' a' h => (by cases h; rfl), fun relay h => by cases h⟩
  · cases hset
    exact ⟨rfl, fun tx' a' h => (by cases h), fun relay h => by cases h⟩

/-- Going on with a call keeps the invariant. -/
theorem RelayInv.resume {reply : SenderReply} {w : CommitEnd} {d' : StoreData} {step : SenderStep}
    (hi : RelayInv env es e.pre) (hact : e.act = .settle reply w)
    (hs : e.pre.sender = some (tx, a)) (he : SenderEffect env e.pre.data tx a reply d' step)
    (hset : RelayHost.settle tx (d', step) = (e.post, e.out)) :
    RelayInv env (es ++ [e]) e.post ∧ StepSafe es e := by
  have hsend := hi.sender _ _ hs
  have hmem : e ∈ es ++ [e] := by simp
  cases he with
  | moved _ a' hw hr hu _ hp hseen =>
    have hk : Kept e.pre.data d' := by
      rcases hw with rfl | ⟨x, hw⟩
      · exact .refl _
      · exact SenderWrite.kept (a := a) hi.pending (.lastError x d' hw : SenderWrite _ _ _ reply _)
    simp only [RelayHost.settle, Prod.mk.injEq] at hset
    obtain ⟨hpost, hout⟩ := hset
    have hk' : Kept e.pre.data e.post.data := by rwa [← hpost]
    refine ⟨hi.kept hk' fun tx' a'' ha => ?_, .of_kept hk' fun relay ho => ?_⟩
    · rw [← hpost] at ha ⊢
      cases ha
      refine ⟨(hr.trans hsend.reserved).trans hk.relay.symm, fun p hp' => ?_, fun relay h => ?_,
        fun _ relay h => ?_, fun relay r h => ?_⟩
      · exact (hsend.prepared p (hp p hp')).concat
      · rw [hu] at h
        cases h
      · rw [hu] at h
        cases h
      · rcases hseen relay r h with h | ⟨hasks, hreply⟩
        · exact (hsend.seen relay r h).concat
        · exact ⟨e, hmem, tx, a, w, hs, hasks, hreply ▸ hact⟩
    · rw [← hout] at ho
      cases ho
  | ended _ _ hw hstep =>
    have hk := hw.kept hi.pending
    have hpost := settle_ended hstep hset
    have hk' : Kept e.pre.data e.post.data := by rwa [hpost.1]
    refine ⟨hi.kept hk' fun tx' a' ha => ?_, .of_kept hk' fun relay ho => absurd ho (hpost.2 relay)⟩
    rw [hpost.1] at ha
    cases ha
  | accepted p relay ha hr hv ht hd =>
    subst ha hr ht
    simp only [RelayHost.settle, Prod.mk.injEq] at hset
    obtain ⟨hpost, hout⟩ := hset
    have hk' : Kept e.pre.data e.post.data := .of_jobs (by rw [← hpost]) (by rw [← hpost])
    refine ⟨hi.kept hk' fun tx' a' ha => ?_, .of_kept hk' fun relay' ho => ?_⟩
    · rw [← hpost] at ha ⊢
      cases ha
      have hnone : e.pre.data.relay = none := hsend.reserved.symm
      refine ⟨hsend.reserved, fun p h => (by cases h), fun relay' h => ?_, fun hf relay' h => ?_,
        fun relay' r h => (by cases h)⟩
      · cases h
        exact ⟨hv, p, (hsend.prepared p rfl).concat, hd⟩
      · cases h
        have hfresh := hf e hmem relay (by rw [prepares, hs, hact]; rfl)
        rw [relayReservations_concat, reserves_of_relay hk'.relay, Option.toList_none, List.append_nil]
        intro hin
        -- every earlier envelope is resolved, so its nonce is recorded
        obtain ⟨r, hr, hnonce⟩ := List.mem_map.1 hin
        rcases hi.resolved r hr with h | ⟨j, x, hj, -, -, hh⟩
        · rw [hnone] at h
          cases h
        · refine hfresh (List.mem_flatMap.2 ⟨j, (Keyed.mem_of_find hj).1, ?_⟩)
          rw [hh, ← hnonce]
          exact List.mem_singleton_self _
    · rw [← hout] at ho
      cases ho
  | broadcast relay ha =>
    subst ha
    simp only [RelayHost.settle, Prod.mk.injEq] at hset
    obtain ⟨hpost, hout⟩ := hset
    have hrel : e.pre.data.relay = some relay := hsend.reserved.symm
    have hk' : Kept e.pre.data e.post.data := .of_jobs (by rw [← hpost]) (by rw [← hpost])
    refine ⟨hi.kept hk' fun tx' a' ha => ?_, .of_kept hk' fun relay' ho => ?_⟩
    · rw [← hpost] at ha ⊢
      cases ha
      exact ⟨hsend.reserved, fun p h => (by cases h), fun r h => (by cases h),
        fun _ r h => (by cases h), fun r x h => (by cases h)⟩
    · rw [← hout] at ho
      cases ho
      exact hrel
  | reserved relay _ _ ha hn hstep =>
    subst ha
    have hpost := settle_reserved hstep hset
    rw [← hpost.1] at hn
    refine ⟨hi.reserve hs hn hpost.2.1, fun relay' ho => absurd ho (hpost.2.2 relay'),
      fun relay' hr => ?_⟩
    rw [(reserveRelay_ok hn).1] at hr
    cases hr
  | finished relay r _ _ ha hr hn hstep =>
    subst ha hr
    have hpost := settle_ended hstep hset
    have hdata : e.post.data = d' := by rw [hpost.1]
    rw [← hdata] at hn
    obtain ⟨hi', hnone, hrec⟩ := hi.finish hs hn (by rw [hpost.1])
    refine ⟨hi', fun relay' ho => absurd ho (hpost.2 relay'), fun relay' hr => .inr ⟨r, ?_⟩⟩
    cases hsend.reserved.trans hr
    exact ⟨hsend.seen relay r rfl, ⟨tx, w, hs, hact⟩, hnone, hrec⟩

theorem RelayInv.initial : RelayInv env [] .initial :=
  ⟨List.nodup_nil, fun r h => (by cases h), fun r h => (by cases h), fun r h => (by cases h),
    fun r h => (by cases h), fun j h => (by cases h), List.nodup_nil, fun _ => List.nodup_nil,
    fun tx a h => (by cases h)⟩

/-- **Each step keeps the invariant.** -/
theorem RelayInv.step (hi : RelayInv env es e.pre) (hs : (RelayHost.machine env).IsStep e) :
    RelayInv env (es ++ [e]) e.post ∧ StepSafe es e := by
  obtain ⟨h, act, out, h'⟩ := e
  have hs' : (RelayHost.machine env).step h act = .ok (h', out) := hs
  have concat : ∀ {e : RelayEntry} {tx a}, Sends env es e.pre.data tx a →
      Kept e.pre.data e.post.data → Sends env (es ++ [e]) e.post.data tx a := by
    intro e tx a hsend hk
    refine ⟨hsend.reserved.trans hk.relay.symm, fun p hp => (hsend.prepared p hp).concat,
      fun r hr => (hsend.signs r hr).concat, fun hf r hr => ?_, fun r x hr => (hsend.seen r x hr).concat⟩
    rw [relayReservations_concat, reserves_of_relay hk.relay, Option.toList_none, List.append_nil]
    exact hsend.fresh (freshNonces_concat hf) r hr
  cases act with
  | step tx preparation =>
    simp only [RelayHost.machine, bind_ok, revertIf_ok, pure_ok, Prod.mk.injEq] at hs'
    obtain ⟨-, -, a, ha, rfl, rfl⟩ := hs'
    refine ⟨hi.kept (.refl _) fun tx' a' h' => ?_, .of_kept (.refl _) fun r h' => by cases h'⟩
    cases h'
    -- the call starts with the envelope of the store, or with its preparation
    simp only [startStep, bind_ok, revertIf_ok, orRevert_ok] at ha
    obtain ⟨-, -, -, -, -, -, -, -, ha⟩ := ha
    cases hr : h.data.relay with
    | some relay =>
      simp only [hr, pure_ok] at ha
      subst ha
      exact ⟨hr.symm, fun p h' => (by cases h'), fun r h' => (by cases h'),
        fun _ r h' => (by cases h'), fun r x h' => (by cases h')⟩
    | none =>
      simp only [hr, bind_ok, orRevert_ok, pure_ok] at ha
      obtain ⟨p, rfl, rfl⟩ := ha
      refine ⟨hr.symm, fun p' h' => ?_, fun r h' => (by cases h'),
        fun _ r h' => (by cases h'), fun r x h' => (by cases h')⟩
      cases h'
      exact List.mem_filterMap.2 ⟨_, List.mem_append_right _ (List.mem_singleton_self _), rfl⟩
  | settle reply w =>
    simp only [RelayHost.machine, bind_ok, orRevert_ok, pure_ok] at hs'
    obtain ⟨⟨tx, a⟩, hsender, r, hr, hset⟩ := hs'
    exact hi.resume rfl hsender (resumeStep_effect hr) hset
  | store op w =>
    simp only [RelayHost.machine, bind_ok, pure_ok, Prod.mk.injEq] at hs'
    obtain ⟨next, hop, rfl, rfl⟩ := hs'
    have hk : Kept h.data (h.data.commit next w) := (operate_kept hi.pending hop).commit w
    exact ⟨hi.kept hk fun tx a ha => concat (hi.sender tx a ha) hk, .of_kept hk fun r h' => by cases h'⟩
  | crash =>
    simp only [RelayHost.machine, pure_ok, Prod.mk.injEq] at hs'
    obtain ⟨rfl, rfl⟩ := hs'
    exact ⟨hi.kept (.refl _) fun tx a ha => (by cases ha), .of_kept (.refl _) fun r h' => by cases h'⟩

theorem relayInv_run {s : RelayHost} (hr : (RelayHost.machine env).Run .initial es s) :
    RelayInv env es s :=
  hr.history (H := fun es s => RelayInv env es s) .initial fun _ _ _ hi hs => (hi.step hs).1

/-! ## The theorem -/

/-- Calls for different source transactions carry different data: `process` encodes the
    transaction's own bytes in it. -/
def DistinctCalls (es : List RelayEntry) : Prop :=
  ∀ c ∈ es.filterMap calls, ∀ c' ∈ es.filterMap calls, c.2.data = c'.2.data → c.1 = c'.1

/-- No two of the envelopes collide under the transaction hash. -/
def NoHashCollision (es : List RelayEntry) : Prop :=
  ∀ r ∈ relayReservations es, ∀ r' ∈ relayReservations es, r.hash = r'.hash → r.raw = r'.raw

instance (es : List RelayEntry) : Decidable (NoHashCollision es) :=
  inferInstanceAs (Decidable (∀ r ∈ relayReservations es, ∀ r' ∈ relayReservations es,
    r.hash = r'.hash → r.raw = r'.raw))

/-- The envelope that a step hands to the network. -/
def RelayOutput.broadcast? : RelayOutput → Option RelayEnvelope
  | .broadcast relay => some relay
  | _ => none

/-- The envelopes that were broadcast. -/
def broadcasts (es : List RelayEntry) : List RelayEnvelope := es.filterMap fun e => e.out.broadcast?

/-- The hashes of all relay histories. -/
def StoreData.historyHashes (d : StoreData) : List TxHash :=
  d.jobs.flatMap fun j => j.relayHistory.map RelayHistory.hash

/-- An envelope is what the transaction that it carries says. -/
theorem validateRelay_ok {u : Unit} (h : env.validateRelay relay = .ok u) :
    ∃ t, env.parseTransaction relay.raw = some t ∧ t.nonce = relay.nonce ∧ t.data = relay.data := by
  simp only [RelayEnv.validateRelay, bind_ok, orRevert_ok, revertIf_ok, not_or, not_not] at h
  obtain ⟨t, ht, -, -, hn, -, -, -, -, -, -, hd, -⟩ := h
  exact ⟨t, ht, hn, hd⟩

/-- Two reserved envelopes with one hash are one envelope. -/
theorem RelayInv.eq_of_hash {h : RelayHost} (hi : RelayInv env es h) (hc : NoHashCollision es)
    (hd : DistinctCalls es ∨ ∀ e ∈ es, FreshNonce e) {r r' : RelayEnvelope}
    (hr : r ∈ relayReservations es) (hr' : r' ∈ relayReservations es) (hh : r.hash = r'.hash) : r = r' := by
  obtain ⟨hv, p, hp, hpd⟩ := hi.signs r hr
  obtain ⟨hv', p', hp', hpd'⟩ := hi.signs r' hr'
  obtain ⟨t, ht, hn, htd⟩ := validateRelay_ok hv
  obtain ⟨t', ht', hn', htd'⟩ := validateRelay_ok hv'
  -- one hash, so one signed transaction
  rw [hc r hr r' hr' hh, ht'] at ht
  cases ht
  rcases hd with hd | hf
  · have hdata : p.data = p'.data := by rw [← hpd, ← hpd', ← htd, ← htd']
    exact List.inj_on_of_nodup_map hi.once hr hr' (hd _ hp _ hp' hdata)
  · exact List.inj_on_of_nodup_map (hi.nonces hf) hr hr' (hn.symm.trans hn')

theorem RelayInv.historyHashes {h : RelayHost} (hi : RelayInv env es h) (hc : NoHashCollision es)
    (hd : DistinctCalls es ∨ ∀ e ∈ es, FreshNonce e) : h.data.historyHashes.Nodup := by
  have hhist : ∀ j ∈ h.data.jobs, ∀ x ∈ j.relayHistory.map RelayHistory.hash,
      ∃ r ∈ relayReservations es, r.sourceTxHash = j.txHash ∧ r.hash = x := by
    intro j hj x hx
    rcases hi.histories j hj with hh | ⟨r, hr, hsrc, y, hh⟩
    · rw [hh] at hx
      cases hx
    · rw [hh] at hx
      exact ⟨r, hr, hsrc, (List.mem_singleton.1 hx).symm⟩
  refine List.nodup_flatMap.2 ⟨fun j hj => ?_, ?_⟩
  · rcases hi.histories j hj with hh | ⟨r, -, -, y, hh⟩
    · rw [hh]
      exact List.nodup_nil
    · rw [hh]
      exact List.nodup_singleton _
  · have hkeys : h.data.jobs.Pairwise fun j j' => j.txHash ≠ j'.txHash := List.pairwise_map.1 hi.keys
    refine hkeys.imp_of_mem fun hj hj' hne => ?_
    intro x hx hx'
    obtain ⟨r, hr, hsrc, rfl⟩ := hhist _ hj x hx
    obtain ⟨r', hr', hsrc', hh⟩ := hhist _ hj' _ hx'
    rw [hi.eq_of_hash hc hd hr' hr hh] at hsrc'
    exact hne (hsrc.symm.trans hsrc')

/-- What a run of the sender guarantees.  An envelope that is signed and never reserved is
    dropped with the call that signed it. -/
structure RelaySafe (es : List RelayEntry) (s : RelayHost) : Prop where
  broadcastReserved : ∀ es₁ e es₂, es = es₁ ++ e :: es₂ → ∀ relay, e.out = .broadcast relay →
    relay ∈ relayReservations es₁ ∧ e.pre.data.relay = some relay
  oneUnresolved : ∀ relay ∈ relayReservations es, s.data.relay = some relay ∨ s.data.Resolved relay
  replaced : ∀ es₁ e es₂, es = es₁ ++ e :: es₂ → ∀ relay, e.pre.data.relay = some relay →
    e.post.data.relay = some relay ∨ ∃ r, Released es₁ e relay r
  oneEnvelope : ((relayReservations es).map RelayEnvelope.sourceTxHash).Nodup
  histories : NoHashCollision es → (DistinctCalls es ∨ ∀ e ∈ es, FreshNonce e) →
    s.data.historyHashes.Nodup
  nonces : (∀ e ∈ es, FreshNonce e) → ∀ r ∈ broadcasts es, ∀ r' ∈ broadcasts es,
    r.nonce = r'.nonce → r = r'

end

/-! Two jobs: the first is signed in a commit that fails after its rename, survives a crash, is
    broadcast with a lost answer and confirmed; the second is broadcast and reverted. -/

def relayTransaction (n : ℕ) : RelayTransaction where
  signed := true
  hash := BitVec.ofNat _ (n + 100)
  nonce := n
  chainId := hubChainId
  to_ := some 7
  from_ := 9
  data := [BitVec.ofNat _ n]
  value := 0

def relayEnv : RelayEnv where
  parseTransaction raw := raw.head?.map fun b => relayTransaction b.toNat
  asc := 7
  signer := 9
  maxAttempts := 3

def relayEnvelope (n : ℕ) : RelayEnvelope where
  sourceTxHash := BitVec.ofNat _ n
  queryId := BitVec.ofNat _ (n + 50)
  hash := BitVec.ofNat _ (n + 100)
  raw := [BitVec.ofNat _ n]
  nonce := n
  chainId := hubChainId
  to_ := 7
  signer := 9
  data := [BitVec.ofNat _ n]

def relayPreparation (n : ℕ) : RelayPreparation := ⟨BitVec.ofNat _ (n + 50), [BitVec.ofNat _ n], 500000⟩

def relayRun : List RelayAction :=
  let query : QueryObservation := ⟨.unprocessed, 5, 55, 0, 1⟩
  let mined : RelayReceipt := ⟨.success, 6, 66⟩
  let reverted : RelayReceipt := ⟨.reverted, 8, 88⟩
  let settle (r : SenderReply) : RelayAction := .settle r .committed
  [.store (.initializeSource ⟨0, 10⟩) .committed,
    .store (.commitSourceRange 1 ⟨4, 14⟩ [⟨0, 2, 12, 0⟩, ⟨1, 3, 13, 1⟩]) .committed,
    .store (.attested 0) .committed, .store (.attested 1) .committed,
    .step 0 (some (relayPreparation 0)), settle .ready, settle (.observed query), settle .ready,
    settle (.prepared (relayEnvelope 0)), .settle .ready .afterRename, .crash,
    .step 1 (some (relayPreparation 1)), .step 0 none, settle (.receipt none), settle .ready,
    settle .failed, settle (.receipt (some mined)), settle .ready, settle (.processed true),
    settle (.receipt (some mined)), .step 1 (some (relayPreparation 1)), settle .ready,
    settle (.observed query), settle .ready, settle (.prepared (relayEnvelope 1)), settle .ready,
    settle (.receipt none), settle .ready, settle .sent, settle (.receipt (some reverted)),
    settle .ready, settle (.receipt (some reverted))]

def relayMachine : Machine RelayHost RelayAction RelayOutput StoreError := RelayHost.machine relayEnv

end Proofmark
