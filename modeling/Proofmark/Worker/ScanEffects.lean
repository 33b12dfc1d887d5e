/-
  What the steps of a scanning worker change.

  The steps of the relay sender keep every job where it is (`KeptPlaces`); `ScanEffect` lists
  what a call of `scanSourceStep` does between two reads.  Whatever the RPC answers, the store
  stays sound (`ScannedInv`).
-/
import Proofmark.Worker.RelaySafety
import Proofmark.Worker.SourceScan

namespace Proofmark

open Revert

/-- The transaction of a job. -/
def Job.source (j : Job) : SourceJob := ⟨j.txHash, j.blockNumber, j.blockHash, j.transactionIndex⟩

/-- A job that no rewind may drop names its query. -/
def Job.Named (j : Job) : Prop := j.relayed = true → j.queryId.isSome = true

theorem Job.relayed_of_named {j : Job} (h : j.queryId.isSome = true) : j.relayed = true := by
  simp [Job.relayed, h]

/-! ## The steps of the sender -/

/-- What the sender may change of a job. -/
structure KeptPlace (j j' : Job) : Prop where
  source : j'.source = j.source
  queryId : j.queryId.isSome = true → j'.queryId.isSome = true
  named : j.Named → j'.Named

/-- A write that neither finds nor drops a job. -/
structure KeptPlaces (d d' : StoreData) : Prop where
  jobs : List.Forall₂ KeptPlace d.jobs d'.jobs
  cursor : d'.cursor = d.cursor
  checkpoints : d'.sourceCheckpoints = d.sourceCheckpoints

theorem KeptPlace.refl (j : Job) : KeptPlace j j := ⟨rfl, id, id⟩

theorem KeptPlace.of_queryId {j j' : Job} (hs : j'.source = j.source)
    (hq : j'.queryId.isSome = true) : KeptPlace j j' :=
  ⟨hs, fun _ => hq, fun _ _ => hq⟩

theorem KeptPlaces.of_jobs {d d' : StoreData} (hj : d'.jobs = d.jobs) (hc : d'.cursor = d.cursor)
    (hp : d'.sourceCheckpoints = d.sourceCheckpoints) : KeptPlaces d d' := by
  refine ⟨?_, hc, hp⟩
  rw [hj, List.forall₂_same]
  exact fun j _ => .refl j

theorem KeptPlaces.refl (d : StoreData) : KeptPlaces d d := .of_jobs rfl rfl rfl

theorem KeptPlaces.commit {d next : StoreData} (h : KeptPlaces d next) (w : CommitEnd) :
    KeptPlaces d (d.commit next w) := by
  cases w with
  | beforeRename => exact .refl d
  | committed | afterRename => exact h

theorem forall₂_change {κ α : Type} [DecidableEq κ] {key : α → κ} {k : κ} {f : α → α}
    {R : α → α → Prop} (hr : ∀ a, R a a) {l : List α}
    (hf : ∀ a, Keyed.find key k l = some a → R a (f a)) :
    List.Forall₂ R l (Keyed.change key k f l) := by
  induction l with
  | nil => exact .nil
  | cons b l ih =>
    rw [Keyed.change]
    by_cases hb : key b = k
    · rw [if_pos hb]
      refine .cons (hf b (by simp [Keyed.find, hb])) ?_
      rw [List.forall₂_same]
      exact fun a _ => hr a
    · rw [if_neg hb]
      exact .cons (hr b) (ih fun a ha => hf a (by simpa [Keyed.find, hb] using ha))

section sender

variable {env : RelayEnv} {d d' next : StoreData} {tx : TxHash} {relay : RelayEnvelope}

theorem KeptPlaces.setJob {f : Job → Job} {o : Option RelayEnvelope}
    (hf : ∀ j, d.get tx = some j → KeptPlace j (f j)) :
    KeptPlaces d { d.setJob tx f with relay := o } :=
  ⟨forall₂_change .refl hf, rfl, rfl⟩

/-- A patch marks no job as relayed that has no query. -/
theorem update_places {p : JobPatch} (hr : p = .reconciling → ∀ j, d.get tx = some j →
    j.queryId.isSome = true) (h : d.update tx p = .ok next) : KeptPlaces d next := by
  simp only [StoreData.update, bind_ok, revertIf_ok, pure_ok] at h
  obtain ⟨-, -, rfl⟩ := h
  refine .setJob (o := d.relay) fun j hj => ?_
  cases p with
  | reconciling => exact .of_queryId rfl (hr rfl j hj)
  | skipped q o => exact .of_queryId rfl rfl
  | failed n e => exact ⟨rfl, id, id⟩
  | lastError e => exact ⟨rfl, id, id⟩
  | attested =>
    refine ⟨rfl, id, fun hn hrel => hn ?_⟩
    simp only [JobPatch.apply, Job.relayed, Bool.or_eq_true, decide_eq_true_eq] at hrel ⊢
    simp_all
  | dead n e =>
    refine ⟨rfl, id, fun hn hrel => hn ?_⟩
    simp only [JobPatch.apply, Job.relayed, Bool.or_eq_true, decide_eq_true_eq] at hrel ⊢
    simp_all

theorem reserveRelay_places (h : d.reserveRelay relay = .ok next) : KeptPlaces d next := by
  obtain ⟨-, -, -, -, rfl⟩ := StoreData.reserveRelay_ok h
  exact .setJob fun j _ => .of_queryId rfl rfl

theorem finishRelay_places {r : RelayReceipt} (hr : d.relay = some relay) (hp : d.Pending relay)
    (h : d.finishRelay relay.hash r = .ok next) : KeptPlaces d next := by
  rw [StoreData.finishRelay_ok h hr]
  refine .setJob fun j hj => .of_queryId rfl ?_
  obtain ⟨j', hj', -, -, hq, -⟩ := hp
  rw [hj] at hj'
  cases hj'
  simp [StoreData.finished, hq]

/-- The writes of the worker that are not a scan's. -/
theorem operate_places {op : StoreOp} (hp : ∀ relay, d.relay = some relay → d.Pending relay)
    (hop : op.scans = false) (h : d.operate env op = .ok next) : KeptPlaces d next := by
  have reserved : ∀ tx, d.relay.map RelayEnvelope.sourceTxHash = some tx → ∀ j, d.get tx = some j →
      j.queryId.isSome = true := by
    intro tx htx j hj
    obtain ⟨relay, hrelay, rfl⟩ := Option.map_eq_some_iff.1 htx
    obtain ⟨j', hj', -, -, hq, -⟩ := hp relay hrelay
    rw [hj] at hj'
    cases hj'
    simp [hq]
  cases op with
  | initializeSource c => cases hop
  | commitSourceRange f e js => cases hop
  | rewindUnsignedSource a => cases hop
  | holdSource reason =>
    cases h
    exact .of_jobs rfl rfl rfl
  | holdHub reason =>
    cases h
    exact .of_jobs rfl rfl rfl
  | initializeHubSigner n =>
    simp only [StoreData.operate, StoreData.initializeHubSigner, bind_ok] at h
    obtain ⟨-, -, h⟩ := h
    split at h
    · split at h
      · cases h
        exact .refl d
      · cases h
    · cases h
      exact .of_jobs rfl rfl rfl
  | attested tx =>
    simp only [StoreData.operate, bind_ok] at h
    obtain ⟨-, -, h⟩ := h
    exact update_places (by simp) h
  | processFailed tx message =>
    simp only [StoreData.operate, bind_ok] at h
    obtain ⟨-, -, h⟩ := h
    unfold StoreData.processFailed at h
    split at h
    · next htx => exact update_places (fun _ => reserved tx htx) h
    · dsimp only at h
      split at h
      · exact update_places (by simp) h
      · exact update_places (by simp) h

/-- **No step of the sender moves or drops a job.** -/
theorem relay_places {es : List RelayEntry} {e : RelayEntry} (hi : RelayInv env es e.pre)
    (hs : (RelayHost.machine env).IsStep e)
    (hop : ∀ op w, e.act = .store op w → op.scans = false) :
    KeptPlaces e.pre.data e.post.data := by
  obtain ⟨h, act, out, h'⟩ := e
  have hs' : (RelayHost.machine env).step h act = .ok (h', out) := hs
  cases act with
  | step tx preparation =>
    simp only [RelayHost.machine, bind_ok, revertIf_ok, pure_ok, Prod.mk.injEq] at hs'
    obtain ⟨-, -, a, -, rfl, -⟩ := hs'
    exact .refl _
  | store op w =>
    simp only [RelayHost.machine, bind_ok, pure_ok, Prod.mk.injEq] at hs'
    obtain ⟨next, hnext, rfl, -⟩ := hs'
    exact (operate_places hi.pending (hop op w rfl) hnext).commit w
  | crash =>
    simp only [RelayHost.machine, pure_ok, Prod.mk.injEq] at hs'
    obtain ⟨rfl, -⟩ := hs'
    exact .refl _
  | settle reply w =>
    simp only [RelayHost.machine, bind_ok, orRevert_ok, pure_ok] at hs'
    obtain ⟨⟨tx, a⟩, hsender, ⟨d', step⟩, hr, hset⟩ := hs'
    have hdata : h'.data = d' := by
      cases step <;> · cases hset; rfl
    rw [hdata]
    have hheld := (hi.sender tx a hsender).reserved
    cases StoreData.resumeStep_effect hr with
    | moved _ _ hw =>
      rcases hw with rfl | ⟨e, hw⟩
      · exact .refl _
      · exact update_places (by simp) hw
    | ended _ _ hw =>
      cases hw with
      | none => exact .refl _
      | lastError e _ hw => exact update_places (by simp) hw
      | skipped p query final _ _ _ _ hw => exact update_places (by simp) hw
    | accepted => exact .refl _
    | broadcast => exact .refl _
    | reserved relay _ _ _ hn => exact reserveRelay_places hn
    | finished relay r _ _ ha _ hn =>
      subst ha
      exact finishRelay_places hheld.symm (hi.pending relay hheld.symm) hn

end sender

/-! ## The parts of a scan -/

/-- The call has seen a checkpoint. -/
def ScanAwait.anchored : ScanAwait → Bool
  | .tip _ _ | .anchor _ => false
  | _ => true

/-- The logs of a call that its loop has passed. -/
def Located (env : ScanEnv) (range : SourceRange) (logs : List RpcLog) (locations : List TxLocation) :
    Prop :=
  ∀ l ∈ logs, ∃ i, env.checkLog range l = .ok i ∧
    Keyed.find TxLocation.txHash l.transactionHash locations =
      some ⟨l.transactionHash, l.blockHash, i⟩

section scan

variable {env : ScanEnv} {d d' next : StoreData} {range : SourceRange} {endHash : BlockHash}
  {logs rest : List RpcLog} {entry : RpcLog} {locations locations' : List TxLocation}
  {blocks : List (ℕ × BlockHash)} {i : ℕ} {hash : BlockHash} {w : CommitEnd} {a a' : ScanAwait}
  {read : SourceRead} {answer : SourceAnswer} {busy : Bool} {step : ScanStep}

theorem noteLog_ok (h : noteLog entry i hash locations = .ok locations') :
    Keyed.find TxLocation.txHash entry.transactionHash locations' =
      some ⟨entry.transactionHash, entry.blockHash, i⟩ ∧
    ∀ tx l, Keyed.find TxLocation.txHash tx locations = some l →
      Keyed.find TxLocation.txHash tx locations' = some l := by
  unfold noteLog at h
  split at h
  · cases h
  · split at h
    · next hnone =>
      cases h
      have hconcat := fun tx => Keyed.find_concat (k := tx)
        (a := TxLocation.mk entry.transactionHash entry.blockHash i) hnone
      refine ⟨by simp [hconcat], fun tx l hl => ?_⟩
      rw [hconcat, if_neg, hl]
      rintro rfl
      rw [hnone] at hl
      cases hl
    · next previous hsome =>
      split at h
      · cases h
      · next hne =>
        cases h
        simp only [not_or, not_not] at hne
        refine ⟨?_, fun _ _ => id⟩
        obtain ⟨tx, bh, ti⟩ := previous
        have htx := (Keyed.mem_of_find hsome).2
        simp only at hne htx
        rw [hsome, hne.1, hne.2, htx]

theorem Located.note {done : List RpcLog} (hl : Located env range done locations)
    (hc : env.checkLog range entry = .ok i) (hn : noteLog entry i hash locations = .ok locations') :
    Located env range (done ++ [entry]) locations' := by
  obtain ⟨hentry, hkeep⟩ := noteLog_ok hn
  intro l hmem
  rcases List.mem_append.1 hmem with hmem | hmem
  · obtain ⟨j, hj, hfind⟩ := hl l hmem
    exact ⟨j, hj, hkeep _ _ hfind⟩
  · rw [List.mem_singleton.1 hmem]
    exact ⟨i, hc, hentry⟩

/-- Where the loop over the logs stops. -/
theorem scanLogs_await {done : List RpcLog} (hlogs : logs = done ++ rest)
    (hl : Located env range done locations)
    (h : d.scanLogs env range endHash logs rest blocks locations = .await a') :
    (∃ done entry rest blocks locations, a' = .logBlock range endHash logs entry rest blocks locations ∧
      logs = done ++ entry :: rest ∧ Located env range done locations) ∨
    ∃ locations start, a' = .recheck range endHash logs locations start ⟨none, none, none, none⟩ ∧
      d.sourceCheckpoints.getLast? = some start ∧ Located env range logs locations := by
  induction rest generalizing done locations with
  | nil =>
    rw [StoreData.scanLogs] at h
    split at h
    · cases h
    · next start hstart =>
      cases h
      rw [List.append_nil] at hlogs
      subst hlogs
      exact .inr ⟨locations, start, rfl, hstart, hl⟩
  | cons entry rest ih =>
    rw [StoreData.scanLogs] at h
    split at h
    · cases h
    · next i hc =>
      split at h
      · cases h
        exact .inl ⟨done, entry, rest, blocks, locations, rfl, hlogs, hl⟩
      · split at h
        · cases h
        · next hn =>
          exact ih (by simpa using hlogs) (hl.note hc hn) h

/-- How a call moves from one await to the next without a write. -/
inductive ScanMove (env : ScanEnv) (d : StoreData) (read : SourceRead) (answer : SourceAnswer) :
    ScanAwait → ScanAwait → Prop
  | tip {a : ScanAwait} {head : Option (Option ℕ)} {finalized : Option (Option RpcBlock)} :
      ScanMove env d read answer a (.tip head finalized)
  | anchor {a : ScanAwait} {safeHead : ℤ} (h : d.sourceCheckpoints = []) :
      ScanMove env d read answer a (.anchor safeHead)
  | current {a : ScanAwait} {safeHead : ℤ} {last : SourceCheckpoint}
      (h : d.sourceCheckpoints.getLast? = some last) :
      ScanMove env d read answer a (.current safeHead last d.sourceCheckpoints)
  | ancestor {a : ScanAwait} {safeHead : ℤ} {checkpoint : SourceCheckpoint}
      {rest : List SourceCheckpoint} (ha : a.anchored = true) :
      ScanMove env d read answer a (.ancestor safeHead checkpoint rest)
  | unforked {safeHead : ℤ} {last : SourceCheckpoint} {checkpoints : List SourceCheckpoint}
      {b : Option RpcBlock} {range : SourceRange} (hr : read = .block last.height)
      (ha : answer = .block b) (hb : validBlock b (some last.height) = some last)
      (hf : range.from_ = d.cursor + 1) (ht : range.from_ ≤ range.to_) :
      ScanMove env d read answer (.current safeHead last checkpoints) (.rangeEnd range)
  | rangeEnd {range : SourceRange} {b : Option RpcBlock} {end_ : SourceCheckpoint}
      (hr : read = .block range.to_) (ha : answer = .block b)
      (hb : validBlock b (some range.to_) = some end_) :
      ScanMove env d read answer (.rangeEnd range) (.logs range end_.hash)
  | logs {range : SourceRange} {endHash : BlockHash} {ls : List RpcLog} {a : ScanAwait}
      (hr : read = .logs range.from_ range.to_) (ha : answer = .logs ls)
      (h : d.scanLogs env range endHash ls ls [] [] = .await a) :
      ScanMove env d read answer (.logs range endHash) a
  | logBlock {range : SourceRange} {endHash : BlockHash} {logs rest : List RpcLog} {entry : RpcLog}
      {blocks blocks' : List (ℕ × BlockHash)} {locations locations' : List TxLocation} {i : ℕ}
      {hash : BlockHash} {a : ScanAwait} (hc : env.checkLog range entry = .ok i)
      (hn : noteLog entry i hash locations = .ok locations')
      (h : d.scanLogs env range endHash logs rest blocks' locations' = .await a) :
      ScanMove env d read answer (.logBlock range endHash logs entry rest blocks locations) a
  | recheck {range : SourceRange} {endHash : BlockHash} {logs : List RpcLog}
      {locations : List TxLocation} {start : SourceCheckpoint} {got got' : Recheck}
      (h : got.fill range start read answer = some got') :
      ScanMove env d read answer (.recheck range endHash logs locations start got)
        (.recheck range endHash logs locations start got')

/-- **What a call does between two reads.** -/
inductive ScanEffect (env : ScanEnv) (d : StoreData) (w : CommitEnd) (read : SourceRead)
    (answer : SourceAnswer) : ScanAwait → StoreData → ScanStep → Prop
  | moved {a a' : ScanAwait} (h : ScanMove env d read answer a a') :
      ScanEffect env d w read answer a d (.await a')
  | ended {a : ScanAwait} {step : ScanStep} (hs : ∀ a', step ≠ .await a') :
      ScanEffect env d w read answer a d step
  | held {a : ScanAwait} {reason : String} {step : ScanStep} (hs : ∀ a', step ≠ .await a') :
      ScanEffect env d w read answer a (d.commit { d with sourceHold := some reason } w) step
  | initialized {safeHead : ℤ} {anchor : SourceCheckpoint} {b : Option RpcBlock} {next : StoreData}
      {step : ScanStep} (hr : read = .block (env.startBlock - 1)) (ha : answer = .block b)
      (hb : validBlock b (some (env.startBlock - 1)) = some anchor)
      (hn : d.initializeSource anchor = .ok next)
      (hs : (∀ a', step ≠ .await a') ∨ d.commit next w = next ∧
        ∃ last, next.sourceCheckpoints.getLast? = some last ∧
          step = .await (.current safeHead last next.sourceCheckpoints)) :
      ScanEffect env d w read answer (.anchor safeHead) (d.commit next w) step
  | rewound {safeHead : ℤ} {checkpoint : SourceCheckpoint} {rest : List SourceCheckpoint}
      {b : Option RpcBlock} {next : StoreData} {step : ScanStep}
      (hr : read = .block checkpoint.height) (ha : answer = .block b)
      (hb : validBlock b (some checkpoint.height) = some checkpoint)
      (hn : d.rewindUnsignedSource checkpoint = .ok next)
      (hs : (∀ a', step ≠ .await a') ∨ d.commit next w = next ∧ next.sourceHold = none ∧
        ∃ range : SourceRange, range.from_ = next.cursor + 1 ∧ range.from_ ≤ range.to_ ∧
          step = .await (.rangeEnd range)) :
      ScanEffect env d w read answer (.ancestor safeHead checkpoint rest) (d.commit next w) step
  | committed {range : SourceRange} {endHash : BlockHash} {logs : List RpcLog}
      {locations : List TxLocation} {start : SourceCheckpoint} {got : Recheck}
      {endAgain startAgain finalAgain : Option RpcBlock} {headAgain : Option ℕ}
      {groups : List SourceGroup} {jobs : List SourceJob} {next : StoreData} {step : ScanStep}
      (hf : got.fill range start read answer =
        some ⟨some endAgain, some startAgain, some finalAgain, some headAgain⟩)
      (hu : env.unchanged range endHash start endAgain startAgain finalAgain headAgain)
      (hg : env.groupSourceEvents logs = .ok groups) (hj : groups.mapM (sourceJobAt locations) = .ok jobs)
      (hn : d.commitSourceRange range.from_ ⟨range.to_, endHash⟩ (jobs.map SourceJob.discovered) = .ok next)
      (hs : ∀ a', step ≠ .await a') :
      ScanEffect env d w read answer (.recheck range endHash logs locations start got)
        (d.commit next w) step

/-- A saved write of a scan ends in one of three ways. -/
theorem saveScan_cases (r : Except StoreError StoreData) (w : CommitEnd) (k : StoreData → ScanStep) :
    (∃ e, d.saveScan r w k = (d, .threw e)) ∨
    ∃ next, r = .ok next ∧ ((∃ e, d.saveScan r w k = (d.commit next w, .threw e)) ∨
      d.commit next w = next ∧ d.saveScan r w k = (next, k next)) := by
  cases r with
  | error e => exact .inl ⟨e, rfl⟩
  | ok next =>
    cases w with
    | committed => exact .inr ⟨next, rfl, .inr ⟨rfl, rfl⟩⟩
    | beforeRename => exact .inr ⟨next, rfl, .inl ⟨.write, rfl⟩⟩
    | afterRename => exact .inr ⟨next, rfl, .inl ⟨.write, rfl⟩⟩

theorem validBlock_height {b : Option RpcBlock} {n : ℕ} {c : SourceCheckpoint}
    (h : validBlock b (some n) = some c) : c.height = n := by
  simp only [validBlock, Option.bind_eq_bind, Option.bind_eq_some_iff] at h
  obtain ⟨_, -, number, -, hash, -, h⟩ := h
  split at h
  · next hn =>
    cases h
    exact hn n rfl
  · cases h

theorem checkCursor_cases (d : StoreData) (safeHead : ℤ) :
    (∃ e, d.checkCursor safeHead = .threw e) ∨ ∃ last, d.sourceCheckpoints.getLast? = some last ∧
      d.checkCursor safeHead = .await (.current safeHead last d.sourceCheckpoints) := by
  unfold StoreData.checkCursor
  split
  · exact .inl ⟨_, rfl⟩
  · next last hlast =>
    split
    · exact .inl ⟨_, rfl⟩
    · exact .inr ⟨last, hlast, rfl⟩

theorem nextRange_cases (d : StoreData) (safeHead : ℤ) (rewound : ℕ) (hchunk : 1 ≤ env.chunk) :
    (∃ s j r, d.nextRange env safeHead rewound = .returned s j r) ∨ ∃ range : SourceRange,
      range.from_ = d.cursor + 1 ∧ range.from_ ≤ range.to_ ∧
      d.nextRange env safeHead rewound = .await (.rangeEnd range) := by
  unfold StoreData.nextRange
  split
  · exact .inl ⟨_, _, _, rfl⟩
  · refine .inr ⟨_, rfl, ?_, rfl⟩
    dsimp only
    omega

theorem afterTip_effect {head : Option ℕ} {finalized : Option RpcBlock} :
    ScanEffect env d w read answer a d (d.afterTip env head finalized) := by
  unfold StoreData.afterTip
  split
  · split
    · exact .ended fun a' h => by cases h
    · dsimp only
      split
      · next hnil =>
        split
        · exact .ended fun a' h => by cases h
        · exact .moved (.anchor hnil)
      · rcases checkCursor_cases d _ with ⟨e, h⟩ | ⟨last, hlast, h⟩
        · rw [h]
          exact .ended fun a' h => by cases h
        · rw [h]
          exact .moved (.current hlast)
  · exact .ended fun a' h => by cases h

theorem searchAncestor_effect {safeHead : ℤ} {checkpoints : List SourceCheckpoint}
    (ha : a.anchored = true) : ScanEffect env d w read answer a
      (d.searchAncestor w safeHead checkpoints).1 (d.searchAncestor w safeHead checkpoints).2 := by
  cases checkpoints with
  | cons c rest => exact .moved (.ancestor ha)
  | nil =>
    rw [StoreData.searchAncestor]
    rcases saveScan_cases (d := d)
      (.ok { d with sourceHold := some "SOURCE_REORG_BEYOND_VERIFIED_ANCHOR" }) w fun _ =>
        .threw (.source "SOURCE_REORG_BEYOND_VERIFIED_ANCHOR") with ⟨e, h⟩ | ⟨next, hn, ⟨e, h⟩ | ⟨hc, h⟩⟩
    · rw [h]
      exact .ended fun a' h => by cases h
    · rw [h]
      cases hn
      exact .held fun a' h => by cases h
    · rw [h]
      cases hn
      dsimp only
      rw [← hc]
      exact .held fun a' h => by cases h

theorem rewindScan_effect {safeHead : ℤ} {checkpoint : SourceCheckpoint} {rest : List SourceCheckpoint}
    {b : Option RpcBlock} (hchunk : 1 ≤ env.chunk) (hr : read = .block checkpoint.height)
    (ha : answer = .block b) (hb : validBlock b (some checkpoint.height) = some checkpoint) :
    ScanEffect env d w read answer (.ancestor safeHead checkpoint rest)
      (d.rewindScan env w safeHead checkpoint).1 (d.rewindScan env w safeHead checkpoint).2 := by
  rw [StoreData.rewindScan]
  rcases saveScan_cases (d := d) (d.rewindUnsignedSource checkpoint) w fun d' =>
    d'.afterRewind env safeHead (d.affected checkpoint) with
    ⟨e, h⟩ | ⟨next, hn, ⟨e, h⟩ | ⟨hc, h⟩⟩
  · rw [h]
    exact .ended fun a' h => by cases h
  · rw [h]
    exact .rewound hr ha hb hn (.inl fun a' h => by cases h)
  · rw [h, StoreData.afterRewind]
    cases hhold : next.sourceHold with
    | some code =>
      have heff : ScanEffect env d w read answer (.ancestor safeHead checkpoint rest)
          (d.commit next w) (.threw (.source code)) :=
        .rewound hr ha hb hn (.inl fun a' h => by cases h)
      rwa [hc] at heff
    | none =>
      suffices heff : ScanEffect env d w read answer (.ancestor safeHead checkpoint rest)
          (d.commit next w) (next.nextRange env safeHead (d.affected checkpoint)) by
        rwa [hc] at heff
      refine .rewound hr ha hb hn ?_
      rw [hc]
      rcases nextRange_cases next safeHead (d.affected checkpoint) hchunk with
        ⟨s, j, r, h⟩ | ⟨range, hf, ht, h⟩
      · rw [h]
        exact .inl fun a' h => by cases h
      · rw [h]
        exact .inr ⟨rfl, hhold, range, hf, ht, rfl⟩

theorem commitScan_effect {start : SourceCheckpoint} {got : Recheck}
    {endAgain startAgain finalAgain : Option RpcBlock} {headAgain : Option ℕ}
    (hf : got.fill range start read answer =
      some ⟨some endAgain, some startAgain, some finalAgain, some headAgain⟩) :
    ScanEffect env d w read answer (.recheck range endHash logs locations start got)
      (d.commitScan env w range endHash logs locations start endAgain startAgain finalAgain headAgain).1
      (d.commitScan env w range endHash logs locations start endAgain startAgain finalAgain
        headAgain).2 := by
  unfold StoreData.commitScan
  split
  · exact .ended fun a' h => by cases h
  · next hu =>
    split
    · exact .ended fun a' h => by cases h
    · next jobs hjobs =>
      simp only [bind_ok] at hjobs
      obtain ⟨groups, hg, hj⟩ := hjobs
      rcases saveScan_cases (d := d) (d.commitSourceRange range.from_ ⟨range.to_, endHash⟩
        (jobs.map SourceJob.discovered)) w fun _ => .returned true jobs.length range.rewound with
        ⟨e, h⟩ | ⟨next, hn, ⟨e, h⟩ | ⟨hc, h⟩⟩
      · rw [h]
        exact .ended fun a' h => by cases h
      · rw [h]
        exact .committed hf (not_not.1 hu) hg hj hn fun a' h => by cases h
      · rw [h]
        have heff : ScanEffect env d w read answer (.recheck range endHash logs locations start got)
            (d.commit next w) (.returned true jobs.length range.rewound) :=
          .committed hf (not_not.1 hu) hg hj hn fun a' h => by cases h
        rwa [hc] at heff

theorem resumeScan_effect {r : StoreData × ScanStep} (hchunk : 1 ≤ env.chunk)
    (h : d.resumeScan env busy w a read answer = some r) :
    ScanEffect env d w read answer a r.1 r.2 := by
  have ended : ∀ step, (∀ a', step ≠ ScanStep.await a') →
      ScanEffect env d w read answer a d step := fun step hs => .ended hs
  unfold StoreData.resumeScan at h
  split at h
  · cases h
    exact .ended fun a' h => by cases h
  · split at h
    · cases h
      exact .moved .tip
    · cases h
      exact afterTip_effect
  · split at h
    · cases h
      exact .moved .tip
    · cases h
      exact afterTip_effect
  · -- the anchor
    next safeHead n b =>
    split at h
    · cases h
    · next hn =>
      rw [not_not] at hn
      subst hn
      split at h
      · cases h
        exact .ended fun a' h => by cases h
      · next anchor hb =>
        cases h
        rcases saveScan_cases (d := d) (d.initializeSource anchor) w fun d' =>
          d'.checkCursor safeHead with ⟨e, h⟩ | ⟨next, hi, ⟨e, h⟩ | ⟨hc, h⟩⟩
        · rw [h]
          exact .ended fun a' h => by cases h
        · rw [h]
          exact .initialized rfl rfl hb hi (.inl fun a' h => by cases h)
        · rw [h]
          suffices heff : ScanEffect env d w (.block (env.startBlock - 1)) (.block b)
              (.anchor safeHead) (d.commit next w) (next.checkCursor safeHead) by
            rwa [hc] at heff
          refine .initialized rfl rfl hb hi ?_
          rw [hc]
          rcases checkCursor_cases next safeHead with ⟨e, h⟩ | ⟨last, hlast, h⟩
          · exact .inl fun a' h' => by rw [h] at h'; cases h'
          · exact .inr ⟨rfl, last, hlast, h⟩
  · -- the block at the cursor
    next safeHead last checkpoints n b =>
    split at h
    · cases h
    · next hn =>
      rw [not_not] at hn
      subst hn
      split at h
      · cases h
        exact .ended fun a' h => by cases h
      · next current hb =>
        split at h
        · next hhash =>
          cases h
          have hcur : current = last := by
            have hheight := validBlock_height hb
            cases current
            cases last
            simp_all
          subst hcur
          rcases nextRange_cases d safeHead 0 hchunk with
            ⟨s, j, r, h⟩ | ⟨range, hf, ht, h⟩
          · rw [h]
            exact .ended fun a' h => by cases h
          · rw [h]
            exact .moved (.unforked rfl rfl hb hf ht)
        · split at h
          · cases h
            exact .ended fun a' h => by cases h
          · cases h
            exact searchAncestor_effect rfl
  · -- a checkpoint below it
    next safeHead checkpoint rest n b =>
    split at h
    · cases h
    · next hn =>
      rw [not_not] at hn
      subst hn
      split at h
      · next hb =>
        cases h
        exact rewindScan_effect hchunk rfl rfl hb.1
      · cases h
        exact searchAncestor_effect rfl
  · -- the end of the range
    next range n b =>
    split at h
    · cases h
    · next hn =>
      rw [not_not] at hn
      subst hn
      split at h
      · cases h
        exact .ended fun a' h => by cases h
      · next hb =>
        cases h
        exact .moved (.rangeEnd rfl rfl hb)
  · -- the logs
    next range endHash from_ to_ ls =>
    split at h
    · cases h
    · next hn =>
      simp only [not_or, not_not] at hn
      obtain ⟨rfl, rfl⟩ := hn
      cases h
      cases hs : d.scanLogs env range endHash ls ls [] [] with
      | await a' => exact .moved (.logs rfl rfl hs)
      | returned | threw => exact .ended fun a' h => by cases h
  · -- the block of a log
    next range endHash logs entry rest blocks locations n b =>
    split at h
    · cases h
    · split at h
      · cases h
        exact .ended fun a' h => by cases h
      · cases h
        exact .ended fun a' h => by cases h
      · next block i hb hc =>
        split at h
        · cases h
          exact .ended fun a' h => by cases h
        · next locations' hnote =>
          cases h
          cases hs : d.scanLogs env range endHash logs rest (blocks ++ [(n, block.hash)])
            locations' with
          | await a' => exact .moved (.logBlock hc hnote hs)
          | returned | threw => exact .ended fun a' h => by cases h
  · -- the reads after the logs
    split at h
    · cases h
    · next hf =>
      cases h
      exact commitScan_effect hf
    · next hf =>
      cases h
      exact .moved (.recheck hf)
  · cases h

end scan

end Proofmark
