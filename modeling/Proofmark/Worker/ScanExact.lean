/-
  The source scan loses and duplicates nothing.

  The blocks of the source chain and of its forks form a tree, in which the hash of a block
  determines the block.  While a call runs the node may answer from changing branches; no block
  that was replaced comes back before the call ends.
-/
import Mathlib.Data.List.Infix
import Proofmark.Worker.ScanSafety

namespace Proofmark

open Revert

/-- A transaction of a block, with the logs that it wrote. -/
structure BlockTx where
  hash : TxHash
  logs : List LogEntry

/-- The blocks of a source chain and of its forks. -/
structure SourceBlocks where
  tree : BlockTree BlockHash
  txs : BlockHash → List BlockTx

namespace SourceBlocks

variable (S : SourceBlocks) (env : ScanEnv)

/-- The logs of a block, as an RPC node lists them. -/
def blockLogs (b : BlockHash) : List RpcLog :=
  ((S.txs b).zipIdx.flatMap fun p => p.1.logs.map fun l => (p.1.hash, p.2, l)).zipIdx.map fun q =>
    ⟨q.1.2.2, false, S.tree.height b, b, q.1.1, some q.1.2.1, q.2⟩

/-- `eth_getLogs` on the branch of `tip`. -/
def getLogs (tip : BlockHash) (from_ to_ : ℕ) : List RpcLog :=
  (List.range' from_ (to_ + 1 - from_)).flatMap fun n =>
    match S.tree.block tip n with
    | some b => (S.blockLogs b).filter fun l => l.log.address_ = env.address
    | none => []

/-- The transactions of a block that have a watched log. -/
def watchedJobs (b : BlockHash) : List SourceJob :=
  (S.txs b).zipIdx.filterMap fun p =>
    if p.1.logs.any fun l => (env.watched l).isSome then some ⟨p.1.hash, S.tree.height b, b, p.2⟩
    else none

/-- A transaction with a watched log is on the branch of `tip`, from one height to another. -/
def Holds (tip : BlockHash) (from_ to_ : ℕ) (j : SourceJob) : Prop :=
  ∃ n b, from_ ≤ n ∧ n ≤ to_ ∧ S.tree.block tip n = some b ∧ j ∈ S.watchedJobs env b

/-- What a node answers from the branch of `tip`.  It may say anything of the head and of what is
    final, and know no block. -/
def Answers (tip : BlockHash) : SourceRead → SourceAnswer → Prop
  | .block n, .block b => ∀ c, validBlock b (some n) = some c → S.tree.block tip n = some c.hash
  | .logs from_ to_, .logs ls => ls = S.getLogs env tip from_ to_
  | _, _ => True

/-- The answers of a node on the branch of `tip`. -/
def answer (tip : BlockHash) (head finalized : ℕ) : SourceRead → SourceAnswer
  | .head => .head (some head)
  | .finalized => .block ((S.tree.block tip finalized).map fun b => ⟨some finalized, some b⟩)
  | .block n => .block ((S.tree.block tip n).map fun b => ⟨some n, some b⟩)
  | .logs from_ to_ => .logs (S.getLogs env tip from_ to_)

/-- The reads of a step are answered from its branch. -/
def Truthful : ScanAction → Prop
  | .answer branch read answer _ _ => S.Answers env branch read answer
  | _ => True

end SourceBlocks

/-- The branches that the reads of the running call were answered from. -/
def branches (acts : List ScanAction) : List BlockHash :=
  acts.foldl (fun bs a =>
    match a with
    | .scan => []
    | .answer branch _ _ _ _ => bs ++ [branch]
    | .relay _ => bs) []

/-- In no call a block that was replaced comes back. -/
def SourceBlocks.Steady (S : SourceBlocks) (acts : List ScanAction) : Prop :=
  ∀ acts₁ acts₂, acts = acts₁ ++ acts₂ → S.tree.NoReturn (branches acts₁)

section

variable {S : SourceBlocks} {env : ScanEnv}

/-! ## Logs and transactions -/

/-- The transaction of a log. -/
def RpcLog.job? (l : RpcLog) : Option SourceJob :=
  l.transactionIndex.map fun i => ⟨l.transactionHash, l.blockNumber, l.blockHash, i⟩

theorem exists_mem_zipIdx {α : Type} {l : List α} {a : α} : (∃ i, (a, i) ∈ l.zipIdx) ↔ a ∈ l := by
  constructor
  · rintro ⟨i, hi⟩
    have hmem := List.mem_map_of_mem (f := Prod.fst) hi
    rwa [List.zipIdx_map_fst] at hmem
  · intro ha
    rw [← List.zipIdx_map_fst 0 l, List.mem_map] at ha
    obtain ⟨⟨a', i⟩, hi, rfl⟩ := ha
    exact ⟨i, hi⟩

theorem mem_watchedJobs {b : BlockHash} {j : SourceJob} : j ∈ S.watchedJobs env b ↔
    ∃ l ∈ S.blockLogs b, (env.watched l.log).isSome = true ∧ l.job? = some j := by
  simp only [SourceBlocks.watchedJobs, SourceBlocks.blockLogs, List.mem_filterMap, List.mem_map]
  constructor
  · rintro ⟨⟨tx, i⟩, htx, hj⟩
    split at hj
    · next hany =>
      cases hj
      obtain ⟨l, hl, hw⟩ := List.any_eq_true.1 hany
      have hmem : (tx.hash, i, l) ∈ (S.txs b).zipIdx.flatMap fun p =>
          p.1.logs.map fun l => (p.1.hash, p.2, l) :=
        List.mem_flatMap.2 ⟨(tx, i), htx, List.mem_map.2 ⟨l, hl, rfl⟩⟩
      obtain ⟨k, hk⟩ := exists_mem_zipIdx.2 hmem
      exact ⟨_, ⟨_, hk, rfl⟩, hw, rfl⟩
    · cases hj
  · rintro ⟨_, ⟨⟨⟨h, i, l⟩, k⟩, hk, rfl⟩, hw, hj⟩
    have hmem := exists_mem_zipIdx.1 ⟨k, hk⟩
    obtain ⟨⟨tx, i'⟩, htx, hmap⟩ := List.mem_flatMap.1 hmem
    obtain ⟨l', hl', heq⟩ := List.mem_map.1 hmap
    cases heq
    refine ⟨(tx, i'), htx, ?_⟩
    rw [if_pos (List.any_eq_true.2 ⟨l, hl', hw⟩)]
    exact hj

theorem number_of_watched {b : BlockHash} {j : SourceJob} (h : j ∈ S.watchedJobs env b) :
    j.blockNumber = S.tree.height b := by
  simp only [SourceBlocks.watchedJobs, List.mem_filterMap] at h
  obtain ⟨p, -, hp⟩ := h
  split at hp
  · cases hp
    rfl
  · cases hp

theorem address_of_watched {l : LogEntry} (h : (env.watched l).isSome = true) :
    l.address_ = env.address := by
  by_contra hne
  simp [ScanEnv.watched, hne] at h

theorem getLogs_watched {tip : BlockHash} {from_ to_ : ℕ} {j : SourceJob} :
    (∃ l ∈ S.getLogs env tip from_ to_, (env.watched l.log).isSome = true ∧ l.job? = some j) ↔
      S.Holds env tip from_ to_ j := by
  simp only [SourceBlocks.getLogs, SourceBlocks.Holds, List.mem_flatMap, List.mem_range'_1]
  constructor
  · rintro ⟨l, ⟨n, hn, hl⟩, hw, hj⟩
    cases hb : S.tree.block tip n with
    | none =>
      rw [hb] at hl
      cases hl
    | some b =>
      rw [hb] at hl
      exact ⟨n, b, by omega, by omega, hb, mem_watchedJobs.2 ⟨l, List.mem_of_mem_filter hl, hw, hj⟩⟩
  · rintro ⟨n, b, hfrom, hto, hb, hj⟩
    obtain ⟨l, hl, hw, hj⟩ := mem_watchedJobs.1 hj
    refine ⟨l, ⟨n, by omega, ?_⟩, hw, hj⟩
    rw [hb]
    exact List.mem_filter.2 ⟨hl, by simp [address_of_watched hw]⟩

theorem holds_congr {tip b : BlockHash} {m from_ to_ : ℕ} {j : SourceJob}
    (h : S.tree.block tip m = some b) (hto : to_ ≤ m) :
    S.Holds env tip from_ to_ j ↔ S.Holds env b from_ to_ j := by
  have hblock : ∀ n ≤ to_, S.tree.block tip n = S.tree.block b n := fun n hn =>
    BlockTree.block_of_block h (hn.trans hto)
  constructor
  · rintro ⟨n, c, hfrom, hn, hc, hj⟩
    exact ⟨n, c, hfrom, hn, by rwa [← hblock n hn], hj⟩
  · rintro ⟨n, c, hfrom, hn, hc, hj⟩
    exact ⟨n, c, hfrom, hn, by rwa [hblock n hn], hj⟩

theorem holds_split {tip : BlockHash} {from_ to_ : ℕ} {j : SourceJob} (mid : ℕ)
    (hfrom : from_ ≤ mid + 1) (hto : mid ≤ to_) : S.Holds env tip from_ to_ j ↔
      S.Holds env tip from_ mid j ∨ S.Holds env tip (mid + 1) to_ j := by
  constructor
  · rintro ⟨n, b, h⟩
    by_cases hn : n ≤ mid
    · exact .inl ⟨n, b, h.1, hn, h.2.2⟩
    · exact .inr ⟨n, b, by omega, h.2⟩
  · rintro (⟨n, b, h1, h2, h3⟩ | ⟨n, b, h1, h2, h3⟩)
    · exact ⟨n, b, h1, by omega, h3⟩
    · exact ⟨n, b, by omega, h2, h3⟩

theorem holds_number {tip : BlockHash} {from_ to_ : ℕ} {j : SourceJob}
    (h : S.Holds env tip from_ to_ j) : from_ ≤ j.blockNumber ∧ j.blockNumber ≤ to_ := by
  obtain ⟨n, b, hfrom, hto, hb, hj⟩ := h
  rw [number_of_watched hj, BlockTree.height_of_block hb]
  exact ⟨hfrom, hto⟩

theorem holds_below {tip : BlockHash} {from_ mid to_ : ℕ} {j : SourceJob} (hto : mid ≤ to_) :
    S.Holds env tip from_ mid j ↔ S.Holds env tip from_ to_ j ∧ j.blockNumber ≤ mid := by
  constructor
  · rintro ⟨n, b, h1, h2, h3, h4⟩
    have h : S.Holds env tip from_ mid j := ⟨n, b, h1, h2, h3, h4⟩
    exact ⟨⟨n, b, h1, by omega, h3, h4⟩, (holds_number h).2⟩
  · rintro ⟨⟨n, b, h1, h2, h3, h4⟩, hle⟩
    rw [number_of_watched h4, BlockTree.height_of_block h3] at hle
    exact ⟨n, b, h1, hle, h3, h4⟩

/-- **The jobs of a range are the transactions of its logs.** -/
theorem sourceJobs_spec {range : SourceRange} {logs : List RpcLog} {locations : List TxLocation}
    {groups : List SourceGroup} {jobs : List SourceJob} {j : SourceJob}
    (hl : Located env range logs locations) (hg : env.groupSourceEvents logs = .ok groups)
    (hj : groups.mapM (sourceJobAt locations) = .ok jobs) :
    j ∈ jobs ↔ ∃ l ∈ logs, (env.watched l.log).isSome = true ∧ l.job? = some j := by
  have hall := forall₂_of_mapM_ok hj
  have hplaces := (groupSourceEvents_spec hg).2
  have hjob : ∀ l ∈ logs, ∀ g, g.place = l.place → ∀ x, sourceJobAt locations g = .ok x →
      l.job? = some x := by
    intro l hmem g hplace x hx
    obtain ⟨i, hc, hfind⟩ := hl l hmem
    obtain ⟨-, loc, hloc, rfl⟩ := sourceJobAt_ok hx
    simp only [SourceGroup.place, RpcLog.place, Prod.mk.injEq] at hplace
    rw [hplace.1, hfind] at hloc
    cases hloc
    simp only [ScanEnv.checkLog, bind_ok, revertIf_ok, orRevert_ok] at hc
    obtain ⟨-, -, hindex⟩ := hc
    rw [RpcLog.job?, hindex, hplace.1, hplace.2]
    rfl
  constructor
  · intro hmem
    obtain ⟨g, hgm, hx⟩ := forall₂_mem_right hall hmem
    obtain ⟨l, hl, hw, hplace⟩ := (hplaces g.place).1 (List.mem_map_of_mem hgm)
    exact ⟨l, hl, hw, hjob l hl g hplace j hx⟩
  · rintro ⟨l, hl, hw, hlj⟩
    obtain ⟨g, hgm, hplace⟩ := List.mem_map.1 ((hplaces l.place).2 ⟨l, hl, hw, rfl⟩)
    obtain ⟨x, hxm, hx⟩ := forall₂_mem_right hall.flip hgm
    have heq := hjob l hl g hplace x hx
    rw [hlj] at heq
    cases heq
    exact hxm

theorem answers_answer (tip : BlockHash) (head finalized : ℕ) (read : SourceRead) :
    S.Answers env tip read (S.answer env tip head finalized read) := by
  cases read with
  | head | finalized => trivial
  | logs from_ to_ => rfl
  | block n =>
    intro c hc
    cases hb : S.tree.block tip n with
    | none =>
      rw [hb] at hc
      cases hc
    | some b =>
      rw [hb] at hc
      simp only [validBlock, Option.map_some, Option.bind_eq_bind, Option.bind_some] at hc
      split at hc
      · cases hc
        rfl
      · cases hc

/-! ## What a call has read -/

/-- The reads of a call, up to the logs of its range. -/
structure Seen (S : SourceBlocks) (env : ScanEnv) (last : SourceCheckpoint) (range : SourceRange)
    (endHash : BlockHash) (logs : List RpcLog) (a b c : BlockHash) : Prop where
  start : S.tree.block a last.height = some last.hash
  range_end : S.tree.block b range.to_ = some endHash
  logs : logs = S.getLogs env c range.from_ range.to_

/-- The range of a call, after the last checkpoint. -/
def SourceRange.After (range : SourceRange) (last : SourceCheckpoint) : Prop :=
  range.from_ = last.height + 1 ∧ range.from_ ≤ range.to_

/-- What a call holds was read from the branches `bs`, in this order. -/
def ScanAwait.Saw (S : SourceBlocks) (env : ScanEnv) (last : SourceCheckpoint)
    (bs : List BlockHash) : ScanAwait → Prop
  | .current _ last' _ => last' = last
  | .rangeEnd range => range.After last ∧
      ∃ a, [a].Sublist bs ∧ S.tree.block a last.height = some last.hash
  | .logs range endHash => range.After last ∧ ∃ a b, [a, b].Sublist bs ∧
      S.tree.block a last.height = some last.hash ∧ S.tree.block b range.to_ = some endHash
  | .logBlock range endHash ls entry rest _ locations => range.After last ∧
      (∃ done, ls = done ++ entry :: rest ∧ Located env range done locations) ∧
      ∃ a b c, [a, b, c].Sublist bs ∧ Seen S env last range endHash ls a b c
  | .recheck range endHash ls locations start got => range.After last ∧ start = last ∧
      Located env range ls locations ∧
      ∃ a b c, [a, b, c].Sublist bs ∧ Seen S env last range endHash ls a b c ∧
        (∀ x ∈ got.endAgain, validBlock x (some range.to_) = some ⟨range.to_, endHash⟩ →
          ∃ v, [a, b, c, v].Sublist bs ∧ S.tree.block v range.to_ = some endHash) ∧
        ∀ x ∈ got.startAgain, validBlock x (some last.height) = some last →
          ∃ v, [a, b, c, v].Sublist bs ∧ S.tree.block v last.height = some last.hash
  | _ => True

theorem fill_cases {got got' : Recheck} {range : SourceRange} {start : SourceCheckpoint}
    {read : SourceRead} {answer : SourceAnswer} (h : got.fill range start read answer = some got') :
    (∀ b, got'.endAgain = some b →
      got.endAgain = some b ∨ read = .block range.to_ ∧ answer = .block b) ∧
    ∀ b, got'.startAgain = some b →
      got.startAgain = some b ∨ read = .block start.height ∧ answer = .block b := by
  unfold Recheck.fill at h
  split at h
  · split at h
    · next hn =>
      cases h
      refine ⟨fun b hb => .inr ?_, fun b hb => .inl hb⟩
      cases hb
      rw [hn.1]
      exact ⟨rfl, rfl⟩
    · split at h
      · next hn =>
        cases h
        refine ⟨fun b hb => .inl hb, fun b hb => .inr ?_⟩
        cases hb
        rw [hn.1]
        exact ⟨rfl, rfl⟩
      · cases h
  · split at h
    · cases h
      exact ⟨fun b hb => .inl hb, fun b hb => .inl hb⟩
    · cases h
  · split at h
    · cases h
      exact ⟨fun b hb => .inl hb, fun b hb => .inl hb⟩
    · cases h
  · cases h

/-- What was read, after one more read. -/
theorem saw_fill {last : SourceCheckpoint} {bs : List BlockHash} {branch : BlockHash}
    {range : SourceRange} {endHash : BlockHash} {logs : List RpcLog} {locations : List TxLocation}
    {start : SourceCheckpoint} {got got' : Recheck} {read : SourceRead} {answer : SourceAnswer}
    (hs : (ScanAwait.recheck range endHash logs locations start got).Saw S env last bs)
    (ht : S.Answers env branch read answer) (hf : got.fill range start read answer = some got') :
    (ScanAwait.recheck range endHash logs locations start got').Saw S env last (bs ++ [branch]) := by
  obtain ⟨hrange, rfl, hloc, a, b, c, hsub, hseen, hend, hstart⟩ := hs
  obtain ⟨hends, hstarts⟩ := fill_cases hf
  have hkeep : ∀ l : List BlockHash, l.Sublist bs → l.Sublist (bs ++ [branch]) := fun l h =>
    h.trans (List.sublist_append_left bs [branch])
  have hnew : [a, b, c, branch].Sublist (bs ++ [branch]) := hsub.append (List.Sublist.refl [branch])
  refine ⟨hrange, rfl, hloc, a, b, c, hkeep _ hsub, hseen, fun x hx hv => ?_, fun x hx hv => ?_⟩
  · rcases hends x hx with hold | ⟨rfl, rfl⟩
    · obtain ⟨v, hv, hb⟩ := hend x hold hv
      exact ⟨v, hkeep _ hv, hb⟩
    · exact ⟨branch, hnew, ht _ hv⟩
  · rcases hstarts x hx with hold | ⟨rfl, rfl⟩
    · obtain ⟨v, hv, hb⟩ := hstart x hold hv
      exact ⟨v, hkeep _ hv, hb⟩
    · exact ⟨branch, hnew, ht _ hv⟩

/-- **A range that passed its rechecks is on one branch with the last checkpoint.** -/
theorem range_of_unchanged {last : SourceCheckpoint} {bs : List BlockHash} {range : SourceRange}
    {endHash : BlockHash} {logs : List RpcLog} {locations : List TxLocation}
    {start : SourceCheckpoint} {endAgain startAgain finalAgain : Option RpcBlock}
    {headAgain : Option ℕ}
    (hs : (ScanAwait.recheck range endHash logs locations start
      ⟨some endAgain, some startAgain, some finalAgain, some headAgain⟩).Saw S env last bs)
    (hn : S.tree.NoReturn bs)
    (hu : env.unchanged range endHash start endAgain startAgain finalAgain headAgain) :
    S.tree.block endHash last.height = some last.hash ∧
      ∀ j, (∃ l ∈ logs, (env.watched l.log).isSome = true ∧ l.job? = some j) ↔
        S.Holds env endHash range.from_ range.to_ j := by
  obtain ⟨hrange, rfl, -, a, b, c, hsub, hseen, hend, hstart⟩ := hs
  obtain ⟨v, hv, hvend⟩ := hend _ rfl hu.1
  obtain ⟨v', hv', hvstart⟩ := hstart _ rfl hu.2.1
  have hb : S.tree.block b start.height = some start.hash := by
    refine hn a b v' (List.Sublist.trans ?_ hv') _ _ hseen.start hvstart
    exact .cons_cons a (.cons_cons b (.cons c (.refl _)))
  have hc : S.tree.block c range.to_ = some endHash := by
    refine hn b c v (List.Sublist.trans ?_ hv) _ _ hseen.range_end hvend
    exact .cons a (.refl _)
  have hle : start.height ≤ range.to_ := by
    have := hrange.1
    have := hrange.2
    omega
  refine ⟨?_, fun j => ?_⟩
  · rw [← BlockTree.block_of_block hseen.range_end hle]
    exact hb
  · rw [hseen.logs, getLogs_watched, holds_congr hc le_rfl]

/-! ## The invariant -/

/-- The store of a worker is that of the branch of its last checkpoint. -/
structure Exact (S : SourceBlocks) (env : ScanEnv) (d : StoreData) : Prop where
  chain : ∀ last, d.sourceCheckpoints.getLast? = some last → ∀ c ∈ d.sourceCheckpoints,
    S.tree.block last.hash c.height = some c.hash
  jobs : ∀ last, d.sourceCheckpoints.getLast? = some last → ∀ j,
    j ∈ d.jobs.map Job.source ↔ S.Holds env last.hash env.startBlock last.height j

theorem Exact.congr {d d' : StoreData} (h : Exact S env d)
    (hj : d'.jobs.map Job.source = d.jobs.map Job.source)
    (hc : d'.sourceCheckpoints = d.sourceCheckpoints) : Exact S env d' := by
  refine ⟨?_, ?_⟩
  · rw [hc]
    exact h.chain
  · rw [hc, hj]
    exact h.jobs

theorem Exact.commit {d next : StoreData} (hi : Exact S env d) (h : Exact S env next)
    (w : CommitEnd) : Exact S env (d.commit next w) := by
  cases w with
  | beforeRename => exact hi
  | committed | afterRename => exact h

theorem Exact.initialized {d next : StoreData} {anchor : SourceCheckpoint} {tip : BlockHash}
    (hi : Exact S env d) (hsource : ScannedInv env d) (hready : env.Ready)
    (ha : anchor.height = env.startBlock - 1) (ht : S.tree.block tip anchor.height = some anchor.hash)
    (h : d.initializeSource anchor = .ok next) : Exact S env next := by
  obtain ⟨-, -, rfl | ⟨-, hjobs, hc, -⟩⟩ := hsource.initialized ha h
  · exact hi
  · refine ⟨fun last hlast c hmem => ?_, fun last hlast j => ?_⟩
    · rw [hc] at hlast hmem
      rw [List.getLast?_singleton, Option.some.injEq] at hlast
      subst hlast
      rw [List.mem_singleton.1 hmem, ← BlockTree.height_of_block ht]
      exact BlockTree.block_self
    · rw [hc, List.getLast?_singleton, Option.some.injEq] at hlast
      subst hlast
      rw [hjobs, List.map_nil]
      refine ⟨fun h => (by cases h), fun h => ?_⟩
      have hnum := holds_number h
      have := hready.1
      omega

theorem Exact.rewound {d next : StoreData} {ancestor : SourceCheckpoint} (hi : Exact S env d)
    (hsource : ScannedInv env d) (h : d.rewindUnsignedSource ancestor = .ok next) :
    Exact S env next ∧ (next.sourceHold = none → next.sourceCheckpoints.getLast? = some ancestor ∧
      next.cursor = ancestor.height) := by
  obtain ⟨hmem, ⟨code, rfl⟩ | ⟨-, rewinds, rfl⟩⟩ := rewind_cases h
  · exact ⟨hi.congr rfl rfl, fun h => by cases h⟩
  · obtain ⟨cs₁, cs₂, hcs, hfilter⟩ := checkpoints_upto hmem hsource.sorted
    have hlast' : (d.sourceCheckpoints.filter fun c => c.height ≤ ancestor.height).getLast? =
        some ancestor := by
      rw [hfilter, List.getLast?_append, List.getLast?_singleton, Option.some_or]
    have hne := List.ne_nil_of_mem hmem
    have hlast := List.getLast?_eq_some_getLast hne
    have hanc := hi.chain _ hlast ancestor hmem
    have hle := (BlockTree.block_eq_some.1 hanc).1
    rw [BlockTree.height_of_block (hi.chain _ hlast _ (List.getLast_mem hne))] at hle
    refine ⟨⟨fun last hl c hc => ?_, fun last hl j => ?_⟩, fun _ => ⟨hlast', rfl⟩⟩
    · rw [hlast'] at hl
      cases hl
      obtain ⟨hc, hch⟩ := List.mem_filter.1 hc
      rw [← BlockTree.block_of_block hanc (by simpa using hch)]
      exact hi.chain _ hlast c hc
    · rw [hlast'] at hl
      cases hl
      have hjobs := hi.jobs _ hlast j
      rw [← holds_congr hanc le_rfl, holds_below hle, ← hjobs]
      simp only [List.mem_map, List.mem_filter, decide_eq_true_eq]
      constructor
      · rintro ⟨x, ⟨hx, hn⟩, rfl⟩
        exact ⟨⟨x, hx, rfl⟩, hn⟩
      · rintro ⟨⟨x, hx, rfl⟩, hn⟩
        exact ⟨x, ⟨hx, hn⟩, rfl⟩

theorem Exact.committed {d next : StoreData} {last : SourceCheckpoint} {range : SourceRange}
    {endHash : BlockHash} {jobs : List SourceJob} (hi : Exact S env d) (hsource : ScannedInv env d)
    (hlast : d.sourceCheckpoints.getLast? = some last) (hrange : range.After last)
    (hn : (jobs.map SourceJob.txHash).Nodup)
    (hend : S.tree.block endHash range.to_ = some endHash)
    (hchain : S.tree.block endHash last.height = some last.hash)
    (hjobs : ∀ j, j ∈ jobs ↔ S.Holds env endHash range.from_ range.to_ j)
    (h : d.commitSourceRange range.from_ ⟨range.to_, endHash⟩ (jobs.map SourceJob.discovered) = .ok next) :
    Exact S env next := by
  have hn' : ((jobs.map SourceJob.discovered).map Job.txHash).Nodup := by
    rw [List.map_map]
    exact hn
  obtain ⟨-, -, -, rfl⟩ := commitSourceRange_spec hsource hn' h
  obtain ⟨cs, hcs, hsub, -, -⟩ := compact_concat d.sourceCheckpoints ⟨range.to_, endHash⟩
  have hne : d.sourceCheckpoints ≠ [] := fun hnil => by rw [hnil] at hlast; cases hlast
  have hstart := hsource.start_le hne
  rw [← hsource.last last hlast] at hstart
  obtain ⟨hfrom, hto⟩ := hrange
  refine ⟨fun last' hl c hc => ?_, fun last' hl j => ?_⟩
  · rw [hcs, List.getLast?_append, List.getLast?_singleton, Option.some_or, Option.some.injEq] at hl
    subst hl
    rw [hcs] at hc
    rcases List.mem_append.1 hc with hc | hc
    · have hblock := hi.chain last hlast c (hsub.mem hc)
      exact BlockTree.block_trans hchain hblock
    · rw [List.mem_singleton.1 hc]
      exact hend
  · rw [hcs, List.getLast?_append, List.getLast?_singleton, Option.some_or, Option.some.injEq] at hl
    subst hl
    rw [holds_split last.height hstart (by dsimp only; omega), holds_congr hchain le_rfl,
      ← hi.jobs last hlast j, List.map_append, List.mem_append, ← hfrom, ← hjobs j, List.map_map]
    have hid : Job.source ∘ SourceJob.discovered = id := rfl
    rw [hid, List.map_id]

/-- What a scanning worker and its running call hold, after the actions `acts`. -/
structure ExactInv (S : SourceBlocks) (env : ScanEnv) (acts : List ScanAction) (h : ScanHost) : Prop where
  exact : Exact S env h.relay.data
  saw : ∀ a, h.scan = some a → ∀ last, h.relay.data.sourceCheckpoints.getLast? = some last →
    a.Saw S env last (branches acts)

theorem branches_concat {acts : List ScanAction} {a : ScanAction} :
    branches (acts ++ [a]) =
      match a with
      | .scan => []
      | .answer branch _ _ _ _ => branches acts ++ [branch]
      | .relay _ => branches acts := by
  simp only [branches, List.foldl_append, List.foldl_cons, List.foldl_nil]

/-- What the next await holds, when nothing was written. -/
theorem saw_move {d : StoreData} {last : SourceCheckpoint} {bs : List BlockHash} {branch : BlockHash}
    {read : SourceRead} {answer : SourceAnswer} {a a' : ScanAwait}
    (hm : ScanMove env d read answer a a') (hsource : ScannedInv env d)
    (hlast : d.sourceCheckpoints.getLast? = some last) (hs : a.Saw S env last bs)
    (ht : S.Answers env branch read answer) : a'.Saw S env last (bs ++ [branch]) := by
  have located : ∀ (done : List RpcLog) {range endHash logs rest blocks locations a'},
      (range : SourceRange).After last → logs = done ++ rest →
      Located env range done locations →
      d.scanLogs env range endHash logs rest blocks locations = .await a' →
      (∃ a b c, [a, b, c].Sublist (bs ++ [branch]) ∧ Seen S env last range endHash logs a b c) →
      a'.Saw S env last (bs ++ [branch]) := by
    intro done range endHash logs rest blocks locations a' hrange hlogs hloc hscan hseen
    rcases scanLogs_await hlogs hloc hscan with ⟨done, entry, rest, blocks, locations, rfl, h⟩ |
      ⟨locations, start, rfl, hstart, hloc⟩
    · exact ⟨hrange, ⟨done, h⟩, hseen⟩
    · rw [hlast] at hstart
      cases hstart
      obtain ⟨a, b, c, hsub, hseen⟩ := hseen
      exact ⟨hrange, rfl, hloc, a, b, c, hsub, hseen,
        fun x hx => (by cases hx), fun x hx => (by cases hx)⟩
  cases hm with
  | tip | anchor | ancestor => trivial
  | current hlast' =>
    rw [hlast] at hlast'
    exact (Option.some.inj hlast').symm
  | @unforked _ last' _ b range hr ha hb hf hto =>
    subst hr ha
    have heq : last' = last := hs
    subst heq
    refine ⟨⟨by rw [hf, hsource.last _ hlast], hto⟩, branch, ?_, ht _ hb⟩
    exact List.sublist_append_right bs [branch]
  | @rangeEnd range b end_ hr ha hb =>
    subst hr ha
    obtain ⟨hrange, a, hsub, hstart⟩ := hs
    exact ⟨hrange, a, branch, hsub.append (.refl [branch]), hstart, ht _ hb⟩
  | @logs range endHash ls _ hr ha hscan =>
    subst hr ha
    obtain ⟨hrange, a, b, hsub, hstart, hend⟩ := hs
    refine located [] hrange rfl (fun l hl => by cases hl) hscan
      ⟨a, b, branch, hsub.append (.refl [branch]), hstart, hend, ht⟩
  | @logBlock range endHash logs rest entry _ _ _ _ _ _ _ hc hn hscan =>
    obtain ⟨hrange, ⟨done, hlogs, hloc⟩, a, b, c, hsub, hseen⟩ := hs
    refine located (done ++ [entry]) hrange (by rw [hlogs]; simp) (hloc.note hc hn) hscan
      ⟨a, b, c, hsub.trans (List.sublist_append_left bs [branch]), hseen⟩
  | recheck hf => exact saw_fill hs ht hf

theorem ExactInv.step {relayEnv : RelayEnv} {acts : List ScanAction} {e : ScanEntry}
    (hi : ExactInv S env acts e.pre) (hscan : ScanInv env e.pre)
    (hr : ∃ es', (RelayHost.machine relayEnv).Run .initial es' e.pre.relay)
    (hs : (ScanHost.machine relayEnv env).IsStep e) (ht : S.Truthful env e.act)
    (hsteady : S.tree.NoReturn (branches (acts ++ [e.act]))) :
    ExactInv S env (acts ++ [e.act]) e.post := by
  rw [branches_concat] at hsteady
  cases hostEffect_of_step hs with
  | relay e' hs' hop hpre hpost hsc hact =>
    obtain ⟨es', hr⟩ := hr
    rw [hpre] at hr
    have hk := relay_places (relayInv_run hr) hs' hop
    rw [← hpre, ← hpost] at hk
    refine ⟨hi.exact.congr hk.map_source hk.checkpoints, fun a ha last hlast => ?_⟩
    obtain ⟨act, hact⟩ := hact
    rw [branches_concat, hact]
    rw [hk.checkpoints] at hlast
    rcases hsc with hsc | hsc
    · exact hi.saw a (hsc ▸ ha) last hlast
    · rw [hsc] at ha
      cases ha
  | scan hact hrelay hsc _ =>
    refine ⟨by rw [hrelay]; exact hi.exact, fun a ha last _ => ?_⟩
    rw [hsc] at ha
    cases ha
    trivial
  | @answer branch read answer busy w a step hact hsc heff hpost _ =>
    have hready := hscan.ready (by rw [hsc]; rfl)
    have hd := heff hready
    have hsource := hscan.source
    have hsource' := (hscan.step hr hs).1.source
    have hsaw := hi.saw a hsc
    have hexact := hi.exact
    rw [hact] at ht hsteady
    replace ht : S.Answers env branch read answer := ht
    have finish : Exact S env e.post.relay.data →
        (∀ a', step = .await a' → ∀ last, e.post.relay.data.sourceCheckpoints.getLast? = some last →
          a'.Saw S env last (branches acts ++ [branch])) → ExactInv S env (acts ++ [e.act]) e.post := by
      intro hex hs'
      refine ⟨hex, fun a' ha' last hlast => ?_⟩
      rw [branches_concat, hact]
      rw [hpost] at ha'
      cases step with
      | await a'' =>
        cases ha'
        exact hs' _ rfl last hlast
      | returned | threw => cases ha'
    have hanchored := hscan.anchored a hsc
    generalize e.pre.relay.data = d at hd hsource hsaw hexact hanchored
    generalize e.post.relay.data = d' at hd finish hsource'
    cases hd with
    | moved hm =>
      refine finish hexact fun a' ha' last hlast => ?_
      cases ha'
      exact saw_move hm hsource hlast (hsaw last hlast) ht
    | ended hend => exact finish hexact fun a' ha' => absurd ha' (hend a')
    | @held _ reason _ hend =>
      have hnext : Exact S env { d with sourceHold := some reason } := hexact.congr rfl rfl
      exact finish (hexact.commit hnext w) fun a' ha' => absurd ha' (hend a')
    | @initialized safeHead anchor b next _ hread ha hb hn hstep =>
      subst hread ha
      have hheight := validBlock_height hb
      have htip := ht _ hb
      rw [← hheight] at htip
      have hnext := hexact.initialized hsource hready hheight htip hn
      refine finish (hexact.commit hnext w) fun a' ha' last hlast => ?_
      rcases hstep with hstep | ⟨hcommit, last', hlast', rfl⟩
      · exact absurd ha' (hstep a')
      · cases ha'
        rw [hcommit, hlast'] at hlast
        exact Option.some.inj hlast
    | @rewound safeHead checkpoint rest b next _ hread ha hb hn hstep =>
      subst hread ha
      obtain ⟨hnext, hlast'⟩ := hexact.rewound hsource hn
      refine finish (hexact.commit hnext w) fun a' ha' last hlast => ?_
      rcases hstep with hstep | ⟨hcommit, hhold, range, hf, hto, rfl⟩
      · exact absurd ha' (hstep a')
      · cases ha'
        obtain ⟨hl, hcur⟩ := hlast' hhold
        rw [hcommit, hl] at hlast
        cases hlast
        exact ⟨⟨by rw [hf, hcur], hto⟩, branch, List.sublist_append_right _ _, ht _ hb⟩
    | @committed range endHash logs locations start got endAgain startAgain finalAgain headAgain
        groups jobs next _ hf hu hg hj hn hend =>
      obtain ⟨last, hlast⟩ : ∃ last, d.sourceCheckpoints.getLast? = some last :=
        ⟨_, List.getLast?_eq_some_getLast (hanchored rfl)⟩
      have hfull := saw_fill (hsaw last hlast) ht hf
      obtain ⟨hchain, hjobs⟩ := range_of_unchanged hfull hsteady hu
      obtain ⟨hrange, -, hloc, a, b, c, -, hseen, -⟩ := hfull
      have hself : S.tree.block endHash range.to_ = some endHash := by
        rw [← BlockTree.height_of_block hseen.range_end]
        exact BlockTree.block_self
      have hnext := hexact.committed hsource hlast hrange (sourceJobs_nodup hg hj) hself hchain
        (fun j => (sourceJobs_spec hloc hg hj).trans (hjobs j)) hn
      exact finish (hexact.commit hnext w) fun a' ha' => absurd ha' (hend a')

theorem exactInv_run {relayEnv : RelayEnv} {es : List ScanEntry} {h : ScanHost}
    (hrun : (ScanHost.machine relayEnv env).Run .initial es h)
    (ht : ∀ e ∈ es, S.Truthful env e.act) (hs : S.Steady (es.map Machine.Entry.act)) :
    ExactInv S env (es.map Machine.Entry.act) h := by
  induction hrun with
  | nil =>
    exact ⟨⟨fun last h => (by cases h), fun last h => (by cases h)⟩, fun a h => by cases h⟩
  | @snoc es s act s' w hrun hstep ih =>
    have hi := ih (fun e he => ht e (by simp [he])) fun a b hab => hs a (b ++ [act]) (by simp [hab])
    rw [List.map_append, List.map_singleton]
    exact hi.step (scanInv_run hrun) (scan_relay_run hrun).2 (e := ⟨s, act, w, s'⟩) hstep
      (ht ⟨s, act, w, s'⟩ (by simp)) (hs _ [] (by simp))

end

/-! ## The theorems -/

/-- What no RPC can break. -/
structure ScanSound (env : ScanEnv) (h : ScanHost) : Prop where
  cursor : ∀ c, h.relay.data.sourceCheckpoints.getLast? = some c → c.height = h.relay.data.cursor
  ascending : h.relay.data.sourceCheckpoints.Pairwise fun a b => a.height < b.height
  bounded : h.relay.data.sourceCheckpoints.length ≤ 129
  anchor : ∀ c, h.relay.data.sourceCheckpoints.head? = some c → c.height = env.startBlock - 1
  scanned : ∀ j ∈ h.relay.data.jobs, env.startBlock ≤ j.blockNumber ∧ j.blockNumber ≤ h.relay.data.cursor
  once : (h.relay.data.jobs.map Job.txHash).Nodup

/-- **The source scan is sound for any RPC**: whatever it answers, and however the scan, the sender,
    failed saves and crashes interleave, the stored range stays consistent, and a job that was
    signed for, relayed or skipped is never dropped or moved. -/
theorem source_scan_sound {relayEnv : RelayEnv} {env : ScanEnv} {es es' : List ScanEntry}
    {h h' : ScanHost} (hrun : (ScanHost.machine relayEnv env).Run .initial es h)
    (hrun' : (ScanHost.machine relayEnv env).Run h es' h') : ScanSound env h' ∧
      ∀ j ∈ h.relay.data.jobs, j.relayed = true →
        ∃ j' ∈ h'.relay.data.jobs, j'.source = j.source ∧ j'.relayed = true := by
  have hi := (scanInv_run (hrun.append hrun')).source
  refine ⟨⟨hi.last, hi.sorted, hi.bounded, hi.anchor, hi.range, hi.keys⟩, fun j hj hrel => ?_⟩
  have hnamed := (scanInv_run hrun).source.named j hj hrel
  obtain ⟨j', hj', hsource, hq⟩ := keepsNamed_run hrun hrun' j hj hnamed
  exact ⟨j', hj', hsource, Job.relayed_of_named hq⟩

/-- **The source scan loses and duplicates nothing**: when the last checkpoint is on the branch of
    `tip`, the jobs are exactly the transactions of that branch, from the start block to the
    cursor, that have a watched log. -/
theorem source_scan_exact {S : SourceBlocks} {relayEnv : RelayEnv} {env : ScanEnv}
    {es : List ScanEntry} {h : ScanHost} (hrun : (ScanHost.machine relayEnv env).Run .initial es h)
    (ht : ∀ e ∈ es, S.Truthful env e.act) (hs : S.Steady (es.map Machine.Entry.act))
    {last : SourceCheckpoint} (hlast : h.relay.data.sourceCheckpoints.getLast? = some last)
    {tip : BlockHash} (htip : S.tree.block tip h.relay.data.cursor = some last.hash) :
    (h.relay.data.jobs.map Job.txHash).Nodup ∧ ∀ j, j ∈ h.relay.data.jobs.map Job.source ↔
      S.Holds env tip env.startBlock h.relay.data.cursor j := by
  have hi := (scanInv_run hrun).source
  have hcur := hi.last last hlast
  refine ⟨hi.keys, fun j => ?_⟩
  rw [(exactInv_run hrun ht hs).exact.jobs last hlast j, hcur, ← holds_congr htip le_rfl]

/-! A reorganisation that moves a transaction. -/

def forkTree : BlockTree BlockHash where
  parent b := if b = 103 then 2 else if b = 0 ∨ b = 100 then 0 else b - 1
  height b := if b.toNat < 100 then b.toNat else b.toNat - 100
  height_parent b := by
    by_cases h3 : b = 103
    · subst h3
      rfl
    by_cases h0 : b = 0 ∨ b = 100
    · rcases h0 with rfl | rfl <;> rfl
    · have hpos : 1 ≤ b.toNat := by
        by_contra hlt
        exact h0 (.inl (BitVec.eq_of_toNat_eq (by simp; omega)))
      have hne : b.toNat ≠ 100 := fun h => h0 (.inr (BitVec.eq_of_toNat_eq (by simpa using h)))
      rw [if_neg h3, if_neg h0, BitVec.toNat_sub_of_le (by rw [BitVec.le_def]; simpa using hpos)]
      have hone : (1 : BlockHash).toNat = 1 := rfl
      split <;> split <;> omega

def forkLog : LogEntry := ⟨7, [1], []⟩

/-- The transaction 0x22 is in block 3 of one branch, and second in block 103 of the other. -/
def forkBlocks : SourceBlocks where
  tree := forkTree
  txs b :=
    if b = 2 then [⟨0x11, [forkLog]⟩]
    else if b = 3 then [⟨0x22, [forkLog, forkLog]⟩]
    else if b = 103 then [⟨0x33, []⟩, ⟨0x22, [forkLog, forkLog]⟩]
    else []

def forkEnv : ScanEnv where
  parseLog l := if l.topics = [1] then some "MarkRevoked" else none
  address := 7
  startBlock := 1
  confirmations := 1
  chunk := 10

def forkRelay : RelayEnv := ⟨fun _ => none, 8, 9, 3⟩

def forkRead (tip : BlockHash) (finalized : ℕ) (read : SourceRead) : ScanAction :=
  .answer tip read (forkBlocks.answer forkEnv tip (finalized + 1) finalized read) false .committed

/-- A call on each branch. -/
def forkScans : List ScanAction :=
  .scan :: ([.head, .finalized, .block 0, .block 0, .block 3, .logs 1 3, .block 2, .block 3, .block 3,
    .block 0, .finalized, .head].map (forkRead 3 3)) ++
  .scan :: ([.finalized, .head, .block 3, .block 3, .block 0, .block 4, .logs 1 4, .block 2, .block 3,
    .head, .finalized, .block 0, .block 4].map (forkRead 104 4))

/-- After the first call, the job of block 2 is skipped: the hub has its query already. -/
def skipActions : List ScanAction :=
  forkScans.take 13 ++ .relay (.store (.initializeHubSigner 0) .committed) ::
    .relay (.step 0x11 (some ⟨5, [], 0⟩)) ::
    ([.ready, .observed ⟨.confirmed, 50, 60, 12, 0⟩, .ready, .observed ⟨.confirmed, 50, 60, 12, 0⟩].map
      fun r => .relay (.settle r .committed))

theorem source_scan_sound_skipped : ∃ es es' h h',
    (ScanHost.machine forkRelay forkEnv).Run .initial es h ∧
    (ScanHost.machine forkRelay forkEnv).Run h es' h' ∧
    h'.relay.data.sourceHold = some "SOURCE_REORG_TOUCHES_RELAYED_JOB" ∧ ScanSound forkEnv h' ∧
    ∃ j ∈ h'.relay.data.jobs, j.source = ⟨0x11, 2, 2, 0⟩ ∧ j.relayed = true := by
  let M := ScanHost.machine forkRelay forkEnv
  let h := M.final .initial skipActions
  let h' := M.final h (forkScans.drop 13)
  have hfacts : (∃ j ∈ h.relay.data.jobs, j.source = ⟨0x11, 2, 2, 0⟩ ∧ j.relayed = true) ∧
      h'.relay.data.sourceHold = some "SOURCE_REORG_TOUCHES_RELAYED_JOB" := by
    decide +kernel
  obtain ⟨⟨j, hj, hsource, hrel⟩, hheld⟩ := hfacts
  have hrun := M.run_trace .initial skipActions
  have hrun' := M.run_trace h (forkScans.drop 13)
  obtain ⟨hsound, hkept⟩ := source_scan_sound hrun hrun'
  obtain ⟨j', hj', hsource', hrel'⟩ := hkept j hj hrel
  exact ⟨_, _, h, h', hrun, hrun', hheld, hsound, j', hj', hsource'.trans hsource, hrel'⟩

/-- After the reorganisation. -/
def forkHost : ScanHost := (ScanHost.machine forkRelay forkEnv).final .initial forkScans

theorem source_scan_exact_fork : ∃ h, (ScanHost.machine forkRelay forkEnv).Reachable .initial h ∧
    h.relay.data.jobs.map Job.source = [⟨0x11, 2, 2, 0⟩, ⟨0x22, 3, 103, 1⟩] ∧
    ∀ j, j ∈ h.relay.data.jobs.map Job.source ↔ forkBlocks.Holds forkEnv 104 1 4 j := by
  have hall : ((ScanHost.machine forkRelay forkEnv).trace .initial forkScans).length =
        forkScans.length ∧
      forkHost.relay.data.sourceCheckpoints.getLast? = some ⟨4, 104⟩ ∧ forkHost.relay.data.cursor = 4 ∧
      forkHost.relay.data.jobs.map Job.source = [⟨0x11, 2, 2, 0⟩, ⟨0x22, 3, 103, 1⟩] := by
    decide +kernel
  obtain ⟨hlen, hlast, hcursor, hjobs⟩ := hall
  have hrun := (ScanHost.machine forkRelay forkEnv).run_trace .initial forkScans
  have hacts := Machine.map_act_trace hlen
  have htip : forkBlocks.tree.block 104 forkHost.relay.data.cursor = some 104 := by
    rw [hcursor]
    decide
  have hexact := (source_scan_exact (S := forkBlocks) hrun ?_ ?_ hlast htip).2
  · refine ⟨forkHost, ⟨_, hrun⟩, hjobs, fun j => ?_⟩
    rw [← hcursor]
    exact hexact j
  · intro e he
    have hmem := Machine.act_mem_of_trace he
    simp only [forkScans, List.mem_cons, List.mem_append, List.mem_map] at hmem
    rcases hmem with (h | ⟨read, -, h⟩) | h | ⟨read, -, h⟩
    · rw [h]
      trivial
    · rw [← h]
      exact answers_answer _ _ _ _
    · rw [h]
      trivial
    · rw [← h]
      exact answers_answer _ _ _ _
  · rw [hacts]
    have hone : (forkScans.inits.all fun acts =>
        (branches acts).all fun b => b == (branches acts).headD 0) = true := by
      decide +kernel
    rintro acts₁ acts₂ hsplit
    have hmem : acts₁ ∈ forkScans.inits := (List.mem_inits _ _).2 ⟨acts₂, hsplit.symm⟩
    have hall := List.all_eq_true.1 hone acts₁ hmem
    exact BlockTree.noReturn_of_all fun b hb => by simpa using List.all_eq_true.1 hall b hb

end Proofmark
