/-
  The replayed roster lists the active subjects of the hub.

  The replay goes through the events of the source in source order; the hub takes the same
  events in any order, with cursors.

  `roster_lists_active`: a roster has exactly the entries that the hub shows once it has
  accepted the receipts up to the cutoff.
-/
import Proofmark.Hub.Convergence
import Proofmark.Pipeline.AttrsAgree
import Proofmark.Roster.Inclusion
import Proofmark.Roster.LifecycleReplay

namespace Proofmark

open Latest Words Revert

/-- The hub shows the entry, and its attributes are valid at the time. -/
structure Shown (asc : ProofmarkASC) (now : ℕ) (e : RosterEntry) : Prop where
  tombstone : (asc.subjects e.subject).tombstone = false
  mark : (asc.subjects e.subject).mark = Mark.direct e.attrs e.issuer e.claimsRoot e.evidenceHash
  usable : asc.isMarkIssuerUsable e.subject = true
  valid : validCredentialAttrs e.attrs (some now) = true

/-- What a record tracks does not depend on the order of the events. -/
theorem Tracks.perm {l l' : List Event} {st : SubjectState} (h : Tracks l st) (hp : l.Perm l')
    (hk : (l.map Prod.fst).Nodup) : Tracks l' st := by
  have hkd : ((decisions l).map Prod.fst).Nodup := hk.sublist (List.filter_sublist.map _)
  have hpd : (decisions l).Perm (decisions l') := hp.filter _
  have hlat := latest_perm hk hp
  have hforce : denialInForce l = denialInForce l' := by
    rw [denialInForce, latest_perm hkd hpd, denialInForce]
  refine ⟨?_, ?_, ?_, ?_, ?_, ?_, ?_, ?_⟩
  · rw [h.lastApplied, position_perm hk hp]
  · rw [h.lastDenialDecision, position_perm hkd hpd]
  · rw [h.permanentDenial, hforce]
  · rintro rfl
    exact h.untouched hp.eq_nil
  · rw [← hlat, ← hforce]
    exact h.status
  · rw [← hlat]
    exact h.tombstone
  · rw [← hlat]
    exact h.ordinary
  · rw [← hlat]
    exact h.stored

namespace RosterSource

/-! ## The entries -/

section
variable {view : View} {m : Lifecycle} {now : ℕ} {e : RosterEntry}

theorem exclusion_none_iff {cutoffs : List ((Address × ℕ) × ℕ)} {s : LifecycleState} :
    exclusion cutoffs now s = none ∧ s.entry = some e ↔
      s.denied = false ∧ s.revoked = false ∧ s.entry = some e ∧
        validCredentialAttrs e.attrs (some now) = true ∧
        ∀ n b, s.issuerKeyEpoch = some n → n ≠ 0 → s.issueBlock = some b →
          (InsertionMap.get (e.issuer, n) cutoffs).any (fun c => decide (c < b)) = false := by
  obtain ⟨denied, revoked, entry, issuerKeyEpoch, issueBlock⟩ := s
  cases denied
  case true => simp [exclusion]
  cases revoked
  case true => simp [exclusion]
  cases entry with
  | none => simp
  | some e' =>
    simp only [exclusion, Option.bind_some, Bool.false_eq_true, if_false]
    constructor
    · rintro ⟨hx, he⟩
      cases he
      split_ifs at hx with hcut hv
      refine ⟨trivial, trivial, rfl, by simpa using hv, ?_⟩
      rintro n b hn h0 hb
      simpa [hn, hb, h0] using hcut
    · rintro ⟨-, -, he, hv, hcut⟩
      cases he
      refine ⟨?_, rfl⟩
      rw [if_neg, if_neg (by simp [hv])]
      cases issuerKeyEpoch with
      | none => simp
      | some n =>
        cases issueBlock with
        | none => simp
        | some b =>
          by_cases h0 : n = 0
          · simp [h0]
          · simpa [h0] using hcut n b rfl h0 rfl

/-- The entries of the roster are those of the states that nothing excludes. -/
theorem mem_entries_iff {hash : Json → Bytes32} {keccak256 : Bytes → Bytes32} {ns : Bytes} {c : ℕ}
    {s : Replay} {S : Snapshot} (hc : s.lifecycle.Checked view)
    (h : finish keccak256 hash ns view c s = .ok S) :
    e ∈ S.tree.entries ↔
      exclusion s.lifecycle.cutoffs (view.block c).timestamp (s.lifecycle.stateOf e.subject) = none ∧
        (s.lifecycle.stateOf e.subject).entry = some e := by
  simp only [finish, bind_ok, mapError_ok, pure_ok] at h
  obtain ⟨tree, htree, rfl⟩ := h
  rw [(Roster.built_of_buildRoster htree).2.mem_iff, entriesOf, List.mem_filterMap]
  have hperm : (InsertionMap.sorted addressLE s.lifecycle.states).Perm s.lifecycle.states :=
    List.perm_insertionSort _ _
  constructor
  · rintro ⟨⟨subject, st⟩, hp, he⟩
    replace hp := hperm.mem_iff.1 hp
    split_ifs at he with hx
    have hsubject : e.subject = subject := by
      have hok := hc.okStates _ hp
      simp only [stateOk, Bool.and_eq_true] at hok
      have hentry := hok.1.1
      rw [he, Option.all_some] at hentry
      exact beq_iff_eq.1 hentry
    rw [hsubject, Lifecycle.stateOf, (InsertionMap.get_eq_some hc.states).2 hp, Option.getD_some]
    exact ⟨by simpa using hx, he⟩
  · rintro ⟨hx, he⟩
    rw [Lifecycle.stateOf] at hx he
    cases hget : InsertionMap.get e.subject s.lifecycle.states with
    | none =>
      rw [hget] at he
      cases he
    | some st =>
      rw [hget, Option.getD_some] at hx he
      refine ⟨(e.subject, st), hperm.mem_iff.2 ((InsertionMap.get_eq_some hc.states).1 hget), ?_⟩
      rw [hx]
      exact he

end

/-! ## Agreement -/

section
variable {source : Address}

theorem finish_of_cold {keccak256 : Bytes → Bytes32} {hash : Json → Bytes32} {ns : Bytes}
    {view : View} {c : ℕ} {S : Snapshot}
    (h : buildSourceRoster keccak256 hash ns view none c = .ok S) :
    ∃ s, Reached hash view c s ∧ finish keccak256 hash ns view c s = .ok S := by
  simp only [buildSourceRoster, bind_ok, revertIf_ok, not_or, Nat.not_lt, Bool.not_eq_false] at h
  obtain ⟨_, ⟨-, hsafe, -⟩, _, hdep, _, hcut, _, -, _, hanchor, _, -, s, hscan, hfin⟩ := h
  exact ⟨s, ⟨hsafe, hdep, hcut, hanchor, hscan⟩, hfin⟩

/-- Receipts that carry nothing declare no cutoff. -/
theorem mem_cutoffs_filter (rs : List Receipt) {key : Address × U64} {b : U64} :
    b ∈ cutoffs source key ((rs.filter (Receipt.carries source)).flatMap Receipt.applied) ↔
      b ∈ cutoffs source key (rs.flatMap Receipt.applied) := by
  simp only [mem_cutoffs_iff, List.mem_flatMap, List.mem_filter]
  refine exists_congr fun a => and_congr_left fun hm => ?_
  constructor
  · rintro ⟨r, ⟨hr, -⟩, ha⟩
    exact ⟨r, hr, ha⟩
  · rintro ⟨r, hr, ha⟩
    refine ⟨r, ⟨hr, List.any_eq_true.2 ⟨a.log, (mem_applied ha).2, ?_⟩⟩, ha⟩
    exact carries_of_meaning (by simp [hm])

theorem direct_inj {attrs attrs' : Bytes32} {issuer issuer' : Address}
    {claimsRoot claimsRoot' evidenceHash evidenceHash' : Bytes32}
    (hv : MarkAttrs.validSchema attrs = true) (hv' : MarkAttrs.validSchema attrs' = true)
    (h : Mark.direct attrs issuer claimsRoot evidenceHash =
      Mark.direct attrs' issuer' claimsRoot' evidenceHash') :
    attrs = attrs' ∧ issuer = issuer' ∧ claimsRoot = claimsRoot' ∧ evidenceHash = evidenceHash' := by
  have hpacked := congrArg Mark.packed h
  simp only [Mark.packed, Mark.direct, MarkAttrs.pack_unpack (MarkAttrs.validSchema_reserved hv),
    MarkAttrs.pack_unpack (MarkAttrs.validSchema_reserved hv')] at hpacked
  exact ⟨hpacked, congrArg Mark.issuer h, congrArg Mark.claimsRoot h, congrArg Mark.evidenceHash h⟩

/-- **The replay and the hub agree on a subject** after the same logs. -/
theorem Replays.listed_iff {l : List Applied} {m : Lifecycle} {st : SubjectState} {e : RosterEntry}
    {now : ℕ} (h : Replays source l m) (ht : Tracks (events source e.subject l) st)
    (hk : ((events source e.subject l).map Prod.fst).Nodup) :
    exclusion m.cutoffs now (m.stateOf e.subject) = none ∧ (m.stateOf e.subject).entry = some e ↔
      st.tombstone = false ∧
        st.mark = Mark.direct e.attrs e.issuer e.claimsRoot e.evidenceHash ∧
        Trusted source l st.mark.issuer st.markIssuerKeyEpoch st.lastApplied.height ∧
        validCredentialAttrs e.attrs (some now) = true := by
  have hf := h.states e.subject
  rw [exclusion_none_iff]
  constructor
  · rintro ⟨hdenied, hrevoked, hentry, hvalid, hfresh⟩
    rw [hf.denied] at hdenied
    have hund := latest_undenied hk hdenied
    by_cases hiss : ∃ c attrs issuer keyEpoch claimsRoot evidenceHash,
        latest (events source e.subject l) =
          some (c, .issued attrs issuer keyEpoch claimsRoot evidenceHash)
    · obtain ⟨c, attrs, issuer, keyEpoch, claimsRoot, evidenceHash, hlast⟩ := hiss
      obtain ⟨hv, -, hentry', hkey, hblock⟩ := hf.issued _ _ _ _ _ _ (hund.trans hlast)
      rw [hentry, Option.some.injEq] at hentry'
      have ha := ht.active_iff.2
        ⟨hdenied, c, attrs, issuer, keyEpoch, claimsRoot, evidenceHash, hlast, hv⟩
      obtain ⟨hmark, hkey', happlied, htomb⟩ := ht.mark_eq ha hlast hv
      refine ⟨htomb, by rw [hmark, hentry'], ?_, hvalid⟩
      rw [hmark, hkey', happlied, Trusted]
      by_cases h0 : keyEpoch = 0
      · exact .inl h0
      · refine .inr fun b hb => ?_
        have hnone := hfresh _ _ hkey (fun h => h0 (BitVec.eq_of_toNat_eq h)) hblock
        rw [hentry', ← Bool.not_eq_true, h.cutoffs] at hnone
        rw [BitVec.le_def]
        exact Nat.le_of_not_lt fun hlt => hnone ⟨b, hb, hlt⟩
    · rcases hf.other fun c attrs issuer keyEpoch claimsRoot evidenceHash h =>
        hiss ⟨c, attrs, issuer, keyEpoch, claimsRoot, evidenceHash, hund.symm.trans h⟩ with h | h
      · rw [hrevoked] at h
        cases h
      · rw [hentry] at h
        cases h
  · rintro ⟨-, hmark, htrust, hvalid⟩
    have ha : st.mark.status = .active := by
      rw [hmark]
      rfl
    obtain ⟨hdenied, c, attrs, issuer, keyEpoch, claimsRoot, evidenceHash, hlast, hv⟩ :=
      ht.active_iff.1 ha
    obtain ⟨-, hrevoked, hentry, hkey, hblock⟩ :=
      hf.issued _ _ _ _ _ _ ((latest_undenied hk hdenied).trans hlast)
    obtain ⟨hmark', hkey', happlied, -⟩ := ht.mark_eq ha hlast hv
    obtain ⟨h1, h2, h3, h4⟩ := direct_inj (validSchema_of_valid hvalid) hv (hmark.symm.trans hmark')
    have he : e = ⟨e.subject, attrs, claimsRoot, evidenceHash, issuer⟩ := by
      rw [← h1, ← h2, ← h3, ← h4]
    refine ⟨hf.denied.trans hdenied, hrevoked, hentry.trans (congrArg some he.symm), hvalid, ?_⟩
    intro n b hn h0 hb
    cases hkey.symm.trans hn
    cases hblock.symm.trans hb
    rw [← Bool.not_eq_true, h.cutoffs]
    rintro ⟨b, hb, hlt⟩
    rw [hmark', hkey', happlied] at htrust
    rcases htrust with h | h
    · exact h0 (by rw [h]; rfl)
    · have hle := h b (h2 ▸ hb)
      rw [BitVec.le_def] at hle
      exact absurd hlt (Nat.not_lt.2 hle)

/-- **The replayed roster is the hub's**: once the hub has accepted the receipts up to the cutoff
    that carry lifecycle events, in whatever order, the roster has exactly the entries that the
    hub shows. -/
theorem roster_lists_active {keccak256 : Bytes → Bytes32} {hash : Json → Bytes32} {ns : Bytes}
    {view : View} {c : ℕ} {S : Snapshot} {henv : HubEnv} {howner : Address} {hes : List HubEntry}
    {asc : ProofmarkASC} (hbuild : buildSourceRoster keccak256 hash ns view none c = .ok S)
    (hhub : (ProofmarkASC.machine henv).Run (.deployed howner) hes asc)
    (hconf : asc.sourceContract = view.source)
    (hall : (accepted henv hes).Perm ((view.receiptsTo c).filter (Receipt.carries view.source)))
    (htxs : ∀ k ≤ c, (view.block k).transactions.length ≤ 2 ^ 64) (e : RosterEntry) :
    e ∈ S.tree.entries ↔ Shown asc (view.block c).timestamp e := by
  obtain ⟨s, hreached, hfin⟩ := finish_of_cold hbuild
  obtain ⟨hdep, hle⟩ := hreached.deployed
  have hsafe : c < 2 ^ 53 := Nat.lt_of_le_of_lt hreached.safe (by decide)
  -- the receipts in source order
  have hsorted : (view.receiptsTo c).Pairwise Receipt.Before :=
    before_receiptsFrom (by omega) fun k _ hk => htxs k (by omega)
  have hpos : ∀ r ∈ view.receiptsTo c, 1 ≤ r.height := by
    intro r hr
    obtain ⟨k, hk, hr⟩ := List.mem_flatMap.1 hr
    rw [List.mem_range'_1] at hk
    rw [BitVec.le_def, toNat_height (by omega) hr]
    exact Nat.le_trans hdep hk.1
  have hkeys : ((receiptEvents view.source e.subject (view.receiptsTo c)).map Prod.fst).Nodup := by
    have hpw : (receiptEvents view.source e.subject (view.receiptsTo c)).Pairwise
        fun a b => a.1 < b.1 := pairwise_events (pairwise_applied hsorted)
    exact (List.pairwise_map.2 hpw).imp fun h => ne_of_lt h
  -- the replay
  have hreplays : Replays view.source ((view.receiptsTo c).flatMap Receipt.applied) s.lifecycle := by
    have hheight : view.creation.blockNumber - 1 + 1 = view.creation.blockNumber := by omega
    have hcount : c - (view.creation.blockNumber - 1) = c + 1 - view.creation.blockNumber := by omega
    have h : Replays view.source (List.flatMap Receipt.applied (view.receiptsFrom
        (view.creation.blockNumber - 1 + 1) (c - (view.creation.blockNumber - 1)))) s.lifecycle :=
      .scan (by omega) rfl (by rwa [hheight, hcount]) hreached.replayed
    rwa [hheight, hcount] at h
  -- the hub
  have hm := (hubInv_run hhub).mirrors
  rw [hconf] at hm
  have hperm : (receiptEvents view.source e.subject (accepted henv hes)).Perm
      (receiptEvents view.source e.subject (view.receiptsTo c)) := by
    rw [← receiptEvents_filter (view.receiptsTo c)]
    exact (hall.flatMap_right Receipt.applied).filterMap _
  have htracks : Tracks (receiptEvents view.source e.subject (view.receiptsTo c))
      (asc.subjects e.subject) := by
    refine Tracks.perm ?_ hperm ((hperm.map Prod.fst).nodup_iff.2 hkeys)
    rw [hm.subjects e.subject]
    refine tracks_delivered fun m hm => bot_lt_events (fun r hr => hpos r ?_) hm
    exact (List.mem_filter.1 (hall.mem_iff.1 hr)).1
  have hcut : ∀ key b, b ∈ cutoffs view.source key ((accepted henv hes).flatMap Receipt.applied) ↔
      b ∈ cutoffs view.source key ((view.receiptsTo c).flatMap Receipt.applied) := by
    intro key b
    rw [← mem_cutoffs_filter (view.receiptsTo c)]
    exact ((hall.flatMap_right Receipt.applied).filterMap _).mem_iff
  have husable := isMarkIssuerUsable_iff hm e.subject
  simp only [Trusted, hcut] at husable
  rw [mem_entries_iff hreached.spec.1 hfin, hreplays.listed_iff htracks hkeys]
  constructor
  · rintro ⟨htomb, hmark, htrust, hvalid⟩
    exact ⟨htomb, hmark, husable.2 htrust, hvalid⟩
  · rintro ⟨htomb, hmark, hus, hvalid⟩
    exact ⟨htomb, hmark, husable.1 hus, hvalid⟩

end

/-! The receipts of the replay, the compromise first. -/

def replayedReceipts : List Receipt :=
  (replayedView.receiptsTo 3).filter (Receipt.carries 50)

def replayedEnv : HubEnv := ⟨byteHash, ReceiptFixture.decoder (replayedReceipts.map Receipt.logs)⟩

def replayedCalls : List (Msg × ProofmarkASC.Call) :=
  let msg (sender : Address) (h : sender ≠ 0) : Msg := ⟨sender, 0, 5000, h⟩
  (msg 1 Sender.owner, .configureSource 2 50) ::
    ([(4, 1), (0, 0)] : List (U8 × ℕ)).map fun p =>
      (msg 3 Sender.issuer, ReceiptFixture.deliver p.1 2 (replayedReceipts.getD p.2 ⟨0, 0, []⟩))

def replayedHub : ProofmarkASC := (ProofmarkASC.machine replayedEnv).final (.deployed 1) replayedCalls

def replayedEntry (subject : Address) (claimsRoot evidenceHash : Bytes32) : RosterEntry :=
  ⟨subject, MarkAttrs.pack 1 3 1 410 1 1500 9000 0, claimsRoot, evidenceHash, 3⟩

theorem roster_lists_active_replayed : ∃ S, built none 3 = some S ∧
    Shown replayedHub 2003 (replayedEntry 8 13 14) ∧ ¬ Shown replayedHub 2003 (replayedEntry 7 11 12) := by
  have hentries : (built none 3).map (fun S => S.tree.entries) = some [replayedEntry 8 13 14] := by
    decide +kernel
  obtain ⟨S, hS, hlist⟩ := Option.map_eq_some_iff.1 hentries
  have hagree := roster_lists_active (value?_eq_some.1 hS)
    ((ProofmarkASC.machine replayedEnv).run_trace (.deployed 1) replayedCalls)
    (by decide +kernel) (by decide +kernel) fun _ _ => Nat.one_le_two_pow
  rw [← replayedHub, hlist] at hagree
  exact ⟨S, hS, (hagree _).1 (by decide), fun h => absurd ((hagree _).2 h) (by decide)⟩

end RosterSource

end Proofmark
