/-
  What an export of a roster bundle is, and that it is loaded.

  `Exports` is about the values of a record (`export_iff`).  It does not depend on the order of
  the entries (`Exports.perm`), nor does an export on order and letter case
  (`export_of_same`).
-/
import Proofmark.Pipeline.RosterBundleRead
import Proofmark.Roster.Inclusion
import Mathlib.Data.List.Perm.Basic

namespace Proofmark

open Words Revert Utf8
open HexText (lower)
open Canonical (ascii)

/-! ## Order -/

namespace Roster

variable {keccak256 : Bytes → Bytes32} {ns : Bytes}

/-- **The tree does not depend on the order of the entries.** -/
theorem buildRoster_perm {entries entries' : List RosterEntry} {tree : RosterTree}
    (h : buildRoster keccak256 ns entries = .ok tree) (hp : entries'.Perm entries) :
    buildRoster keccak256 ns entries' = .ok tree := by
  have hsorted : ∀ l : List (RosterEntry × Bytes32),
      (l.insertionSort fun a b => a.2 ≤ b.2).Pairwise fun a b => a.2 ≤ b.2 :=
    List.pairwise_insertionSort _
  set keyed := entries.map fun e => (e, subjectKey keccak256 ns e.subject) with hkeyed
  set keyed' := entries'.map fun e => (e, subjectKey keccak256 ns e.subject) with hkeyed'
  have hperm : (keyed'.insertionSort fun a b => a.2 ≤ b.2).Perm (keyed.insertionSort fun a b => a.2 ≤ b.2) :=
    (List.perm_insertionSort _ _).trans ((hp.map _).trans (List.perm_insertionSort _ _).symm)
  have hsame : keyed'.insertionSort (fun a b => a.2 ≤ b.2) = keyed.insertionSort fun a b => a.2 ≤ b.2 := by
    refine hperm.eq_of_pairwise ?_ (hsorted _) (hsorted _)
    intro a b ha hb hab hba
    -- two keys are never equal in a roster
    simp only [buildRoster, bind_ok, ← hkeyed] at h
    obtain ⟨_, hdist, -⟩ := h
    have hlt := checkDistinct_ok hdist (hsorted _)
    have hne : ∀ x ∈ keyed.insertionSort fun a b => a.2 ≤ b.2,
        ∀ y ∈ keyed.insertionSort (fun a b => a.2 ≤ b.2), x.2 = y.2 → x = y := by
      refine List.inj_on_of_nodup_map (List.Pairwise.map _ ?_ hlt)
      intro x y hxy heq
      rw [heq, BitVec.lt_def] at hxy
      exact lt_irrefl _ hxy
    exact hne a (hperm.mem_iff.1 ha) b hb (BitVec.le_antisymm hab hba)
  unfold buildRoster at h ⊢
  simp only [← hkeyed, ← hkeyed', hsame] at h ⊢
  exact h

end Roster

/-! ## What an export is -/

namespace RosterBundle

theorem checkEntries_ok {b : RosterBundle} {l : List RosterEntry} {u : Unit} :
    checkEntries b l = .ok u ↔ ∀ e ∈ l, ¬ (e.subject = 0 ∨ e.issuer = 0 ∨
      ¬ validCredentialAttrs e.attrs (some b.sourceCutoff) ∨ e.issuer ∉ b.approvedIssuers) := by
  induction l with
  | nil => simp [checkEntries]
  | cons e l ih => simp only [checkEntries, bind_ok, revertIf_ok, ih, List.forall_mem_cons, exists_const]

theorem checkedBundle_eq {b b' : RosterBundle} (h : checkedBundle b = .ok b') : b' = b := by
  simp only [checkedBundle, bind_ok, pure_ok] at h
  obtain ⟨_, -, _, -, _, -, _, -, _, -, h⟩ := h
  exact h.symm

/-- The checks do not depend on the order of the entries. -/
theorem checkedBundle_perm {b : RosterBundle} {entries : List RosterEntry} (h : checkedBundle b = .ok b)
    (hp : entries.Perm b.entries) :
    checkedBundle { b with entries } = .ok { b with entries } := by
  simp only [checkedBundle, bind_ok, revertIf_ok, pure_ok, checkEntries_ok, assertRosterRecordVersion,
    exists_const, and_true, hp.length_eq, hp.mem_iff] at h ⊢
  exact h

/-- The cutoff is the first time of publication. -/
theorem checkedBundle_atCutoff {b : RosterBundle} (h : checkedBundle b = .ok b) :
    checkedBundle { b with publishedAt := b.sourceCutoff } =
      .ok { b with publishedAt := b.sourceCutoff } := by
  simp only [checkedBundle, bind_ok, revertIf_ok, pure_ok, checkEntries_ok, assertRosterRecordVersion,
    exists_const, and_true] at h ⊢
  obtain ⟨hversion, hbundle, hscope, hrest⟩ := h
  refine ⟨hversion, hbundle, ?_, hrest⟩
  simp only [not_or, not_not, List.all_cons, List.all_nil, Bool.and_true, Bool.and_eq_true] at hscope ⊢
  obtain ⟨h1, h2, h3, h4, h5, h6, h7, h8, h9, h10, ⟨h11, h12, h13⟩, h14, h15, h16, h17, hlimits⟩ := hscope
  exact ⟨h1, h2, h3, h4, h5, h6, h7, h8, h9, h10, ⟨h11, h11, h13⟩, by omega, by omega, by omega, h17, hlimits⟩

end RosterBundle

section
variable {ν : Type} {E : Addresses} {K : JsNumbers ν} {keccak256 sha256 : Bytes → Bytes32}

theorem safe_of_checked {b : RosterBundle} (h : RosterBundle.checkedBundle b = .ok b) :
    (BundleText.ofBundle E b).Safe := by
  simp only [RosterBundle.checkedBundle, bind_ok, revertIf_ok, pure_ok, RosterBundle.assertRosterRecordVersion,
    exists_const, not_or, not_not, List.all_cons, List.all_nil, Bool.and_true, Bool.and_eq_true,
    RosterBundle.uint, decide_eq_true_eq] at h
  obtain ⟨⟨v1, v2, v3⟩, v4, ⟨h1, h2, h3, -, -, -, h7, h8, -, -, ⟨h11, h12, h13⟩, -⟩, -⟩ := h
  refine ⟨⟨h1.1, h3.1, h2.1⟩, ?_, ?_, ?_, ?_, h7.1, h8.1, h11.1, h12.1, h13.1⟩
  · exact v4.le.trans (by decide)
  · exact v1.le.trans (by decide)
  · exact v2.le.trans (by decide)
  · exact v3.le.trans (by decide)

/-- The export of values: the tree of their entries, and the bytes with the entries of the
    tree. -/
structure Exports (E : Addresses) (K : JsNumbers ν) (keccak256 sha256 : Bytes → Bytes32)
    (b : RosterBundle) (tree : RosterTree) (out : ExportedBundle) : Prop where
  checked : RosterBundle.checkedBundle b = .ok b
  built : Roster.buildRoster keccak256 Roster.EVM_NAMESPACE b.entries = .ok tree
  root : tree.root = b.root
  bytes : out.bytes = jsonLine K ((BundleText.ofBundle E { b with entries := tree.entries }).fields K)
  size : out.bytes.length ≤ RosterBundle.MAX_BUNDLE_BYTES
  contentHash : out.contentHash = sha256 out.bytes

theorem export_ofBundle {b : RosterBundle} {out : ExportedBundle} :
    (BundleText.ofBundle E b).export E K keccak256 sha256 = .ok out ↔
      ∃ tree, Exports E K keccak256 sha256 b tree out := by
  simp only [BundleText.export, bind_ok, orRevert_ok, bundle_read, mapError_ok, revertIf_ok, pure_ok]
  constructor
  · rintro ⟨_, hvalue, b', hchecked, tree, hbuilt, _, hroot, _, hsize, rfl⟩
    obtain rfl := Option.some.inj hvalue
    obtain rfl := RosterBundle.checkedBundle_eq hchecked
    exact ⟨tree, hchecked, hbuilt, not_not.1 hroot, rfl, not_lt.1 hsize, rfl⟩
  · rintro ⟨tree, h⟩
    obtain ⟨hchecked, hbuilt, hroot, hbytes, hsize, hhash⟩ := h
    refine ⟨b, rfl, b, hchecked, tree, hbuilt, (), not_not.2 hroot, (), ?_, ?_⟩
    · rw [hbytes] at hsize
      exact not_lt.2 hsize
    · obtain ⟨bytes, contentHash⟩ := out
      dsimp only at hbytes hhash
      subst hbytes hhash
      rfl

/-- **An export depends on the values of the record only.** -/
theorem export_iff {r : RosterRecord} {scope : ScopeText} {b : RosterBundle} {out : ExportedBundle}
    (h : r.Reads E scope b) : exportRosterBundle E K keccak256 sha256 r scope = .ok out ↔
      ∃ tree, Exports E K keccak256 sha256 b tree out := by
  rw [← export_ofBundle, exportRosterBundle, h.normalize]
  rfl

theorem reads_of_export {r : RosterRecord} {scope : ScopeText} {out : ExportedBundle}
    (h : exportRosterBundle E K keccak256 sha256 r scope = .ok out) :
    ∃ b tree, r.Reads E scope b ∧ Exports E K keccak256 sha256 b tree out := by
  have hexport := h
  simp only [exportRosterBundle, bind_ok, orRevert_ok, BundleText.export] at hexport
  obtain ⟨t, hnorm, b, hread, -⟩ := hexport
  have hreads := record_reads hnorm hread
  obtain ⟨tree, htree⟩ := (export_iff hreads).1 h
  exact ⟨b, tree, hreads, htree⟩

variable {b : RosterBundle} {tree : RosterTree} {out : ExportedBundle}

theorem Exports.entries_perm (h : Exports E K keccak256 sha256 b tree out) :
    tree.entries.Perm b.entries := (Roster.built_of_buildRoster h.built).2

theorem Exports.perm (h : Exports E K keccak256 sha256 b tree out) {entries : List RosterEntry}
    (hp : entries.Perm b.entries) : Exports E K keccak256 sha256 { b with entries } tree out where
  checked := RosterBundle.checkedBundle_perm h.checked hp
  built := Roster.buildRoster_perm h.built hp
  root := h.root
  bytes := h.bytes
  size := h.size
  contentHash := h.contentHash

/-! ## Loading -/

theorem length_jsonLine_pos (l : List (JsString × JsValue ν)) : 0 < (jsonLine K l).length := by
  rw [jsonLine, JsValue.text, encode, List.cons_append, List.flatMap_cons]
  simp [encodeChar]

theorem Exports.decode (h : Exports E K keccak256 sha256 b tree out) :
    decodeBundle E K out.bytes = some { b with entries := tree.entries } := by
  have hsafe := safe_of_checked (E := E) (RosterBundle.checkedBundle_perm h.checked h.entries_perm)
  rw [decodeBundle, h.bytes, parseLine_jsonLine (records_bundle _), Option.bind_eq_bind, Option.bind_some,
    if_pos (bundleKnown_fields _), bundle_ofFields hsafe, Option.bind_eq_bind, Option.bind_some, bundle_read]

/-- **An exported bundle is loaded.** -/
theorem Exports.load (h : Exports E K keccak256 sha256 b tree out) :
    RosterBundle.loadRosterBundle keccak256 sha256 (decodeBundle E K) out.bytes out.contentHash =
      .ok ⟨{ b with entries := tree.entries }, tree, out.contentHash⟩ := by
  have hpos : 0 < out.bytes.length := by
    rw [h.bytes]
    exact length_jsonLine_pos _
  have hsorted := h.perm h.entries_perm
  simp only [RosterBundle.loadRosterBundle, bind_ok, revertIf_ok, orRevert_ok, mapError_ok, pure_ok]
  refine ⟨(), ?_, _, h.decode, _, hsorted.checked, tree, hsorted.built, (), not_not.2 h.root, rfl⟩
  rintro (h0 | hmax | hhash)
  · exact hpos.ne' h0
  · exact absurd h.size (not_le.2 hmax)
  · exact hhash h.contentHash.symm

end

/-! ## Order and letter case -/

/-- Values found by a key, in another order. -/
theorem forall₂_perm_map {α β κ : Type} {key : α → κ} {R : α → β → Prop} {p : α → Prop} {l l' : List α}
    {m : List β} (h : List.Forall₂ R l m) (hp : (l'.map key).Perm (l.map key)) (hall : ∀ a ∈ l', p a)
    (hR : ∀ a a₀ b, p a → key a = key a₀ → R a₀ b → R a b) :
    ∃ m', List.Forall₂ R l' m' ∧ m'.Perm m := by
  have hkeys : List.Forall₂ (fun k b => ∃ a, k = key a ∧ R a b) (l.map key) m := by
    rw [List.forall₂_map_left_iff]
    exact h.imp fun a _ hab => ⟨a, rfl, hab⟩
  obtain ⟨m', hm', hperm⟩ := List.perm_comp_forall₂ hp hkeys
  rw [List.forall₂_map_left_iff] at hm'
  refine ⟨m', ?_, hperm⟩
  refine ((List.forall₂_and_left l' m').2 ⟨hall, hm'⟩).imp ?_
  rintro a b ⟨hpa, a₀, hkey, hab⟩
  exact hR a a₀ b hpa hkey hab

theorem sort_perm {l l' : List Address} (h : l'.Perm l) :
    l'.insertionSort (fun x y => x.toNat ≤ y.toNat) = l.insertionSort fun x y => x.toNat ≤ y.toNat := by
  have hsorted : ∀ m : List Address,
      (m.insertionSort fun x y => x.toNat ≤ y.toNat).Pairwise fun x y => x.toNat ≤ y.toNat := by
    intro m
    have htotal : Std.Total fun x y : Address => x.toNat ≤ y.toNat := ⟨fun x y => Nat.le_total _ _⟩
    have htrans : IsTrans Address fun x y => x.toNat ≤ y.toNat := ⟨fun _ _ _ => Nat.le_trans⟩
    exact List.pairwise_insertionSort _ m
  have hperm : (l'.insertionSort fun x y => x.toNat ≤ y.toNat).Perm
      (l.insertionSort fun x y => x.toNat ≤ y.toNat) :=
    (List.perm_insertionSort _ l').trans (h.trans (List.perm_insertionSort _ l).symm)
  refine hperm.eq_of_pairwise ?_ (hsorted l') (hsorted l)
  intro x y _ _ hxy hyx
  exact BitVec.eq_of_toNat_eq (le_antisymm hxy hyx)

/-- An entry with its fields in lower case. -/
def EntryText.lowered (e : EntryText) : EntryText where
  subject := lower e.subject
  attrs := lower e.attrs
  claimsRoot := lower e.claimsRoot
  evidenceHash := lower e.evidenceHash
  issuer := lower e.issuer

def ScopeText.lowered (s : ScopeText) : ScopeText :=
  { s with source := lower s.source, asc := lower s.asc, registry := lower s.registry }

/-- Two records that differ in the order of their entries and issuers and in letter case. -/
structure RosterRecord.SameRoster (r r' : RosterRecord) : Prop where
  rosterFormatVersion : r'.rosterFormatVersion = r.rosterFormatVersion
  epochSchemaVersion : r'.epochSchemaVersion = r.epochSchemaVersion
  rosterAuthVersion : r'.rosterAuthVersion = r.rosterAuthVersion
  epoch : r'.epoch = r.epoch
  root : lower r'.root = lower r.root
  listVersion : r'.listVersion = r.listVersion
  sourceCutoff : r'.sourceCutoff = r.sourceCutoff
  publishedAt : r'.publishedAt = r.publishedAt
  validUntil : r'.validUntil = r.validUntil
  snapshotId : lower r'.snapshotId = lower r.snapshotId
  approvedIssuers : (r'.approvedIssuers.map lower).Perm (r.approvedIssuers.map lower)
  entries : (r'.entries.map EntryText.lowered).Perm (r.entries.map EntryText.lowered)

section
variable {E : Addresses}

theorem address_of_lower {s t : JsString} {a : Address} (hs : (E.getAddress s).isSome = true)
    (hlower : lower s = lower t) (ht : E.address? t = some a) : E.address? s = some a := by
  obtain ⟨_, hs⟩ := Option.isSome_iff_exists.1 hs
  obtain ⟨b, hb, -⟩ := getAddress_eq_some.1 hs
  rw [hb, E.address?_lower s t b a hlower hb ht]

theorem getAddress_of_normalize {e t : EntryText} (h : e.normalize E = some t) :
    (E.getAddress e.subject).isSome = true ∧ (E.getAddress e.issuer).isSome = true := by
  simp only [EntryText.normalize, Option.bind_eq_bind, Option.bind_eq_some_iff] at h
  obtain ⟨s, hs, i, hi, -⟩ := h
  exact ⟨Option.isSome_of_eq_some hs, Option.isSome_of_eq_some hi⟩

theorem EntryText.Reads.of_lowered {e e' : EntryText} {v : RosterEntry} (h : e.Reads E v)
    (hok : (e'.normalize E).isSome = true) (hlower : e'.lowered = e.lowered) : e'.Reads E v := by
  obtain ⟨t, ht⟩ := Option.isSome_iff_exists.1 hok
  obtain ⟨hsubject, hissuer⟩ := getAddress_of_normalize ht
  simp only [EntryText.lowered, EntryText.mk.injEq] at hlower
  obtain ⟨l1, l2, l3, l4, l5⟩ := hlower
  refine ⟨address_of_lower hsubject l1 h.subject, ?_, ?_, ?_, address_of_lower hissuer l5 h.issuer⟩
  · rw [l2, h.attrs]
  · rw [l3, h.claimsRoot]
  · rw [l4, h.evidenceHash]

theorem ScopeText.Reads.of_lowered {s s' : ScopeText} {v : RosterScope} (h : s.Reads E v)
    (hok : (s'.normalize E).isSome = true) (hlower : s'.lowered = s.lowered) : s'.Reads E v := by
  obtain ⟨t, ht⟩ := Option.isSome_iff_exists.1 hok
  simp only [ScopeText.normalize, Option.bind_eq_bind, Option.bind_eq_some_iff] at ht
  obtain ⟨_, h1, _, h2, _, h3, -⟩ := ht
  simp only [ScopeText.lowered, ScopeText.mk.injEq] at hlower
  obtain ⟨e1, e2, e3, l1, l2, l3⟩ := hlower
  exact ⟨h.sourceChainId.trans e1.symm, h.sourceChainKey.trans e2.symm, h.hubChainId.trans e3.symm,
    address_of_lower (Option.isSome_of_eq_some h1) l1 h.source,
    address_of_lower (Option.isSome_of_eq_some h2) l2 h.asc,
    address_of_lower (Option.isSome_of_eq_some h3) l3 h.registry⟩

/-- `mapM` has a value at each element. -/
theorem forall_of_mapM {α β : Type} {f : α → Option β} {l : List α} {m : List β} (h : l.mapM f = some m) :
    ∀ a ∈ l, (f a).isSome = true := by
  have hall := mapM_eq_some.1 h
  clear h
  induction hall with
  | nil => simp
  | cons hab _ ih => exact List.forall_mem_cons.2 ⟨Option.isSome_of_eq_some hab, ih⟩

/-- **Records that differ in order and letter case have the same values** up to the order of
    the entries. -/
theorem RosterRecord.Reads.of_same {r r' : RosterRecord} {scope scope' : ScopeText} {b : RosterBundle}
    (h : r.Reads E scope b) (hsame : r.SameRoster r') (hscope : scope'.lowered = scope.lowered)
    (hok : (r'.normalize E scope').isSome = true) :
    ∃ entries : List RosterEntry, entries.Perm b.entries ∧ r'.Reads E scope' { b with entries } := by
  obtain ⟨t, ht⟩ := Option.isSome_iff_exists.1 hok
  simp only [RosterRecord.normalize, Option.bind_eq_bind, Option.bind_eq_some_iff] at ht
  obtain ⟨_, hissuers, _, hs, _, hentries, -⟩ := ht
  obtain ⟨issuers, hread, hsorted⟩ := h.approvedIssuers
  obtain ⟨issuers', hread', hperm⟩ := forall₂_perm_map (mapM_eq_some.1 hread) hsame.approvedIssuers
    (forall_of_mapM hissuers) fun _ _ _ => address_of_lower
  obtain ⟨entries, hentries, heperm⟩ := forall₂_perm_map h.entries hsame.entries (forall_of_mapM hentries)
    fun _ _ _ hok hlower hreads => EntryText.Reads.of_lowered hreads hok hlower
  refine ⟨entries, heperm, ?_⟩
  exact
    { bundleVersion := h.bundleVersion
      rosterFormatVersion := h.rosterFormatVersion.trans hsame.rosterFormatVersion.symm
      epochSchemaVersion := h.epochSchemaVersion.trans hsame.epochSchemaVersion.symm
      rosterAuthVersion := h.rosterAuthVersion.trans hsame.rosterAuthVersion.symm
      scope := h.scope.of_lowered (Option.isSome_of_eq_some hs) hscope
      epoch := h.epoch.trans hsame.epoch.symm
      root := by rw [hsame.root, h.root]
      listVersion := h.listVersion.trans hsame.listVersion.symm
      sourceCutoff := h.sourceCutoff.trans hsame.sourceCutoff.symm
      publishedAt := h.publishedAt.trans hsame.publishedAt.symm
      validUntil := h.validUntil.trans hsame.validUntil.symm
      snapshotId := by rw [hsame.snapshotId, h.snapshotId]
      approvedIssuers := ⟨issuers', mapM_eq_some.2 hread', by rw [sort_perm hperm, ← hsorted]⟩
      entries := hentries }

/-- **Records that differ in order and letter case are exported alike**, where the addresses
    of both are accepted. -/
theorem export_of_same {ν : Type} {K : JsNumbers ν} {keccak256 sha256 : Bytes → Bytes32}
    {r r' : RosterRecord} {scope scope' : ScopeText} {out : ExportedBundle}
    (h : exportRosterBundle E K keccak256 sha256 r scope = .ok out) (hsame : r.SameRoster r')
    (hscope : scope'.lowered = scope.lowered) (hok : (r'.normalize E scope').isSome = true) :
    exportRosterBundle E K keccak256 sha256 r' scope' = .ok out := by
  obtain ⟨b, tree, hreads, hexports⟩ := reads_of_export h
  obtain ⟨entries, hperm, hreads'⟩ := hreads.of_same hsame hscope hok
  exact (export_iff hreads').2 ⟨tree, hexports.perm hperm⟩

end

end Proofmark
