/-
  Seeds of roster bundles, and the round trips of bundles.

  A seed is the export at the cutoff without its time of publication, so that it is no longer
  than the bundle (`Exports.atCutoff`, `Exports.seed_le`) and gives back the texts of the
  values (`Exports.loadSeed`).

  `roster_bundle_round_trip`: an export is loaded, does not depend on order and letter case,
  and is recovered from the seed.
-/
import Proofmark.Pipeline.RosterExport
import Proofmark.Roster.NonInclusion

namespace Proofmark

open Words Revert Utf8
open Canonical (ascii)

/-! ## Sizes -/

section
variable {ν : Type} (K : JsNumbers ν)

/-- The number of bytes of a text. -/
def size (s : List Char) : ℕ := (encode s).length

@[simp] theorem size_nil : size [] = 0 := rfl

@[simp] theorem size_append (s t : List Char) : size (s ++ t) = size s + size t := by
  simp [size, encode]

theorem size_cons_ascii {c : Char} (hc : c.toNat < 0x80) (s : List Char) : size (c :: s) = size s + 1 := by
  simp [size, encode, encodeChar, hc, Nat.add_comm]

/-- The bytes of a member, with the sign that follows it. -/
def memberSize (f : JsString × JsValue ν) : ℕ :=
  size (JsValue.quote f.1) + size (f.2.text K.numbers) + 2

theorem size_fieldsText {l : List (JsString × JsValue ν)} (h : l ≠ []) :
    size (JsValue.fieldsText K.numbers l) = (l.map (memberSize K)).sum := by
  have hcolon : (':' : Char).toNat < 0x80 := by decide
  have hcomma : (',' : Char).toNat < 0x80 := by decide
  have hbrace : ('\x7d' : Char).toNat < 0x80 := by decide
  induction l with
  | nil => exact absurd rfl h
  | cons f l ih =>
    obtain ⟨k, v⟩ := f
    cases l with
    | nil =>
      simp only [JsValue.fieldsText, List.append_assoc, List.cons_append, size_append, size_cons_ascii hcolon,
        size_cons_ascii hbrace, size_nil, List.map_cons, List.map_nil, List.sum_cons, List.sum_nil, memberSize]
      omega
    | cons g l =>
      rw [JsValue.fieldsText]
      · simp only [List.append_assoc, List.cons_append, size_append, size_cons_ascii hcolon,
          size_cons_ascii hcomma, ih (by simp), List.map_cons, List.sum_cons, memberSize]
        omega
      · simp

theorem length_jsonLine {l : List (JsString × JsValue ν)} (h : l ≠ []) :
    (jsonLine K l).length = (l.map (memberSize K)).sum + 2 := by
  have hbrace : ('\x7b' : Char).toNat < 0x80 := by decide
  have hfeed : ('\n' : Char).toNat < 0x80 := by decide
  have hsize : (jsonLine K l).length = size ((JsValue.obj l).text K.numbers ++ ['\n']) := rfl
  rw [hsize, JsValue.text, List.cons_append, size_cons_ascii hbrace, size_append, size_cons_ascii hfeed,
    size_nil, size_fieldsText K h]

theorem size_ascii {s : List Char} (h : ∀ c ∈ s, c.toNat < 0x80) : size s = s.length := by
  induction s with
  | nil => rfl
  | cons c s ih =>
    obtain ⟨hc, hs⟩ := List.forall_mem_cons.1 h
    rw [size_cons_ascii hc, ih hs, List.length_cons]

theorem size_repr (n : ℕ) : size (Nat.repr n).toList = (Nat.toDigits 10 n).length := by
  rw [Nat.toList_repr]
  refine size_ascii fun c hc => ?_
  have hdigit := Nat.isDigit_of_mem_toDigits (by decide) (by decide) hc
  rw [Char.isDigit, Bool.and_eq_true, decide_eq_true_eq, decide_eq_true_eq] at hdigit
  exact lt_of_le_of_lt (UInt32.le_iff_toNat_le.1 hdigit.2) (by decide)

/-- A greater number has no fewer digits. -/
theorem size_repr_mono {m n : ℕ} (h : m ≤ n) : size (Nat.repr m).toList ≤ size (Nat.repr n).toList := by
  rw [size_repr, size_repr]
  have hpos : 0 < (Nat.toDigits 10 n).length := Nat.length_toDigits_pos
  rw [Nat.length_toDigits_le_iff (by decide) hpos]
  exact h.trans_lt ((Nat.length_toDigits_le_iff (by decide) hpos).1 le_rfl)

end

section
variable {ν : Type} {K : JsNumbers ν}

theorem memberSize_number {n : ℕ} (h : n ≤ MAX_SAFE_INTEGER) (key : JsString) :
    memberSize K (key, number K n) = size (JsValue.quote key) + size (Nat.repr n).toList + 2 := by
  rw [memberSize, number, JsValue.text, K.text_ofNat n h]

/-- The bundle with the cutoff as its time of publication is no longer. -/
theorem length_atCutoff {t : BundleText} (h : t.Safe) (hle : t.sourceCutoff ≤ t.publishedAt) :
    (jsonLine K ({ t with publishedAt := t.sourceCutoff }.fields K)).length ≤
      (jsonLine K (t.fields K)).length := by
  have hmember : memberSize K (ascii "publishedAt", number K t.sourceCutoff) ≤
      memberSize K (ascii "publishedAt", number K t.publishedAt) := by
    rw [memberSize_number h.sourceCutoff, memberSize_number h.publishedAt]
    exact Nat.add_le_add_right (Nat.add_le_add_left (size_repr_mono hle) _) _
  rw [length_jsonLine K (by simp [BundleText.fields]), length_jsonLine K (by simp [BundleText.fields])]
  simp only [BundleText.fields, List.map_cons, List.sum_cons]
  omega

/-- A seed is no longer than its bundle. -/
theorem length_seed_le {t : BundleText} (h : t.bundleVersion = 1) :
    (jsonLine K (seedFields K (t.fields K))).length ≤ (jsonLine K (t.fields K)).length := by
  have hquote : size (JsValue.quote (ascii "seedVersion")) ≤ size (JsValue.quote (ascii "bundleVersion")) := by
    decide +kernel
  have hmember : memberSize K (ascii "seedVersion", number K 1) ≤
      memberSize K (ascii "bundleVersion", number K t.bundleVersion) := by
    rw [h]
    exact Nat.add_le_add_right (Nat.add_le_add_right hquote _) _
  rw [seedFields_fields, length_jsonLine K (by simp), length_jsonLine K (by simp [BundleText.fields])]
  simp only [BundleText.fields, BundleText.recordFields, List.map_cons, List.sum_cons]
  omega

end

/-! ## Seeds -/

section
variable {ν : Type} {E : Addresses} {K : JsNumbers ν} {keccak256 sha256 : Bytes → Bytes32}
  {r : RosterRecord} {scope : ScopeText} {b : RosterBundle} {tree : RosterTree} {out : ExportedBundle}

theorem cutoff_le {b : RosterBundle} (h : RosterBundle.checkedBundle b = .ok b) :
    b.sourceCutoff ≤ b.publishedAt ∧ b.bundleVersion = 1 := by
  simp only [RosterBundle.checkedBundle, bind_ok, revertIf_ok, not_or, not_not] at h
  obtain ⟨_, -, _, hbundle, _, ⟨-, -, -, -, -, -, -, -, -, -, -, hle, -⟩, -⟩ := h
  exact ⟨not_lt.1 hle, hbundle⟩

/-- **The export at the cutoff.** -/
theorem Exports.atCutoff (h : Exports E K keccak256 sha256 b tree out) :
    ∃ out', Exports E K keccak256 sha256 { b with publishedAt := b.sourceCutoff } tree out' := by
  have hsafe := safe_of_checked (E := E) (RosterBundle.checkedBundle_perm h.checked h.entries_perm)
  have hsize := h.size
  rw [h.bytes] at hsize
  let bytes := jsonLine K ((BundleText.ofBundle E
    { b with publishedAt := b.sourceCutoff, entries := tree.entries }).fields K)
  refine ⟨⟨bytes, sha256 bytes⟩, RosterBundle.checkedBundle_atCutoff h.checked, h.built, h.root, rfl, ?_, rfl⟩
  exact (length_atCutoff hsafe (cutoff_le h.checked).1).trans hsize

/-- The seed of values. -/
def seedOf (E : Addresses) (K : JsNumbers ν) (b : RosterBundle) : Bytes :=
  jsonLine K (seedFields K ((BundleText.ofBundle E b).fields K))

theorem seedBytes_eq (hreads : r.Reads E scope b) (h : Exports E K keccak256 sha256 b tree out) :
    seedBytes E K keccak256 sha256 r scope = .ok (seedOf E K { b with entries := tree.entries }) := by
  obtain ⟨out', hcutoff⟩ := h.atCutoff
  have hreads' : RosterRecord.Reads E { r with publishedAt := r.sourceCutoff } scope
      { b with publishedAt := b.sourceCutoff } := { hreads with publishedAt := hreads.sourceCutoff }
  rw [seedBytes, (export_iff hreads').2 ⟨tree, hcutoff⟩, ok_bind, hcutoff.bytes,
    parseLine_jsonLine (records_bundle _)]
  -- the time of publication is no part of a seed
  simp only [seedFields_fields, seedOf]
  rfl

/-- The texts of values read as the values. -/
theorem RosterRecord.Reads.canonical (h : r.Reads E scope b) (entries : List RosterEntry) :
    (BundleText.ofBundle E { b with entries }).toRosterRecord.Reads E
      (BundleText.ofBundle E { b with entries }).scope { b with entries } := by
  obtain ⟨issuers, -, hsorted⟩ := h.approvedIssuers
  have hword : ∀ w : Bytes32, bytes32? (HexText.lower (bytes32Text w)) = some w := fun w =>
    bytes32?_lower (bytes32?_bytes32Text w)
  have hissuers : (b.approvedIssuers.map E.checksum).mapM E.address? = some b.approvedIssuers :=
    mapM_map fun a _ => E.address?_checksum a
  refine ⟨h.bundleVersion, rfl, rfl, rfl, ?_, rfl, hword _, rfl, rfl, rfl, rfl, hword _, ?_, ?_⟩
  · exact ⟨rfl, rfl, rfl, E.address?_checksum _, E.address?_checksum _, E.address?_checksum _⟩
  · refine ⟨b.approvedIssuers, hissuers, ?_⟩
    rw [hsorted, sort_perm (List.perm_insertionSort _ issuers)]
  · change List.Forall₂ (EntryText.Reads E) (entries.map (EntryText.ofEntry E)) entries
    rw [List.forall₂_map_left_iff, List.forall₂_same]
    intro e _
    exact ⟨E.address?_checksum _, hword _, hword _, hword _, E.address?_checksum _⟩

/-- **A seed is loaded**, and gives the texts of the values. -/
theorem loadSeed_seedOf (hreads : r.Reads E scope b) (h : Exports E K keccak256 sha256 b tree out) :
    let t := BundleText.ofBundle E { b with entries := tree.entries }
    loadSeed E K keccak256 sha256 (seedOf E K { b with entries := tree.entries })
        (sha256 (seedOf E K { b with entries := tree.entries })) =
      .ok (seedFields K (t.fields K), { t.toRosterRecord with publishedAt := 0 }, t.scope) := by
  intro t
  have hsorted := h.perm h.entries_perm
  have hsafe : t.Safe := safe_of_checked hsorted.checked
  have hfields : seedFields K (t.fields K) = _ := seedFields_fields K t
  have hn : ((seedFields K (t.fields K)).map Prod.fst).Nodup := by
    rw [hfields]
    exact isRecord_seedKeys.1
  have hl : ∀ f ∈ t.recordFields K, f ∈ seedFields K (t.fields K) := by
    intro f hf
    rw [hfields]
    exact List.mem_cons_of_mem _ hf
  have hversion : naturalAt K (seedFields K (t.fields K)) "seedVersion" = some 1 := by
    refine naturalAt_eq hn ?_ (by decide)
    rw [hfields]
    exact List.mem_cons_self
  have hlen : (seedOf E K { b with entries := tree.entries }).length ≤ RosterBundle.MAX_BUNDLE_BYTES := by
    have hsize := h.size
    rw [h.bytes] at hsize
    exact (length_seed_le (cutoff_le h.checked).2).trans hsize
  have hseed : seedBytes E K keccak256 sha256 { t.toRosterRecord with publishedAt := 0 } t.scope =
      .ok (seedOf E K { b with entries := tree.entries }) := by
    have hcanonical := seedBytes_eq (hreads.canonical tree.entries) hsorted
    exact hcanonical
  simp only [loadSeed, bind_ok, revertIf_ok, orRevert_ok, pure_ok]
  refine ⟨(), ?_, seedFields K (t.fields K), ?_, (), ?_, _, record_ofFields hn hl hsafe 0, t.scope, ?_,
    _, hseed, (), not_not.2 rfl, rfl⟩
  · rintro (h0 | hmax | hhash)
    · exact (length_jsonLine_pos _).ne' h0
    · exact absurd hlen (not_le.2 hmax)
    · exact hhash rfl
  · exact parseLine_jsonLine (records_seed t)
  · rw [hversion, hfields]
    rintro (h1 | hkeys)
    · exact h1 rfl
    · exact hkeys rfl
  · rw [scopeAt hn hl, Option.bind_some, scope_ofFields K hsafe.scope]

/-- **A bundle is recovered from its seed**, with any time of publication that is accepted. -/
theorem export_canonical (hreads : r.Reads E scope b) (h : Exports E K keccak256 sha256 b tree out)
    {publishedAt : ℕ} {out' : ExportedBundle}
    (hout : exportRosterBundle E K keccak256 sha256 { r with publishedAt } scope = .ok out') :
    exportRosterBundle E K keccak256 sha256
        { (BundleText.ofBundle E { b with entries := tree.entries }).toRosterRecord with publishedAt }
        (BundleText.ofBundle E { b with entries := tree.entries }).scope = .ok out' := by
  have hreads' : RosterRecord.Reads E { r with publishedAt } scope { b with publishedAt } :=
    { hreads with publishedAt := rfl }
  obtain ⟨tree', h'⟩ := (export_iff hreads').1 hout
  obtain rfl : tree = tree' := Except.ok.inj (h.built.symm.trans h'.built)
  exact (export_iff (hreads'.canonical tree.entries)).2 ⟨tree, h'.perm h.entries_perm⟩

end

/-! ## Replicas -/

section
variable {D : Type} [DecidableEq D]

/-- No file has another content at the path. -/
def Free (files : Files D) (path : ReplicaFile D) (bytes : Bytes) : Prop :=
  ∀ existing, files path = some existing → existing = bytes

theorem writeImmutable_ok {files : Files D} {path : ReplicaFile D} {bytes : Bytes}
    (h : Free files path bytes) :
    ∃ files', writeImmutable files path bytes = .ok files' ∧ files' path = some bytes ∧
      ∀ p, p ≠ path → files' p = files p := by
  unfold writeImmutable
  cases hfile : files path with
  | none =>
    refine ⟨_, rfl, Function.update_self .., ?_⟩
    intro p hp
    exact Function.update_of_ne hp ..
  | some existing =>
    obtain rfl := h existing hfile
    exact ⟨files, if_pos rfl, hfile, fun _ _ => rfl⟩

/-- **Bytes are written to every path** where no other content stands. -/
theorem writeAll_ok {bytes : Bytes} {paths : List (ReplicaFile D)} {files : Files D}
    (h : ∀ path ∈ paths, Free files path bytes) :
    ∃ files', writeAll bytes paths files = .ok files' ∧ ∀ path, files' path = some bytes ∨
      path ∉ paths ∧ files' path = files path := by
  induction paths generalizing files with
  | nil => exact ⟨files, rfl, fun _ => .inr ⟨List.not_mem_nil, rfl⟩⟩
  | cons path paths ih =>
    obtain ⟨hpath, hpaths⟩ := List.forall_mem_cons.1 h
    obtain ⟨files₁, hwrite, hnew, hold⟩ := writeImmutable_ok hpath
    have hfree : ∀ p ∈ paths, Free files₁ p bytes := by
      intro p hp existing hexisting
      by_cases heq : p = path
      · rw [heq, hnew] at hexisting
        exact (Option.some.inj hexisting).symm
      · rw [hold p heq] at hexisting
        exact hpaths p hp existing hexisting
    obtain ⟨files', hrest, hall⟩ := ih hfree
    refine ⟨files', ?_, ?_⟩
    · rw [writeAll, hwrite, ok_bind, hrest]
    · intro p
      rcases hall p with hp | ⟨hnot, hp⟩
      · exact .inl hp
      by_cases heq : p = path
      · rw [heq] at hp
        exact .inl (heq ▸ hp.trans hnew)
      · refine .inr ⟨?_, hp.trans (hold p heq)⟩
        rw [List.mem_cons, not_or]
        exact ⟨heq, hnot⟩

theorem mapM_const {α β ε : Type} {f : α → Except ε β} {l : List α} {v : β} (h : ∀ x ∈ l, f x = .ok v) :
    l.mapM f = .ok (l.map fun _ => v) := by
  induction l with
  | nil => rfl
  | cons x l ih =>
    obtain ⟨hx, hl⟩ := List.forall_mem_cons.1 h
    rw [List.mapM_cons, hx, ih hl]
    rfl

variable {ν : Type} {E : Addresses} {K : JsNumbers ν} {keccak256 sha256 : Bytes → Bytes32}

omit [DecidableEq D] in
theorem readSeed_ok {files : Files D} {path : ReplicaFile D} {bytes : Bytes}
    {v : List (JsString × JsValue ν) × RosterRecord × ScopeText} (hfile : files path = some bytes)
    (hload : loadSeed E K keccak256 sha256 bytes (sha256 bytes) = .ok v) :
    readSeed E K keccak256 sha256 files (sha256 bytes) path = .ok v := by
  rw [readSeed, hfile, orRevert, ok_bind, hload]
  rfl

/-- **Staging** writes a seed that is read back to every directory. -/
theorem stage_ok {r : RosterRecord} {scope : ScopeText} {directories : List D} {files : Files D}
    {seed : Bytes} {v : List (JsString × JsValue ν) × RosterRecord × ScopeText}
    (hseed : seedBytes E K keccak256 sha256 r scope = .ok seed)
    (hload : loadSeed E K keccak256 sha256 seed (sha256 seed) = .ok v) (htwo : 2 ≤ directories.length)
    (hnodup : directories.Nodup) (hfree : ∀ d ∈ directories, Free files (.seed d (sha256 seed)) seed) :
    ∃ files', stageRosterBundleReplicas E K keccak256 sha256 r scope directories files =
        .ok (⟨sha256 seed, directories.map (.seed · (sha256 seed)), directories⟩, files') ∧
      ∀ path ∈ directories.map (ReplicaFile.seed · (sha256 seed)), files' path = some seed := by
  have hpaths : ∀ path ∈ directories.map (ReplicaFile.seed · (sha256 seed)), Free files path seed := by
    intro path hpath
    obtain ⟨d, hd, rfl⟩ := List.mem_map.1 hpath
    exact hfree d hd
  obtain ⟨files', hwrite, hall⟩ := writeAll_ok hpaths
  have hwritten : ∀ path ∈ directories.map (ReplicaFile.seed · (sha256 seed)), files' path = some seed := by
    intro path hpath
    exact (hall path).resolve_right fun h => h.1 hpath
  have hread := mapM_const fun path hpath => readSeed_ok (hwritten path hpath) hload
  have hdirs : ¬ (directories.length < 2 ∨ ¬ directories.Nodup) := by
    rintro (h | h)
    · omega
    · exact h hnodup
  refine ⟨files', ?_, hwritten⟩
  simp only [stageRosterBundleReplicas, revertIf_of_not hdirs, ok_bind, hseed, hwrite, hread]
  rfl

/-- **Finalizing** writes the bundle of the seeds to every directory. -/
theorem finalize_ok {directories : List D} {files : Files D} {seed : Bytes} {publishedAt : ℕ}
    {l : List (JsString × JsValue ν)} {record : RosterRecord} {scope : ScopeText} {out : ExportedBundle}
    (hload : loadSeed E K keccak256 sha256 seed (sha256 seed) = .ok (l, record, scope))
    (hout : exportRosterBundle E K keccak256 sha256 { record with publishedAt } scope = .ok out)
    (htwo : 2 ≤ directories.length)
    (hseeds : ∀ path ∈ directories.map (ReplicaFile.seed · (sha256 seed)), files path = some seed)
    (hfree : ∀ d ∈ directories, Free files (.bundle d out.contentHash) out.bytes) :
    ∃ files', finalizeRosterBundleReplicas E K keccak256 sha256
        ⟨sha256 seed, directories.map (.seed · (sha256 seed)), directories⟩ publishedAt files =
        .ok (⟨sha256 seed, out.contentHash, directories.map (.bundle · out.contentHash)⟩, files') ∧
      ∀ d ∈ directories, files' (.bundle d out.contentHash) = some out.bytes := by
  have hpaths : ∀ path ∈ directories.map (ReplicaFile.bundle · out.contentHash), Free files path out.bytes := by
    intro path hpath
    obtain ⟨d, hd, rfl⟩ := List.mem_map.1 hpath
    exact hfree d hd
  obtain ⟨files', hwrite, hall⟩ := writeAll_ok hpaths
  have hread := mapM_const fun path hpath => readSeed_ok (hseeds path hpath) hload
  refine ⟨files', ?_, ?_⟩
  · have hcount : ¬ (directories.length < 2 ∨
        (directories.map (ReplicaFile.seed · (sha256 seed))).length ≠ directories.length) := by
      rw [List.length_map]
      omega
    obtain ⟨d, rest, rfl⟩ := List.exists_cons_of_length_pos (l := directories) (by omega)
    -- every seed is the first one
    have hsame : ¬ ∃ seed' ∈ (rest.map (ReplicaFile.seed · (sha256 seed))).map fun _ => (l, record, scope),
        (JsValue.obj seed'.1).text K.numbers ≠ (JsValue.obj l).text K.numbers := by
      rintro ⟨seed', hmem, hne⟩
      obtain ⟨_, -, rfl⟩ := List.mem_map.1 hmem
      exact hne rfl
    rw [List.map_cons, List.map_cons] at hread
    rw [List.map_cons] at hcount hwrite
    simp only [finalizeRosterBundleReplicas, List.map_cons, revertIf_of_not hcount, ok_bind, hread,
      revertIf_of_not hsame, hout, hwrite]
    rfl
  · intro d hd
    exact (hall _).resolve_right fun h => h.1 (List.mem_map_of_mem hd)

end

/-! ## The round trips -/

/-- Finalizing with a time of publication gives the bundle, in every directory where no other
    content has its name. -/
def Finalizes {ν D : Type} [DecidableEq D] (E : Addresses) (K : JsNumbers ν)
    (keccak256 sha256 : Bytes → Bytes32) (staged : StagedReplicas D) (publishedAt : ℕ) (files : Files D)
    (out : ExportedBundle) : Prop :=
  (∀ d ∈ staged.replicaDirectories, Free files (.bundle d out.contentHash) out.bytes) →
    ∃ finalized files', finalizeRosterBundleReplicas E K keccak256 sha256 staged publishedAt files =
        .ok (finalized, files') ∧
      finalized.contentHash = out.contentHash ∧
      finalized.files = staged.replicaDirectories.map (.bundle · out.contentHash) ∧
      ∀ path ∈ finalized.files, files' path = some out.bytes

/-- **Roster bundles are read back, and are canonical.**  An export is loaded with the values
    of its record; records that differ in order and letter case have one export; and the seed
    of a record, staged or by itself, gives every export of the record. -/
theorem roster_bundle_round_trip {ν : Type} (E : Addresses) (K : JsNumbers ν)
    (keccak256 sha256 : Bytes → Bytes32) {r : RosterRecord} {scope : ScopeText} {out : ExportedBundle}
    (h : exportRosterBundle E K keccak256 sha256 r scope = .ok out) :
    (∃ b loaded, r.Reads E scope b ∧
      RosterBundle.loadRosterBundle keccak256 sha256 (decodeBundle E K) out.bytes out.contentHash =
        .ok loaded ∧
      loaded.tree.root = b.root ∧ loaded.tree.entries.Perm b.entries ∧
      loaded.bundle = { b with entries := loaded.tree.entries } ∧
      loaded.metadata =
        { contentHash := out.contentHash, scope := b.scope, epoch := b.epoch, root := b.root
          sourceCutoff := b.sourceCutoff, publishedAt := b.publishedAt, validUntil := b.validUntil
          snapshotId := b.snapshotId, listVersion := b.listVersion, entryCount := b.entries.length }) ∧
    (∀ r' scope', r.SameRoster r' → scope'.lowered = scope.lowered → (r'.normalize E scope').isSome = true →
      exportRosterBundle E K keccak256 sha256 r' scope' = .ok out) ∧
    ∃ seed, seedBytes E K keccak256 sha256 r scope = .ok seed ∧
      (∀ publishedAt out',
        exportRosterBundle E K keccak256 sha256 { r with publishedAt } scope = .ok out' →
        recoverRosterBundleFromSeed E K keccak256 sha256 seed (sha256 seed) publishedAt = .ok out') ∧
      ∀ {D : Type} [DecidableEq D] (directories : List D) (files : Files D),
        2 ≤ directories.length → directories.Nodup →
        (∀ d ∈ directories, Free files (.seed d (sha256 seed)) seed) →
        ∃ staged files', stageRosterBundleReplicas E K keccak256 sha256 r scope directories files =
            .ok (staged, files') ∧
          staged.seedHash = sha256 seed ∧ staged.replicaDirectories = directories ∧
          ∀ later : Files D, (∀ path ∈ staged.seedFiles, later path = files' path) → ∀ publishedAt out',
            exportRosterBundle E K keccak256 sha256 { r with publishedAt } scope = .ok out' →
            Finalizes E K keccak256 sha256 staged publishedAt later out' := by
  obtain ⟨b, tree, hreads, hexports⟩ := reads_of_export h
  have hseed := seedBytes_eq hreads hexports
  have hload := loadSeed_seedOf hreads hexports
  refine ⟨?_, fun r' scope' => export_of_same h, _, hseed, ?_, ?_⟩
  · refine ⟨b, _, hreads, hexports.load, hexports.root, hexports.entries_perm, rfl, ?_⟩
    simp only [LoadedBundle.metadata, hexports.root, hexports.entries_perm.length_eq]
  · intro publishedAt out' hout
    have hcanonical := export_canonical hreads hexports hout
    rw [recoverRosterBundleFromSeed, hload, ok_bind]
    exact hcanonical
  · intro D _ directories files htwo hnodup hfree
    obtain ⟨files', hstage, hwritten⟩ := stage_ok hseed hload htwo hnodup hfree
    refine ⟨_, files', hstage, rfl, rfl, ?_⟩
    intro later hkept publishedAt out' hout hfree'
    have hcanonical := export_canonical hreads hexports hout
    have hseeds : ∀ path ∈ directories.map (ReplicaFile.seed · _), later path = some _ :=
      fun path hpath => (hkept path hpath).trans (hwritten path hpath)
    obtain ⟨last, hfinal, hbundle⟩ := finalize_ok hload hcanonical htwo hseeds hfree'
    refine ⟨_, last, hfinal, rfl, rfl, ?_⟩
    intro path hpath
    obtain ⟨d, hd, rfl⟩ := List.mem_map.1 hpath
    exact hbundle d hd

/-- The numbers that are natural. -/
def JsNumbers.nat : JsNumbers ℕ where
  numbers := .nat
  ofNat := id
  toNat? n := if n ≤ MAX_SAFE_INTEGER then some n else none
  toNat?_ofNat _ h := if_pos h
  text_ofNat _ _ := rfl

namespace OneEntry

/-- The texts of the bundle with the one entry of subject 7. -/
def text : BundleText := .ofBundle plainAddresses bundle

/-- The digits from "a" to "f" in capital letters. -/
def capitals (s : JsString) : JsString :=
  s.map fun u => if 0x61 ≤ u.toNat ∧ u.toNat ≤ 0x66 then u - 0x20 else u

def contentHash (bs : Bytes) : Bytes32 := BitVec.ofNat 256 (ofBytes bs)

theorem export_isSome : ∀ publishedAt ∈ [2600, 3000], (value? (exportRosterBundle plainAddresses JsNumbers.nat
    keccak256 contentHash { text.toRosterRecord with publishedAt } text.scope)).isSome = true := by
  decide +kernel

end OneEntry

theorem roster_bundle_round_trip_entry : ∃ out seed out',
    let bundleOf := exportRosterBundle plainAddresses JsNumbers.nat OneEntry.keccak256 OneEntry.contentHash
    let record := OneEntry.text.toRosterRecord
    bundleOf { record with publishedAt := 3000 } OneEntry.text.scope = .ok out ∧
      bundleOf { record with publishedAt := 3000, root := OneEntry.capitals record.root } OneEntry.text.scope =
        .ok out ∧
      bundleOf { record with publishedAt := 2600 } OneEntry.text.scope = .ok out' ∧
      recoverRosterBundleFromSeed plainAddresses JsNumbers.nat OneEntry.keccak256 OneEntry.contentHash seed
        (OneEntry.contentHash seed) 2600 = .ok out' ∧
      ∃ loaded, RosterBundle.loadRosterBundle OneEntry.keccak256 OneEntry.contentHash
        (decodeBundle plainAddresses JsNumbers.nat) out.bytes out.contentHash = .ok loaded := by
  obtain ⟨out, hout⟩ := Option.isSome_iff_exists.1 (OneEntry.export_isSome 3000 (by decide))
  obtain ⟨out', hout'⟩ := Option.isSome_iff_exists.1 (OneEntry.export_isSome 2600 (by decide))
  rw [value?_eq_some] at hout hout'
  obtain ⟨⟨b, loaded, -, hload, -⟩, hsame, seed, -, hrecover, -⟩ :=
    roster_bundle_round_trip plainAddresses JsNumbers.nat OneEntry.keccak256 OneEntry.contentHash hout
  have hroot : HexText.lower (OneEntry.capitals OneEntry.text.root) = HexText.lower OneEntry.text.root := by
    decide +kernel
  refine ⟨out, seed, out', hout, hsame _ OneEntry.text.scope ?_ rfl (by decide +kernel), hout',
    hrecover 2600 out' hout', loaded, hload⟩
  exact ⟨rfl, rfl, rfl, rfl, hroot, rfl, rfl, rfl, rfl, rfl, .refl _, .refl _⟩

end Proofmark
