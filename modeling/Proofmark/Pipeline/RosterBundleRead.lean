/-
  Bundles read back: the JSON of a bundle and of its seed, and the texts of values.

  `RosterRecord.Reads` gives a record its values.  The texts that an export makes of the record
  are those of the values (`RosterRecord.Reads.normalize`), so that nothing else of the record
  reaches the bytes.
-/
import Proofmark.Pipeline.RosterBundleText
import Mathlib.Data.List.Forall2

namespace Proofmark

open Words Revert Utf8
open HexText (lower)
open JsValue (IsRecord Records)
open Canonical (ascii)

/-! ## Reading JSON back -/

section
variable {ν : Type} {K : JsNumbers ν} {l : List (JsString × JsValue ν)}

theorem mapM_map {α β : Type} {f : α → β} {g : β → Option α} {l : List α} (h : ∀ x ∈ l, g (f x) = some x) :
    (l.map f).mapM g = some l := by
  induction l with
  | nil => rfl
  | cons x l ih =>
    obtain ⟨hx, hl⟩ := List.forall_mem_cons.1 h
    rw [List.map_cons, List.mapM_cons, hx, ih hl]
    rfl

theorem naturalAt_eq (h : (l.map Prod.fst).Nodup) {n : ℕ} {key : String}
    (hmem : (ascii key, number K n) ∈ l) (hn : n ≤ MAX_SAFE_INTEGER) :
    naturalAt K l key = some n := by
  rw [naturalAt, JsValue.lookup_eq_of_mem h hmem]
  exact K.toNat?_ofNat n hn

theorem stringAt_eq (h : (l.map Prod.fst).Nodup) {key : String} {s : JsString}
    (hmem : (ascii key, .str s) ∈ l) : stringAt l key = some s := by
  rw [stringAt, JsValue.lookup_eq_of_mem h hmem]

theorem objectAt_eq (h : (l.map Prod.fst).Nodup) {key : String} {m : List (JsString × JsValue ν)}
    (hmem : (ascii key, .obj m) ∈ l) : objectAt l key = some m := by
  rw [objectAt, JsValue.lookup_eq_of_mem h hmem]

theorem arrayAt_eq (h : (l.map Prod.fst).Nodup) {key : String} {m : List (JsValue ν)}
    (hmem : (ascii key, .arr m) ∈ l) : arrayAt l key = some m := by
  rw [arrayAt, JsValue.lookup_eq_of_mem h hmem]

theorem parseLine_jsonLine (h : (JsValue.obj l).Records) : parseLine K (jsonLine K l) = some l := by
  have hb : JsValue.Boundary ['\n'] := JsValue.Boundary.cons [] (by decide)
  have htext : decodeText (jsonLine K l) = some ((JsValue.obj l).text K.numbers ++ ['\n']) := by
    rw [decodeText, jsonLine, decode_encode, JsValue.text]
    rfl
  rw [parseLine, htext]
  simp only [Option.bind_eq_bind, Option.bind_some, h.parse_text_append K.numbers hb (by decide)]

end

/-- The numbers of a scope are safe integers. -/
def ScopeText.Safe (s : ScopeText) : Prop :=
  s.sourceChainId ≤ MAX_SAFE_INTEGER ∧ s.sourceChainKey ≤ MAX_SAFE_INTEGER ∧
    s.hubChainId ≤ MAX_SAFE_INTEGER

/-- The numbers of a bundle are safe integers. -/
structure BundleText.Safe (b : BundleText) : Prop where
  scope : b.scope.Safe
  bundleVersion : b.bundleVersion ≤ MAX_SAFE_INTEGER
  rosterFormatVersion : b.rosterFormatVersion ≤ MAX_SAFE_INTEGER
  epochSchemaVersion : b.epochSchemaVersion ≤ MAX_SAFE_INTEGER
  rosterAuthVersion : b.rosterAuthVersion ≤ MAX_SAFE_INTEGER
  epoch : b.epoch ≤ MAX_SAFE_INTEGER
  listVersion : b.listVersion ≤ MAX_SAFE_INTEGER
  sourceCutoff : b.sourceCutoff ≤ MAX_SAFE_INTEGER
  publishedAt : b.publishedAt ≤ MAX_SAFE_INTEGER
  validUntil : b.validUntil ≤ MAX_SAFE_INTEGER

section
variable {ν : Type} (K : JsNumbers ν)

theorem isRecord_scope (s : ScopeText) : IsRecord ((s.fields K).map Prod.fst) := by
  have h : IsRecord scopeKeys := by decide +kernel
  exact h

theorem isRecord_entry (e : EntryText) : IsRecord ((e.fields (ν := ν)).map Prod.fst) := by
  have h : IsRecord entryKeys := by decide +kernel
  exact h

/-- The keys of a bundle in their order. -/
def bundleKeys : List JsString :=
  [ascii "bundleVersion", ascii "rosterFormatVersion", ascii "epochSchemaVersion",
    ascii "rosterAuthVersion", ascii "scope", ascii "epoch", ascii "root", ascii "listVersion",
    ascii "sourceCutoff", ascii "publishedAt", ascii "validUntil", ascii "snapshotId",
    ascii "approvedIssuers", ascii "entries"]

theorem keys_fields (b : BundleText) : (b.fields K).map Prod.fst = bundleKeys := rfl

theorem isRecord_bundleKeys : IsRecord bundleKeys := by decide +kernel

theorem isRecord_seedKeys : IsRecord seedKeys := by decide +kernel

theorem scope_ofFields {s : ScopeText} (h : s.Safe) : ScopeText.ofFields K (s.fields K) = some s := by
  have hn := (isRecord_scope K s).1
  obtain ⟨h1, h2, h3⟩ := h
  have e1 : naturalAt K (s.fields K) "sourceChainId" = some _ := naturalAt_eq hn (List.mem_of_getElem? (i := 0) rfl) h1
  have e2 : naturalAt K (s.fields K) "sourceChainKey" = some _ := naturalAt_eq hn (List.mem_of_getElem? (i := 1) rfl) h2
  have e3 : naturalAt K (s.fields K) "hubChainId" = some _ := naturalAt_eq hn (List.mem_of_getElem? (i := 2) rfl) h3
  have e4 : stringAt (s.fields K) "source" = some _ := stringAt_eq hn (List.mem_of_getElem? (i := 3) rfl)
  have e5 : stringAt (s.fields K) "asc" = some _ := stringAt_eq hn (List.mem_of_getElem? (i := 4) rfl)
  have e6 : stringAt (s.fields K) "registry" = some _ := stringAt_eq hn (List.mem_of_getElem? (i := 5) rfl)
  simp only [ScopeText.ofFields, e1, e2, e3, e4, e5, e6]
  rfl

theorem entry_ofJson (e : EntryText) : EntryText.ofJson (.obj (e.fields (ν := ν))) = some e := by
  have hn := (isRecord_entry (ν := ν) e).1
  have e1 : stringAt (e.fields (ν := ν)) "subject" = some _ := stringAt_eq hn (List.mem_of_getElem? (i := 0) rfl)
  have e2 : stringAt (e.fields (ν := ν)) "attrs" = some _ := stringAt_eq hn (List.mem_of_getElem? (i := 1) rfl)
  have e3 : stringAt (e.fields (ν := ν)) "claimsRoot" = some _ := stringAt_eq hn (List.mem_of_getElem? (i := 2) rfl)
  have e4 : stringAt (e.fields (ν := ν)) "evidenceHash" = some _ := stringAt_eq hn (List.mem_of_getElem? (i := 3) rfl)
  have e5 : stringAt (e.fields (ν := ν)) "issuer" = some _ := stringAt_eq hn (List.mem_of_getElem? (i := 4) rfl)
  simp only [EntryText.ofJson, e1, e2, e3, e4, e5]
  rfl

/-- The fields that a bundle and its seed share. -/
def BundleText.recordFields (b : BundleText) : List (JsString × JsValue ν) :=
  [(ascii "rosterFormatVersion", number K b.rosterFormatVersion),
    (ascii "epochSchemaVersion", number K b.epochSchemaVersion),
    (ascii "rosterAuthVersion", number K b.rosterAuthVersion), (ascii "scope", .obj (b.scope.fields K)),
    (ascii "epoch", number K b.epoch), (ascii "root", .str b.root),
    (ascii "listVersion", number K b.listVersion), (ascii "sourceCutoff", number K b.sourceCutoff),
    (ascii "validUntil", number K b.validUntil), (ascii "snapshotId", .str b.snapshotId),
    (ascii "approvedIssuers", .arr (b.approvedIssuers.map .str)),
    (ascii "entries", .arr (b.entries.map fun e => .obj e.fields))]

theorem seedFields_fields (b : BundleText) :
    seedFields K (b.fields K) = (ascii "seedVersion", number K 1) :: b.recordFields K := by
  have hkeys : bundleKeys.map (fun k => decide (k ≠ ascii "bundleVersion" ∧ k ≠ ascii "publishedAt")) =
      [false, true, true, true, true, true, true, true, true, false, true, true, true, true] := by
    decide +kernel
  rw [← keys_fields K b, List.map_map] at hkeys
  simp only [BundleText.fields, List.map_cons, List.map_nil, Function.comp_apply, List.cons.injEq] at hkeys
  simp only [seedFields, BundleText.fields, List.filter_cons, hkeys]
  rfl

variable {K} {l : List (JsString × JsValue ν)} {b : BundleText}

theorem record_ofFields (hn : (l.map Prod.fst).Nodup) (hl : ∀ f ∈ b.recordFields K, f ∈ l) (h : b.Safe)
    (publishedAt : ℕ) :
    RosterRecord.ofFields K l publishedAt = some { b.toRosterRecord with publishedAt } := by
  have hmem : ∀ (i : ℕ) f, (b.recordFields K)[i]? = some f → f ∈ l := fun i f hi =>
    hl f (List.mem_of_getElem? hi)
  have e1 : naturalAt K l "rosterFormatVersion" = some _ := naturalAt_eq hn (hmem 0 _ rfl) h.rosterFormatVersion
  have e2 : naturalAt K l "epochSchemaVersion" = some _ := naturalAt_eq hn (hmem 1 _ rfl) h.epochSchemaVersion
  have e3 : naturalAt K l "rosterAuthVersion" = some _ := naturalAt_eq hn (hmem 2 _ rfl) h.rosterAuthVersion
  have e4 : naturalAt K l "epoch" = some _ := naturalAt_eq hn (hmem 4 _ rfl) h.epoch
  have e5 : stringAt l "root" = some _ := stringAt_eq hn (hmem 5 _ rfl)
  have e6 : naturalAt K l "listVersion" = some _ := naturalAt_eq hn (hmem 6 _ rfl) h.listVersion
  have e7 : naturalAt K l "sourceCutoff" = some _ := naturalAt_eq hn (hmem 7 _ rfl) h.sourceCutoff
  have e8 : naturalAt K l "validUntil" = some _ := naturalAt_eq hn (hmem 8 _ rfl) h.validUntil
  have e9 : stringAt l "snapshotId" = some _ := stringAt_eq hn (hmem 9 _ rfl)
  have e10 : stringsAt l "approvedIssuers" = some b.approvedIssuers := by
    rw [stringsAt, arrayAt_eq hn (hmem 10 _ rfl), Option.bind_some]
    exact mapM_map fun _ _ => rfl
  have e11 : arrayAt l "entries" = some _ := arrayAt_eq hn (hmem 11 _ rfl)
  have e12 : (b.entries.map fun e => JsValue.obj (e.fields (ν := ν))).mapM EntryText.ofJson =
      some b.entries := mapM_map fun e _ => entry_ofJson e
  simp only [RosterRecord.ofFields, e1, e2, e3, e4, e5, e6, e7, e8, e9, e10, e11, Option.bind_eq_bind,
    Option.bind_some, e12]
  rfl

theorem scopeAt (hn : (l.map Prod.fst).Nodup) (hl : ∀ f ∈ b.recordFields K, f ∈ l) :
    objectAt l "scope" = some (b.scope.fields K) :=
  objectAt_eq hn (hl _ (List.mem_of_getElem? (i := 3) rfl))

theorem recordFields_subset (b : BundleText) : ∀ f ∈ b.recordFields K, f ∈ b.fields K := by
  intro f hf
  rw [← (List.cons.inj (seedFields_fields K b)).2] at hf
  exact (List.mem_filter.1 hf).1

theorem bundle_ofFields (h : b.Safe) : BundleText.ofFields K (b.fields K) = some b := by
  have hn : ((b.fields K).map Prod.fst).Nodup := isRecord_bundleKeys.1
  have hl := recordFields_subset (K := K) b
  have e1 : naturalAt K (b.fields K) "publishedAt" = some _ :=
    naturalAt_eq hn (List.mem_of_getElem? (i := 9) rfl) h.publishedAt
  have e2 : naturalAt K (b.fields K) "bundleVersion" = some _ :=
    naturalAt_eq hn (List.mem_of_getElem? (i := 0) rfl) h.bundleVersion
  simp only [BundleText.ofFields, e1, e2, record_ofFields hn hl h, scopeAt hn hl, Option.bind_eq_bind,
    Option.bind_some, scope_ofFields K h.scope]
  rfl

theorem records_recordFields (b : BundleText) :
    ∀ f ∈ b.recordFields K, f.2.AllObjects fun l => IsRecord (l.map Prod.fst) := by
  have hscope : (JsValue.obj (b.scope.fields K)).AllObjects fun l => IsRecord (l.map Prod.fst) := by
    refine JsValue.allObjects_obj.2 ⟨isRecord_scope K b.scope, ?_⟩
    simp [ScopeText.fields, number, JsValue.AllObjects]
  have hissuers : (JsValue.arr (ν := ν) (b.approvedIssuers.map .str)).AllObjects
      fun l => IsRecord (l.map Prod.fst) := by
    refine JsValue.allObjects_arr.2 ?_
    simp [JsValue.AllObjects]
  have hentries : (JsValue.arr (ν := ν) (b.entries.map fun e => .obj e.fields)).AllObjects
      fun l => IsRecord (l.map Prod.fst) := by
    refine JsValue.allObjects_arr.2 ?_
    intro v hv
    obtain ⟨e, -, rfl⟩ := List.mem_map.1 hv
    refine JsValue.allObjects_obj.2 ⟨isRecord_entry e, ?_⟩
    simp [EntryText.fields, JsValue.AllObjects]
  simp only [BundleText.recordFields, List.forall_mem_cons]
  exact ⟨trivial, trivial, trivial, hscope, trivial, trivial, trivial, trivial, trivial, trivial, hissuers,
    hentries, by simp⟩

theorem records_bundle (b : BundleText) : (JsValue.obj (b.fields K)).Records := by
  refine JsValue.allObjects_obj.2 ⟨isRecord_bundleKeys, ?_⟩
  have hshared : ∀ (i : ℕ) f, (b.recordFields K)[i]? = some f →
      f.2.AllObjects fun l => IsRecord (l.map Prod.fst) := fun i f hi =>
    records_recordFields b f (List.mem_of_getElem? hi)
  simp only [BundleText.fields, List.forall_mem_cons]
  exact ⟨trivial, trivial, trivial, trivial, hshared 3 _ rfl, trivial, trivial, trivial, trivial, trivial,
    trivial, trivial, hshared 10 _ rfl, hshared 11 _ rfl, by simp⟩

theorem records_seed (b : BundleText) : (JsValue.obj (seedFields K (b.fields K))).Records := by
  rw [seedFields_fields]
  refine JsValue.allObjects_obj.2 ⟨isRecord_seedKeys, ?_⟩
  exact List.forall_mem_cons.2 ⟨trivial, records_recordFields b⟩

theorem bundleKnown_fields (b : BundleText) : bundleKnown (b.fields K) = true := by
  have hn : ((b.fields K).map Prod.fst).Nodup := isRecord_bundleKeys.1
  have honly : ∀ (keys : List JsString) {l : List (JsString × JsValue ν)} {known : List JsString},
      l.map Prod.fst = keys → keys.all known.contains = true → onlyKeys l known = true := by
    intro keys l known hkeys hall
    rw [← hkeys, List.all_map] at hall
    exact hall
  have hscope : objectAt (b.fields K) "scope" = some _ := scopeAt hn (recordFields_subset b)
  have hentries : arrayAt (b.fields K) "entries" = some _ :=
    arrayAt_eq hn (List.mem_of_getElem? (i := 13) rfl)
  have hall : (b.entries.map fun e => JsValue.obj (e.fields (ν := ν))).all entryKnown = true := by
    rw [List.all_map, List.all_eq_true]
    intro e _
    exact honly entryKeys rfl (by decide +kernel)
  rw [bundleKnown, hscope, hentries, Option.any_some, Option.any_some, hall, Bool.and_true,
    honly bundleKeys (keys_fields K b) (by decide +kernel), Bool.true_and]
  exact honly scopeKeys rfl (by decide +kernel)

end

/-! ## Texts and values -/

section
variable {E : Addresses}

/-- `mapM` elementwise. -/
theorem mapM_eq_some {α β : Type} {f : α → Option β} {l : List α} {l' : List β} :
    l.mapM f = some l' ↔ List.Forall₂ (fun a b => f a = some b) l l' := by
  induction l generalizing l' with
  | nil =>
    simp only [List.mapM_nil, List.forall₂_nil_left_iff]
    exact ⟨fun h => (Option.some.inj h).symm, fun h => by rw [h]; rfl⟩
  | cons a l ih =>
    rw [List.mapM_cons]
    constructor
    · intro h
      obtain ⟨b, hb, h⟩ := Option.bind_eq_some_iff.1 h
      obtain ⟨m, hm, h⟩ := Option.bind_eq_some_iff.1 h
      obtain rfl := Option.some.inj h
      exact .cons hb (ih.1 hm)
    · intro h
      cases h with
      | cons hb hm =>
        rw [hb, Option.bind_eq_bind, Option.bind_some, ih.2 hm]
        rfl

/-- An address text is the checksum text of its address. -/
theorem getAddress_eq_some {s t : JsString} :
    E.getAddress s = some t ↔ ∃ a, E.address? s = some a ∧ E.checksum a = t := Option.map_eq_some_iff

theorem addressNumber_checksum (a : Address) : addressNumber (E.checksum a) = a.toNat := by
  rw [addressNumber, E.hexString?_checksum]
  rfl

theorem sort_checksum (l : List Address) :
    (l.map E.checksum).insertionSort (fun x y => addressNumber x ≤ addressNumber y) =
      (l.insertionSort fun x y => x.toNat ≤ y.toNat).map E.checksum := by
  refine (List.map_insertionSort _ _ _ _ ?_).symm
  intro x _ y _
  rw [addressNumber_checksum, addressNumber_checksum]

def ScopeText.ofScope (E : Addresses) (s : RosterScope) : ScopeText where
  sourceChainId := s.sourceChainId
  sourceChainKey := s.sourceChainKey
  hubChainId := s.hubChainId
  source := E.checksum s.source
  asc := E.checksum s.asc
  registry := E.checksum s.registry

/-- The texts of a bundle as an export writes them. -/
def BundleText.ofBundle (E : Addresses) (b : RosterBundle) : BundleText where
  rosterFormatVersion := b.rosterFormatVersion
  epochSchemaVersion := b.epochSchemaVersion
  rosterAuthVersion := b.rosterAuthVersion
  epoch := b.epoch
  root := bytes32Text b.root
  listVersion := b.listVersion
  sourceCutoff := b.sourceCutoff
  publishedAt := b.publishedAt
  validUntil := b.validUntil
  snapshotId := bytes32Text b.snapshotId
  approvedIssuers := b.approvedIssuers.map E.checksum
  entries := b.entries.map (EntryText.ofEntry E)
  bundleVersion := b.bundleVersion
  scope := .ofScope E b.scope

theorem scope_read (s : RosterScope) : (ScopeText.ofScope E s).read E = some s := by
  simp [ScopeText.read, ScopeText.ofScope, E.address?_checksum]

theorem entry_read (e : RosterEntry) : (EntryText.ofEntry E e).read E = some e := by
  simp [EntryText.read, EntryText.ofEntry, E.address?_checksum, bytes32?_bytes32Text]

/-- **The texts of a bundle have its values.** -/
theorem bundle_read (b : RosterBundle) : (BundleText.ofBundle E b).read E = some b := by
  have hissuers : (b.approvedIssuers.map E.checksum).mapM E.address? = some b.approvedIssuers :=
    mapM_map fun a _ => E.address?_checksum a
  have hentries : (b.entries.map (EntryText.ofEntry E)).mapM (EntryText.read E) = some b.entries :=
    mapM_map fun e _ => entry_read e
  simp only [BundleText.read, BundleText.ofBundle, scope_read, bytes32?_bytes32Text, hissuers, hentries]
  rfl

/-- The values of the texts of a scope. -/
structure ScopeText.Reads (E : Addresses) (s : ScopeText) (v : RosterScope) : Prop where
  sourceChainId : v.sourceChainId = s.sourceChainId
  sourceChainKey : v.sourceChainKey = s.sourceChainKey
  hubChainId : v.hubChainId = s.hubChainId
  source : E.address? s.source = some v.source
  asc : E.address? s.asc = some v.asc
  registry : E.address? s.registry = some v.registry

structure EntryText.Reads (E : Addresses) (e : EntryText) (v : RosterEntry) : Prop where
  subject : E.address? e.subject = some v.subject
  attrs : bytes32? (lower e.attrs) = some v.attrs
  claimsRoot : bytes32? (lower e.claimsRoot) = some v.claimsRoot
  evidenceHash : bytes32? (lower e.evidenceHash) = some v.evidenceHash
  issuer : E.address? e.issuer = some v.issuer

/-- The values of the texts of a record, with the issuers in the order of their numbers. -/
structure RosterRecord.Reads (E : Addresses) (r : RosterRecord) (scope : ScopeText) (b : RosterBundle) :
    Prop where
  bundleVersion : b.bundleVersion = 1
  rosterFormatVersion : b.rosterFormatVersion = r.rosterFormatVersion
  epochSchemaVersion : b.epochSchemaVersion = r.epochSchemaVersion
  rosterAuthVersion : b.rosterAuthVersion = r.rosterAuthVersion
  scope : scope.Reads E b.scope
  epoch : b.epoch = r.epoch
  root : bytes32? (lower r.root) = some b.root
  listVersion : b.listVersion = r.listVersion
  sourceCutoff : b.sourceCutoff = r.sourceCutoff
  publishedAt : b.publishedAt = r.publishedAt
  validUntil : b.validUntil = r.validUntil
  snapshotId : bytes32? (lower r.snapshotId) = some b.snapshotId
  approvedIssuers : ∃ issuers, r.approvedIssuers.mapM E.address? = some issuers ∧
    b.approvedIssuers = issuers.insertionSort fun x y => x.toNat ≤ y.toNat
  entries : List.Forall₂ (EntryText.Reads E) r.entries b.entries

theorem lower_of_reads {s : JsString} {w : Bytes32} (h : bytes32? (lower s) = some w) :
    lower s = bytes32Text w := by
  rw [← lower_of_bytes32? h, HexText.lower_lower]

theorem getAddress_of {s : JsString} {a : Address} (h : E.address? s = some a) :
    E.getAddress s = some (E.checksum a) := getAddress_eq_some.2 ⟨a, h, rfl⟩

theorem EntryText.Reads.normalize {e : EntryText} {v : RosterEntry} (h : e.Reads E v) :
    e.normalize E = some (.ofEntry E v) := by
  simp only [EntryText.normalize, getAddress_of h.subject, getAddress_of h.issuer, lower_of_reads h.attrs,
    lower_of_reads h.claimsRoot, lower_of_reads h.evidenceHash]
  rfl

theorem ScopeText.Reads.normalize {s : ScopeText} {v : RosterScope} (h : s.Reads E v) :
    s.normalize E = some (.ofScope E v) := by
  simp only [ScopeText.normalize, getAddress_of h.source, getAddress_of h.asc, getAddress_of h.registry,
    ScopeText.ofScope, h.sourceChainId, h.sourceChainKey, h.hubChainId]
  rfl

/-- **The texts of an accepted record are those of its values.** -/
theorem RosterRecord.Reads.normalize {r : RosterRecord} {scope : ScopeText} {b : RosterBundle}
    (h : r.Reads E scope b) : r.normalize E scope = some (.ofBundle E b) := by
  obtain ⟨issuers, hissuers, hsorted⟩ := h.approvedIssuers
  have hmap : r.approvedIssuers.mapM E.getAddress = some (issuers.map E.checksum) := by
    rw [mapM_eq_some, List.forall₂_map_right_iff]
    exact (mapM_eq_some.1 hissuers).imp fun s a hs => getAddress_of hs
  have hentries : r.entries.mapM (EntryText.normalize E) = some (b.entries.map (.ofEntry E)) := by
    rw [mapM_eq_some, List.forall₂_map_right_iff]
    exact h.entries.imp fun e v he => he.normalize
  have hsort : (issuers.map E.checksum).insertionSort (fun x y => addressNumber x ≤ addressNumber y) =
      b.approvedIssuers.map E.checksum := by rw [hsorted, sort_checksum]
  simp only [RosterRecord.normalize, hmap, hentries, h.scope.normalize, Option.bind_eq_bind, Option.bind_some,
    hsort, lower_of_reads h.root, lower_of_reads h.snapshotId]
  simp [BundleText.ofBundle, h.bundleVersion, h.rosterFormatVersion, h.epochSchemaVersion,
    h.rosterAuthVersion, h.epoch, h.listVersion, h.sourceCutoff, h.publishedAt, h.validUntil]

theorem entry_reads {e t : EntryText} {v : RosterEntry} (hn : e.normalize E = some t)
    (hr : t.read E = some v) : e.Reads E v := by
  simp only [EntryText.normalize, Option.bind_eq_bind, Option.bind_eq_some_iff, Option.pure_def,
    Option.some.injEq] at hn
  obtain ⟨s, hs, i, hi, rfl⟩ := hn
  obtain ⟨a, ha, rfl⟩ := getAddress_eq_some.1 hs
  obtain ⟨a', ha', rfl⟩ := getAddress_eq_some.1 hi
  simp only [EntryText.read, E.address?_checksum, Option.bind_eq_bind, Option.bind_some,
    Option.bind_eq_some_iff, Option.pure_def, Option.some.injEq] at hr
  obtain ⟨x, hx, y, hy, z, hz, rfl⟩ := hr
  exact ⟨ha, hx, hy, hz, ha'⟩

theorem scope_reads {s t : ScopeText} {v : RosterScope} (hn : s.normalize E = some t)
    (hr : t.read E = some v) : s.Reads E v := by
  simp only [ScopeText.normalize, Option.bind_eq_bind, Option.bind_eq_some_iff, Option.pure_def,
    Option.some.injEq] at hn
  obtain ⟨x, hx, y, hy, z, hz, rfl⟩ := hn
  obtain ⟨a, ha, rfl⟩ := getAddress_eq_some.1 hx
  obtain ⟨b, hb, rfl⟩ := getAddress_eq_some.1 hy
  obtain ⟨c, hc, rfl⟩ := getAddress_eq_some.1 hz
  simp only [ScopeText.read, E.address?_checksum, Option.bind_eq_bind, Option.bind_some, Option.pure_def,
    Option.some.injEq] at hr
  subst hr
  exact ⟨rfl, rfl, rfl, ha, hb, hc⟩

theorem forall₂_comp {α β γ : Type} {R : α → β → Prop} {S : β → γ → Prop} {T : α → γ → Prop}
    (h : ∀ a b c, R a b → S b c → T a c) {l : List α} {m : List β} {n : List γ}
    (hlm : List.Forall₂ R l m) (hmn : List.Forall₂ S m n) : List.Forall₂ T l n := by
  induction hlm generalizing n with
  | nil =>
    cases hmn
    exact .nil
  | cons hab _ ih =>
    cases hmn with
    | cons hbc hrest => exact .cons (h _ _ _ hab hbc) (ih hrest)

theorem issuers_read {l l' : List JsString} {values : List Address} (hn : l.mapM E.getAddress = some l')
    (hr : (l'.insertionSort fun x y => addressNumber x ≤ addressNumber y).mapM E.address? = some values) :
    ∃ issuers, l.mapM E.address? = some issuers ∧
      values = issuers.insertionSort fun x y => x.toNat ≤ y.toNat := by
  have hex : ∃ issuers, l.mapM E.address? = some issuers ∧ l' = issuers.map E.checksum := by
    clear hr
    have hall := mapM_eq_some.1 hn
    clear hn
    induction hall with
    | nil => exact ⟨[], rfl, rfl⟩
    | cons hx _ ih =>
      obtain ⟨a, ha, rfl⟩ := getAddress_eq_some.1 hx
      obtain ⟨issuers, hissuers, rfl⟩ := ih
      exact ⟨a :: issuers, mapM_eq_some.2 (.cons ha (mapM_eq_some.1 hissuers)), rfl⟩
  obtain ⟨issuers, hissuers, rfl⟩ := hex
  refine ⟨issuers, hissuers, ?_⟩
  rw [sort_checksum, mapM_map fun a _ => E.address?_checksum a] at hr
  exact (Option.some.inj hr).symm

/-- **What is read of the texts of a record are its values.** -/
theorem record_reads {r : RosterRecord} {scope : ScopeText} {t : BundleText} {b : RosterBundle}
    (hn : r.normalize E scope = some t) (hr : t.read E = some b) : r.Reads E scope b := by
  simp only [RosterRecord.normalize, Option.bind_eq_bind, Option.bind_eq_some_iff, Option.pure_def,
    Option.some.injEq] at hn
  obtain ⟨texts, htexts, s, hs, es, hes, rfl⟩ := hn
  simp only [BundleText.read, Option.bind_eq_bind, Option.bind_eq_some_iff, Option.pure_def,
    Option.some.injEq] at hr
  obtain ⟨v, hv, root, hroot, snapshot, hsnapshot, issuers, hissuers, entries, hentries, rfl⟩ := hr
  have hall : List.Forall₂ (EntryText.Reads E) r.entries entries := by
    refine forall₂_comp ?_ (mapM_eq_some.1 hes) (mapM_eq_some.1 hentries)
    intro _ _ _ hn hr
    exact entry_reads hn hr
  exact ⟨rfl, rfl, rfl, rfl, scope_reads hs hv, rfl, hroot, rfl, rfl, rfl, rfl, hsnapshot,
    issuers_read htexts hissuers, hall⟩

end

end Proofmark
