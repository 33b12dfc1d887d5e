/-
  Canonical JSON (src/pipeline/canonical.ts) and the evidence chain over it
  (src/pipeline/evidence.ts), for every JSON value.

  Setting the property `__proto__` of an object literal sets its prototype, so that
  `sortDeep` loses a field of that name.

  `canonical_faithful_iff`: canonical JSON is faithful to a value without such a field, and
  to no other; the head of a chain determines the steps of the chain likewise.
-/
import Proofmark.Lib.JsValue
import Proofmark.Pipeline.Disclosure
import Mathlib.Data.List.Induction

namespace Proofmark

open Words JsValue

namespace Canonical

variable {ν : Type}

/-- The code units of an ASCII string. -/
def ascii (s : String) : JsString := s.toList.map fun c => BitVec.ofNat 16 c.toNat

def PROTO : JsString := ascii "__proto__"

/-! ## `sortDeep` -/

/-- `out[k] = value` -/
def assign (out : List (JsString × JsValue ν)) (f : JsString × JsValue ν) :
    List (JsString × JsValue ν) :=
  if f.1 = PROTO then out else InsertionMap.set f.1 f.2 out

/-- The object that the loop over the sorted keys fills. -/
def fillSorted (l : List (JsString × JsValue ν)) : List (JsString × JsValue ν) :=
  propertyOrder ((sortKeys l).foldl assign [])

def sortDeep (v : JsValue ν) : JsValue ν := mapObjects fillSorted v

def canonicalJson (N : Numbers ν) (v : JsValue ν) : List Char := (sortDeep v).text N

/-! ## Fields that are lost -/

/-- No object has a field `__proto__`. -/
def ProtoFree (v : JsValue ν) : Prop := v.AllObjects fun l => PROTO ∉ l.map Prod.fst

def dropProto (l : List (JsString × JsValue ν)) : List (JsString × JsValue ν) :=
  l.filter fun f => decide (f.1 ≠ PROTO)

/-- The value without its fields `__proto__`. -/
def strip (v : JsValue ν) : JsValue ν := mapObjects dropProto v

section
variable {l : List (JsString × JsValue ν)}

theorem foldl_assign {m : List (JsString × JsValue ν)}
    (h : ((m ++ l).map Prod.fst).Nodup) : l.foldl assign m = m ++ dropProto l := by
  induction l generalizing m with
  | nil => rw [List.foldl_nil, dropProto, List.filter_nil, List.append_nil]
  | cons f l ih =>
    have hm : m ++ [f] ++ l = m ++ f :: l := by simp
    have hskip : ((m ++ l).map Prod.fst).Nodup := by
      refine h.sublist (List.Sublist.map _ ?_)
      exact List.Sublist.append_left (List.sublist_cons_self f l) m
    have hnew : f.1 ∉ m.map Prod.fst := by
      rw [List.map_append, List.nodup_append] at h
      exact fun hmem => h.2.2 _ hmem _ (by simp) rfl
    rw [List.foldl_cons, assign, dropProto, List.filter_cons]
    by_cases hp : f.1 = PROTO
    · rw [if_pos hp, if_neg (by simp [hp]), ih hskip]
      rfl
    · rw [if_neg hp, if_pos (by simp [hp]), InsertionMap.set, if_neg hnew,
        ih (by rwa [hm]), List.append_assoc]
      rfl

theorem nodup_sortKeys (hn : (l.map Prod.fst).Nodup) : ((sortKeys l).map Prod.fst).Nodup :=
  ((sortKeys_perm l).map Prod.fst).nodup_iff.2 hn

theorem fillSorted_eq (hn : (l.map Prod.fst).Nodup) :
    fillSorted l = propertyOrder (dropProto (sortKeys l)) := by
  rw [fillSorted, foldl_assign (by simpa using nodup_sortKeys hn), List.nil_append]

theorem fillSorted_perm (hn : (l.map Prod.fst).Nodup) : (fillSorted l).Perm (dropProto l) := by
  rw [fillSorted_eq hn]
  exact (propertyOrder_perm _).trans ((sortKeys_perm l).filter _)

theorem nodup_dropProto (hn : (l.map Prod.fst).Nodup) : ((dropProto l).map Prod.fst).Nodup :=
  hn.sublist (List.filter_sublist.map _)

theorem proto_not_mem_dropProto : PROTO ∉ (dropProto l).map Prod.fst := by
  intro h
  obtain ⟨f, hf, heq⟩ := List.mem_map.1 h
  simpa [heq] using (List.mem_filter.1 hf).2

theorem mem_fillSorted {f : JsString × JsValue ν} (h : f ∈ fillSorted l) : f ∈ l := by
  rw [fillSorted, (propertyOrder_perm _).mem_iff] at h
  have hfold : ∀ (m : List (JsString × JsValue ν)) (k : List (JsString × JsValue ν)),
      f ∈ k.foldl assign m → f ∈ m ∨ f ∈ k := by
    intro m k
    induction k generalizing m with
    | nil => exact .inl
    | cons g k ih =>
      intro hmem
      rcases ih _ hmem with hmem | hmem
      · rw [assign] at hmem
        split_ifs at hmem
        · exact .inl hmem
        · rcases InsertionMap.mem_set hmem with rfl | ⟨hmem, -⟩
          · exact .inr List.mem_cons_self
          · exact .inl hmem
      · exact .inr (List.mem_cons_of_mem g hmem)
  rcases hfold [] _ h with h | h
  · cases h
  · exact (sortKeys_perm l).mem_iff.1 h

end

section
variable {v w : JsValue ν}

theorem distinct_sortDeep (hv : v.Distinct) : (sortDeep v).Distinct := by
  refine allObjects_mapObjects (fun _ _ => mem_fillSorted) (fun l h hl => ?_) hv
  have hn : ((onValues h l).map Prod.fst).Nodup := by rwa [keys_onValues]
  exact ((fillSorted_perm hn).map Prod.fst).nodup_iff.2 (nodup_dropProto hn)

theorem ordered_sortDeep (hv : v.Distinct) : (sortDeep v).Ordered :=
  allObjects_mapObjects (fun _ _ => mem_fillSorted) (fun _ _ _ => propertyOrder_idem _) hv

theorem onValues_dropProto (h : JsValue ν → JsValue ν) (l : List (JsString × JsValue ν)) :
    onValues h (dropProto l) = dropProto (onValues h l) := by
  rw [onValues, onValues, dropProto, dropProto, List.filter_map]
  rfl

/-- A field is there at most once, whatever is done to the values. -/
theorem nodup_onValues {h : JsValue ν → JsValue ν} {l : List (JsString × JsValue ν)}
    (hn : (l.map Prod.fst).Nodup) : ((onValues h l).map Prod.fst).Nodup := by
  rwa [keys_onValues]

/-- The text is read back as the sorted value. -/
theorem parse_canonicalJson (N : Numbers ν) (hv : v.Distinct) :
    parse N (canonicalJson N v) = some (sortDeep v) :=
  parse_text (distinct_sortDeep hv) (ordered_sortDeep hv)

theorem distinct_strip (hv : v.Distinct) : (strip v).Distinct :=
  allObjects_mapObjects (fun _ _ hf => (List.mem_filter.1 hf).1)
    (fun _ _ hl => nodup_dropProto (nodup_onValues hl)) hv

/-- `sortDeep` sees the fields that `strip` leaves, in whatever order. -/
theorem sortDeep_strip (hv : v.Distinct) : sortDeep (strip v) = sortDeep v := by
  rw [sortDeep, strip, mapObjects_mapObjects onValues_dropProto]
  refine mapObjects_congr (fun l h hl => ?_) hv
  have hn := @nodup_onValues ν h l hl
  have hdrop : dropProto (sortKeys (dropProto (onValues h l))) =
      dropProto (sortKeys (onValues h l)) := by
    rw [dropProto, dropProto, dropProto, sortKeys_filter _ hn, List.filter_filter]
    simp
  rw [fillSorted_eq (nodup_dropProto hn), fillSorted_eq hn, hdrop]

theorem sortDeep_normal (hv : v.Distinct) : sortDeep v.normal = sortDeep v := by
  rw [sortDeep, normal, mapObjects_mapObjects onValues_sortKeys]
  refine mapObjects_congr (fun l h hl => ?_) hv
  have hn := @nodup_onValues ν h l hl
  rw [fillSorted_eq (nodup_sortKeys hn), fillSorted_eq hn,
    sortKeys_eq (nodup_sortKeys hn) (sortKeys_perm _)]

/-- Sorted by key, what `sortDeep` gives is what `strip` leaves. -/
theorem normal_sortDeep (hv : v.Distinct) : (sortDeep v).normal = (strip v).normal := by
  have hfill : sortDeep v = mapObjects (fun l => propertyOrder (dropProto (sortKeys l))) v :=
    mapObjects_congr (fun l h hl => fillSorted_eq (nodup_onValues hl)) hv
  have hnat : ∀ (h : JsValue ν → JsValue ν) l, onValues h (propertyOrder (dropProto (sortKeys l))) =
      propertyOrder (dropProto (sortKeys (onValues h l))) := fun h l => by
    rw [onValues_propertyOrder, onValues_dropProto, onValues_sortKeys]
  rw [hfill, normal, normal, strip, mapObjects_mapObjects hnat,
    mapObjects_mapObjects onValues_dropProto]
  refine mapObjects_congr (fun l h hl => ?_) hv
  have hn := nodup_dropProto (@nodup_onValues ν h l hl)
  refine (sortKeys_eq hn ?_).symm
  exact (((propertyOrder_perm _).trans ((sortKeys_perm _).filter _))).symm

theorem protoFree_strip (hv : v.Distinct) : ProtoFree (strip v) :=
  allObjects_mapObjects (fun _ _ hf => (List.mem_filter.1 hf).1)
    (fun _ _ _ => proto_not_mem_dropProto) hv

theorem ProtoFree.strip_eq (h : ProtoFree v) : strip v = v := by
  refine mapObjects_id (fun l h hl => List.filter_eq_self.2 fun f hf => ?_) h
  refine decide_eq_true fun heq => hl ?_
  rw [← keys_onValues h l, ← heq]
  exact List.mem_map_of_mem hf

theorem protoFree_normal : ProtoFree v.normal ↔ ProtoFree v := by
  have hkeys : ∀ (l : List (JsString × JsValue ν)) h,
      PROTO ∈ (sortKeys (onValues h l)).map Prod.fst ↔ PROTO ∈ l.map Prod.fst := fun l h => by
    rw [((sortKeys_perm _).map Prod.fst).mem_iff, keys_onValues]
  constructor
  · exact allObjects_of_mapObjects (fun l f hf => (sortKeys_perm l).mem_iff.2 hf)
      fun l h hl hp => hl ((hkeys l h).2 hp)
  · exact allObjects_mapObjects (fun l f hf => (sortKeys_perm l).mem_iff.1 hf)
      fun l h hl hp => hl ((hkeys l h).1 hp)

/-- **A value without the special field is all that `strip` leaves unchanged.** -/
theorem deepEq_strip_iff (hv : v.Distinct) : DeepEq (strip v) v ↔ ProtoFree v := by
  constructor
  · intro h
    rw [← protoFree_normal, ← h, protoFree_normal]
    exact protoFree_strip hv
  · intro h
    rw [h.strip_eq]
    rfl

/-- The order of fields is no matter. -/
theorem canonicalJson_congr (N : Numbers ν) (hv : v.Distinct) (hw : w.Distinct) (h : DeepEq v w) :
    canonicalJson N v = canonicalJson N w := by
  rw [canonicalJson, canonicalJson, ← sortDeep_normal hv, ← sortDeep_normal hw, h]

/-- **Equal texts** come from values that differ in the special fields alone. -/
theorem deepEq_of_canonicalJson {N : Numbers ν} (hv : v.Distinct) (hw : w.Distinct)
    (h : canonicalJson N v = canonicalJson N w) : DeepEq (strip v) (strip w) := by
  have hparse := parse_canonicalJson N hv
  rw [h, parse_canonicalJson N hw, Option.some.injEq] at hparse
  rw [DeepEq, ← normal_sortDeep hv, ← normal_sortDeep hw, hparse]

end

/-! ## The evidence chain -/

/-- A step of the evidence; its payload is an object. -/
structure Step (ν : Type) where
  step : JsString
  at_ : ν
  payload : List (JsString × JsValue ν)

namespace Step

def toValue (s : Step ν) : JsValue ν :=
  .obj [(ascii "step", .str s.step), (ascii "at", .num s.at_), (ascii "payload", .obj s.payload)]

/-- No object has a key twice. -/
def Distinct (s : Step ν) : Prop := (JsValue.obj s.payload).Distinct

def ProtoFree (s : Step ν) : Prop := Canonical.ProtoFree (JsValue.obj s.payload)

theorem keys_nodup : [ascii "step", ascii "at", ascii "payload"].Nodup := by decide

theorem distinct_toValue {s : Step ν} : s.toValue.Distinct ↔ s.Distinct := by
  rw [toValue, JsValue.Distinct, allObjects_obj]
  constructor
  · rintro ⟨-, h⟩
    exact h (ascii "payload", .obj s.payload) (by simp)
  · intro h
    refine ⟨keys_nodup, ?_⟩
    rw [List.forall_mem_cons, List.forall_mem_cons, List.forall_mem_singleton]
    exact ⟨trivial, trivial, h⟩

theorem protoFree_toValue {s : Step ν} : Canonical.ProtoFree s.toValue ↔ s.ProtoFree := by
  rw [toValue, Canonical.ProtoFree, allObjects_obj]
  constructor
  · rintro ⟨-, h⟩
    exact h (ascii "payload", .obj s.payload) (by simp)
  · intro h
    have hkeys : PROTO ∉ [ascii "step", ascii "at", ascii "payload"] := by decide
    refine ⟨hkeys, ?_⟩
    rw [List.forall_mem_cons, List.forall_mem_cons, List.forall_mem_singleton]
    exact ⟨trivial, trivial, h⟩

/-- The same name and time, and deeply equal payloads. -/
def Same (s t : Step ν) : Prop :=
  s.step = t.step ∧ s.at_ = t.at_ ∧ DeepEq (.obj s.payload) (.obj t.payload)

theorem normal_toValue (s : Step ν) : s.toValue.normal =
    .obj [(ascii "at", .num s.at_), (ascii "payload", (JsValue.obj s.payload).normal),
      (ascii "step", .str s.step)] := by
  rw [toValue, normal, mapObjects_obj]
  rfl

theorem deepEq_toValue {s t : Step ν} : DeepEq s.toValue t.toValue ↔ s.Same t := by
  rw [DeepEq, normal_toValue, normal_toValue, Same, DeepEq]
  simp only [JsValue.obj.injEq, List.cons.injEq, Prod.mk.injEq, true_and, JsValue.num.injEq,
    JsValue.str.injEq, and_true]
  tauto

end Step

section
variable (keccak256 : Bytes → Bytes32) (N : Numbers ν)

/-- What is hashed for a step. -/
def linkBytes (head : Bytes32) (s : Step ν) : Bytes :=
  toBytes 32 head.toNat ++ utf8 (String.ofList (canonicalJson N s.toValue))

/-- `EvidenceChain.recompute` -/
def recompute (steps : List (Step ν)) : Bytes32 :=
  steps.foldl (fun head s => keccak256 (linkBytes N head s)) 0

/-- What `recompute` hashes from a head on. -/
def hashedFrom : Bytes32 → List (Step ν) → List Bytes
  | _, [] => []
  | head, s :: l => linkBytes N head s :: hashedFrom (keccak256 (linkBytes N head s)) l

def hashed (steps : List (Step ν)) : List Bytes := hashedFrom keccak256 N 0 steps

/-- Nothing of `L` collides, or hashes to the head of the empty chain. -/
structure Binding (L : List Bytes) : Prop where
  noCollision : NoCollision keccak256 L
  nonzero : ∀ b ∈ L, keccak256 b ≠ 0

theorem Binding.mono {keccak256 : Bytes → Bytes32} {L L' : List Bytes} (h : Binding keccak256 L)
    (hs : ∀ b ∈ L', b ∈ L) : Binding keccak256 L' :=
  ⟨h.noCollision.mono hs, fun b hb => h.nonzero b (hs b hb)⟩

end

section
variable {keccak256 : Bytes → Bytes32} {N : Numbers ν}

theorem hashedFrom_concat (head : Bytes32) (l : List (Step ν)) (s : Step ν) :
    hashedFrom keccak256 N head (l ++ [s]) = hashedFrom keccak256 N head l ++
      [linkBytes N (l.foldl (fun head s => keccak256 (linkBytes N head s)) head) s] := by
  induction l generalizing head with
  | nil => rfl
  | cons t l ih =>
    rw [List.cons_append, hashedFrom, ih, hashedFrom, List.foldl_cons, List.cons_append]

theorem hashed_concat (l : List (Step ν)) (s : Step ν) : hashed keccak256 N (l ++ [s]) =
    hashed keccak256 N l ++ [linkBytes N (recompute keccak256 N l) s] :=
  hashedFrom_concat 0 l s

theorem recompute_concat (l : List (Step ν)) (s : Step ν) : recompute keccak256 N (l ++ [s]) =
    keccak256 (linkBytes N (recompute keccak256 N l) s) := by
  rw [recompute, List.foldl_append, List.foldl_cons, List.foldl_nil, recompute]

theorem linkBytes_inj {head head' : Bytes32} {s t : Step ν}
    (h : linkBytes N head s = linkBytes N head' t) :
    head = head' ∧ canonicalJson N s.toValue = canonicalJson N t.toValue := by
  obtain ⟨hhead, htext⟩ := List.append_inj h (by simp)
  refine ⟨?_, String.ofList_injective (utf8_injective htext)⟩
  rw [← word_toBytes head, hhead, word_toBytes]

/-- **The head determines the texts of the steps**, by induction from the last one. -/
theorem texts_eq_of_recompute {l l' : List (Step ν)}
    (hb : Binding keccak256 (hashed keccak256 N l ++ hashed keccak256 N l'))
    (h : recompute keccak256 N l = recompute keccak256 N l') :
    List.Forall₂ (fun s t => canonicalJson N s.toValue = canonicalJson N t.toValue) l l' := by
  induction l using List.reverseRecOn generalizing l' with
  | nil =>
    rcases List.eq_nil_or_concat l' with rfl | ⟨l', t, rfl⟩
    · exact .nil
    · rw [List.concat_eq_append, recompute_concat] at h
      refine absurd h.symm (hb.nonzero _ (List.mem_append_right _ ?_))
      rw [List.concat_eq_append, hashed_concat]
      exact List.mem_append_right _ (List.mem_singleton_self _)
  | append_singleton l s ih =>
    rcases List.eq_nil_or_concat l' with rfl | ⟨l', t, rfl⟩
    · rw [recompute_concat] at h
      refine absurd h (hb.nonzero _ (List.mem_append_left _ ?_))
      rw [hashed_concat]
      exact List.mem_append_right _ (List.mem_singleton_self _)
    · rw [List.concat_eq_append] at h hb ⊢
      rw [recompute_concat, recompute_concat] at h
      rw [hashed_concat, hashed_concat] at hb
      obtain ⟨hhead, htext⟩ := linkBytes_inj (hb.noCollision _ (by simp) _ (by simp) h)
      refine List.rel_append (ih (hb.mono fun b hmem => ?_) hhead) (.cons htext .nil)
      rcases List.mem_append.1 hmem with hmem | hmem
      · exact List.mem_append_left _ (List.mem_append_left _ hmem)
      · exact List.mem_append_right _ (List.mem_append_left _ hmem)

/-- Steps without the special fields. -/
def Step.strip (s : Step ν) : Step ν :=
  { s with payload := dropProto (onValues Canonical.strip s.payload) }

theorem Step.strip_toValue (s : Step ν) : s.strip.toValue = Canonical.strip s.toValue := by
  rw [toValue, toValue, Canonical.strip, mapObjects_obj]
  have hpayload : mapObjects dropProto (JsValue.obj s.payload) = .obj s.strip.payload := by
    rw [mapObjects_obj]
    rfl
  rw [onValues, List.map_cons, List.map_cons, List.map_cons, List.map_nil, hpayload]
  rfl

theorem Step.distinct_strip {s : Step ν} (h : s.Distinct) : s.strip.Distinct := by
  rw [← distinct_toValue, strip_toValue]
  exact Canonical.distinct_strip (distinct_toValue.2 h)

theorem Step.protoFree_strip {s : Step ν} (h : s.Distinct) : s.strip.ProtoFree := by
  rw [← protoFree_toValue, strip_toValue]
  exact Canonical.protoFree_strip (distinct_toValue.2 h)

theorem canonicalJson_strip {s : Step ν} (h : s.Distinct) :
    canonicalJson N s.strip.toValue = canonicalJson N s.toValue := by
  rw [Step.strip_toValue, canonicalJson, canonicalJson, sortDeep_strip (Step.distinct_toValue.2 h)]

/-- Stripped steps hash alike. -/
theorem hashedFrom_strip {l : List (Step ν)} (h : ∀ s ∈ l, s.Distinct) (head : Bytes32) :
    hashedFrom keccak256 N head (l.map Step.strip) = hashedFrom keccak256 N head l ∧
      (l.map Step.strip).foldl (fun head s => keccak256 (linkBytes N head s)) head =
        l.foldl (fun head s => keccak256 (linkBytes N head s)) head := by
  induction l generalizing head with
  | nil => exact ⟨rfl, rfl⟩
  | cons s l ih =>
    obtain ⟨hs, hl⟩ := List.forall_mem_cons.1 h
    have hlink : linkBytes N head s.strip = linkBytes N head s := by
      rw [linkBytes, linkBytes, canonicalJson_strip hs]
    obtain ⟨hhashed, hhead⟩ := ih hl (keccak256 (linkBytes N head s))
    rw [List.map_cons, hashedFrom, hashedFrom, hlink, hhashed, List.foldl_cons, List.foldl_cons,
      hlink, hhead]
    exact ⟨rfl, rfl⟩

/-- Two steps that are written alike. -/
theorem same_of_text {s t : Step ν} (hs : s.Distinct) (ht : t.Distinct) (hps : s.ProtoFree)
    (hpt : t.ProtoFree) (h : canonicalJson N s.toValue = canonicalJson N t.toValue) : s.Same t := by
  have hdeep := deepEq_of_canonicalJson (Step.distinct_toValue.2 hs) (Step.distinct_toValue.2 ht) h
  rw [(Step.protoFree_toValue.2 hps).strip_eq, (Step.protoFree_toValue.2 hpt).strip_eq] at hdeep
  exact Step.deepEq_toValue.1 hdeep

theorem same_of_texts {l l' : List (Step ν)} (hl : ∀ s ∈ l, s.Distinct ∧ s.ProtoFree)
    (hl' : ∀ s ∈ l', s.Distinct ∧ s.ProtoFree)
    (h : List.Forall₂ (fun s t => canonicalJson N s.toValue = canonicalJson N t.toValue) l l') :
    List.Forall₂ Step.Same l l' := by
  induction h with
  | nil => exact .nil
  | cons h _ ih =>
    obtain ⟨⟨hs, hps⟩, hl⟩ := List.forall_mem_cons.1 hl
    obtain ⟨⟨ht, hpt⟩, hl'⟩ := List.forall_mem_cons.1 hl'
    exact .cons (same_of_text hs ht hps hpt h) (ih hl hl')

end

/-! ## Fidelity -/

section
variable (N : Numbers ν)

/-- Reading the canonical text gives the value back, and every order of its fields gives the
same text. -/
def Faithful (v : JsValue ν) : Prop :=
  (∃ w, parse N (canonicalJson N v) = some w ∧ DeepEq w v) ∧
    ∀ w : JsValue ν, w.Distinct → DeepEq w v → canonicalJson N w = canonicalJson N v

/-- No other list of steps without special fields has the head of `l`. -/
def Determined (keccak256 : Bytes → Bytes32) (l : List (Step ν)) : Prop :=
  ∀ l', (∀ s ∈ l', s.Distinct ∧ s.ProtoFree) →
    Binding keccak256 (hashed keccak256 N l' ++ hashed keccak256 N l) →
      recompute keccak256 N l' = recompute keccak256 N l → List.Forall₂ Step.Same l' l

variable {N}

theorem faithful_iff {v : JsValue ν} (hv : v.Distinct) : Faithful N v ↔ ProtoFree v := by
  have hparse := parse_canonicalJson N hv
  have hdeep : DeepEq (sortDeep v) v ↔ ProtoFree v := by
    rw [DeepEq, normal_sortDeep hv]
    exact deepEq_strip_iff hv
  constructor
  · rintro ⟨⟨w, hw, hdw⟩, -⟩
    rw [hparse, Option.some.injEq] at hw
    exact hdeep.1 (hw ▸ hdw)
  · intro h
    exact ⟨⟨_, hparse, hdeep.2 h⟩, fun w hw hdw => canonicalJson_congr N hw hv hdw⟩

theorem determined_iff {keccak256 : Bytes → Bytes32} {l : List (Step ν)}
    (hl : ∀ s ∈ l, s.Distinct) (hb : Binding keccak256 (hashed keccak256 N l)) :
    Determined N keccak256 l ↔ ∀ s ∈ l, s.ProtoFree := by
  constructor
  · intro h s hs
    obtain ⟨hhashed, hhead⟩ := @hashedFrom_strip ν keccak256 N l hl 0
    have hsame := h (l.map Step.strip) (fun t ht => ?_) (hb.mono fun b hmem => ?_) hhead
    · rw [List.forall₂_map_left_iff, List.forall₂_same] at hsame
      have hdeep := Step.deepEq_toValue.2 (hsame s hs)
      rw [Step.strip_toValue, deepEq_strip_iff (Step.distinct_toValue.2 (hl s hs))] at hdeep
      exact Step.protoFree_toValue.1 hdeep
    · obtain ⟨s, hs, rfl⟩ := List.mem_map.1 ht
      exact ⟨Step.distinct_strip (hl s hs), Step.protoFree_strip (hl s hs)⟩
    · rw [hashed, hhashed] at hmem
      rcases List.mem_append.1 hmem with hmem | hmem
      · exact hmem
      · exact hmem
  · intro h l' hl' hb' hhead
    exact same_of_texts hl' (fun s hs => ⟨hl s hs, h s hs⟩) (texts_eq_of_recompute hb' hhead)

end

end Canonical

end Proofmark
