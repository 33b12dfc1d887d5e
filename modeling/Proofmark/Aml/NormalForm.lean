/-
  The normal form of a name (src/aml/normalize.ts), and when `normalizeName` reaches it.

  `Unicode.CaseFolding` says what the standard promises of the case tables.  A `NormalForm`
  is rewritten by no stage but the map of the lookalikes.

  * `normalForm_normalizeName`: a normalised name is one;
  * `normalizeName_fixed_iff`: it is a fixed point exactly when no letter of the lower-cased
    name hides a lookalike under its marks.
-/
import Proofmark.Aml.Normalize
import Mathlib.Data.List.Chain
import Mathlib.Data.List.DropRight
import Mathlib.Data.List.Infix
import Mathlib.Data.List.TakeWhile

namespace Proofmark

/-- The block of the full-width forms of ASCII. -/
def Aml.isFullWidth (c : Char) : Bool := Aml.inRange 0xff01 0xff5e c

/-- What the standard says of the case tables and the categories. -/
structure Unicode.CaseFolding (u : Unicode) : Prop where
  lower_fixed : ∀ s, (∀ c ∈ s, u.toLowerCase [c] = [c]) → u.toLowerCase s = s
  lower_mem : ∀ s, ∀ c ∈ u.toLowerCase s, u.toLowerCase [c] = [c]
  /-- the letters of a lower-case letter are lower-case -/
  lower_decomposition : ∀ c, u.toLowerCase [c] = [c] →
    ∀ d ∈ u.decomposition c, u.toLowerCase [d] = [d]
  lower_ascii : ∀ c, c.toNat < 128 → c.isUpper = false → u.toLowerCase [c] = [c]
  fullWidth_lower : ∀ s, (∀ c ∈ s, Aml.isFullWidth c = false) →
    ∀ c ∈ u.toLowerCase s, Aml.isFullWidth c = false
  fullWidth_decomposition : ∀ c, ∀ d ∈ u.decomposition c, Aml.isFullWidth d = true → c = d
  letter_ascii : ∀ c, c.isLower = true → u.isLetter c = true
  letter_homoglyph : ∀ p ∈ Aml.HOMOGLYPH, u.isLetter (Char.ofNat p.1) = true
  /-- the invisible characters are no letters and no numbers -/
  invisible : ∀ c, Aml.isInvisible c = true → u.isLetter c = false ∧ u.isNumber c = false

namespace Aml

variable {u : Unicode} {s : Str} {c : Char}

/-! ## The lookalikes -/

theorem homoglyph_mem (h : mapHomoglyph c ≠ c) : (c.toNat, mapHomoglyph c) ∈ HOMOGLYPH := by
  cases hl : HOMOGLYPH.lookup c.toNat with
  | none => exact absurd (by rw [mapHomoglyph, hl]; rfl) h
  | some d =>
    obtain ⟨l₁, l₂, hl', -⟩ := List.lookup_eq_some_iff.1 hl
    rw [mapHomoglyph, hl, hl']
    simp

/-- A lookalike is a letter of another script, and stands for a small Latin letter. -/
theorem homoglyph_spec (h : mapHomoglyph c ≠ c) :
    0x391 ≤ c.toNat ∧ c.toNat ≤ 0x458 ∧ (mapHomoglyph c).isLower = true ∧
      (mapHomoglyph c).toNat < 128 := by
  have hall : ∀ p ∈ HOMOGLYPH, 0x391 ≤ p.1 ∧ p.1 ≤ 0x458 ∧ p.2.isLower = true ∧
    p.2.toNat < 128 := by decide
  exact hall _ (homoglyph_mem h)

theorem mapHomoglyph_ascii (h : c.toNat < 128) : mapHomoglyph c = c := by
  by_contra hne
  have hkey := (homoglyph_spec hne).1
  omega

theorem mapHomoglyph_mapHomoglyph (c : Char) :
    mapHomoglyph (mapHomoglyph c) = mapHomoglyph c := by
  by_cases h : mapHomoglyph c = c
  · rw [h, h]
  · exact mapHomoglyph_ascii (homoglyph_spec h).2.2.2

theorem letter_lookalike (hf : u.CaseFolding) (h : mapHomoglyph c ≠ c) :
    u.isLetter c = true := by
  have hletter := hf.letter_homoglyph _ (homoglyph_mem h)
  rwa [Char.ofNat_toNat] at hletter

/-- Neither a space, nor a mark, nor a quote. -/
def isPlain (c : Char) : Bool := !isSpace c && !isDiacritic c && straightenQuote c == c

theorem isPlain_lookalike (h : mapHomoglyph c ≠ c) : isPlain c = true := by
  obtain ⟨hlo, hhi, -⟩ := homoglyph_spec h
  have hspace : isSpace c = false := by
    simp only [isSpace, inRange, Bool.or_eq_false_iff, Bool.and_eq_false_iff,
      decide_eq_false_iff_not, List.mem_cons, List.not_mem_nil, or_false]
    omega
  have hmark : isDiacritic c = false := by
    simp only [isDiacritic, inRange, Bool.and_eq_false_iff, decide_eq_false_iff_not]
    omega
  have hquote : straightenQuote c = c := by
    refine if_neg ?_
    simp only [List.mem_cons, List.not_mem_nil, or_false]
    omega
  simp [isPlain, hspace, hmark, hquote]

theorem toNat_isLower (h : c.isLower = true) : 97 ≤ c.toNat ∧ c.toNat ≤ 122 :=
  ⟨UInt32.le_iff_toNat_le.1 (of_decide_eq_true (Bool.and_eq_true_iff.1 h).1),
    UInt32.le_iff_toNat_le.1 (of_decide_eq_true (Bool.and_eq_true_iff.1 h).2)⟩

theorem isPlain_lower (h : c.isLower = true) : isPlain c = true := by
  have hall : ∀ n < 26, isPlain (Char.ofNat (97 + n)) = true := by decide
  obtain ⟨hlo, hhi⟩ := toNat_isLower h
  have heq : 97 + (c.toNat - 97) = c.toNat := Nat.add_sub_of_le hlo
  have hcase := hall (c.toNat - 97) (by omega)
  rwa [heq, Char.ofNat_toNat] at hcase

/-- The map leaves everything that is not plain. -/
theorem isSpace_mapHomoglyph (c : Char) : isSpace (mapHomoglyph c) = isSpace c := by
  by_cases h : mapHomoglyph c = c
  · rw [h]
  · have h1 := isPlain_lookalike h
    have h2 := isPlain_lower (homoglyph_spec h).2.2.1
    simp only [isPlain, Bool.and_eq_true, Bool.not_eq_true'] at h1 h2
    rw [h1.1.1, h2.1.1]

/-! ## Spaces -/

/-- The stages after the marks are gone. -/
def tidy (u : Unicode) (s : Str) : Str :=
  trim (collapseSpaces false ((s.map straightenQuote).map (spacePunctuation u)))

/-- The stages up to there. -/
def unmarked (u : Unicode) (raw : Str) : Str :=
  (u.nfd (foldName u raw)).filter fun c => !isDiacritic c

theorem normalizeName_eq (u : Unicode) (raw : Str) :
    normalizeName u raw = tidy u (unmarked u raw) := rfl

theorem trim_eq (s : Str) : trim s = (s.dropWhile isSpace).rdropWhile isSpace := rfl

theorem trim_trim (s : Str) : trim (trim s) = trim s := by
  have hhead : (trim s).dropWhile isSpace = trim s := by
    rw [List.dropWhile_eq_self_iff]
    intro hl
    have hpre : trim s <+: s.dropWhile isSpace := List.rdropWhile_prefix _ _
    have hpos : 0 < (s.dropWhile isSpace).length := hl.trans_le hpre.length_le
    have hfirst := List.dropWhile_get_zero_not isSpace s hpos
    rwa [List.get_eq_getElem, ← hpre.getElem hl] at hfirst
  rw [trim_eq (trim s), hhead, trim_eq s, List.rdropWhile_idempotent]

theorem map_trim {f : Char → Char} (hf : ∀ c, isSpace (f c) = isSpace c) (s : Str) :
    trim (s.map f) = (trim s).map f := by
  have hcomp : isSpace ∘ f = isSpace := funext hf
  rw [trim, trim, List.dropWhile_map, ← List.map_reverse, List.dropWhile_map, ← List.map_reverse,
    hcomp]

theorem collapseSpaces_map {f : Char → Char} (hf : ∀ c, isSpace (f c) = isSpace c)
    (hspace : f ' ' = ' ') (b : Bool) (s : Str) :
    collapseSpaces b (s.map f) = (collapseSpaces b s).map f := by
  induction s generalizing b with
  | nil => rfl
  | cons c s ih =>
    rw [List.map_cons, collapseSpaces, collapseSpaces, hf]
    split_ifs
    · exact ih true
    · rw [List.map_cons, hspace, ih]
    · rw [List.map_cons, ih]

/-- Every space is a blank, and no two of them are neighbours. -/
structure Collapsed (s : Str) : Prop where
  blank : ∀ c ∈ s, isSpace c = true → c = ' '
  apart : s.IsChain fun c d => isSpace c = false ∨ isSpace d = false

theorem Collapsed.infix_ {t : Str} (h : Collapsed t) (hi : s <:+: t) : Collapsed s :=
  ⟨fun c hc => h.blank c (hi.subset hc), h.apart.infix hi⟩

theorem collapsed_collapseSpaces (b : Bool) (s : Str) :
    Collapsed (collapseSpaces b s) ∧
      (b = true → ∀ c ∈ (collapseSpaces b s).head?, isSpace c = false) := by
  induction s generalizing b with
  | nil => exact ⟨⟨by rintro _ ⟨⟩, .nil⟩, by rintro _ _ ⟨⟩⟩
  | cons c s ih =>
    rw [collapseSpaces]
    split_ifs with hc hb
    · subst hb
      exact ih true
    · obtain ⟨hcol, hhead⟩ := ih true
      refine ⟨⟨?_, List.isChain_cons.2 ⟨fun d hd => .inr (hhead rfl d hd), hcol.apart⟩⟩,
        fun h => absurd h hb⟩
      rintro d hd hs
      rcases List.mem_cons.1 hd with rfl | hd
      · rfl
      · exact hcol.blank d hd hs
    · obtain ⟨hcol, -⟩ := ih false
      have hcf : isSpace c = false := by simpa using hc
      refine ⟨⟨?_, List.isChain_cons.2 ⟨fun d _ => .inl hcf, hcol.apart⟩⟩, fun _ d hd => ?_⟩
      · rintro d hd hs
        rcases List.mem_cons.1 hd with rfl | hd
        · exact absurd hs hc
        · exact hcol.blank d hd hs
      · cases hd
        exact hcf

/-- **Collapsed spaces are left as they are.** -/
theorem Collapsed.eq {b : Bool} (h : Collapsed s)
    (hb : b = true → ∀ c ∈ s.head?, isSpace c = false) : collapseSpaces b s = s := by
  induction s generalizing b with
  | nil => rfl
  | cons c s ih =>
    have htail : Collapsed s := h.infix_ (List.suffix_cons c s).isInfix
    rw [collapseSpaces]
    split_ifs with hc hbt
    · exact absurd hc (by rw [hb hbt c rfl]; exact Bool.false_ne_true)
    · rw [h.blank c List.mem_cons_self hc, ih htail]
      rintro - d hd
      have hcd := (List.isChain_cons.1 h.apart).1 d hd
      rcases hcd with hcd | hcd
      · rw [hcd] at hc
        exact absurd hc Bool.false_ne_true
      · exact hcd
    · rw [ih htail]
      exact fun h => absurd h Bool.false_ne_true

theorem mem_collapseSpaces_of {b : Bool} (hc : isSpace c = false) (h : c ∈ s) :
    c ∈ collapseSpaces b s := by
  induction s generalizing b with
  | nil => cases h
  | cons d s ih =>
    rw [collapseSpaces]
    rcases List.mem_cons.1 h with rfl | h
    · rw [if_neg (ne_true_of_eq_false hc)]
      exact List.mem_cons_self
    · split_ifs
      · exact ih h
      · exact List.mem_cons_of_mem _ (ih h)
      · exact List.mem_cons_of_mem _ (ih h)

theorem mem_dropWhile_of (hc : isSpace c = false) (h : c ∈ s) : c ∈ s.dropWhile isSpace := by
  rw [← List.takeWhile_append_dropWhile (p := isSpace) (l := s)] at h
  rcases List.mem_append.1 h with h | h
  · rw [List.mem_takeWhile_imp h] at hc
    cases hc
  · exact h

theorem mem_trim_of (hc : isSpace c = false) (h : c ∈ s) : c ∈ trim s := by
  rw [trim, List.mem_reverse]
  refine mem_dropWhile_of hc ?_
  rw [List.mem_reverse]
  exact mem_dropWhile_of hc h

theorem mem_tidy_of (hp : isPlain c = true) (hl : u.isLetter c = true) (h : c ∈ s) :
    c ∈ tidy u s := by
  simp only [isPlain, Bool.and_eq_true, Bool.not_eq_true', beq_iff_eq] at hp
  have hquote : spacePunctuation u (straightenQuote c) = c := by
    rw [hp.2, spacePunctuation, hl]
    rfl
  refine mem_trim_of hp.1.1 (mem_collapseSpaces_of hp.1.1 ?_)
  rw [List.map_map]
  exact List.mem_map.2 ⟨c, h, hquote⟩

/-! ## The normal form -/

/-- Only the lookalikes are left to rewrite. -/
structure NormalForm (u : Unicode) (s : Str) : Prop where
  nfd : IsNfd u s
  visible : ∀ c ∈ s, isInvisible c = false
  narrow : ∀ c ∈ s, toHalfWidth c = c
  lower : ∀ c ∈ s, u.toLowerCase [c] = [c]
  unmarked : ∀ c ∈ s, isDiacritic c = false
  straight : ∀ c ∈ s, straightenQuote c = c
  spaced : ∀ c ∈ s, spacePunctuation u c = c
  collapsed : Collapsed s
  trimmed : trim s = s

/-- **A second pass maps the lookalikes that the first one has left.** -/
theorem NormalForm.normalizeName_eq (hu : u.Canonical) (hf : u.CaseFolding)
    (h : NormalForm u s) : normalizeName u s = s.map mapHomoglyph := by
  have hvisible : (s.filter fun c => !isInvisible c) = s :=
    List.filter_eq_self.2 fun c hc => by rw [h.visible c hc]; rfl
  have hnarrow : s.map toHalfWidth = s := by
    rw [List.map_congr_left h.narrow, List.map_id']
  have hfold : foldName u s = s.map mapHomoglyph := by
    rw [foldName, hvisible, hnarrow, hf.lower_fixed s h.lower]
  have hplain : ∀ c, mapHomoglyph c ≠ c → isPlain (mapHomoglyph c) = true := fun c hne =>
    isPlain_lower (homoglyph_spec hne).2.2.1
  have hmarks : Aml.unmarked u s = s.map mapHomoglyph := by
    rw [Aml.unmarked, hfold, (h.nfd.map_ascii hu mapHomoglyph_cases).nfd_eq,
      List.filter_eq_self]
    intro d hd
    obtain ⟨c, hc, rfl⟩ := List.mem_map.1 hd
    by_cases hne : mapHomoglyph c = c
    · rw [hne, h.unmarked c hc]
      rfl
    · have hp := hplain c hne
      simp only [isPlain, Bool.and_eq_true] at hp
      exact hp.1.2
  have hquotes : (s.map mapHomoglyph).map straightenQuote = s.map mapHomoglyph := by
    rw [List.map_map]
    refine List.map_congr_left fun c hc => ?_
    by_cases hne : mapHomoglyph c = c
    · rw [Function.comp, hne, h.straight c hc]
    · have hp := hplain c hne
      simp only [isPlain, Bool.and_eq_true, beq_iff_eq] at hp
      exact hp.2
  have hspaces : (s.map mapHomoglyph).map (spacePunctuation u) = s.map mapHomoglyph := by
    rw [List.map_map]
    refine List.map_congr_left fun c hc => ?_
    by_cases hne : mapHomoglyph c = c
    · rw [Function.comp, hne, h.spaced c hc]
    · rw [Function.comp, spacePunctuation, hf.letter_ascii _ (homoglyph_spec hne).2.2.1]
      rfl
  have hblank : mapHomoglyph ' ' = ' ' := mapHomoglyph_ascii (by decide)
  rw [Aml.normalizeName_eq, hmarks, tidy, hquotes, hspaces,
    collapseSpaces_map isSpace_mapHomoglyph hblank, map_trim isSpace_mapHomoglyph,
    h.collapsed.eq (fun hb => absurd hb Bool.false_ne_true), h.trimmed]

/-- What a character in front of the space stages is made of. -/
theorem mem_tidy {raw : Str} (h : c ∈ normalizeName u raw) :
    c = ' ' ∨ c = '\'' ∨ c ∈ unmarked u raw ∧ straightenQuote c = c := by
  rcases mem_collapseSpaces ((trim_segment _).subset h) with rfl | h
  · exact .inl rfl
  obtain ⟨d, hd, rfl⟩ := List.mem_map.1 h
  obtain ⟨e, he, rfl⟩ := List.mem_map.1 hd
  have hquote : straightenQuote e = '\'' ∨ straightenQuote e = e := by
    rw [straightenQuote]
    split_ifs
    exacts [.inl rfl, .inr rfl]
  rw [spacePunctuation]
  split_ifs
  · rcases hquote with hq | hq
    · exact .inr (.inl hq)
    · rw [hq]
      exact .inr (.inr ⟨he, hq⟩)
  · exact .inl rfl

/-- A letter, a number, a blank, an apostrophe or a hyphen. -/
theorem spacePunctuation_mem {raw : Str} (h : c ∈ normalizeName u raw) :
    u.isLetter c = true ∨ u.isNumber c = true ∨ c = ' ' ∨ c = '\'' ∨ c = '-' := by
  have hcol := (collapsed_collapseSpaces false
    (((unmarked u raw).map straightenQuote).map (spacePunctuation u))).1
  have hin := (trim_segment _).subset h
  by_cases hs : isSpace c = true
  · exact .inr (.inr (.inl (hcol.blank c hin hs)))
  rcases mem_collapseSpaces hin with rfl | hc
  · exact .inr (.inr (.inl rfl))
  obtain ⟨d, -, rfl⟩ := List.mem_map.1 hc
  rw [spacePunctuation] at hs ⊢
  split_ifs at hs ⊢ with hd
  · simp only [Bool.or_eq_true, beq_iff_eq] at hd
    tauto
  · exact .inr (.inr (.inl rfl))

/-- A small ASCII letter, or a character of the lower-cased name. -/
theorem lower_foldName (hf : u.CaseFolding) {raw : Str} (h : c ∈ foldName u raw) :
    u.toLowerCase [c] = [c] ∧ isFullWidth c = false := by
  obtain ⟨d, hd, rfl⟩ := List.mem_map.1 h
  by_cases hne : mapHomoglyph d = d
  · rw [hne]
    refine ⟨hf.lower_mem _ d hd, hf.fullWidth_lower _ (fun e he => ?_) d hd⟩
    obtain ⟨f, -, rfl⟩ := List.mem_map.1 he
    by_cases hw : isFullWidth f = true
    · have hall : ∀ n < 94, isFullWidth (Char.ofNat (n + 0xff01 - 0xfee0)) = false := by decide
      have hrange := hw
      simp only [isFullWidth, inRange, Bool.and_eq_true, decide_eq_true_eq] at hrange
      have heq : f.toNat - 0xff01 + 0xff01 = f.toNat := by omega
      have hcase := hall (f.toNat - 0xff01) (by omega)
      rw [toHalfWidth, ← isFullWidth, if_pos hw]
      rwa [heq] at hcase
    · rw [toHalfWidth, ← isFullWidth, if_neg hw]
      split_ifs
      · decide
      · simpa using hw
  · obtain ⟨-, -, hlow, hascii⟩ := homoglyph_spec hne
    refine ⟨hf.lower_ascii _ hascii ?_, ?_⟩
    · refine decide_eq_false fun hupper => ?_
      have h1 := (toNat_isLower hlow).1
      have h2 : (mapHomoglyph d).toNat ≤ 90 := UInt32.le_iff_toNat_le.1 hupper.2
      exact absurd (h1.trans h2) (by decide)
    · simp only [isFullWidth, inRange, Bool.and_eq_false_iff, decide_eq_false_iff_not]
      omega

theorem mem_nfd : c ∈ u.nfd s ↔ ∃ d ∈ s, c ∈ u.decomposition d := by
  rw [Unicode.nfd, Combining.mem_canonicalOrder, List.mem_flatMap]

/-- **A normalised name is a normal form.** -/
theorem normalForm_normalizeName (hu : u.Canonical) (hf : u.CaseFolding) (raw : Str) :
    NormalForm u (normalizeName u raw) := by
  have hcol := ((collapsed_collapseSpaces false (((unmarked u raw).map straightenQuote).map
    (spacePunctuation u))).1).infix_ (trim_segment _)
  -- a letter of the name comes out of the decomposition of a lower-cased character
  have hletter : ∀ c ∈ unmarked u raw, u.toLowerCase [c] = [c] ∧ isFullWidth c = false := by
    intro c hc
    obtain ⟨d, hd, hcd⟩ := mem_nfd.1 (List.mem_filter.1 hc).1
    obtain ⟨hlow, hwide⟩ := lower_foldName hf hd
    refine ⟨hf.lower_decomposition d hlow c hcd, Bool.not_eq_true _ ▸ fun hc => ?_⟩
    rw [hf.fullWidth_decomposition d c hcd hc] at hwide
    exact absurd hc (by rw [hwide]; exact Bool.false_ne_true)
  refine ⟨isNfd_normalizeName hu raw, fun c hc => ?_, fun c hc => ?_, fun c hc => ?_,
    fun c hc => ?_, fun c hc => ?_, fun c hc => ?_, hcol, trim_trim _⟩
  · refine Bool.not_eq_true _ ▸ fun hinv => ?_
    obtain ⟨hl, hn⟩ := hf.invisible c hinv
    rcases spacePunctuation_mem hc with h | h | rfl | rfl | rfl
    · simp [hl] at h
    · simp [hn] at h
    all_goals exact absurd hinv (by decide)
  · have hwide : isFullWidth c = false := by
      rcases mem_tidy hc with rfl | rfl | ⟨h, -⟩
      exacts [by decide, by decide, (hletter c h).2]
    rw [toHalfWidth, if_neg (by rw [← isFullWidth, hwide]; exact Bool.false_ne_true)]
    split_ifs with hblank
    · refine (hcol.blank c hc ?_).symm
      simp [isSpace, hblank]
    · rfl
  · rcases mem_tidy hc with rfl | rfl | ⟨h, -⟩
    exacts [hf.lower_ascii _ (by decide) (by decide), hf.lower_ascii _ (by decide) (by decide),
      (hletter c h).1]
  · rcases mem_tidy hc with rfl | rfl | ⟨h, -⟩
    exacts [by decide, by decide, by simpa using (List.mem_filter.1 h).2]
  · rcases mem_tidy hc with rfl | rfl | ⟨-, h⟩
    exacts [by decide, by decide, h]
  · rcases spacePunctuation_mem hc with h | h | rfl | rfl | rfl
    · simp [spacePunctuation, h]
    · simp [spacePunctuation, h]
    all_goals simp [spacePunctuation]

/-- A character that is no lookalike but has one under its marks. -/
def Hides (u : Unicode) (c : Char) : Prop :=
  mapHomoglyph c = c ∧ ∃ d ∈ u.decomposition c, mapHomoglyph d ≠ d

instance : Decidable (Hides u c) :=
  decidable_of_iff (mapHomoglyph c = c ∧ (u.decomposition c).any (fun d => mapHomoglyph d != d))
    (by simp [Hides])

theorem exists_lookalike_iff (hf : u.CaseFolding) (hu : u.Canonical) (raw : Str) :
    (∃ c ∈ normalizeName u raw, mapHomoglyph c ≠ c) ↔
      ∃ c ∈ u.toLowerCase ((raw.filter fun c => !isInvisible c).map toHalfWidth), Hides u c := by
  constructor
  · rintro ⟨c, hc, hne⟩
    have hraw : c ∈ unmarked u raw := by
      rcases mem_tidy hc with rfl | rfl | ⟨h, -⟩
      exacts [absurd (mapHomoglyph_ascii (by decide)) hne,
        absurd (mapHomoglyph_ascii (by decide)) hne, h]
    obtain ⟨e, he, hce⟩ := mem_nfd.1 (List.mem_filter.1 hraw).1
    obtain ⟨d, hd, rfl⟩ := List.mem_map.1 he
    by_cases hmap : mapHomoglyph d = d
    · rw [hmap] at hce
      exact ⟨d, hd, hmap, c, hce, hne⟩
    · rw [(hu.ascii _ (homoglyph_spec hmap).2.2.2).1, List.mem_singleton] at hce
      rw [hce, mapHomoglyph_mapHomoglyph] at hne
      exact absurd rfl hne
  · rintro ⟨d, hd, hmap, c, hcd, hne⟩
    have hp := isPlain_lookalike hne
    refine ⟨c, mem_tidy_of hp (letter_lookalike hf hne) (List.mem_filter.2 ⟨?_, ?_⟩), hne⟩
    · exact mem_nfd.2 ⟨d, List.mem_map.2 ⟨d, hd, hmap⟩, hcd⟩
    · simp only [isPlain, Bool.and_eq_true] at hp
      exact hp.1.2

/-- **The normal form of a name is a fixed point unless a letter of the lower-cased name hides
    a lookalike under its marks.** -/
theorem normalizeName_fixed_iff (hu : u.Canonical) (hf : u.CaseFolding) (raw : Str) :
    normalizeName u (normalizeName u raw) = normalizeName u raw ↔
      ∀ c ∈ u.toLowerCase ((raw.filter fun c => !isInvisible c).map toHalfWidth),
        ¬ Hides u c := by
  rw [(normalForm_normalizeName hu hf raw).normalizeName_eq hu hf]
  have hmap : (normalizeName u raw).map mapHomoglyph = normalizeName u raw ↔
      ∀ c ∈ normalizeName u raw, mapHomoglyph c = c := by
    conv_lhs => rhs; rw [← List.map_id' (normalizeName u raw)]
    exact List.map_inj_left
  rw [hmap]
  have hiff := not_congr (exists_lookalike_iff hf hu raw)
  simpa only [not_exists, not_and, not_not] using hiff

/-! ## Three scripts -/

/-- The composed Cyrillic letters and what they are made of. -/
def COMPOSED : List (ℕ × Str) :=
  [(0x451, [Char.ofNat 0x435, Char.ofNat 0x308]), (0x439, [Char.ofNat 0x438, Char.ofNat 0x306]),
    (0x401, [Char.ofNat 0x415, Char.ofNat 0x308]), (0x419, [Char.ofNat 0x418, Char.ofNat 0x306])]

/-- How far the small letter of a capital is, in ASCII, Greek and Cyrillic. -/
def caseDistance (n : ℕ) : ℕ :=
  if 0x41 ≤ n ∧ n ≤ 0x5a then 32
  else if 0x391 ≤ n ∧ n ≤ 0x3a9 ∧ n ≠ 0x3a2 then 32
  else if 0x400 ≤ n ∧ n ≤ 0x40f then 80
  else if 0x410 ≤ n ∧ n ≤ 0x42f then 32 else 0

def lowerChar (c : Char) : Char :=
  if caseDistance c.toNat = 0 then c else Char.ofNat (c.toNat + caseDistance c.toNat)

/-- Tables that agree with the standard on ASCII, Greek capitals and Russian. -/
def threeScripts : Unicode where
  decomposition c := (COMPOSED.lookup c.toNat).getD [c]
  combiningClass c := if isDiacritic c = true ∧ c.toNat ≠ 0x34f then 230 else 0
  nfc := id
  toLowerCase s := s.map lowerChar
  toUpperCase s := s.map Char.toUpper
  isLetter c := inRange 0x41 0x5a c || inRange 0x61 0x7a c || inRange 0x386 0x481 c
  isNumber := inRange 0x30 0x39

theorem toNat_lowerChar (c : Char) : (lowerChar c).toNat = c.toNat + caseDistance c.toNat := by
  rw [lowerChar]
  split_ifs with h
  · rw [h, Nat.add_zero]
  · have hvalid : (c.toNat + caseDistance c.toNat).isValidChar := by
      rw [caseDistance] at h ⊢
      refine .inl ?_
      split_ifs at h ⊢ <;> omega
    rw [Char.ofNat, dif_pos hvalid]
    rfl

theorem lowerChar_eq_iff : lowerChar c = c ↔ caseDistance c.toNat = 0 := by
  constructor
  · intro h
    have hnat := toNat_lowerChar c
    rw [h] at hnat
    omega
  · exact fun h => if_pos h

theorem caseDistance_add (n : ℕ) : caseDistance (n + caseDistance n) = 0 := by
  by_cases h : caseDistance n = 0
  · rw [h, Nat.add_zero, h]
  · have hcases : caseDistance n = 32 ∧
        (0x41 ≤ n ∧ n ≤ 0x5a ∨ 0x391 ≤ n ∧ n ≤ 0x3a9 ∨ 0x410 ≤ n ∧ n ≤ 0x42f) ∨
        caseDistance n = 80 ∧ 0x400 ≤ n ∧ n ≤ 0x40f := by
      rw [caseDistance] at h ⊢
      split_ifs at h ⊢ <;> omega
    rcases hcases with ⟨heq, hn⟩ | ⟨heq, hn⟩ <;> rw [heq, caseDistance] <;> split_ifs <;> omega

theorem composed_cases (c : Char) :
    threeScripts.decomposition c = [c] ∨
      (c.toNat, threeScripts.decomposition c) ∈ COMPOSED := by
  cases h : COMPOSED.lookup c.toNat with
  | none => exact .inl (by simp [threeScripts, h])
  | some s =>
    right
    obtain ⟨l₁, l₂, hl, -⟩ := List.lookup_eq_some_iff.1 h
    have hs : threeScripts.decomposition c = s := by simp [threeScripts, h]
    rw [hs, hl]
    simp

theorem canonical_threeScripts : threeScripts.Canonical where
  decomposition_mem c d hd := by
    have hall : ∀ p ∈ COMPOSED, p.2.all (fun d => threeScripts.decomposition d == [d]) := by decide
    rcases composed_cases c with h | h
    · rw [h, List.mem_singleton] at hd
      rw [hd, h]
    · exact beq_iff_eq.1 (List.all_eq_true.1 (hall _ h) d hd)
  nfd_nfc s := rfl
  ascii c hc := by
    have hall : ∀ p ∈ COMPOSED, ¬ p.1 < 128 := by decide
    refine ⟨(composed_cases c).resolve_right fun h => hall _ h hc, if_neg fun h => ?_⟩
    have h1 := h.1
    simp only [isDiacritic, inRange, Bool.and_eq_true, decide_eq_true_eq] at h1
    omega
  diacritic c h1 h2 := by
    have hclass : threeScripts.combiningClass c = 230 := if_pos ⟨h1, h2⟩
    rw [hclass]
    decide
  joiner c d hd hj := by
    have hall : ∀ p ∈ COMPOSED, p.2.all (fun d => d.toNat != 0x34f) := by decide
    rcases composed_cases c with h | h
    · rw [h, List.mem_singleton] at hd
      exact hd.symm
    · exact absurd hj (bne_iff_ne.1 (List.all_eq_true.1 (hall _ h) d hd))
  joiner_lower s h c hc := by
    obtain ⟨d, hd, rfl⟩ := List.mem_map.1 hc
    have hne := h d hd
    rw [toNat_lowerChar, caseDistance]
    split_ifs <;> omega
  space c h := by
    refine if_neg fun hd => ?_
    have h1 := hd.1
    simp only [isDiacritic, isSpace, inRange, Bool.and_eq_true, Bool.or_eq_true, decide_eq_true_eq,
      List.mem_cons, List.not_mem_nil, or_false] at h1 h
    omega

theorem caseFolding_threeScripts : threeScripts.CaseFolding where
  lower_fixed s h := by
    have hid : s.map lowerChar = s.map id :=
      List.map_congr_left fun c hc => List.singleton_inj.1 (h c hc)
    exact hid.trans (List.map_id s)
  lower_mem s c hc := by
    obtain ⟨d, -, rfl⟩ := List.mem_map.1 hc
    refine List.singleton_inj.2 (lowerChar_eq_iff.2 ?_)
    rw [toNat_lowerChar]
    exact caseDistance_add _
  lower_decomposition c hc d hd := by
    have hall : ∀ p ∈ COMPOSED, caseDistance p.1 = 0 →
      p.2.all (fun d => caseDistance d.toNat == 0) := by decide
    have hc' : caseDistance c.toNat = 0 := lowerChar_eq_iff.1 (List.singleton_inj.1 hc)
    rcases composed_cases c with h | h
    · rw [h, List.mem_singleton] at hd
      rwa [hd]
    · exact List.singleton_inj.2 (lowerChar_eq_iff.2
        (beq_iff_eq.1 (List.all_eq_true.1 (hall _ h hc') d hd)))
  lower_ascii c hc hu := by
    refine List.singleton_inj.2 (lowerChar_eq_iff.2 ?_)
    have hnot : ¬ (0x41 ≤ c.toNat ∧ c.toNat ≤ 0x5a) := fun h =>
      of_decide_eq_false hu
        ⟨UInt32.le_iff_toNat_le.2 h.1, UInt32.le_iff_toNat_le.2 h.2⟩
    rw [caseDistance, if_neg hnot]
    split_ifs <;> omega
  fullWidth_lower s h c hc := by
    obtain ⟨d, hd, rfl⟩ := List.mem_map.1 hc
    have hne := h d hd
    simp only [isFullWidth, inRange, Bool.and_eq_false_iff, decide_eq_false_iff_not] at hne ⊢
    rw [toNat_lowerChar, caseDistance]
    split_ifs <;> omega
  fullWidth_decomposition c d hd hw := by
    have hall : ∀ p ∈ COMPOSED, p.2.all (fun d => !isFullWidth d) := by decide
    rcases composed_cases c with h | h
    · rw [h, List.mem_singleton] at hd
      exact hd.symm
    · have hd' := List.all_eq_true.1 (hall _ h) d hd
      simp [hw] at hd'
  letter_ascii c hc := by
    obtain ⟨hlo, hhi⟩ := toNat_isLower hc
    simp [threeScripts, inRange, hlo, hhi]
  letter_homoglyph := by decide
  invisible c hc := by
    simp only [isInvisible, inRange, Bool.or_eq_true, Bool.and_eq_true, decide_eq_true_eq,
      beq_iff_eq] at hc
    simp only [threeScripts, inRange, Bool.or_eq_false_iff, Bool.and_eq_false_iff,
      decide_eq_false_iff_not]
    omega

/-- The first pass leaves a bare Cyrillic letter, which the second pass maps. -/
theorem normalizeName_not_fixed :
    ¬ ∀ raw, normalizeName threeScripts (normalizeName threeScripts raw) =
      normalizeName threeScripts raw := by
  intro h
  have hfirst : normalizeName threeScripts [Char.ofNat 0x451] = [Char.ofNat 0x435] := by
    decide +kernel
  have hsecond : normalizeName threeScripts [Char.ofNat 0x435] = ['e'] := by decide +kernel
  have hyo := h [Char.ofNat 0x451]
  rw [hfirst, hsecond] at hyo
  exact absurd hyo (by decide)

/-- A name with such a letter, and one with composed letters that hide nothing. -/
theorem normalizeName_fixed_russian :
    normalizeName threeScripts (normalizeName threeScripts "Пётр".toList) ≠
        normalizeName threeScripts "Пётр".toList ∧
      normalizeName threeScripts (normalizeName threeScripts "Сергей Petrov".toList) =
        normalizeName threeScripts "Сергей Petrov".toList := by
  constructor
  · intro h
    refine (normalizeName_fixed_iff canonical_threeScripts caseFolding_threeScripts _).1 h
      (Char.ofNat 0x451) (by decide +kernel) (by decide +kernel)
  · refine (normalizeName_fixed_iff canonical_threeScripts caseFolding_threeScripts _).2 ?_
    have hnone : ((threeScripts.toLowerCase (("Сергей Petrov".toList.filter fun c =>
        !isInvisible c).map toHalfWidth)).all fun c => decide (¬ Hides threeScripts c)) = true := by
      decide +kernel
    exact fun c hc => of_decide_eq_true (List.all_eq_true.1 hnone c hc)

end Aml

end Proofmark
