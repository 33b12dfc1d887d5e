/-
  The normalisation of names (src/aml/normalize.ts).

  A string is a list of Unicode scalar values.  `Unicode` holds the tables of the character
  database that the language looks up; `nfd` is the decomposition of the standard over them.
  `Unicode.Canonical` says what the standard promises of the tables.

  `isNfd_normalizeName`: a normalised name is canonically decomposed, and so are its tokens.
-/
import Proofmark.Lib.CanonicalOrder

namespace Proofmark

abbrev Str := List Char

instance : LawfulBEq Str := inferInstance

structure Unicode where
  /-- the full canonical decomposition -/
  decomposition : Char → Str
  combiningClass : Char → ℕ
  nfc : Str → Str
  toLowerCase : Str → Str
  toUpperCase : Str → Str
  /-- the general category `L` -/
  isLetter : Char → Bool
  /-- the general category `N` -/
  isNumber : Char → Bool

namespace Unicode

variable (u : Unicode)

/-- `normalize('NFD')` -/
def nfd (s : Str) : Str := Combining.canonicalOrder u.combiningClass (s.flatMap u.decomposition)

end Unicode

namespace Aml

/-- `lo-hi` in a character class. -/
def inRange (lo hi : ℕ) (c : Char) : Bool := decide (lo ≤ c.toNat) && decide (c.toNat ≤ hi)

/-- `INVISIBLE` -/
def isInvisible (c : Char) : Bool :=
  inRange 0x200b 0x200f c || inRange 0x202a 0x202e c || inRange 0x2060 0x2064 c ||
    c.toNat == 0xfeff || c.toNat == 0xad || c.toNat == 0x34f

/-- `HOMOGLYPH`: Cyrillic and Greek letters that look Latin. -/
def HOMOGLYPH : List (ℕ × Char) :=
  [(0x430, 'a'), (0x432, 'b'), (0x441, 'c'), (0x435, 'e'), (0x43d, 'h'), (0x43a, 'k'),
    (0x43c, 'm'), (0x43e, 'o'), (0x440, 'p'), (0x442, 't'), (0x445, 'x'), (0x443, 'y'),
    (0x456, 'i'), (0x458, 'j'), (0x455, 's'), (0x410, 'a'), (0x412, 'b'), (0x421, 'c'),
    (0x415, 'e'), (0x41d, 'h'), (0x41a, 'k'), (0x41c, 'm'), (0x41e, 'o'), (0x420, 'p'),
    (0x422, 't'), (0x425, 'x'), (0x423, 'y'), (0x406, 'i'), (0x408, 'j'), (0x405, 's'),
    (0x3b1, 'a'), (0x3b2, 'b'), (0x3b5, 'e'), (0x3b9, 'i'), (0x3ba, 'k'), (0x3bd, 'v'),
    (0x3bf, 'o'), (0x3c1, 'p'), (0x3c4, 't'), (0x3c5, 'u'), (0x3c7, 'x'), (0x391, 'a'),
    (0x392, 'b'), (0x395, 'e'), (0x399, 'i'), (0x39a, 'k'), (0x39c, 'm'), (0x39d, 'n'),
    (0x39f, 'o'), (0x3a1, 'p'), (0x3a4, 't'), (0x3a5, 'y'), (0x3a7, 'x'), (0x396, 'z'),
    (0x397, 'h')]

def toHalfWidth (c : Char) : Char :=
  if inRange 0xff01 0xff5e c then Char.ofNat (c.toNat - 0xfee0)
  else if c.toNat = 0x3000 then ' ' else c

/-- `HOMOGLYPH[ch] ?? ch` -/
def mapHomoglyph (c : Char) : Char := (HOMOGLYPH.lookup c.toNat).getD c

/-- The combining diacritical marks. -/
def isDiacritic (c : Char) : Bool := inRange 0x300 0x36f c

/-- The quotes that become an apostrophe. -/
def straightenQuote (c : Char) : Char :=
  if c.toNat ∈ [0x27, 0x60, 0xb4, 0x2bb, 0x2bc] then '\'' else c

/-- `\s` -/
def isSpace (c : Char) : Bool :=
  inRange 0x9 0xd c || inRange 0x2000 0x200a c ||
    c.toNat ∈ [0x20, 0xa0, 0x1680, 0x2028, 0x2029, 0x202f, 0x205f, 0x3000, 0xfeff]

/-- A character outside `[^\p{L}\p{N}\s'-]` becomes a space. -/
def spacePunctuation (u : Unicode) (c : Char) : Char :=
  if u.isLetter c || u.isNumber c || isSpace c || c == '\'' || c == '-' then c else ' '

/-- `replace(/\s+/g, ' ')`; `b` says whether the character before was a space. -/
def collapseSpaces : Bool → Str → Str
  | _, [] => []
  | b, c :: s =>
    if isSpace c then if b then collapseSpaces true s else ' ' :: collapseSpaces true s
    else c :: collapseSpaces false s

def trim (s : Str) : Str := ((s.dropWhile isSpace).reverse.dropWhile isSpace).reverse

/-- Invisible characters, widths, case and homoglyphs, before the decomposition. -/
def foldName (u : Unicode) (raw : Str) : Str :=
  (u.toLowerCase ((raw.filter fun c => !isInvisible c).map toHalfWidth)).map mapHomoglyph

def normalizeName (u : Unicode) (raw : Str) : Str :=
  let s := (u.nfd (foldName u raw)).filter fun c => !isDiacritic c
  let s := (s.map straightenQuote).map (spacePunctuation u)
  trim (collapseSpaces false s)

/-- `[\s'-]` -/
def isSeparator (c : Char) : Bool := isSpace c || c == '\'' || c == '-'

/-- The run of other characters at the front, and the tokens after it. -/
def splitTokens : Str → Str × List Str
  | [] => ([], [])
  | c :: s =>
    let (run, tokens) := splitTokens s
    if isSeparator c then ([], if run = [] then tokens else run :: tokens) else (c :: run, tokens)

def tokenize (normalized : Str) : List Str :=
  let (run, tokens) := splitTokens normalized
  if run = [] then tokens else run :: tokens

def TITLES : List Str :=
  ["mr", "mrs", "ms", "dr", "prof", "sheikh", "haji", "al", "el", "bin", "ibn", "abu", "von", "van",
    "de", "del", "della", "di", "da", "dos", "das", "la", "le"].map String.toList

def contentTokens (tokens : List Str) : List Str :=
  let kept := tokens.filter fun t => !TITLES.contains t
  if kept.length = 0 then tokens else kept

/-- `contentTokens(tokenize(normalizeName(raw)))` -/
def nameTokens (u : Unicode) (raw : Str) : List Str := contentTokens (tokenize (normalizeName u raw))

def normalizeCountry (u : Unicode) (v : Str) : Str := (u.toUpperCase (trim v)).take 2

end Aml

/-! ## Decomposed names -/

/-- What the standard says of the tables. -/
structure Unicode.Canonical (u : Unicode) : Prop where
  /-- a full decomposition is not decomposed further -/
  decomposition_mem : ∀ c, ∀ d ∈ u.decomposition c, u.decomposition d = [d]
  nfd_nfc : ∀ s, u.nfd (u.nfc s) = u.nfd s
  ascii : ∀ c, c.toNat < 128 → u.decomposition c = [c] ∧ u.combiningClass c = 0
  /-- the combining diacritical marks have a class, but for the grapheme joiner -/
  diacritic : ∀ c, Aml.isDiacritic c = true → c.toNat ≠ 0x34f → 0 < u.combiningClass c
  /-- the grapheme joiner stands for itself alone -/
  joiner : ∀ c, ∀ d ∈ u.decomposition c, d.toNat = 0x34f → c = d
  joiner_lower : ∀ s, (∀ c ∈ s, c.toNat ≠ 0x34f) → ∀ c ∈ u.toLowerCase s, c.toNat ≠ 0x34f
  space : ∀ c, Aml.isSpace c = true → u.combiningClass c = 0

/-- A canonically decomposed string. -/
structure IsNfd (u : Unicode) (s : Str) : Prop where
  decomposed : ∀ c ∈ s, u.decomposition c = [c]
  ordered : Combining.Ordered u.combiningClass s

section
variable {u : Unicode} {s t : Str}

theorem isNfd_nfd (hu : u.Canonical) (s : Str) : IsNfd u (u.nfd s) := by
  refine ⟨fun c hc => ?_, Combining.ordered_canonicalOrder _⟩
  rw [Unicode.nfd, Combining.mem_canonicalOrder] at hc
  obtain ⟨d, -, hd⟩ := List.mem_flatMap.1 hc
  exact hu.decomposition_mem d c hd

theorem IsNfd.nfd_eq (h : IsNfd u s) : u.nfd s = s := by
  have hmap : s.flatMap u.decomposition = s := by
    rw [List.flatMap_congr h.decomposed]
    exact List.flatMap_singleton' s
  rw [Unicode.nfd, hmap, Combining.canonicalOrder_of_ordered h.ordered]

/-- **Decomposed strings with one composition are one string.** -/
theorem IsNfd.eq_of_nfc (hu : u.Canonical) (hs : IsNfd u s) (ht : IsNfd u t)
    (h : u.nfc s = u.nfc t) : s = t := by
  rw [← hs.nfd_eq, ← ht.nfd_eq, ← hu.nfd_nfc s, ← hu.nfd_nfc t, h]

theorem IsNfd.segment (h : IsNfd u t) (hi : s <:+: t) : IsNfd u s :=
  ⟨fun c hc => h.decomposed c (hi.subset hc), h.ordered.segment hi⟩

theorem IsNfd.filter {p : Char → Bool} (h : IsNfd u s)
    (hp : ∀ c ∈ s, p c = false → 0 < u.combiningClass c) : IsNfd u (s.filter p) :=
  ⟨fun c hc => h.decomposed c (List.mem_filter.1 hc).1, h.ordered.filter hp⟩

/-- Replacing characters by ASCII characters. -/
theorem IsNfd.map_ascii (hu : u.Canonical) {f : Char → Char} (h : IsNfd u s)
    (hf : ∀ c, f c = c ∨ (f c).toNat < 128) : IsNfd u (s.map f) := by
  refine ⟨fun c hc => ?_, h.ordered.map fun c _ => (hf c).imp id fun ha => (hu.ascii _ ha).2⟩
  obtain ⟨d, hd, rfl⟩ := List.mem_map.1 hc
  rcases hf d with he | ha
  · rw [he]
    exact h.decomposed d hd
  · exact (hu.ascii _ ha).1

namespace Aml

theorem mem_collapseSpaces {b : Bool} {c : Char} (h : c ∈ collapseSpaces b s) : c = ' ' ∨ c ∈ s := by
  induction s generalizing b with
  | nil => cases h
  | cons d s ih =>
    rw [collapseSpaces] at h
    split_ifs at h
    · exact (ih h).imp id (List.mem_cons_of_mem d)
    · rcases List.mem_cons.1 h with rfl | h
      · exact .inl rfl
      · exact (ih h).imp id (List.mem_cons_of_mem d)
    · rcases List.mem_cons.1 h with rfl | h
      · exact .inr List.mem_cons_self
      · exact (ih h).imp id (List.mem_cons_of_mem d)

theorem ordered_collapseSpaces (hu : u.Canonical) {b : Bool}
    (h : Combining.Ordered u.combiningClass s) :
    Combining.Ordered u.combiningClass (collapseSpaces b s) := by
  have hspace : u.combiningClass ' ' = 0 := (hu.ascii ' ' (by decide)).2
  induction s generalizing b with
  | nil => trivial
  | cons c s ih =>
    rw [collapseSpaces]
    split_ifs with hc hb
    · exact ih h.tail
    · refine Combining.ordered_cons (ih h.tail) fun d _ => ?_
      omega
    · refine Combining.ordered_cons (ih h.tail) ?_
      cases s with
      | nil => rintro _ ⟨⟩
      | cons d s =>
        by_cases hd : isSpace d = true
        · rw [collapseSpaces, if_pos hd, if_neg Bool.false_ne_true]
          rintro _ ⟨⟩
          omega
        · rw [collapseSpaces, if_neg hd]
          rintro _ ⟨⟩
          exact h.1

theorem trim_segment (s : Str) : trim s <:+: s := by
  have h1 : (s.dropWhile isSpace).reverse.dropWhile isSpace <:+ (s.dropWhile isSpace).reverse :=
    List.dropWhile_suffix _
  have h2 : trim s <+: s.dropWhile isSpace := by
    rw [← List.reverse_suffix]
    simpa [trim] using h1
  exact h2.isInfix.trans (List.dropWhile_suffix _).isInfix

theorem mapHomoglyph_cases (c : Char) : mapHomoglyph c = c ∨ (mapHomoglyph c).toNat < 128 := by
  rw [mapHomoglyph]
  cases h : HOMOGLYPH.lookup c.toNat with
  | none => exact .inl rfl
  | some d =>
    right
    have hall : ∀ p ∈ HOMOGLYPH, p.2.toNat < 128 := by decide
    obtain ⟨l₁, l₂, hl, -⟩ := List.lookup_eq_some_iff.1 h
    exact hall (c.toNat, d) (hl ▸ by simp)

theorem toHalfWidth_cases (c : Char) : toHalfWidth c = c ∨ (toHalfWidth c).toNat < 128 := by
  rw [toHalfWidth]
  split_ifs with h1 h2
  · right
    simp only [inRange, Bool.and_eq_true, decide_eq_true_iff] at h1
    have hall : ∀ n < 127, (Char.ofNat n).toNat < 128 := by decide
    exact hall _ (by omega)
  · exact .inr (by decide)
  · exact .inl rfl

/-- No grapheme joiner is left in front of the decomposition. -/
theorem joiner_foldName (hu : u.Canonical) (raw : Str) :
    ∀ c ∈ foldName u raw, c.toNat ≠ 0x34f := by
  intro c hc
  obtain ⟨d, hd, rfl⟩ := List.mem_map.1 hc
  have hlower : d.toNat ≠ 0x34f := by
    refine hu.joiner_lower _ (fun e he => ?_) d hd
    obtain ⟨f, hf, rfl⟩ := List.mem_map.1 he
    have hinv : isInvisible f = false := by simpa using (List.mem_filter.1 hf).2
    rcases toHalfWidth_cases f with he | ha
    · rw [he]
      intro hj
      simp [isInvisible, hj] at hinv
    · omega
  rcases mapHomoglyph_cases d with he | ha
  · rwa [he]
  · omega

/-- **A normalised name is canonically decomposed.** -/
theorem isNfd_normalizeName (hu : u.Canonical) (raw : Str) : IsNfd u (normalizeName u raw) := by
  have hnfd := isNfd_nfd hu (foldName u raw)
  have hstrip : IsNfd u ((u.nfd (foldName u raw)).filter fun c => !isDiacritic c) := by
    refine hnfd.filter fun c hc hd => ?_
    refine hu.diacritic c (by simpa using hd) fun hj => ?_
    rw [Unicode.nfd, Combining.mem_canonicalOrder] at hc
    obtain ⟨d, hd, hcd⟩ := List.mem_flatMap.1 hc
    exact joiner_foldName hu raw d hd (hu.joiner d c hcd hj ▸ hj)
  have hquote : IsNfd u (((u.nfd (foldName u raw)).filter fun c => !isDiacritic c).map
      straightenQuote) := by
    refine hstrip.map_ascii hu fun c => ?_
    rw [straightenQuote]
    split_ifs
    exacts [.inr (by decide), .inl rfl]
  have hpunct := hquote.map_ascii hu (f := spacePunctuation u) fun c => by
    rw [spacePunctuation]
    split_ifs
    exacts [.inl rfl, .inr (by decide)]
  have hcollapse : IsNfd u (collapseSpaces false ((((u.nfd (foldName u raw)).filter fun c =>
      !isDiacritic c).map straightenQuote).map (spacePunctuation u))) := by
    refine ⟨fun c hc => ?_, ordered_collapseSpaces hu hpunct.ordered⟩
    rcases mem_collapseSpaces hc with rfl | hc
    · exact (hu.ascii ' ' (by decide)).1
    · exact hpunct.decomposed c hc
  exact hcollapse.segment (trim_segment _)

theorem splitTokens_segment : (splitTokens s).1 <+: s ∧ ∀ t ∈ (splitTokens s).2, t <:+: s := by
  induction s with
  | nil => exact ⟨List.prefix_refl _, by simp [splitTokens]⟩
  | cons c s ih =>
    rw [splitTokens]
    generalize splitTokens s = p at ih ⊢
    obtain ⟨run, tokens⟩ := p
    obtain ⟨hrun, htok⟩ := ih
    have hrun' : run <:+: c :: s := List.infix_cons hrun.isInfix
    have htok' : ∀ t ∈ tokens, t <:+: c :: s := fun t ht => List.infix_cons (htok t ht)
    simp only
    split_ifs
    · exact ⟨⟨_, rfl⟩, htok'⟩
    · exact ⟨⟨_, rfl⟩, List.forall_mem_cons.2 ⟨hrun', htok'⟩⟩
    · exact ⟨(List.prefix_cons_inj c).2 hrun, htok'⟩

theorem mem_tokenize {t : Str} (h : t ∈ tokenize s) : t <:+: s := by
  rw [tokenize] at h
  simp only at h
  split_ifs at h
  · exact splitTokens_segment.2 t h
  · rcases List.mem_cons.1 h with rfl | h
    · exact splitTokens_segment.1.isInfix
    · exact splitTokens_segment.2 t h

theorem mem_contentTokens {t : Str} {l : List Str} (h : t ∈ contentTokens l) : t ∈ l := by
  rw [contentTokens] at h
  split_ifs at h
  · exact h
  · exact (List.mem_filter.1 h).1

/-- **The tokens of a name are canonically decomposed.** -/
theorem isNfd_nameTokens (hu : u.Canonical) {raw t : Str} (h : t ∈ nameTokens u raw) : IsNfd u t :=
  (isNfd_normalizeName hu raw).segment (mem_tokenize (mem_contentTokens h))

end Aml

end

end Proofmark
