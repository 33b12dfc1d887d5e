/-
  Names in disguise (src/aml/normalize.ts, the supplied names of `screenNames`).

  A `Disguise` replaces Latin letters by lookalikes of the table and inserts marks and
  invisible characters.  `Unicode.CaseContext` says what the standard promises of the case
  tables in the context of a string.

  `disguise_neutralised_iff`: the normalisation undoes it exactly when none of the lookalikes
  is one of the five Greek capitals whose small letter the table does not list for the same
  Latin letter.
-/
import Proofmark.Aml.Engine
import Proofmark.Aml.NormalForm

namespace Proofmark

namespace Aml

/-- The capitals of the table that the lower-casing takes away from their Latin letter. -/
def CASE_LOST : List ℕ := [0x39c, 0x39d, 0x3a5, 0x396, 0x397]

/-- `Disguise used s t`: `t` is `s` with the lookalikes `used` and with insertions. -/
inductive Disguise : List Char → Str → Str → Prop where
  | nil : Disguise [] [] []
  | keep {used s t} (c) (h : Disguise used s t) : Disguise used (c :: s) (c :: t)
  | lookalike {used s t} (c d) (hc : isAsciiLetter c = true)
      (hd : (d.toNat, c.toLower) ∈ HOMOGLYPH) (h : Disguise used s t) :
      Disguise (d :: used) (c :: s) (d :: t)
  | mark {used s t} (m) (hm : isDiacritic m = true) (h : Disguise used s t) :
      Disguise used s (m :: t)
  | invisible {used s t} (m) (hm : isInvisible m = true) (h : Disguise used s t) :
      Disguise used s (m :: t)

end Aml

open Aml

/-- What the standard says of the case of one character in a string. -/
structure Unicode.CaseContext (u : Unicode) : Prop where
  /-- the marks are ignored by the contexts of the case mappings -/
  mark : ∀ a b m, isDiacritic m = true → ∃ a' b',
    u.toLowerCase (a ++ b) = a' ++ b' ∧ u.toLowerCase (a ++ m :: b) = a' ++ m :: b'
  /-- a letter stands in a context like any other letter -/
  letter : ∀ a b c d, isAsciiLetter c = true → (d.toNat, c.toLower) ∈ HOMOGLYPH → ∃ a' b',
    u.toLowerCase (a ++ c :: b) = a' ++ c.toLower :: b' ∧
      u.toLowerCase (a ++ d :: b) = a' ++ Char.ofNat (d.toNat + caseDistance d.toNat) :: b'
  decomposition_mark : ∀ m, isDiacritic m = true → ∀ d ∈ u.decomposition m, isDiacritic d = true
  /-- the small letters of `CASE_LOST` are not composed -/
  decomposition_greek : ∀ n ∈ [0x3bc, 0x3b6, 0x3b7],
    u.decomposition (Char.ofNat n) = [Char.ofNat n]

namespace Aml

variable {u : Unicode} {s t used : Str} {c d m : Char}

/-- `normalizeName` gives the same for both, and so do the screenings of the two names. -/
def Neutralised (u : Unicode) (s t : Str) : Prop :=
  normalizeName u t = normalizeName u s ∧
    ∀ (corpus : Corpus) (input : MatchInput),
      input.romanizedName ≠ some s → input.romanizedName ≠ some t →
        screenNames u corpus { input with fullName := t } =
          screenNames u corpus { input with fullName := s }

/-! ## Before the lower-casing -/

/-- The visible characters at half width. -/
def visible (raw : Str) : Str := (raw.filter fun c => !isInvisible c).map toHalfWidth

/-- The decomposed letters of a lower-cased name, without their marks. -/
def letters (u : Unicode) (s : Str) : Str :=
  ((s.map mapHomoglyph).flatMap u.decomposition).filter fun c => !isDiacritic c

theorem letters_append (s t : Str) : letters u (s ++ t) = letters u s ++ letters u t := by
  simp [letters]

theorem letters_cons (c : Char) (s : Str) : letters u (c :: s) = letters u [c] ++ letters u s :=
  letters_append [c] s

theorem visible_cons_invisible (h : isInvisible c = true) (s : Str) :
    visible (c :: s) = visible s := by
  simp [visible, h]

theorem visible_cons (h : isInvisible c = false) (s : Str) :
    visible (c :: s) = toHalfWidth c :: visible s := by
  simp [visible, h]

theorem toHalfWidth_of_lt (h : c.toNat < 0x3000) : toHalfWidth c = c := by
  have hwide : inRange 0xff01 0xff5e c = false := by
    simp only [inRange, Bool.and_eq_false_iff, decide_eq_false_iff_not]
    omega
  rw [toHalfWidth, hwide, if_neg Bool.false_ne_true, if_neg (by omega)]

/-- **The marks are gone before the ordering as well.** -/
theorem unmarked_eq (hu : u.Canonical) (raw : Str) :
    unmarked u raw =
      Combining.canonicalOrder u.combiningClass (letters u (u.toLowerCase (visible raw))) := by
  rw [unmarked, Unicode.nfd, Combining.filter_canonicalOrder]
  · rfl
  · intro c hc hd
    obtain ⟨d, hd', hcd⟩ := List.mem_flatMap.1 hc
    refine hu.diacritic c (by simpa using hd) fun hj => ?_
    exact joiner_foldName hu raw d hd' (hu.joiner d c hcd hj ▸ hj)

/-! ## One replacement -/

theorem toNat_asciiLetter (h : isAsciiLetter c = true) : 0x41 ≤ c.toNat ∧ c.toNat < 0x80 := by
  simp only [isAsciiLetter, inRange, Bool.or_eq_true, Bool.and_eq_true, decide_eq_true_eq] at h
  omega

theorem toNat_lookalike {c : Char} (h : (d.toNat, c) ∈ HOMOGLYPH) :
    0x391 ≤ d.toNat ∧ d.toNat ≤ 0x458 := by
  have hall : ∀ p ∈ HOMOGLYPH, 0x391 ≤ p.1 ∧ p.1 ≤ 0x458 := by decide
  exact hall _ h

theorem isInvisible_of_lt (h : c.toNat < 0x200b) (h1 : c.toNat ≠ 0xad) (h2 : c.toNat ≠ 0x34f) :
    isInvisible c = false := by
  simp only [isInvisible, inRange, Bool.or_eq_false_iff, Bool.and_eq_false_iff,
    decide_eq_false_iff_not, beq_eq_false_iff_ne]
  omega

theorem letters_mark (hc : u.CaseContext) (hm : isDiacritic m = true) : letters u [m] = [] := by
  have hmap : mapHomoglyph m = m := by
    by_contra hne
    have hp := isPlain_lookalike hne
    simp [isPlain, hm] at hp
  rw [letters, List.map_singleton, hmap, List.flatMap_singleton, List.filter_eq_nil_iff]
  intro d hd
  simp [hc.decomposition_mark m hm d hd]

theorem letters_ascii (hu : u.Canonical) (h : c.toNat < 0x80) : letters u [c] = [c] := by
  have hmark : isDiacritic c = false := by
    simp only [isDiacritic, inRange, Bool.and_eq_false_iff, decide_eq_false_iff_not]
    omega
  rw [letters, List.map_singleton, mapHomoglyph_ascii h, List.flatMap_singleton,
    (hu.ascii c h).1, List.filter_cons_of_pos (by rw [hmark]; rfl), List.filter_nil]

theorem toNat_toLower (h : isAsciiLetter c = true) : c.toLower.toNat < 0x80 := by
  have hlt := (toNat_asciiLetter h).2
  rw [Char.toLower]
  split_ifs with hupper
  · have hle : c.val.toNat ≤ 90 := UInt32.le_iff_toNat_le.1 hupper.2
    have hval : (c.val + ('a'.val - 'A'.val)).toNat = (c.val.toNat + 32) % 2 ^ 32 :=
      UInt32.toNat_add _ _
    have hgoal : (c.val + ('a'.val - 'A'.val)).toNat < 0x80 := by omega
    exact hgoal
  · exact hlt

/-- The Latin letters that lose a capital. -/
def isWatched (c : Char) : Bool := ['m', 'n', 'y', 'z', 'h'].contains c

/-- The small letter of a lookalike is the Latin letter, unless the capital is lost. -/
theorem letters_lookalike (hu : u.Canonical) (hc : u.CaseContext) {l : Char}
    (h : (d.toNat, l) ∈ HOMOGLYPH) :
    (d.toNat ∉ CASE_LOST → letters u [Char.ofNat (d.toNat + caseDistance d.toNat)] = [l]) ∧
      (d.toNat ∈ CASE_LOST → isWatched l = true ∧
        (letters u [Char.ofNat (d.toNat + caseDistance d.toNat)]).countP isWatched = 0) := by
  have hkept : ∀ p ∈ HOMOGLYPH, p.1 ∉ CASE_LOST →
      mapHomoglyph (Char.ofNat (p.1 + caseDistance p.1)) = p.2 ∧ p.2.toNat < 0x80 := by
    decide +kernel
  have hlost : ∀ p ∈ HOMOGLYPH, p.1 ∈ CASE_LOST → isWatched p.2 = true ∧
      ((mapHomoglyph (Char.ofNat (p.1 + caseDistance p.1))).toNat < 0x80 ∧
        isWatched (mapHomoglyph (Char.ofNat (p.1 + caseDistance p.1))) = false ∨
        mapHomoglyph (Char.ofNat (p.1 + caseDistance p.1)) =
          Char.ofNat (p.1 + caseDistance p.1) ∧
        p.1 + caseDistance p.1 ∈ [0x3bc, 0x3b6, 0x3b7] ∧
        isWatched (Char.ofNat (p.1 + caseDistance p.1)) = false) := by
    decide +kernel
  -- the letters of a character are those of what it is mapped to
  have hmap : ∀ c, letters u [c] = letters u [mapHomoglyph c] := fun c => by
    rw [letters, letters, List.map_singleton, List.map_singleton, mapHomoglyph_mapHomoglyph]
  refine ⟨fun hk => ?_, fun hl => ?_⟩
  · obtain ⟨heq, hascii⟩ := hkept _ h hk
    rw [hmap, heq, letters_ascii hu hascii]
  · obtain ⟨hw, hcase⟩ := hlost _ h hl
    refine ⟨hw, ?_⟩
    rcases hcase with ⟨hascii, hnw⟩ | ⟨heq, hgreek, hnw⟩
    · rw [hmap, letters_ascii hu hascii, List.countP_singleton, hnw]
      rfl
    · have hsub : (letters u [Char.ofNat (d.toNat + caseDistance d.toNat)]).Sublist
          [Char.ofNat (d.toNat + caseDistance d.toNat)] := by
        rw [letters, List.map_singleton, heq, List.flatMap_singleton,
          hc.decomposition_greek _ hgreek]
        exact List.filter_sublist
      have hle := hsub.countP_le (p := isWatched)
      rw [List.countP_singleton, hnw] at hle
      exact Nat.le_zero.1 hle

/-! ## A whole disguise -/

/-- **What a disguise does to the letters of a name**, behind any characters `a`. -/
theorem Disguise.letters_eq (hu : u.Canonical) (hc : u.CaseContext) (h : Disguise used s t)
    (a : Str) :
    ((∀ d ∈ used, d.toNat ∉ CASE_LOST) →
      letters u (u.toLowerCase (a ++ visible t)) = letters u (u.toLowerCase (a ++ visible s))) ∧
    (letters u (u.toLowerCase (a ++ visible t))).countP isWatched +
        used.countP (fun d => decide (d.toNat ∈ CASE_LOST)) =
      (letters u (u.toLowerCase (a ++ visible s))).countP isWatched := by
  induction h generalizing a with
  | nil => exact ⟨fun _ => rfl, rfl⟩
  | keep c _ ih =>
    cases hinv : isInvisible c with
    | true =>
      rw [visible_cons_invisible hinv, visible_cons_invisible hinv]
      exact ih a
    | false =>
      rw [visible_cons hinv, visible_cons hinv, List.append_cons a,
        List.append_cons a _ (visible _)]
      exact ih (a ++ [toHalfWidth c])
  | @lookalike used s t c d hletter hd _ ih =>
    obtain ⟨hlo, hhi⟩ := toNat_asciiLetter hletter
    obtain ⟨hlo', hhi'⟩ := toNat_lookalike hd
    have hs : visible (c :: s) = c :: visible s := by
      rw [visible_cons (isInvisible_of_lt (by omega) (by omega) (by omega)),
        toHalfWidth_of_lt (by omega)]
    have ht : visible (d :: t) = d :: visible t := by
      rw [visible_cons (isInvisible_of_lt (by omega) (by omega) (by omega)),
        toHalfWidth_of_lt (by omega)]
    obtain ⟨hkept, hlost⟩ := letters_lookalike hu hc hd
    obtain ⟨ihkept, ihcount⟩ := ih (a ++ [c])
    rw [← List.append_cons, ← List.append_cons] at ihkept ihcount
    -- `c` in front of the disguised rest, and then `d` in its place
    obtain ⟨a', b', hlc, hld⟩ := hc.letter a (visible t) c d hletter hd
    rw [hlc] at ihkept ihcount
    rw [hs, ht, hld]
    simp only [letters_append, letters_cons _ b', letters_ascii hu (toNat_toLower hletter),
      List.countP_append, List.countP_cons, List.countP_nil] at ihkept ihcount ⊢
    refine ⟨fun hused => ?_, ?_⟩
    · rw [hkept (hused d List.mem_cons_self)]
      exact ihkept fun e he => hused e (List.mem_cons_of_mem d he)
    · by_cases hmem : d.toNat ∈ CASE_LOST
      · obtain ⟨hw, hzero⟩ := hlost hmem
        rw [hzero, if_pos (decide_eq_true hmem)]
        rw [hw, if_pos rfl] at ihcount
        omega
      · rw [hkept hmem, if_neg (by simpa using hmem), List.countP_singleton]
        omega
  | mark m hm _ ih =>
    cases hinv : isInvisible m with
    | true =>
      rw [visible_cons_invisible hinv]
      exact ih a
    | false =>
      have hlt : m.toNat < 0x3000 := by
        simp only [isDiacritic, inRange, Bool.and_eq_true, decide_eq_true_eq] at hm
        omega
      rw [visible_cons hinv, toHalfWidth_of_lt hlt]
      rename_i used s t _
      obtain ⟨a', b', hwithout, hwith⟩ := hc.mark a (visible t) m hm
      have heq : letters u (u.toLowerCase (a ++ m :: visible t)) =
          letters u (u.toLowerCase (a ++ visible t)) := by
        rw [hwith, hwithout, letters_append, letters_append, letters_cons m, letters_mark hc hm,
          List.nil_append]
      rw [heq]
      exact ih a
  | invisible m hm _ ih =>
    rw [visible_cons_invisible hm]
    exact ih a

/-! ## The count of the watched letters in a normal form -/

section
variable {p : Char → Bool}

theorem countP_collapseSpaces (hp : ∀ c, isSpace c = true → p c = false) (b : Bool) (s : Str) :
    (collapseSpaces b s).countP p = s.countP p := by
  induction s generalizing b with
  | nil => rfl
  | cons c s ih =>
    rw [collapseSpaces]
    split_ifs with hc
    · rw [ih, List.countP_cons_of_neg (by simp [hp c hc])]
    · rw [List.countP_cons_of_neg (by simp [hp ' ' (by decide)]), ih,
        List.countP_cons_of_neg (by simp [hp c hc])]
    · rw [List.countP_cons, List.countP_cons, ih]

theorem countP_dropWhile (hp : ∀ c, isSpace c = true → p c = false) (s : Str) :
    (s.dropWhile isSpace).countP p = s.countP p := by
  induction s with
  | nil => rfl
  | cons c s ih =>
    cases hc : isSpace c with
    | true => rw [List.dropWhile_cons_of_pos hc, ih, List.countP_cons_of_neg (by simp [hp c hc])]
    | false => rw [List.dropWhile_cons_of_neg (by simp [hc])]

theorem countP_trim (hp : ∀ c, isSpace c = true → p c = false) (s : Str) :
    (trim s).countP p = s.countP p := by
  rw [trim, List.countP_reverse, countP_dropWhile hp, List.countP_reverse, countP_dropWhile hp]

end

theorem isWatched_cases (h : isWatched c = true) :
    c = 'm' ∨ c = 'n' ∨ c = 'y' ∨ c = 'z' ∨ c = 'h' := by
  simpa [isWatched] using h

theorem isWatched_space (h : isSpace c = true) : isWatched c = false := by
  refine Bool.not_eq_true _ ▸ fun hw => ?_
  rcases isWatched_cases hw with rfl | rfl | rfl | rfl | rfl <;> exact absurd h (by decide)

theorem countP_tidy (hf : u.CaseFolding) (s : Str) :
    (tidy u s).countP isWatched = s.countP isWatched := by
  have hquote : ∀ c, isWatched (straightenQuote c) = isWatched c := by
    intro c
    rw [straightenQuote]
    split_ifs with hc
    · refine (Bool.not_eq_true _ ▸ fun hw => ?_ : isWatched c = false).symm ▸ by decide
      rcases isWatched_cases hw with rfl | rfl | rfl | rfl | rfl <;> exact absurd hc (by decide)
    · rfl
  have hpunct : ∀ c, isWatched (spacePunctuation u c) = isWatched c := by
    intro c
    rw [spacePunctuation]
    split_ifs with hc
    · rfl
    · refine (Bool.not_eq_true _ ▸ fun hw => ?_ : isWatched c = false).symm ▸ by decide
      have hlower : c.isLower = true := by
        rcases isWatched_cases hw with rfl | rfl | rfl | rfl | rfl <;> decide
      simp [hf.letter_ascii c hlower] at hc
  rw [tidy, countP_trim fun _ => isWatched_space, countP_collapseSpaces fun _ => isWatched_space,
    List.countP_map, List.countP_map]
  refine List.countP_congr fun c _ => ?_
  rw [Function.comp, Function.comp, hpunct, hquote]

/-! ## The screening -/

theorem Disguise.filter_hangul (h : Disguise used s t) :
    t.filter isHangulSyllable = s.filter isHangulSyllable := by
  have hlow : ∀ c : Char, c.toNat < 0xac00 ∨ 0xd7a3 < c.toNat →
      isHangulSyllable c = false := by
    intro c hc
    simp only [isHangulSyllable, inRange, Bool.and_eq_false_iff, decide_eq_false_iff_not]
    omega
  induction h with
  | nil => rfl
  | keep c _ ih => rw [List.filter_cons, List.filter_cons, ih]
  | lookalike c d hc hd _ ih =>
    have hcn := toNat_asciiLetter hc
    have hdn := toNat_lookalike hd
    rw [List.filter_cons_of_neg (by simp [hlow d (by omega)]),
      List.filter_cons_of_neg (by simp [hlow c (by omega)]), ih]
  | mark m hm _ ih =>
    simp only [isDiacritic, inRange, Bool.and_eq_true, decide_eq_true_eq] at hm
    rw [List.filter_cons_of_neg (by simp [hlow m (by omega)]), ih]
  | invisible m hm _ ih =>
    simp only [isInvisible, inRange, Bool.or_eq_true, Bool.and_eq_true, decide_eq_true_eq,
      beq_iff_eq] at hm
    rw [List.filter_cons_of_neg (by simp [hlow m (by omega)]), ih]

theorem hasHangul_iff : hasHangul s = true ↔ s.filter isHangulSyllable ≠ [] := by
  rw [hasHangul, List.any_eq_true, ne_eq, List.filter_eq_nil_iff]
  push Not
  rfl

theorem filter_space_hangul (s : Str) :
    (s.filter fun c => !isSpace c).filter isHangulSyllable = s.filter isHangulSyllable := by
  rw [List.filter_filter]
  refine List.filter_congr fun c _ => ?_
  cases hc : isHangulSyllable c with
  | false => rfl
  | true =>
    have hns : isSpace c = false := by
      simp only [isHangulSyllable, inRange, Bool.and_eq_true, decide_eq_true_eq] at hc
      simp only [isSpace, inRange, Bool.or_eq_false_iff, Bool.and_eq_false_iff,
        decide_eq_false_iff_not, List.mem_cons, List.not_mem_nil, or_false]
      omega
    rw [hns]
    rfl

/-- The expansion reads only the syllables of the name. -/
theorem inferredNames_congr {input input' : MatchInput}
    (h : input.fullName.filter isHangulSyllable = input'.fullName.filter isHangulSyllable) :
    inferredNames input = inferredNames input' := by
  have hhas : hasHangul input.fullName = hasHangul input'.fullName := by
    rw [Bool.eq_iff_iff, hasHangul_iff, hasHangul_iff, h]
  rw [inferredNames, inferredNames, hhas, romanizeVariants, romanizeVariants, filter_space_hangul,
    filter_space_hangul, h]

section
variable {corpus : Corpus} {input : MatchInput} {matchType : MatchType} {minScore : ℚ}
  {type : Candidate → MatchType} {hits : List (Str × ScreeningHit)}

theorem nameTokens_nil (hf : u.CaseFolding) : nameTokens u [] = [] := by
  have hlower : u.toLowerCase [] = [] := hf.lower_fixed [] (by rintro _ ⟨⟩)
  have hname : normalizeName u [] = [] := by
    rw [normalizeName, foldName, List.filter_nil, List.map_nil, hlower]
    rfl
  rw [nameTokens, hname]
  rfl

theorem pushName_nil (hf : u.CaseFolding) :
    pushName u corpus input matchType minScore type hits [] = .ok hits := by
  rw [pushName, nameTokens_nil hf]
  rfl

theorem eraseDups_of_nodup {l : List Str} (h : l.Nodup) : l.eraseDups = l := by
  induction l with
  | nil => rfl
  | cons a l ih =>
    obtain ⟨ha, hl⟩ := List.nodup_cons.1 h
    have hfilter : (l.filter fun b => !b == a) = l :=
      List.filter_eq_self.2 fun b hb => by simpa using fun heq : b = a => ha (heq ▸ hb)
    rw [List.eraseDups_cons, hfilter, ih hl]

/-- The supplied names one after the other, when the romanisation is another string. -/
theorem screenSupplied_eq (hf : u.CaseFolding) (h : input.romanizedName ≠ some input.fullName) :
    screenSupplied u corpus input =
      (input.fullName :: input.romanizedName.toList).foldlM
        (pushName u corpus input .fuzzy (72 / 100) suppliedType) (walletHits u corpus input) := by
  have hpush : ∀ hits, pushName u corpus input .fuzzy (72 / 100) suppliedType hits [] = .ok hits :=
    fun hits => pushName_nil hf
  have hskip : ∀ (l : List Str) hits,
      (l.filter fun v => decide (v ≠ [])).foldlM
          (pushName u corpus input .fuzzy (72 / 100) suppliedType) hits =
        l.foldlM (pushName u corpus input .fuzzy (72 / 100) suppliedType) hits := by
    intro l
    induction l with
    | nil => exact fun _ => rfl
    | cons v l ih =>
      intro hits
      by_cases hv : v = []
      · rw [hv, List.filter_cons_of_neg (by simp), List.foldlM_cons, hpush, ih]
        rfl
      · rw [List.filter_cons_of_pos (by simpa using hv), List.foldlM_cons, List.foldlM_cons]
        exact congrArg _ (funext fun hits => ih hits)
  have hdup : ((input.fullName :: input.romanizedName.toList).filter fun v =>
      decide (v ≠ [])).eraseDups =
      (input.fullName :: input.romanizedName.toList).filter fun v => decide (v ≠ []) := by
    refine eraseDups_of_nodup (List.Nodup.filter _ ?_)
    cases hrom : input.romanizedName with
    | none => exact List.nodup_singleton _
    | some r =>
      have hne : input.fullName ≠ r := fun heq => h (hrom.trans (by rw [heq]))
      exact List.nodup_cons.2 ⟨by simpa using hne, List.nodup_singleton r⟩
  rw [screenSupplied, suppliedNames, hdup, hskip]

/-- **The screening reads the name through its normal form and its syllables.** -/
theorem screenNames_congr (hf : u.CaseFolding) (hname : normalizeName u t = normalizeName u s)
    (hsyl : t.filter isHangulSyllable = s.filter isHangulSyllable)
    (hs : input.romanizedName ≠ some s) (ht : input.romanizedName ≠ some t) :
    screenNames u corpus { input with fullName := t } =
      screenNames u corpus { input with fullName := s } := by
  have htokens : nameTokens u t = nameTokens u s := by rw [nameTokens, nameTokens, hname]
  have hpush : ∀ hits, pushName u corpus input .fuzzy (72 / 100) suppliedType hits t =
      pushName u corpus input .fuzzy (72 / 100) suppliedType hits s := by
    intro hits
    rw [pushName, pushName, htokens]
  have hsupplied : screenSupplied u corpus { input with fullName := t } =
      screenSupplied u corpus { input with fullName := s } := by
    rw [screenSupplied_eq hf (by exact ht), screenSupplied_eq hf (by exact hs), List.foldlM_cons,
      List.foldlM_cons]
    exact congrArg (· >>= _) (hpush _)
  have hinferred : inferredNames { input with fullName := t } =
      inferredNames { input with fullName := s } := inferredNames_congr hsyl
  rw [screenNames, screenNames, hsupplied]
  unfold screenInferred
  rw [hinferred]
  rfl

end

/-- **A disguise is undone exactly when it uses no lookalike that the lower-casing loses.** -/
theorem disguise_neutralised_iff (hu : u.Canonical) (hf : u.CaseFolding) (hc : u.CaseContext)
    (h : Disguise used s t) :
    Neutralised u s t ↔ ∀ d ∈ used, d.toNat ∉ CASE_LOST := by
  obtain ⟨hkept, hcount⟩ := h.letters_eq hu hc []
  rw [List.nil_append, List.nil_append] at hkept hcount
  constructor
  · rintro ⟨hname, -⟩ d hd hlost
    have hcounts := congrArg (List.countP isWatched) hname
    rw [normalizeName_eq, normalizeName_eq, countP_tidy hf, countP_tidy hf, unmarked_eq hu,
      unmarked_eq hu, (Combining.perm_canonicalOrder _).countP_eq,
      (Combining.perm_canonicalOrder _).countP_eq] at hcounts
    have hpos : 0 < used.countP fun d => decide (d.toNat ∈ CASE_LOST) :=
      List.countP_pos_iff.2 ⟨d, hd, decide_eq_true hlost⟩
    omega
  · intro hused
    have hname : normalizeName u t = normalizeName u s := by
      rw [normalizeName_eq, normalizeName_eq, unmarked_eq hu, unmarked_eq hu, hkept hused]
    exact ⟨hname, fun corpus input hs ht => screenNames_congr hf hname h.filter_hangul hs ht⟩

theorem caseContext_threeScripts : threeScripts.CaseContext where
  mark a b m hm := by
    have hlower : lowerChar m = m := by
      simp only [isDiacritic, inRange, Bool.and_eq_true, decide_eq_true_eq] at hm
      rw [lowerChar_eq_iff, caseDistance]
      split_ifs <;> omega
    refine ⟨a.map lowerChar, b.map lowerChar, List.map_append, ?_⟩
    exact List.map_append.trans (by rw [List.map_cons, hlower])
  letter a b c d hc hd := by
    have hlatin : lowerChar c = c.toLower := by
      have hall : ∀ n < 128, lowerChar (Char.ofNat n) = (Char.ofNat n).toLower := by decide +kernel
      have hcase := hall c.toNat (toNat_asciiLetter hc).2
      rwa [Char.ofNat_toNat] at hcase
    have hlook : lowerChar d = Char.ofNat (d.toNat + caseDistance d.toNat) := by
      rw [lowerChar]
      split_ifs with h
      · rw [h, Nat.add_zero, Char.ofNat_toNat]
      · rfl
    refine ⟨a.map lowerChar, b.map lowerChar, ?_, ?_⟩
    · exact List.map_append.trans (by rw [List.map_cons, hlatin])
    · exact List.map_append.trans (by rw [List.map_cons, hlook])
  decomposition_mark m hm d hd := by
    have hall : ∀ p ∈ COMPOSED, ¬ (0x300 ≤ p.1 ∧ p.1 ≤ 0x36f) := by decide
    rcases composed_cases m with h | h
    · rw [h, List.mem_singleton] at hd
      rwa [hd]
    · simp only [isDiacritic, inRange, Bool.and_eq_true, decide_eq_true_eq] at hm
      exact absurd hm (hall _ h)
  decomposition_greek := by decide

/-- The Greek capital mu for the first letter. -/
theorem disguise_mary :
    Disguise [Char.ofNat 0x39c] "Mary".toList (Char.ofNat 0x39c :: "ary".toList) :=
  .lookalike 'M' (Char.ofNat 0x39c) (by decide) (by decide)
    (.keep 'a' (.keep 'r' (.keep 'y' .nil)))

theorem disguise_escapes :
    ¬ ∀ used s t, Disguise used s t → Neutralised threeScripts s t := by
  intro h
  have hname := (h _ _ _ disguise_mary).1
  exact absurd hname (by decide +kernel)

/-- That disguise, and one by the Cyrillic er, an acute accent and a space of no width. -/
theorem disguise_neutralised_petrov :
    ¬ Neutralised threeScripts "Mary".toList (Char.ofNat 0x39c :: "ary".toList) ∧
      Neutralised threeScripts "Pet".toList
        [Char.ofNat 0x420, 'e', Char.ofNat 0x301, Char.ofNat 0x200b, 't'] := by
  constructor
  · intro h
    exact (disguise_neutralised_iff canonical_threeScripts caseFolding_threeScripts
      caseContext_threeScripts disguise_mary).1 h (Char.ofNat 0x39c) List.mem_cons_self (by decide)
  · refine (disguise_neutralised_iff canonical_threeScripts caseFolding_threeScripts
      caseContext_threeScripts (?_ : Disguise [Char.ofNat 0x420] _ _)).2 ?_
    · exact .lookalike 'P' (Char.ofNat 0x420) (by decide) (by decide) (.keep 'e'
        (.mark (Char.ofNat 0x301) (by decide) (.invisible (Char.ofNat 0x200b) (by decide)
          (.keep 't' .nil))))
    · intro d hd
      rw [List.mem_singleton.1 hd]
      decide

end Aml

end Proofmark
