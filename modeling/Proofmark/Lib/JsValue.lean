/-
  JSON values, `JSON.stringify` and `JSON.parse`.

  A string is a list of UTF-16 code units, so that it may hold lone surrogates; a text is a
  list of characters.  An object lists its own properties in their order: array indices
  first, ascending.  Finite numbers, with one zero, and their texts are parameters.

  `parse_text`: parsing a text gives back the value it was written from.
-/
import Mathlib.Data.List.Sort
import Proofmark.Lib.InsertionMap
import Proofmark.Lib.Json

abbrev JsString := List (BitVec 16)

inductive JsValue (ν : Type) where
  | null
  | bool (b : Bool)
  | num (x : ν)
  | str (s : JsString)
  | arr (l : List (JsValue ν))
  | obj (l : List (JsString × JsValue ν))

namespace JsValue

variable {ν : Type}

/-! ## Strings -/

def isHigh (u : BitVec 16) : Bool := decide (0xd800 ≤ u.toNat) && decide (u.toNat < 0xdc00)

def isLow (u : BitVec 16) : Bool := decide (0xdc00 ≤ u.toNat) && decide (u.toNat < 0xe000)

/-- The character of a surrogate pair. -/
def pairChar (u v : BitVec 16) : Char :=
  Char.ofNat (0x10000 + (u.toNat - 0xd800) * 0x400 + (v.toNat - 0xdc00))

/-- The code units of a character. -/
def utf16 (c : Char) : JsString :=
  if c.toNat < 0x10000 then [BitVec.ofNat 16 c.toNat]
  else [BitVec.ofNat 16 (0xd800 + (c.toNat - 0x10000) / 0x400),
    BitVec.ofNat 16 (0xdc00 + (c.toNat - 0x10000) % 0x400)]

def hex4 (n : ℕ) : List Char :=
  [Json.hexDigit (n / 4096 % 16), Json.hexDigit (n / 256 % 16), Json.hexDigit (n / 16 % 16),
    Json.hexDigit (n % 16)]

/-- The escapes of one letter. -/
def escapes : List (Char × ℕ) :=
  [('"', 0x22), ('\\', 0x5c), ('b', 0x8), ('t', 0x9), ('n', 0xa), ('f', 0xc), ('r', 0xd)]

/-- A code unit that is no half of a pair. -/
def escapeUnit (u : BitVec 16) : List Char :=
  match escapes.find? fun e => e.2 == u.toNat with
  | some e => ['\\', e.1]
  | none =>
    if u.toNat < 0x20 ∨ isHigh u = true ∨ isLow u = true then '\\' :: 'u' :: hex4 u.toNat
    else [Char.ofNat u.toNat]

def quoteUnits : JsString → List Char
  | [] => []
  | [u] => escapeUnit u
  | u :: v :: s =>
    if isHigh u && isLow v then pairChar u v :: quoteUnits s
    else escapeUnit u ++ quoteUnits (v :: s)

/-- `QuoteJSONString` -/
def quote (s : JsString) : List Char := '"' :: quoteUnits s ++ ['"']

def hexValue (c : Char) : Option ℕ := "0123456789abcdef".toList.idxOf? c.toLower

def hex4Value (a b c d : Char) : Option ℕ := do
  pure (4096 * (← hexValue a) + 256 * (← hexValue b) + 16 * (← hexValue c) + (← hexValue d))

/-- The value of an escape of one letter; a solidus may be escaped too. -/
def unescape (c : Char) : Option ℕ := if c = '/' then some 0x2f else escapes.lookup c

/-- A string up to its closing quote. -/
def parseString : List Char → Option (JsString × List Char)
  | [] => none
  | c :: r =>
    if c = '"' then some ([], r)
    else if c = '\\' then
      match r with
      | [] => none
      | e :: r =>
        if e = 'u' then
          match r with
          | a :: b :: c :: d :: r => do
            let n ← hex4Value a b c d
            let (s, r) ← parseString r
            pure (BitVec.ofNat 16 n :: s, r)
          | _ => none
        else do
          let n ← unescape e
          let (s, r) ← parseString r
          pure (BitVec.ofNat 16 n :: s, r)
    else if c.toNat < 0x20 then none
    else do
      let (s, r) ← parseString r
      pure (utf16 c ++ s, r)

theorem toNat_ofNat {n : ℕ} (h : n.isValidChar) : (Char.ofNat n).toNat = n := by
  rw [Char.ofNat, dif_pos h]
  rfl

theorem hexValue_hexDigit {n : ℕ} (h : n < 16) : hexValue (Json.hexDigit n) = some n := by
  have hall : ∀ n < 16, hexValue (Json.hexDigit n) = some n := by decide
  exact hall n h

theorem hex4Value_hex4 {n : ℕ} (h : n < 65536) :
    hex4Value (Json.hexDigit (n / 4096 % 16)) (Json.hexDigit (n / 256 % 16))
      (Json.hexDigit (n / 16 % 16)) (Json.hexDigit (n % 16)) = some n := by
  rw [hex4Value, hexValue_hexDigit (by omega), hexValue_hexDigit (by omega),
    hexValue_hexDigit (by omega), hexValue_hexDigit (by omega)]
  refine congrArg some ?_
  omega

/-- A plain character of a string. -/
theorem parseString_plain {c : Char} {r : List Char} (hq : c ≠ '"') (hb : c ≠ '\\')
    (hc : 0x20 ≤ c.toNat) :
    parseString (c :: r) = (parseString r).map fun p => (utf16 c ++ p.1, p.2) := by
  rw [parseString.eq_def]
  simp only [if_neg hq, if_neg hb, if_neg (Nat.not_lt.2 hc)]
  cases parseString r <;> rfl

theorem parseString_unescape {e : Char} {n : ℕ} (hne : e ≠ 'u') (hun : unescape e = some n)
    (r : List Char) : parseString ('\\' :: e :: r) =
      (parseString r).map fun p => (BitVec.ofNat 16 n :: p.1, p.2) := by
  have hb : ('\\' : Char) ≠ '"' := by decide
  rw [parseString.eq_def]
  simp only [if_neg hb, if_true, if_neg hne, hun]
  cases parseString r <;> rfl

theorem parseString_close (r : List Char) : parseString ('"' :: r) = some ([], r) := by
  rw [parseString.eq_def]
  rfl

theorem ne_of_toNat {c d : Char} (h : c.toNat ≠ d.toNat) : c ≠ d := fun he => h (he ▸ rfl)

/-- **An escaped code unit is read back.** -/
theorem parseString_escapeUnit (u : BitVec 16) (r : List Char) :
    parseString (escapeUnit u ++ r) = (parseString r).map fun p => (u :: p.1, p.2) := by
  have hu := u.isLt
  rw [escapeUnit]
  cases he : escapes.find? fun e => e.2 == u.toNat with
  | some e =>
    have hmem := List.mem_of_find?_eq_some he
    have hval : e.2 = u.toNat := by simpa using List.find?_some he
    have hall : ∀ e ∈ escapes, e.1 ≠ 'u' ∧ unescape e.1 = some e.2 := by decide
    obtain ⟨hne, hun⟩ := hall e hmem
    have hself : BitVec.ofNat 16 u.toNat = u := by simp
    simp only [List.cons_append, List.nil_append]
    rw [parseString_unescape hne hun, hval, hself]
  | none =>
    simp only
    split_ifs with hs
    · have hb : ('\\' : Char) ≠ '"' := by decide
      simp only [List.cons_append, hex4, List.nil_append]
      rw [parseString, if_neg hb, if_pos rfl, if_pos rfl, hex4Value_hex4 hu]
      cases parseString r with
      | none => rfl
      | some p =>
        have hself : BitVec.ofNat 16 u.toNat = u := by simp
        simp [hself]
    · simp only [not_or, Bool.not_eq_true, isHigh, isLow, Bool.and_eq_false_iff,
        decide_eq_false_iff_not] at hs
      have hvalid : u.toNat.isValidChar := by
        rw [Nat.isValidChar]
        omega
      have hnone := List.find?_eq_none.1 he
      have hne22 : u.toNat ≠ 0x22 := fun h => hnone ('"', 0x22) (by decide) (by simp [h])
      have hne5c : u.toNat ≠ 0x5c := fun h => hnone ('\\', 0x5c) (by decide) (by simp [h])
      have hnat := toNat_ofNat hvalid
      have hq : Char.ofNat u.toNat ≠ '"' := ne_of_toNat (by rw [hnat]; exact hne22)
      have hb : Char.ofNat u.toNat ≠ '\\' := ne_of_toNat (by rw [hnat]; exact hne5c)
      have hunits : utf16 (Char.ofNat u.toNat) = [u] := by
        rw [utf16, hnat, if_pos hu]
        simp
      rw [List.singleton_append, parseString_plain hq hb (by omega), hunits]
      rfl

theorem parseString_pair {u v : BitVec 16} (hu : isHigh u = true) (hv : isLow v = true)
    (r : List Char) : parseString (pairChar u v :: r) =
      (parseString r).map fun p => (u :: v :: p.1, p.2) := by
  simp only [isHigh, isLow, Bool.and_eq_true, decide_eq_true_eq] at hu hv
  have hnat : (pairChar u v).toNat = 0x10000 + (u.toNat - 0xd800) * 0x400 + (v.toNat - 0xdc00) := by
    refine toNat_ofNat ?_
    rw [Nat.isValidChar]
    omega
  have hunits : utf16 (pairChar u v) = [u, v] := by
    have h1 : 0xd800 + ((pairChar u v).toNat - 0x10000) / 0x400 = u.toNat := by omega
    have h2 : 0xdc00 + ((pairChar u v).toNat - 0x10000) % 0x400 = v.toNat := by omega
    rw [utf16, if_neg (by omega), h1, h2]
    simp
  have hq : pairChar u v ≠ '"' := ne_of_toNat (by
    have h22 : ('"' : Char).toNat = 0x22 := rfl
    omega)
  have hb : pairChar u v ≠ '\\' := ne_of_toNat (by
    have h5c : ('\\' : Char).toNat = 0x5c := rfl
    omega)
  rw [parseString_plain hq hb (by omega), hunits]
  rfl

/-- **A quoted string is read back.** -/
theorem parseString_quoteUnits (s : JsString) (r : List Char) :
    parseString (quoteUnits s ++ '"' :: r) = some (s, r) := by
  fun_induction quoteUnits s with
  | case1 => exact parseString_close r
  | case2 u =>
    rw [parseString_escapeUnit, parseString_close]
    rfl
  | case3 u v s h ih =>
    obtain ⟨hu, hv⟩ := Bool.and_eq_true_iff.1 h
    rw [List.cons_append, parseString_pair hu hv, ih]
    rfl
  | case4 u v s h ih =>
    rw [List.append_assoc, parseString_escapeUnit, ih]
    rfl

/-! ## Objects -/

/-- The order of keys by their code units. -/
def keyLE (k k' : JsString) : Bool := lexLE BitVec.toNat k k'

def isDigitUnit (u : BitVec 16) : Bool := decide (0x30 ≤ u.toNat) && decide (u.toNat ≤ 0x39)

/-- The number of a key that is an array index. -/
def arrayIndex? (k : JsString) : Option ℕ :=
  let digits := k.map fun u => u.toNat - 0x30
  let n := digits.foldl (fun n d => 10 * n + d) 0
  if k ≠ [] ∧ k.all isDigitUnit = true ∧ (k.head? = some 0x30 → k.length = 1) ∧
      n < 4294967295 then some n
  else none

/-- `OrdinaryOwnPropertyKeys`, over properties in order of creation -/
def propertyOrder {α : Type} (l : List (JsString × α)) : List (JsString × α) :=
  (l.filter fun f => (arrayIndex? f.1).isSome).insertionSort
    (fun a b => (arrayIndex? a.1).getD 0 ≤ (arrayIndex? b.1).getD 0) ++
    l.filter fun f => !(arrayIndex? f.1).isSome

/-- An object with the given properties, a later one in the place of an earlier. -/
def ofEntries (l : List (JsString × JsValue ν)) : JsValue ν :=
  .obj (propertyOrder (l.foldl (fun m f => InsertionMap.set f.1 f.2 m) []))

/-- An induction principle for values. -/
theorem induct {P : JsValue ν → Prop} (null : P .null) (bool : ∀ b, P (.bool b))
    (num : ∀ x, P (.num x)) (str : ∀ s, P (.str s)) (arr : ∀ l, (∀ v ∈ l, P v) → P (.arr l))
    (obj : ∀ l, (∀ f ∈ l, P f.2) → P (.obj l)) (v : JsValue ν) : P v :=
  @JsValue.rec ν P (fun l => ∀ v ∈ l, P v) (fun l => ∀ f ∈ l, P f.2) (fun f => P f.2) null bool num
    str arr obj (by simp) (fun _ _ h hl => List.forall_mem_cons.2 ⟨h, hl⟩) (by simp)
    (fun _ _ h hl => List.forall_mem_cons.2 ⟨h, hl⟩) (fun _ _ h => h) v

section
variable (p : List (JsString × JsValue ν) → Prop)

mutual

/-- The fields of every object in the value satisfy `p`. -/
def AllObjects : JsValue ν → Prop
  | .arr l => AllElements l
  | .obj l => p l ∧ AllFields l
  | _ => True

def AllElements : List (JsValue ν) → Prop
  | [] => True
  | v :: l => AllObjects v ∧ AllElements l

def AllFields : List (JsString × JsValue ν) → Prop
  | [] => True
  | (_, v) :: l => AllObjects v ∧ AllFields l

end

variable {p}

theorem allObjects_arr {l : List (JsValue ν)} :
    (arr l).AllObjects p ↔ ∀ v ∈ l, v.AllObjects p := by
  rw [AllObjects]
  induction l with
  | nil => simp [AllElements]
  | cons v l ih => simp [AllElements, ih]

theorem allObjects_obj {l : List (JsString × JsValue ν)} :
    (obj l).AllObjects p ↔ p l ∧ ∀ f ∈ l, f.2.AllObjects p := by
  have hfields : AllFields p l ↔ ∀ f ∈ l, f.2.AllObjects p := by
    induction l with
    | nil => simp [AllFields]
    | cons f l ih =>
      obtain ⟨k, v⟩ := f
      rw [AllFields, ih, List.forall_mem_cons]
  rw [AllObjects, hfields]

end

/-- No object has a key twice. -/
def Distinct (v : JsValue ν) : Prop := v.AllObjects fun l => (l.map Prod.fst).Nodup

/-- Every object lists its properties in their order. -/
def Ordered (v : JsValue ν) : Prop := v.AllObjects fun l => propertyOrder l = l

/-! ## Texts -/

def isNumberChar (c : Char) : Bool := "0123456789+-.eE".toList.contains c

/-- Finite numbers and their texts. -/
structure Numbers (ν : Type) where
  text : ν → List Char
  read : List Char → Option ν
  text_ne : ∀ x, text x ≠ []
  text_chars : ∀ x, ∀ c ∈ text x, isNumberChar c = true
  /-- the text of a number is its shortest one that reads as the number -/
  read_text : ∀ x, read (text x) = some x

/-- The natural numbers, in decimal. -/
def Numbers.nat : Numbers ℕ where
  text n := (Nat.repr n).toList
  read t := if t ≠ [] ∧ t.all Char.isDigit = true then some (Nat.ofDigitChars 10 t 0) else none
  text_ne n := by
    rw [Nat.toList_repr]
    exact Nat.toDigits_ne_nil
  text_chars n c hc := by
    rw [Nat.toList_repr] at hc
    have hdigit := Nat.isDigit_of_mem_toDigits (by decide) (by decide) hc
    have hall : ∀ m < 128, (Char.ofNat m).isDigit = true → isNumberChar (Char.ofNat m) = true := by
      decide
    have hlt : c.toNat < 128 := by
      rw [Char.isDigit, Bool.and_eq_true, decide_eq_true_eq, decide_eq_true_eq] at hdigit
      exact lt_of_le_of_lt (UInt32.le_iff_toNat_le.1 hdigit.2) (by decide)
    have hc := hall c.toNat hlt
    rw [Char.ofNat_toNat] at hc
    exact hc hdigit
  read_text n := by
    have hdigits : ∀ c ∈ Nat.toDigits 10 n, c.isDigit = true := fun c hc =>
      Nat.isDigit_of_mem_toDigits (by decide) (by decide) hc
    rw [Nat.toList_repr, if_pos ⟨Nat.toDigits_ne_nil, List.all_eq_true.2 hdigits⟩,
      Nat.ofDigitChars_ten_toDigits]

section
variable (N : Numbers ν)

mutual

/-- `JSON.stringify` -/
def text : JsValue ν → List Char
  | .null => "null".toList
  | .bool true => "true".toList
  | .bool false => "false".toList
  | .num x => N.text x
  | .str s => quote s
  | .arr l => '[' :: elementsText l
  | .obj l => '\x7b' :: fieldsText l

/-- The elements and the closing bracket. -/
def elementsText : List (JsValue ν) → List Char
  | [] => [']']
  | [v] => text v ++ [']']
  | v :: l => text v ++ ',' :: elementsText l

/-- The members and the closing brace. -/
def fieldsText : List (JsString × JsValue ν) → List Char
  | [] => ['\x7d']
  | [(k, v)] => quote k ++ ':' :: text v ++ ['\x7d']
  | (k, v) :: l => quote k ++ ':' :: text v ++ ',' :: fieldsText l

end

def isWhitespace (c : Char) : Bool := c == ' ' || c == '\t' || c == '\n' || c == '\r'

def skipSpace (s : List Char) : List Char := s.dropWhile isWhitespace

mutual

/-- A value at the front of a text, and what follows it. -/
def parseValue : ℕ → List Char → Option (JsValue ν × List Char)
  | 0, _ => none
  | n + 1, s =>
    match skipSpace s with
    | [] => none
    | c :: r =>
      if c = '"' then (parseString r).map fun p => (.str p.1, p.2)
      else if c = '[' then
        if (skipSpace r).head? = some ']' then some (.arr [], (skipSpace r).tail)
        else (parseElements n r).map fun p => (.arr p.1, p.2)
      else if c = '\x7b' then
        if (skipSpace r).head? = some '\x7d' then some (.obj [], (skipSpace r).tail)
        else (parseFields n r).map fun p => (ofEntries p.1, p.2)
      else if isNumberChar c then
        (N.read ((c :: r).takeWhile isNumberChar)).map fun x =>
          (.num x, (c :: r).dropWhile isNumberChar)
      else if "null".toList.isPrefixOf (c :: r) then some (.null, (c :: r).drop 4)
      else if "true".toList.isPrefixOf (c :: r) then some (.bool true, (c :: r).drop 4)
      else if "false".toList.isPrefixOf (c :: r) then some (.bool false, (c :: r).drop 5)
      else none

/-- The elements up to the closing bracket. -/
def parseElements : ℕ → List Char → Option (List (JsValue ν) × List Char)
  | 0, _ => none
  | n + 1, s => do
    let (v, r) ← parseValue n s
    match skipSpace r with
    | ',' :: r => (parseElements n r).map fun p => (v :: p.1, p.2)
    | ']' :: r => some ([v], r)
    | _ => none

/-- The members up to the closing brace. -/
def parseFields : ℕ → List Char → Option (List (JsString × JsValue ν) × List Char)
  | 0, _ => none
  | n + 1, s =>
    match skipSpace s with
    | '"' :: r => do
      let (k, r) ← parseString r
      match skipSpace r with
      | ':' :: r => do
        let (v, r) ← parseValue n r
        match skipSpace r with
        | ',' :: r => (parseFields n r).map fun p => ((k, v) :: p.1, p.2)
        | '\x7d' :: r => some ([(k, v)], r)
        | _ => none
      | _ => none
    | _ => none

end

/-- `JSON.parse` -/
def parse (s : List Char) : Option (JsValue ν) :=
  match parseValue N (s.length + 1) s with
  | some (v, r) => if skipSpace r = [] then some v else none
  | none => none

end

/-! ## Reading back -/

theorem foldl_set {α : Type} {l m : List (JsString × α)}
    (h : ((m ++ l).map Prod.fst).Nodup) :
    l.foldl (fun m f => InsertionMap.set f.1 f.2 m) m = m ++ l := by
  induction l generalizing m with
  | nil => rw [List.append_nil, List.foldl_nil]
  | cons f l ih =>
    have hnew : f.1 ∉ m.map Prod.fst := by
      rw [List.map_append, List.nodup_append] at h
      exact fun hm => h.2.2 _ hm _ (by simp) rfl
    have hm : m ++ [f] ++ l = m ++ f :: l := by simp
    rw [List.foldl_cons, InsertionMap.set, if_neg hnew, ih (by rwa [hm]), hm]

theorem ofEntries_of_ordered {l : List (JsString × JsValue ν)} (hd : (l.map Prod.fst).Nodup)
    (ho : propertyOrder l = l) : ofEntries l = obj l := by
  rw [ofEntries, foldl_set (by simpa using hd), List.nil_append, ho]

/-- No number goes on there. -/
def Boundary (r : List Char) : Prop := ∀ c, r.head? = some c → isNumberChar c = false

theorem Boundary.cons {c : Char} (r : List Char) (hc : isNumberChar c = false) :
    Boundary (c :: r) := by
  intro d hd
  rw [← Option.some.inj hd]
  exact hc

theorem skipSpace_cons {c : Char} (r : List Char) (hc : isWhitespace c = false) :
    skipSpace (c :: r) = c :: r := by
  rw [skipSpace, List.dropWhile_cons_of_neg]
  simp [hc]

theorem plain_of_isNumberChar {c : Char} (hc : isNumberChar c = true) :
    isWhitespace c = false ∧ c ≠ '"' ∧ c ≠ '[' ∧ c ≠ '\x7b' ∧ c ≠ ']' ∧ c ≠ '\x7d' := by
  have hall : ("0123456789+-.eE".toList.all fun c => decide (isWhitespace c = false ∧ c ≠ '"' ∧
      c ≠ '[' ∧ c ≠ '\x7b' ∧ c ≠ ']' ∧ c ≠ '\x7d')) = true := by decide
  exact of_decide_eq_true (List.all_eq_true.1 hall c (List.contains_iff_mem.1 hc))

section
variable {N : Numbers ν} {n : ℕ} {r : List Char}

theorem span_number {t : List Char} (ht : ∀ c ∈ t, isNumberChar c = true) (hr : Boundary r) :
    (t ++ r).takeWhile isNumberChar = t ∧ (t ++ r).dropWhile isNumberChar = r := by
  induction t with
  | nil =>
    cases r with
    | nil => exact ⟨rfl, rfl⟩
    | cons c r =>
      have hc : ¬ isNumberChar c = true := by
        rw [hr c rfl]
        exact Bool.false_ne_true
      exact ⟨List.takeWhile_cons_of_neg hc, List.dropWhile_cons_of_neg hc⟩
  | cons c t ih =>
    obtain ⟨hc, ht⟩ := List.forall_mem_cons.1 ht
    obtain ⟨htake, hdrop⟩ := ih ht
    rw [List.cons_append, List.takeWhile_cons_of_pos hc, List.dropWhile_cons_of_pos hc, htake,
      hdrop]
    exact ⟨rfl, rfl⟩

/-- The first character of a text. -/
theorem text_head (v : JsValue ν) :
    ∃ c t, v.text N = c :: t ∧ isWhitespace c = false ∧ c ≠ ']' := by
  cases v with
  | null => exact ⟨'n', "ull".toList, by rw [text]; rfl, by decide, by decide⟩
  | bool b =>
    cases b
    · exact ⟨'f', "alse".toList, by rw [text]; rfl, by decide, by decide⟩
    · exact ⟨'t', "rue".toList, by rw [text]; rfl, by decide, by decide⟩
  | num x =>
    obtain ⟨c, t, ht⟩ := List.exists_cons_of_ne_nil (N.text_ne x)
    have hc := plain_of_isNumberChar (N.text_chars x c (by rw [ht]; exact List.mem_cons_self))
    exact ⟨c, t, by rw [text, ht], hc.1, hc.2.2.2.2.1⟩
  | str s => exact ⟨'"', quoteUnits s ++ ['"'], by rw [text, quote]; rfl, by decide, by decide⟩
  | arr l => exact ⟨'[', elementsText N l, by rw [text], by decide, by decide⟩
  | obj l => exact ⟨'\x7b', fieldsText N l, by rw [text], by decide, by decide⟩

/-- What reading the text of `v` at the front of a text gives. -/
def ReadsBack (N : Numbers ν) (v : JsValue ν) : Prop :=
  ∀ n r, (v.text N).length ≤ n → Boundary r → parseValue N n (v.text N ++ r) = some (v, r)

theorem parseElements_text {l : List (JsValue ν)} (hl : ∀ v ∈ l, ReadsBack N v) (hne : l ≠ [])
    (hn : (elementsText N l).length ≤ n) :
    parseElements N n (elementsText N l ++ r) = some (l, r) := by
  induction l generalizing n with
  | nil => exact absurd rfl hne
  | cons v l ih =>
    obtain ⟨hv, hl⟩ := List.forall_mem_cons.1 hl
    cases l with
    | nil =>
      rw [elementsText, List.length_append, List.length_singleton] at hn
      obtain ⟨n, rfl⟩ : ∃ m, n = m + 1 := ⟨n - 1, by omega⟩
      have hread := hv n (']' :: r) (by omega) (.cons r (by decide))
      rw [elementsText, List.append_assoc, List.singleton_append, parseElements, hread]
      have hskip := skipSpace_cons r (show isWhitespace ']' = false by decide)
      simp only [Option.bind_eq_bind, Option.bind_some, hskip]
    | cons w l =>
      rw [elementsText, List.length_append, List.length_cons] at hn
      · obtain ⟨n, rfl⟩ : ∃ m, n = m + 1 := ⟨n - 1, by omega⟩
        have hread := hv n (',' :: (elementsText N (w :: l) ++ r)) (by omega) (.cons _ (by decide))
        have hskip := skipSpace_cons (elementsText N (w :: l) ++ r)
          (show isWhitespace ',' = false by decide)
        rw [elementsText, List.append_assoc, List.cons_append, parseElements, hread]
        · simp only [Option.bind_eq_bind, Option.bind_some, hskip]
          rw [ih hl (by simp) (by omega)]
          rfl
        · simp
      · simp

theorem parseFields_text {l : List (JsString × JsValue ν)} (hl : ∀ f ∈ l, ReadsBack N f.2)
    (hne : l ≠ []) (hn : (fieldsText N l).length ≤ n) :
    parseFields N n (fieldsText N l ++ r) = some (l, r) := by
  have hquote : isWhitespace '"' = false := by decide
  have hcolon : isWhitespace ':' = false := by decide
  induction l generalizing n with
  | nil => exact absurd rfl hne
  | cons f l ih =>
    obtain ⟨k, v⟩ := f
    obtain ⟨hv, hl⟩ := List.forall_mem_cons.1 hl
    have hv : ReadsBack N v := hv
    cases l with
    | nil =>
      rw [fieldsText, quote] at hn ⊢
      simp only [List.length_append, List.length_cons, List.length_nil] at hn
      obtain ⟨n, rfl⟩ : ∃ m, n = m + 1 := ⟨n - 1, by omega⟩
      have hread := hv n ('\x7d' :: r) (by omega) (.cons r (by decide))
      have hskip := skipSpace_cons r (show isWhitespace '\x7d' = false by decide)
      simp only [List.append_assoc, List.cons_append, List.nil_append]
      rw [parseFields, skipSpace_cons _ hquote]
      simp only [parseString_quoteUnits, Option.bind_eq_bind, Option.bind_some,
        skipSpace_cons _ hcolon, hread, hskip]
    | cons g l =>
      rw [fieldsText, quote] at hn ⊢
      · simp only [List.length_append, List.length_cons, List.length_nil] at hn
        obtain ⟨n, rfl⟩ : ∃ m, n = m + 1 := ⟨n - 1, by omega⟩
        have hread := hv n (',' :: (fieldsText N (g :: l) ++ r)) (by omega) (.cons _ (by decide))
        have hskip := skipSpace_cons (fieldsText N (g :: l) ++ r)
          (show isWhitespace ',' = false by decide)
        simp only [List.append_assoc, List.cons_append, List.nil_append]
        rw [parseFields, skipSpace_cons _ hquote]
        simp only [parseString_quoteUnits, Option.bind_eq_bind, Option.bind_some,
          skipSpace_cons _ hcolon, hread, hskip]
        rw [ih hl (by simp) (by omega)]
        rfl
      · simp
      · simp

theorem fieldsText_head {l : List (JsString × JsValue ν)} (hne : l ≠ []) :
    ∃ t, fieldsText N l = '"' :: t := by
  rcases l with _ | ⟨⟨k, v⟩, _ | ⟨g, l⟩⟩
  · exact absurd rfl hne
  · exact ⟨_, by rw [fieldsText, quote]; rfl⟩
  · refine ⟨_, by rw [fieldsText, quote]; rfl; simp⟩

theorem elementsText_head {l : List (JsValue ν)} (hne : l ≠ []) :
    ∃ c t, elementsText N l = c :: t ∧ isWhitespace c = false ∧ c ≠ ']' := by
  rcases l with _ | ⟨v, _ | ⟨w, l⟩⟩
  · exact absurd rfl hne
  · obtain ⟨c, t, hv, hc⟩ := @text_head ν N v
    exact ⟨c, t ++ [']'], by rw [elementsText, hv]; rfl, hc⟩
  · obtain ⟨c, t, hv, hc⟩ := @text_head ν N v
    refine ⟨c, t ++ ',' :: elementsText N (w :: l), ?_, hc⟩
    rw [elementsText, hv]
    · rfl
    · simp

/-- **A text at the front of a text is read back**, by induction on the value. -/
theorem readsBack {v : JsValue ν} (hd : v.Distinct) (ho : v.Ordered) : ReadsBack N v := by
  induction v using JsValue.induct with
  | null =>
    intro n r hn _
    obtain ⟨n, rfl⟩ : ∃ m, n = m + 1 := ⟨n - 1, by rw [text] at hn; simp at hn; omega⟩
    rw [text, parseValue]
    rfl
  | bool b =>
    intro n r hn _
    cases b
    · obtain ⟨n, rfl⟩ : ∃ m, n = m + 1 := ⟨n - 1, by rw [text] at hn; simp at hn; omega⟩
      rw [text, parseValue]
      rfl
    · obtain ⟨n, rfl⟩ : ∃ m, n = m + 1 := ⟨n - 1, by rw [text] at hn; simp at hn; omega⟩
      rw [text, parseValue]
      rfl
  | num x =>
    intro n r hn hr
    rw [text] at hn ⊢
    obtain ⟨c, t, ht⟩ := List.exists_cons_of_ne_nil (N.text_ne x)
    obtain ⟨n, rfl⟩ : ∃ m, n = m + 1 := ⟨n - 1, by rw [ht, List.length_cons] at hn; omega⟩
    have hnum : isNumberChar c = true := N.text_chars x c (by rw [ht]; exact List.mem_cons_self)
    obtain ⟨hspace, hq, hb, hc, -, -⟩ := plain_of_isNumberChar hnum
    obtain ⟨htake, hdrop⟩ := span_number (N.text_chars x) hr
    have hread := N.read_text x
    rw [ht] at htake hdrop hread ⊢
    rw [List.cons_append] at htake hdrop ⊢
    rw [parseValue, skipSpace_cons _ hspace]
    simp only [if_neg hq, if_neg hb, if_neg hc, hnum, if_true, htake, hdrop, hread, Option.map_some]
  | str s =>
    intro n r hn _
    rw [text, quote] at hn ⊢
    obtain ⟨n, rfl⟩ : ∃ m, n = m + 1 := ⟨n - 1, by simp at hn; omega⟩
    rw [List.append_assoc, List.cons_append, parseValue, skipSpace_cons _ (by decide)]
    simp only [if_true, List.singleton_append, parseString_quoteUnits, Option.map_some]
  | arr l ih =>
    intro n r hn _
    have hl : ∀ v ∈ l, ReadsBack N v := fun v hv => ih v hv (allObjects_arr.1 hd v hv)
      (allObjects_arr.1 ho v hv)
    rw [text] at hn ⊢
    rw [List.length_cons] at hn
    obtain ⟨n, rfl⟩ : ∃ m, n = m + 1 := ⟨n - 1, by omega⟩
    rw [List.cons_append, parseValue, skipSpace_cons _ (by decide)]
    by_cases hne : l = []
    · subst hne
      rw [elementsText]
      rfl
    · obtain ⟨c, t, ht, hspace, hc⟩ := @elementsText_head ν N l hne
      have hhead : (skipSpace (elementsText N l ++ r)).head? ≠ some ']' := by
        rw [ht, List.cons_append, skipSpace_cons _ hspace]
        exact fun he => hc (Option.some.inj he)
      have hq : ('[' : Char) ≠ '"' := by decide
      simp only [if_neg hq, if_true, if_neg hhead]
      rw [parseElements_text hl hne (by omega)]
      rfl
  | obj l ih =>
    intro n r hn _
    have hl : ∀ f ∈ l, ReadsBack N f.2 := fun f hf => ih f hf ((allObjects_obj.1 hd).2 f hf)
      ((allObjects_obj.1 ho).2 f hf)
    rw [text] at hn ⊢
    rw [List.length_cons] at hn
    obtain ⟨n, rfl⟩ : ∃ m, n = m + 1 := ⟨n - 1, by omega⟩
    rw [List.cons_append, parseValue, skipSpace_cons _ (by decide)]
    by_cases hne : l = []
    · subst hne
      rw [fieldsText]
      rfl
    · obtain ⟨t, ht⟩ := @fieldsText_head ν N l hne
      have hhead : (skipSpace (fieldsText N l ++ r)).head? ≠ some '\x7d' := by
        rw [ht, List.cons_append, skipSpace_cons _ (by decide)]
        exact fun he => absurd (Option.some.inj he) (by decide)
      have hq : ('\x7b' : Char) ≠ '"' := by decide
      have hb : ('\x7b' : Char) ≠ '[' := by decide
      simp only [if_neg hq, if_neg hb, if_true, if_neg hhead]
      rw [parseFields_text hl hne (by omega), Option.map_some,
        ofEntries_of_ordered (allObjects_obj.1 hd).1 (allObjects_obj.1 ho).1]

/-- **`JSON.parse` inverts `JSON.stringify`.** -/
theorem parse_text {v : JsValue ν} (hd : v.Distinct) (ho : v.Ordered) :
    parse N (v.text N) = some v := by
  have hread := @readsBack ν N v hd ho ((v.text N).length + 1) [] (by omega) (by simp [Boundary])
  rw [List.append_nil] at hread
  rw [parse, hread]
  rfl

end

/-! ## Changes of every object -/

section
variable (g : List (JsString × JsValue ν) → List (JsString × JsValue ν))

mutual

/-- `g` applied to the fields of every object, the innermost first. -/
def mapObjects : JsValue ν → JsValue ν
  | .arr l => .arr (mapElements l)
  | .obj l => .obj (g (mapFields l))
  | .null => .null
  | .bool b => .bool b
  | .num x => .num x
  | .str s => .str s

def mapElements : List (JsValue ν) → List (JsValue ν)
  | [] => []
  | v :: l => mapObjects v :: mapElements l

def mapFields : List (JsString × JsValue ν) → List (JsString × JsValue ν)
  | [] => []
  | (k, v) :: l => (k, mapObjects v) :: mapFields l

end

/-- `h` applied to the values of the fields. -/
def onValues (h : JsValue ν → JsValue ν) (l : List (JsString × JsValue ν)) :
    List (JsString × JsValue ν) := l.map fun f => (f.1, h f.2)

@[simp] theorem keys_onValues (h : JsValue ν → JsValue ν) (l : List (JsString × JsValue ν)) :
    (onValues h l).map Prod.fst = l.map Prod.fst := by
  rw [onValues, List.map_map]
  rfl

theorem onValues_congr {h h' : JsValue ν → JsValue ν} {l : List (JsString × JsValue ν)}
    (heq : ∀ f ∈ l, h f.2 = h' f.2) : onValues h l = onValues h' l :=
  List.map_congr_left fun f hf => by rw [heq f hf]

theorem mapObjects_arr (l : List (JsValue ν)) :
    mapObjects g (arr l) = arr (l.map (mapObjects g)) := by
  rw [mapObjects]
  refine congrArg arr ?_
  induction l with
  | nil => rfl
  | cons v l ih => rw [mapElements, ih, List.map_cons]

theorem mapObjects_obj (l : List (JsString × JsValue ν)) :
    mapObjects g (obj l) = obj (g (onValues (mapObjects g) l)) := by
  have hfields : mapFields g l = onValues (mapObjects g) l := by
    induction l with
    | nil => rfl
    | cons f l ih =>
      obtain ⟨k, v⟩ := f
      rw [mapFields, ih, onValues, onValues, List.map_cons]
  rw [mapObjects, hfields]

variable {g} {g' : List (JsString × JsValue ν) → List (JsString × JsValue ν)}
  {p q : List (JsString × JsValue ν) → Prop}

/-- What `g` makes of the fields of every object. -/
theorem allObjects_mapObjects (hsub : ∀ l, ∀ f ∈ g l, f ∈ l)
    (hg : ∀ l h, q l → p (g (onValues h l))) {v : JsValue ν} (hv : v.AllObjects q) :
    (mapObjects g v).AllObjects p := by
  induction v using JsValue.induct with
  | null | bool | num | str => trivial
  | arr l ih =>
    rw [mapObjects_arr, allObjects_arr]
    intro w hw
    obtain ⟨v, hmem, rfl⟩ := List.mem_map.1 hw
    exact ih v hmem (allObjects_arr.1 hv v hmem)
  | obj l ih =>
    obtain ⟨hl, hv⟩ := allObjects_obj.1 hv
    rw [mapObjects_obj, allObjects_obj]
    refine ⟨hg l _ hl, fun f hf => ?_⟩
    obtain ⟨f, hmem, rfl⟩ := List.mem_map.1 (hsub _ f hf)
    exact ih f hmem (hv f hmem)

theorem allObjects_of_mapObjects (hsub : ∀ l, ∀ f ∈ l, f ∈ g l)
    (hg : ∀ l h, p (g (onValues h l)) → q l) {v : JsValue ν} (hv : (mapObjects g v).AllObjects p) :
    v.AllObjects q := by
  induction v using JsValue.induct with
  | null | bool | num | str => trivial
  | arr l ih =>
    rw [mapObjects_arr, allObjects_arr] at hv
    exact allObjects_arr.2 fun v hmem => ih v hmem (hv _ (List.mem_map_of_mem hmem))
  | obj l ih =>
    rw [mapObjects_obj, allObjects_obj] at hv
    refine allObjects_obj.2 ⟨hg l _ hv.1, fun f hmem => ih f hmem ?_⟩
    exact hv.2 (f.1, mapObjects g f.2) (hsub _ _ (List.mem_map_of_mem hmem))

/-- Two changes that agree on the objects of a value. -/
theorem mapObjects_congr (hg : ∀ l h, q l → g (onValues h l) = g' (onValues h l)) {v : JsValue ν}
    (hv : v.AllObjects q) : mapObjects g v = mapObjects g' v := by
  induction v using JsValue.induct with
  | null | bool | num | str => simp only [mapObjects]
  | arr l ih =>
    rw [mapObjects_arr, mapObjects_arr]
    exact congrArg arr (List.map_congr_left fun v hmem => ih v hmem (allObjects_arr.1 hv v hmem))
  | obj l ih =>
    obtain ⟨hl, hv⟩ := allObjects_obj.1 hv
    rw [mapObjects_obj, mapObjects_obj, hg l _ hl]
    exact congrArg (fun l => obj (g' l)) (onValues_congr fun f hf => ih f hf (hv f hf))

/-- One change after another. -/
theorem mapObjects_mapObjects (hnat : ∀ h l, onValues h (g' l) = g' (onValues h l))
    (v : JsValue ν) :
    mapObjects g (mapObjects g' v) = mapObjects (fun l => g (g' l)) v := by
  induction v using JsValue.induct with
  | null | bool | num | str => simp only [mapObjects]
  | arr l ih =>
    rw [mapObjects_arr, mapObjects_arr, mapObjects_arr, List.map_map]
    exact congrArg arr (List.map_congr_left ih)
  | obj l ih =>
    rw [mapObjects_obj, mapObjects_obj, mapObjects_obj, hnat]
    refine congrArg (fun l => obj (g (g' l))) ?_
    rw [onValues, onValues, onValues, List.map_map]
    exact List.map_congr_left fun f hf => by rw [Function.comp_apply, ih f hf]

theorem mapObjects_id (hg : ∀ l h, q l → g (onValues h l) = onValues h l) {v : JsValue ν}
    (hv : v.AllObjects q) : mapObjects g v = v := by
  induction v using JsValue.induct with
  | null | bool | num | str => simp only [mapObjects]
  | arr l ih =>
    rw [mapObjects_arr]
    refine congrArg arr ((List.map_congr_left fun v hmem => ?_).trans (List.map_id l))
    exact ih v hmem (allObjects_arr.1 hv v hmem)
  | obj l ih =>
    obtain ⟨hl, hv⟩ := allObjects_obj.1 hv
    rw [mapObjects_obj, hg l _ hl]
    refine congrArg obj ((List.map_congr_left fun f hf => ?_).trans (List.map_id l))
    rw [ih f hf (hv f hf)]
    rfl

end

/-! ## Deep equality -/

instance : DecidableRel fun a b : JsString => keyLE a b = true :=
  fun a b => inferInstanceAs (Decidable (keyLE a b = true))

/-- The fields in the order of their keys. -/
def sortKeys (l : List (JsString × JsValue ν)) : List (JsString × JsValue ν) :=
  InsertionMap.sorted (fun a b => keyLE a b = true) l

/-- The fields of every object in the order of their keys. -/
def normal (v : JsValue ν) : JsValue ν := mapObjects sortKeys v

/-- The same value, but for the order of the fields of objects. -/
def DeepEq (v w : JsValue ν) : Prop := v.normal = w.normal

section
variable {l l' : List (JsString × JsValue ν)}

theorem sortKeys_perm (l : List (JsString × JsValue ν)) : (sortKeys l).Perm l :=
  List.perm_insertionSort _ l

/-- Fields in whatever order are sorted alike. -/
theorem sortKeys_eq (hn : (l.map Prod.fst).Nodup) (hp : l.Perm l') : sortKeys l = sortKeys l' :=
  InsertionMap.Same.sorted_eq lexLE_total (fun _ _ _ => lexLE_trans)
    (fun _ _ => lexLE_antisymm fun _ _ => BitVec.eq_of_toNat_eq) ⟨hp, hn⟩

theorem onValues_sortKeys (h : JsValue ν → JsValue ν) (l : List (JsString × JsValue ν)) :
    onValues h (sortKeys l) = sortKeys (onValues h l) :=
  List.map_insertionSort (fun a b : JsString × JsValue ν => keyLE a.1 b.1 = true)
    (fun a b : JsString × JsValue ν => keyLE a.1 b.1 = true) (fun f => (f.1, h f.2)) l
    fun _ _ _ _ => Iff.rfl

/-- Sorting after some fields are gone. -/
theorem sortKeys_filter (p : JsString × JsValue ν → Bool) (hn : (l.map Prod.fst).Nodup) :
    sortKeys (l.filter p) = (sortKeys l).filter p := by
  let le : JsString × JsValue ν → JsString × JsValue ν → Prop := fun a b => keyLE a.1 b.1 = true
  have : Std.Total le := ⟨fun a b => lexLE_total a.1 b.1⟩
  have : IsTrans (JsString × JsValue ν) le := ⟨fun a b c => lexLE_trans⟩
  have hsorted : ((sortKeys l).filter p).Pairwise le := (List.pairwise_insertionSort le l).filter p
  rw [sortKeys_eq (hn.sublist (List.filter_sublist.map _)) ((sortKeys_perm l).filter p).symm]
  exact hsorted.insertionSort_eq

theorem onValues_propertyOrder (h : JsValue ν → JsValue ν) (l : List (JsString × JsValue ν)) :
    onValues h (propertyOrder l) = propertyOrder (onValues h l) := by
  let key : JsString × JsValue ν → ℕ := fun f => (arrayIndex? f.1).getD 0
  have hsort := List.map_insertionSort (fun a b => key a ≤ key b) (fun a b => key a ≤ key b)
    (fun f => (f.1, h f.2)) (l.filter fun f => (arrayIndex? f.1).isSome) fun _ _ _ _ => Iff.rfl
  rw [propertyOrder, propertyOrder, onValues, onValues, List.map_append, hsort, List.filter_map,
    List.filter_map]
  rfl

theorem propertyOrder_perm {α : Type} (l : List (JsString × α)) : (propertyOrder l).Perm l := by
  refine List.Perm.trans ?_ (List.filter_append_perm (fun f => (arrayIndex? f.1).isSome) l)
  exact (List.perm_insertionSort _ _).append_right _

theorem propertyOrder_idem {α : Type} (l : List (JsString × α)) :
    propertyOrder (propertyOrder l) = propertyOrder l := by
  let key : JsString × α → Bool := fun f => (arrayIndex? f.1).isSome
  let le : JsString × α → JsString × α → Prop :=
    fun a b => (arrayIndex? a.1).getD 0 ≤ (arrayIndex? b.1).getD 0
  have : Std.Total le := ⟨fun a b => Nat.le_total _ _⟩
  have : IsTrans (JsString × α) le := ⟨fun a b c => Nat.le_trans⟩
  have hindices : ∀ f ∈ (l.filter key).insertionSort le, key f = true := fun f hf =>
    (List.mem_filter.1 ((List.perm_insertionSort le _).mem_iff.1 hf)).2
  have hothers : ∀ f ∈ l.filter fun f => !key f, key f = false := fun f hf => by
    simpa using (List.mem_filter.1 hf).2
  have hsplit : propertyOrder l =
      (l.filter key).insertionSort le ++ l.filter fun f => !key f := rfl
  have hleft : (propertyOrder l).filter key = (l.filter key).insertionSort le := by
    have hnil : (l.filter fun f => !key f).filter key = [] :=
      List.filter_eq_nil_iff.2 fun f hf => by simp [hothers f hf]
    rw [hsplit, List.filter_append, List.filter_eq_self.2 hindices, hnil, List.append_nil]
  have hright : (propertyOrder l).filter (fun f => !key f) = l.filter fun f => !key f := by
    have hnil : ((l.filter key).insertionSort le).filter (fun f => !key f) = [] :=
      List.filter_eq_nil_iff.2 fun f hf => by simp [hindices f hf]
    have hself : (l.filter fun f => !key f).filter (fun f => !key f) = l.filter fun f => !key f :=
      List.filter_eq_self.2 fun f hf => by simp [hothers f hf]
    rw [hsplit, List.filter_append, hnil, List.nil_append, hself]
  calc propertyOrder (propertyOrder l)
      = ((propertyOrder l).filter key).insertionSort le ++
          (propertyOrder l).filter fun f => !key f := rfl
    _ = ((l.filter key).insertionSort le).insertionSort le ++ l.filter fun f => !key f := by
        rw [hleft, hright]
    _ = propertyOrder l := by
        rw [(List.pairwise_insertionSort le _).insertionSort_eq]
        rfl

end

/-! ## Records -/

/-- The names of properties that keep their order: distinct, and no array index. -/
def IsRecord (names : List JsString) : Prop := names.Nodup ∧ ∀ k ∈ names, arrayIndex? k = none

instance (names : List JsString) : Decidable (IsRecord names) :=
  inferInstanceAs (Decidable (_ ∧ _))

/-- Every object of the value is a record. -/
def Records (v : JsValue ν) : Prop := v.AllObjects fun l => IsRecord (l.map Prod.fst)

theorem AllObjects.imp {p q : List (JsString × JsValue ν) → Prop} {v : JsValue ν}
    (h : ∀ l, p l → q l) (hv : v.AllObjects p) : v.AllObjects q := by
  induction v using JsValue.induct with
  | null | bool | num | str => trivial
  | arr l ih =>
    rw [allObjects_arr] at hv ⊢
    intro v hmem
    exact ih v hmem (hv v hmem)
  | obj l ih =>
    rw [allObjects_obj] at hv ⊢
    exact ⟨h l hv.1, fun f hf => ih f hf (hv.2 f hf)⟩

theorem propertyOrder_of_isRecord {l : List (JsString × JsValue ν)} (h : IsRecord (l.map Prod.fst)) :
    propertyOrder l = l := by
  have hnone : ∀ f ∈ l, arrayIndex? f.1 = none := fun f hf => h.2 f.1 (List.mem_map_of_mem hf)
  have hfirst : (l.filter fun f => (arrayIndex? f.1).isSome) = [] :=
    List.filter_eq_nil_iff.2 fun f hf => by simp [hnone f hf]
  have hrest : (l.filter fun f => !(arrayIndex? f.1).isSome) = l :=
    List.filter_eq_self.2 fun f hf => by simp [hnone f hf]
  rw [propertyOrder, hfirst, hrest]
  rfl

/-- **Records are read back** from their text. -/
theorem Records.parse_text {v : JsValue ν} (N : Numbers ν) (h : v.Records) :
    parse N (v.text N) = some v :=
  JsValue.parse_text (AllObjects.imp (fun _ hl => hl.1) h)
    (AllObjects.imp (fun _ hl => propertyOrder_of_isRecord hl) h)

/-- A text may be followed by white space. -/
theorem Records.parse_text_append {v : JsValue ν} (N : Numbers ν) (h : v.Records) {r : List Char}
    (hb : Boundary r) (hr : skipSpace r = []) : parse N (v.text N ++ r) = some v := by
  have hread := readsBack (AllObjects.imp (fun _ hl => hl.1) h)
    (AllObjects.imp (fun _ hl => propertyOrder_of_isRecord hl) h) (N := N)
  rw [parse, hread _ r (by rw [List.length_append]; omega) hb]
  simp only [hr, if_true]

/-- The value of a property that no other property has the name of. -/
theorem lookup_eq_of_mem {α : Type} {l : List (JsString × α)} (h : (l.map Prod.fst).Nodup)
    {k : JsString} {v : α} (hmem : (k, v) ∈ l) : l.lookup k = some v := by
  induction l with
  | nil => cases hmem
  | cons f l ih =>
    obtain ⟨k', v'⟩ := f
    rw [List.map_cons, List.nodup_cons] at h
    rcases List.mem_cons.1 hmem with heq | htail
    · obtain ⟨rfl, rfl⟩ := Prod.mk.injEq .. ▸ heq
      simp
    · have hne : (k == k') = false := by
        rw [beq_eq_false_iff_ne]
        rintro rfl
        exact h.1 (List.mem_map.2 ⟨_, htail, rfl⟩)
      rw [List.lookup_cons, hne]
      exact ih h.2 htail

end JsValue
