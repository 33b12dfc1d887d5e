/-
  UTF-8 and the texts of strings.

  `encode` writes characters as bytes and `decode` is the strict reading back, which refuses
  what `encode` does not write (`decode_encode`).  `chars` gives the characters of a string of
  code units, a lone half of a pair as the replacement character.
-/
import Proofmark.Lib.JsValue
import Proofmark.Lib.Words

namespace Utf8

open Words JsValue

def byte (n : ℕ) : Byte := BitVec.ofNat 8 n

def encodeChar (c : Char) : List Byte :=
  let n := c.toNat
  if n < 0x80 then [byte n]
  else if n < 0x800 then [byte (0xc0 + n / 64), byte (0x80 + n % 64)]
  else if n < 0x10000 then [byte (0xe0 + n / 4096), byte (0x80 + n / 64 % 64), byte (0x80 + n % 64)]
  else [byte (0xf0 + n / 262144), byte (0x80 + n / 4096 % 64), byte (0x80 + n / 64 % 64),
    byte (0x80 + n % 64)]

def encode (s : List Char) : List Byte := s.flatMap encodeChar

/-- The six bits of a continuation byte. -/
def tail? (b : Byte) : Option ℕ :=
  if 0x80 ≤ b.toNat ∧ b.toNat < 0xc0 then some (b.toNat - 0x80) else none

/-- The character of a number; `least` is the first one that needs so many bytes. -/
def char? (least n : ℕ) : Option Char :=
  if least ≤ n ∧ n.isValidChar then some (Char.ofNat n) else none

/-- `TextDecoder.decode` with `fatal`; a byte order mark is kept. -/
def decode : List Byte → Option (List Char)
  | [] => some []
  | a :: r =>
    if a.toNat < 0x80 then (decode r).map (Char.ofNat a.toNat :: ·)
    else match r with
      | [] => none
      | b :: r =>
        if a.toNat < 0xe0 then do
          let c ← char? 0x80 ((a.toNat - 0xc0) * 64 + (← tail? b))
          (decode r).map (c :: ·)
        else match r with
          | [] => none
          | d :: r =>
            if a.toNat < 0xf0 then do
              let c ← char? 0x800 ((a.toNat - 0xe0) * 4096 + (← tail? b) * 64 + (← tail? d))
              (decode r).map (c :: ·)
            else match r with
              | [] => none
              | e :: r => do
                let c ← char? 0x10000 ((a.toNat - 0xf0) * 262144 + (← tail? b) * 4096 +
                  (← tail? d) * 64 + (← tail? e))
                (decode r).map (c :: ·)

theorem tail?_byte {n : ℕ} (h : n < 64) : tail? (byte (0x80 + n)) = some n := by
  have hn : (byte (0x80 + n)).toNat = 0x80 + n := by
    simp only [byte, BitVec.toNat_ofNat]
    omega
  rw [tail?, hn, if_pos (by omega), Nat.add_sub_cancel_left]

theorem char?_toNat (c : Char) {least n : ℕ} (h : n = c.toNat) (hl : least ≤ c.toNat) :
    char? least n = some c := by
  subst h
  rw [char?, if_pos ⟨hl, c.valid⟩, Char.ofNat_toNat]

theorem decode_encodeChar (c : Char) (r : List Byte) :
    decode (encodeChar c ++ r) = (decode r).map (c :: ·) := by
  have hc : c.toNat < 0x110000 := by
    rcases c.valid with h | ⟨-, h⟩
    · exact Nat.lt_trans h (by decide)
    · exact h
  unfold encodeChar
  simp only
  split_ifs with h1 h2 h3
  · have ha : (byte c.toNat).toNat = c.toNat := by
      simp only [byte, BitVec.toNat_ofNat]
      omega
    rw [List.singleton_append, decode.eq_def]
    simp only [ha, if_pos h1, Char.ofNat_toNat]
  · have ha : (byte (0xc0 + c.toNat / 64)).toNat = 0xc0 + c.toNat / 64 := by
      simp only [byte, BitVec.toNat_ofNat]
      omega
    simp only [List.cons_append, List.nil_append]
    rw [decode.eq_def]
    simp only [ha]
    rw [if_neg (by omega), if_pos (by omega), tail?_byte (Nat.mod_lt _ (by decide))]
    simp only [Option.bind_eq_bind, Option.bind_some]
    rw [char?_toNat c (by omega) (by omega)]
    rfl
  · have ha : (byte (0xe0 + c.toNat / 4096)).toNat = 0xe0 + c.toNat / 4096 := by
      simp only [byte, BitVec.toNat_ofNat]
      omega
    simp only [List.cons_append, List.nil_append]
    rw [decode.eq_def]
    simp only [ha]
    rw [if_neg (by omega), if_neg (by omega), if_pos (by omega), tail?_byte (Nat.mod_lt _ (by decide)),
      tail?_byte (Nat.mod_lt _ (by decide))]
    simp only [Option.bind_eq_bind, Option.bind_some]
    rw [char?_toNat c (by omega) (by omega)]
    rfl
  · have ha : (byte (0xf0 + c.toNat / 262144)).toNat = 0xf0 + c.toNat / 262144 := by
      simp only [byte, BitVec.toNat_ofNat]
      omega
    simp only [List.cons_append, List.nil_append]
    rw [decode.eq_def]
    simp only [ha]
    rw [if_neg (by omega), if_neg (by omega), if_neg (by omega), tail?_byte (Nat.mod_lt _ (by decide)),
      tail?_byte (Nat.mod_lt _ (by decide)), tail?_byte (Nat.mod_lt _ (by decide))]
    simp only [Option.bind_eq_bind, Option.bind_some]
    rw [char?_toNat c (by omega) (by omega)]
    rfl

/-- **A text is read back from its bytes.** -/
theorem decode_encode (s : List Char) : decode (encode s) = some s := by
  induction s with
  | nil => rfl
  | cons c s ih =>
    have hcons : encode (c :: s) = encodeChar c ++ encode s := rfl
    rw [hcons, decode_encodeChar, ih]
    rfl

theorem encode_injective : Function.Injective encode := by
  intro s t h
  have hd := congrArg decode h
  rwa [decode_encode, decode_encode, Option.some.injEq] at hd

/-! ## Strings of code units -/

/-- The character of a unit that is no half of a pair. -/
def unitChar (u : BitVec 16) : Char :=
  if isHigh u = true ∨ isLow u = true then '\ufffd' else Char.ofNat u.toNat

def chars : JsString → List Char
  | [] => []
  | [u] => [unitChar u]
  | u :: v :: s =>
    if isHigh u && isLow v then pairChar u v :: chars s else unitChar u :: chars (v :: s)

/-- The code units of a text. -/
def units (s : List Char) : JsString := s.flatMap utf16

theorem chars_cons {u : BitVec 16} (h : isHigh u = false) (s : JsString) :
    chars (u :: s) = unitChar u :: chars s := by
  cases s with
  | nil => rfl
  | cons v s => simp [chars, h]

/-- A unit that is not the second half of a pair separates the characters. -/
theorem chars_append {u : BitVec 16} (hu : isLow u = false) (s t : JsString) :
    chars (s ++ u :: t) = chars s ++ chars (u :: t) := by
  fun_induction chars s with
  | case1 => rfl
  | case2 v => simp [chars, hu]
  | case3 v w s h ih =>
    simp only [List.cons_append, chars, h, if_true, ih]
  | case4 v w s h ih =>
    simp only [List.cons_append] at ih
    simp only [List.cons_append, chars, h, ih]
    rfl

/-- An ASCII string. -/
def IsAscii (s : JsString) : Prop := ∀ u ∈ s, u.toNat < 0x80

theorem isHigh_of_lt {u : BitVec 16} (h : u.toNat < 0x80) : isHigh u = false ∧ isLow u = false := by
  simp only [isHigh, isLow, Bool.and_eq_false_iff, decide_eq_false_iff_not]
  omega

theorem unitChar_of_lt {u : BitVec 16} (h : u.toNat < 0x80) : unitChar u = Char.ofNat u.toNat := by
  obtain ⟨hh, hl⟩ := isHigh_of_lt h
  simp [unitChar, hh, hl]

theorem chars_ascii {s : JsString} (h : IsAscii s) : chars s = s.map fun u => Char.ofNat u.toNat := by
  induction s with
  | nil => rfl
  | cons u s ih =>
    obtain ⟨hu, hs⟩ := List.forall_mem_cons.1 h
    rw [chars_cons (isHigh_of_lt hu).1, ih hs, unitChar_of_lt hu, List.map_cons]

/-- ASCII strings with one text are the same. -/
theorem chars_inj {s t : JsString} (hs : IsAscii s) (ht : IsAscii t) (h : chars s = chars t) : s = t := by
  have hback : ∀ s, IsAscii s → (chars s).map (fun c => BitVec.ofNat 16 c.toNat) = s := by
    intro s hs
    rw [chars_ascii hs, List.map_map]
    conv_rhs => rw [← List.map_id s]
    refine List.map_congr_left fun u hu => ?_
    have hlt := hs u hu
    have hvalid : u.toNat.isValidChar := .inl (Nat.lt_trans hlt (by decide))
    simp [toNat_ofNat hvalid]
  rw [← hback s hs, ← hback t ht, h]

end Utf8
