/-
  Texts on the wire: the hexadecimal strings of ethers, and what is read from JSON.

  `hexString?` is `isHexString` of a given size with the number that the string writes.  The
  texts of addresses, with their checksums in the letter case and further forms, are third
  party: `Addresses` has what is documented of `isAddress` and `getAddress`.
-/
import Proofmark.Evm.Types
import Proofmark.Lib.HexText
import Proofmark.Lib.Utf8
import Proofmark.Pipeline.Canonical

namespace Proofmark

open HexText Utf8
open Canonical (ascii)

/-- The prefix "0x". -/
def zeroX : JsString := [0x30, 0x78]

/-- The number of `value`, where `isHexString(value, size)`. -/
def hexString? (size : ℕ) (value : JsString) : Option ℕ :=
  if value.take 2 = zeroX ∧ value.length = 2 + 2 * size then value? (value.drop 2) else none

/-- A number in lower case, with `size` bytes. -/
def hexString (size n : ℕ) : JsString := zeroX ++ digits (2 * size) n

def bytes32? (value : JsString) : Option Bytes32 := (hexString? 32 value).map (BitVec.ofNat 256)

def bytes32Text (w : Bytes32) : JsString := hexString 32 w.toNat

/-- `same` -/
def same (a b : JsString) : Bool := lower a == lower b

theorem hexString?_hexString {size n : ℕ} (h : n < 16 ^ (2 * size)) :
    hexString? size (hexString size n) = some n := by
  have htake : (hexString size n).take 2 = zeroX := rfl
  have hdrop : (hexString size n).drop 2 = digits (2 * size) n := rfl
  have hlen : (hexString size n).length = 2 + 2 * size := by
    simp [hexString, zeroX]
    omega
  rw [hexString?, if_pos ⟨htake, hlen⟩, hdrop, value?_digits, Nat.mod_eq_of_lt h]

/-- A hexadecimal string is, up to letter case, the text of its number. -/
theorem lower_of_hexString? {size n : ℕ} {s : JsString} (h : hexString? size s = some n) :
    n < 16 ^ (2 * size) ∧ lower s = hexString size n := by
  unfold hexString? at h
  split_ifs at h with hs
  · obtain ⟨htake, hlen⟩ := hs
    obtain ⟨hlt, hlower⟩ := lower_of_value? h
    have hdrop : (s.drop 2).length = 2 * size := by
      rw [List.length_drop, hlen]
      omega
    rw [hdrop] at hlt hlower
    refine ⟨hlt, ?_⟩
    conv_lhs => rw [← List.take_append_drop 2 s]
    rw [lower_append, hlower, htake]
    rfl

theorem bytes32?_bytes32Text (w : Bytes32) : bytes32? (bytes32Text w) = some w := by
  have hw : w.toNat < 16 ^ (2 * 32) := w.isLt
  simp [bytes32?, bytes32Text, hexString?_hexString hw]

theorem lower_of_bytes32? {s : JsString} {w : Bytes32} (h : bytes32? s = some w) :
    lower s = bytes32Text w := by
  obtain ⟨n, hn, rfl⟩ := Option.map_eq_some_iff.1 h
  obtain ⟨hlt, hlower⟩ := lower_of_hexString? hn
  have hlt : n < 2 ^ 256 := hlt
  rw [hlower, bytes32Text, BitVec.toNat_ofNat, Nat.mod_eq_of_lt hlt]

theorem bytes32?_lower {s : JsString} {w : Bytes32} (h : bytes32? s = some w) :
    bytes32? (lower s) = some w := by
  rw [lower_of_bytes32? h, bytes32?_bytes32Text]

/-- **Two strings of 32 bytes have one value iff they differ in letter case only.** -/
theorem bytes32?_eq_iff {s t : JsString} (hs : (bytes32? s).isSome = true)
    (ht : (bytes32? t).isSome = true) : bytes32? s = bytes32? t ↔ lower s = lower t := by
  obtain ⟨w, hw⟩ := Option.isSome_iff_exists.1 hs
  obtain ⟨x, hx⟩ := Option.isSome_iff_exists.1 ht
  rw [lower_of_bytes32? hw, lower_of_bytes32? hx, hw, hx]
  constructor
  · intro h
    rw [Option.some.inj h]
  · intro h
    have hback := congrArg bytes32? h
    rwa [bytes32?_bytes32Text, bytes32?_bytes32Text] at hback

theorem isAscii_of_hexString? {size n : ℕ} {s : JsString} (h : hexString? size s = some n) : IsAscii s := by
  unfold hexString? at h
  split_ifs at h with hs
  · intro u hu
    rw [← List.take_append_drop 2 s, List.mem_append, hs.1] at hu
    rcases hu with hu | hu
    · have hall : ∀ u ∈ zeroX, u.toNat < 0x80 := by simp [zeroX]
      exact hall u hu
    · exact toNat_of_value? h u hu

theorem isAscii_of_bytes32? {s : JsString} (h : (bytes32? s).isSome = true) : IsAscii s := by
  obtain ⟨w, hw⟩ := Option.isSome_iff_exists.1 h
  obtain ⟨n, hn, -⟩ := Option.map_eq_some_iff.1 hw
  exact isAscii_of_hexString? hn

/-- The texts of addresses. -/
structure Addresses where
  /-- The address of a string that `isAddress` accepts. -/
  address? : JsString → Option Address
  /-- The text that `getAddress` gives. -/
  checksum : Address → JsString
  address?_checksum : ∀ a, address? (checksum a) = some a
  /-- that text is a writing of the number -/
  hexString?_checksum : ∀ a, hexString? 20 (checksum a) = some a.toNat
  /-- the letter case is a checksum and no part of the address -/
  address?_lower : ∀ s t a b, lower s = lower t → address? s = some a → address? t = some b → a = b
  /-- the digits, in upper case where the checksum wants it, and "0x"; or the letters of an IBAN -/
  ascii : ∀ s a, address? s = some a → IsAscii s

/-- `getAddress` -/
def Addresses.getAddress (E : Addresses) (s : JsString) : Option JsString := (E.address? s).map E.checksum

theorem Addresses.lower_checksum (E : Addresses) (a : Address) :
    lower (E.checksum a) = hexString 20 a.toNat := (lower_of_hexString? (E.hexString?_checksum a)).2

/-- Addresses written with "0x" and digits. -/
def plainAddresses : Addresses where
  address? s := (hexString? 20 s).map (BitVec.ofNat 160)
  checksum a := hexString 20 a.toNat
  address?_checksum a := by
    have ha : a.toNat < 16 ^ (2 * 20) := a.isLt
    simp [hexString?_hexString ha]
  hexString?_checksum a := hexString?_hexString a.isLt
  address?_lower s t a b h hs ht := by
    obtain ⟨n, hn, rfl⟩ := Option.map_eq_some_iff.1 hs
    obtain ⟨m, hm, rfl⟩ := Option.map_eq_some_iff.1 ht
    obtain ⟨hnlt, hnl⟩ := lower_of_hexString? hn
    obtain ⟨hmlt, hml⟩ := lower_of_hexString? hm
    have hback := congrArg (hexString? 20) (hnl.symm.trans (h.trans hml))
    rw [hexString?_hexString hnlt, hexString?_hexString hmlt, Option.some.injEq] at hback
    rw [hback]
  ascii s a h := by
    obtain ⟨n, hn, -⟩ := Option.map_eq_some_iff.1 h
    exact isAscii_of_hexString? hn

def ZeroHash : JsString := bytes32Text 0

def ZeroAddress : JsString := hexString 20 0

/-! ## JSON -/

/-- The bytes of a string. -/
def toUtf8 (s : JsString) : Bytes := encode (chars s)

/-- `TextDecoder.decode` drops a byte order mark. -/
def decodeText (bs : Bytes) : Option (List Char) :=
  (decode bs).map fun s => if s.head? = some '\ufeff' then s.tail else s

section
variable {ν : Type} (value : List (JsString × JsValue ν)) (key : String)

/-- The string at a property. -/
def stringAt : Option JsString :=
  match value.lookup (ascii key) with
  | some (.str s) => some s
  | _ => none

/-- The properties of the object at a property. -/
def objectAt : Option (List (JsString × JsValue ν)) :=
  match value.lookup (ascii key) with
  | some (.obj l) => some l
  | _ => none

/-- The elements of the array at a property. -/
def arrayAt : Option (List (JsValue ν)) :=
  match value.lookup (ascii key) with
  | some (.arr l) => some l
  | _ => none

def string? : JsValue ν → Option JsString
  | .str s => some s
  | _ => none

/-- The strings of the array at a property. -/
def stringsAt : Option (List JsString) := (arrayAt value key).bind fun l => l.mapM string?

end

end Proofmark
