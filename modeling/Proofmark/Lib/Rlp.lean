/-
  The recursive length prefix.

  An `Item` is a byte string or a list of items.  `scalar` writes a number without leading
  zeros.

  `encode_injective`: the encodings of two items are equal only if the items are, for
  encodings of less than `2 ^ 64` bytes.
-/
import Proofmark.Lib.Words

namespace Rlp

open Words

/-- The big-endian bytes of a number, without leading zeros. -/
def scalar (n : ℕ) : List Byte := if n = 0 then [] else toBytes (n.log2 / 8 + 1) n

inductive Item where
  | str (data : List Byte)
  | list (items : List Item)

/-- The length of what follows; `0x80` marks a string and `0xc0` a list. -/
def header (offset n : ℕ) : List Byte :=
  if n ≤ 55 then [BitVec.ofNat 8 (offset + n)]
  else BitVec.ofNat 8 (offset + 55 + (scalar n).length) :: scalar n

/-- One byte that stands for itself. -/
def isSelf (data : List Byte) : Bool := data.length == 1 && data.all fun b => decide (b.toNat < 0x80)

mutual

def encode : Item → List Byte
  | .str data => if isSelf data then data else header 0x80 data.length ++ data
  | .list items => header 0xc0 (encodeItems items).length ++ encodeItems items

def encodeItems : List Item → List Byte
  | [] => []
  | x :: l => encode x ++ encodeItems l

end

/-! ## Numbers -/

theorem ofBytes_scalar (n : ℕ) : ofBytes (scalar n) = n := by
  rw [scalar]
  split_ifs with h
  · rw [h]
    rfl
  · rw [ofBytes_toBytes, Nat.mod_eq_of_lt]
    calc n < 2 ^ (n.log2 + 1) := Nat.lt_log2_self
      _ ≤ 2 ^ (8 * (n.log2 / 8 + 1)) := Nat.pow_le_pow_right (by norm_num) (by omega)
      _ = 256 ^ (n.log2 / 8 + 1) := by rw [Nat.pow_mul]

theorem scalar_injective : Function.Injective scalar := by
  intro n m h
  rw [← ofBytes_scalar n, h, ofBytes_scalar]

theorem length_scalar_pos {n : ℕ} (h : n ≠ 0) : 0 < (scalar n).length := by
  rw [scalar, if_neg h, length_toBytes]
  omega

theorem length_scalar_le {n k : ℕ} (h : n < 2 ^ (8 * k)) : (scalar n).length ≤ k := by
  rw [scalar]
  split_ifs with h0
  · exact Nat.zero_le _
  · have hlog : n.log2 < 8 * k := (Nat.log2_lt h0).2 h
    rw [length_toBytes]
    omega

/-! ## Headers -/

theorem header_eq_cons (offset n : ℕ) : ∃ b l, header offset n = b :: l := by
  rw [header]
  split_ifs
  exacts [⟨_, _, rfl⟩, ⟨_, _, rfl⟩]

/-- The first byte of a header. -/
def tag (offset n : ℕ) : ℕ := if n ≤ 55 then offset + n else offset + 55 + (scalar n).length

/-- The bytes of a long length. -/
def tail (n : ℕ) : List Byte := if n ≤ 55 then [] else scalar n

theorem header_eq (offset n : ℕ) : header offset n = BitVec.ofNat 8 (tag offset n) :: tail n := by
  rw [header, tag, tail]
  split_ifs
  exacts [rfl, rfl]

theorem tag_bounds {n : ℕ} (offset : ℕ) (h : n < 2 ^ 64) :
    offset ≤ tag offset n ∧ tag offset n < offset + 0x40 ∧
      (n ≤ 55 ↔ tag offset n ≤ offset + 55) := by
  have hle : (scalar n).length ≤ 8 := @length_scalar_le n 8 h
  rw [tag]
  split_ifs with hs
  · omega
  · have hpos := @length_scalar_pos n (by omega)
    omega

/-- **A header ends where it says.** -/
theorem header_inj {offset offset' n n' : ℕ} {r r' : List Byte}
    (ho : offset = 0x80 ∨ offset = 0xc0) (ho' : offset' = 0x80 ∨ offset' = 0xc0)
    (hn : n < 2 ^ 64) (hn' : n' < 2 ^ 64) (h : header offset n ++ r = header offset' n' ++ r') :
    offset = offset' ∧ n = n' ∧ r = r' := by
  rw [header_eq, header_eq, List.cons_append, List.cons_append, List.cons.injEq] at h
  obtain ⟨htag, htail⟩ := h
  obtain ⟨hlo, hhi, hshort⟩ := tag_bounds offset hn
  obtain ⟨hlo', hhi', hshort'⟩ := tag_bounds offset' hn'
  have htag : tag offset n = tag offset' n' := by
    have hnat := congrArg BitVec.toNat htag
    rw [BitVec.toNat_ofNat, BitVec.toNat_ofNat, Nat.mod_eq_of_lt (by omega),
      Nat.mod_eq_of_lt (by omega)] at hnat
    exact hnat
  have hoff : offset = offset' := by omega
  subst hoff
  have hiff : n ≤ 55 ↔ n' ≤ 55 := by rw [hshort, hshort', htag]
  rw [tag, tag] at htag
  rw [tail, tail] at htail
  by_cases hs : n ≤ 55
  · rw [if_pos hs, if_pos (hiff.1 hs)] at htag htail
    exact ⟨rfl, by omega, htail⟩
  · rw [if_neg hs, if_neg fun hs' => hs (hiff.2 hs')] at htag htail
    obtain ⟨hscalar, hr⟩ := List.append_inj htail (by omega)
    exact ⟨rfl, scalar_injective hscalar, hr⟩

/-! ## Strings and lists -/

theorem isSelf_iff {data : List Byte} :
    isSelf data = true ↔ ∃ b, data = [b] ∧ b.toNat < 0x80 := by
  simp only [isSelf, Bool.and_eq_true, beq_iff_eq, List.length_eq_one_iff, List.all_eq_true,
    decide_eq_true_eq]
  constructor
  · rintro ⟨⟨b, rfl⟩, h⟩
    exact ⟨b, rfl, h b List.mem_cons_self⟩
  · rintro ⟨b, rfl, h⟩
    exact ⟨⟨b, rfl⟩, by simpa using h⟩

theorem header_ne_self {offset n : ℕ} {b : Byte} {r r' : List Byte}
    (ho : offset = 0x80 ∨ offset = 0xc0) (hn : n < 2 ^ 64) (hb : b.toNat < 0x80) :
    header offset n ++ r ≠ b :: r' := by
  intro h
  rw [header_eq, List.cons_append, List.cons.injEq] at h
  obtain ⟨hlo, hhi, -⟩ := tag_bounds offset hn
  have hnat := congrArg BitVec.toNat h.1
  rw [BitVec.toNat_ofNat, Nat.mod_eq_of_lt (by omega)] at hnat
  omega

theorem encode_str_self {b : Byte} (h : b.toNat < 0x80) : encode (.str [b]) = [b] := by
  rw [encode, if_pos (isSelf_iff.2 ⟨b, rfl, h⟩)]

theorem encode_ne_nil (x : Item) : encode x ≠ [] := by
  cases x with
  | str data =>
    rw [encode]
    split_ifs with h
    · obtain ⟨b, rfl, -⟩ := isSelf_iff.1 h
      exact List.cons_ne_nil _ _
    · rw [header_eq]
      exact List.cons_ne_nil _ _
  | list items =>
    rw [encode, header_eq]
    exact List.cons_ne_nil _ _

theorem length_data_le (data : List Byte) : data.length ≤ (encode (.str data)).length := by
  rw [encode]
  split_ifs
  · exact le_rfl
  · rw [List.length_append]
    omega

theorem length_items_lt (items : List Item) :
    (encodeItems items).length < (encode (.list items)).length := by
  rw [encode, header_eq, List.length_append, List.length_cons]
  omega

/-- Two strings, with anything behind them. -/
theorem encode_str_inj {d d' r r' : List Byte} (hd : d.length < 2 ^ 64) (hd' : d'.length < 2 ^ 64)
    (h : encode (.str d) ++ r = encode (.str d') ++ r') : d = d' ∧ r = r' := by
  rw [encode, encode] at h
  split_ifs at h with hs hs'
  · obtain ⟨b, rfl, -⟩ := isSelf_iff.1 hs
    obtain ⟨b', rfl, -⟩ := isSelf_iff.1 hs'
    exact List.append_inj h rfl
  · obtain ⟨b, rfl, hb⟩ := isSelf_iff.1 hs
    rw [List.append_assoc] at h
    exact absurd h.symm (header_ne_self (.inl rfl) hd' hb)
  · obtain ⟨b, rfl, hb⟩ := isSelf_iff.1 (by assumption)
    rw [List.append_assoc] at h
    exact absurd h (header_ne_self (.inl rfl) hd hb)
  · rw [List.append_assoc, List.append_assoc] at h
    obtain ⟨-, hlen, hdata⟩ := header_inj (.inl rfl) (.inl rfl) hd hd' h
    exact List.append_inj hdata hlen

/-- A string and a list start differently. -/
theorem encode_str_ne_list {d r r' : List Byte} {items : List Item} (hd : d.length < 2 ^ 64)
    (hi : (encodeItems items).length < 2 ^ 64) :
    encode (.str d) ++ r ≠ encode (.list items) ++ r' := by
  intro h
  rw [encode, encode] at h
  split_ifs at h with hs
  · obtain ⟨b, rfl, hb⟩ := isSelf_iff.1 hs
    rw [List.append_assoc] at h
    exact header_ne_self (.inr rfl) hi hb h.symm
  · rw [List.append_assoc, List.append_assoc] at h
    have hoff := (header_inj (.inl rfl) (.inr rfl) hd hi h).1
    omega

/-- Lists of items, once single items are known to end where they say. -/
theorem encodeItems_inj {l l' : List Item}
    (hitem : ∀ x ∈ l, ∀ (y : Item) (r r' : List Byte), (encode y).length < 2 ^ 64 →
      encode x ++ r = encode y ++ r' → x = y ∧ r = r')
    (hl' : (encodeItems l').length < 2 ^ 64) (h : encodeItems l = encodeItems l') : l = l' := by
  induction l generalizing l' with
  | nil =>
    cases l' with
    | nil => rfl
    | cons y l' =>
      rw [encodeItems, encodeItems] at h
      exact absurd (List.append_eq_nil_iff.1 h.symm).1 (encode_ne_nil y)
  | cons x l ih =>
    cases l' with
    | nil =>
      rw [encodeItems, encodeItems] at h
      exact absurd (List.append_eq_nil_iff.1 h).1 (encode_ne_nil x)
    | cons y l' =>
      rw [encodeItems, List.length_append] at hl'
      rw [encodeItems, encodeItems] at h
      obtain ⟨hxy, hrest⟩ := hitem x List.mem_cons_self y _ _ (by omega) h
      rw [hxy, ih (fun x hx => hitem x (List.mem_cons_of_mem _ hx)) (by omega) hrest]

theorem length_encode_le {x : Item} {l : List Item} (h : x ∈ l) :
    (encode x).length ≤ (encodeItems l).length := by
  induction l with
  | nil => cases h
  | cons y l ih =>
    rw [encodeItems, List.length_append]
    rcases List.mem_cons.1 h with rfl | h
    · omega
    · have hle := ih h
      omega

/-- **An encoding ends where it says**, by induction on its length. -/
theorem encode_append_inj {x y : Item} {r r' : List Byte} (hx : (encode x).length < 2 ^ 64)
    (hy : (encode y).length < 2 ^ 64) (h : encode x ++ r = encode y ++ r') : x = y ∧ r = r' := by
  induction hn : (encode x).length using Nat.strong_induction_on generalizing x y r r' with
  | _ n ih =>
    cases x with
    | str d =>
      have hd := (length_data_le d).trans_lt hx
      cases y with
      | str d' =>
        obtain ⟨rfl, hr⟩ := encode_str_inj hd ((length_data_le d').trans_lt hy) h
        exact ⟨rfl, hr⟩
      | list items => exact absurd h (encode_str_ne_list hd ((length_items_lt items).trans hy))
    | list items =>
      have hi := (length_items_lt items).trans hx
      cases y with
      | str d =>
        exact absurd h.symm (encode_str_ne_list ((length_data_le d).trans_lt hy) hi)
      | list items' =>
        have hi' := (length_items_lt items').trans hy
        rw [encode, encode, List.append_assoc, List.append_assoc] at h
        obtain ⟨-, hlen, hitems⟩ := header_inj (.inr rfl) (.inr rfl) hi hi' h
        obtain ⟨hpayload, hr⟩ := List.append_inj hitems hlen
        have hall : items = items' := by
          refine encodeItems_inj (fun x hx y r r' hy h => ?_) hi' hpayload
          have hle := length_encode_le hx
          have hlt := length_items_lt items
          exact ih _ (by omega) (by omega) hy h rfl
        exact ⟨congrArg Item.list hall, hr⟩

/-- **Items with one encoding are one item.** -/
theorem encode_injective {x y : Item} (hx : (encode x).length < 2 ^ 64)
    (h : encode x = encode y) : x = y := by
  have happend : encode x ++ [] = encode y ++ [] := by rw [h]
  exact (encode_append_inj hx (h ▸ hx) happend).1

end Rlp
