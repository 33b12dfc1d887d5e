/-
  JSON values and their canonical text.

  An object is a list of fields.  `Json.canonical` writes the fields of every object in the
  order of their keys, so that two values with the same fields have one text.
-/
import Mathlib.Data.List.Sort
import Proofmark.Lib.Lexicographic

/-- A value without fractional or negative numbers. -/
inductive Json where
  | null
  | bool (b : Bool)
  | num (n : ℕ)
  | str (s : String)
  | arr (l : List Json)
  | obj (l : List (String × Json))

namespace Json

/-- The field `k` of an object. -/
def get? (j : Json) (k : String) : Option Json :=
  match j with
  | .obj l => (l.find? fun f => f.1 == k).map Prod.snd
  | _ => none

/-- The fields that are not `undefined`. -/
def ofFields (l : List (String × Option Json)) : Json :=
  .obj (l.filterMap fun f => f.2.map fun j => (f.1, j))

/-- A string, or `null`. -/
def ofOption : Option String → Json
  | some s => .str s
  | none => .null

def strings (l : List String) : Json := .arr (l.map .str)

def hexDigit (n : ℕ) : Char := "0123456789abcdef".toList.getD n '0'

/-- A character inside a quoted string. -/
def escapeChar (c : Char) : List Char :=
  match c.toNat with
  | 0x22 => "\\\x22".toList
  | 0x5c => "\\\\".toList
  | 0x08 => "\\b".toList
  | 0x09 => "\\t".toList
  | 0x0a => "\\n".toList
  | 0x0c => "\\f".toList
  | 0x0d => "\\r".toList
  | n => if n < 32 then "\\u00".toList ++ [hexDigit (n / 16), hexDigit (n % 16)] else [c]

def quote (s : String) : List Char :=
  "\x22".toList ++ s.toList.flatMap escapeChar ++ "\x22".toList

/-- The order of strings by their characters. -/
def charsLE : List Char → List Char → Bool
  | [], _ => true
  | _ :: _, [] => false
  | a :: l, b :: l' =>
    decide (a.toNat < b.toNat) || (a.toNat == b.toNat && charsLE l l')

/-- The fields of an object in the order of the keys. -/
def sortFields (l : List (String × List Char)) : List (String × List Char) :=
  l.insertionSort fun a b => charsLE a.1.toList b.1.toList

mutual

/-- `JSON.stringify` of the value with sorted keys -/
def text : Json → List Char
  | .null => "null".toList
  | .bool true => "true".toList
  | .bool false => "false".toList
  | .num n => (Nat.repr n).toList
  | .str s => quote s
  | .arr l => '[' :: [','].intercalate (elements l) ++ [']']
  | .obj l =>
    "\x7b".toList ++
      [','].intercalate ((sortFields (fields l)).map fun f => quote f.1 ++ ':' :: f.2) ++
      "\x7d".toList

def elements : List Json → List (List Char)
  | [] => []
  | j :: l => text j :: elements l

def fields : List (String × Json) → List (String × List Char)
  | [] => []
  | (k, j) :: l => (k, text j) :: fields l

end

/-- `canonicalJson` -/
def canonical (j : Json) : String := String.ofList (text j)

/-! ## The order of strings -/

theorem charsLE_eq (l l' : List Char) : charsLE l l' = lexLE Char.toNat l l' := by
  induction l generalizing l' with
  | nil => rfl
  | cons a l ih =>
    cases l' with
    | nil => rfl
    | cons b l' => rw [charsLE, lexLE, ih]

theorem charsLE_total (l l' : List Char) : charsLE l l' = true ∨ charsLE l' l = true := by
  rw [charsLE_eq, charsLE_eq]
  exact lexLE_total l l'

theorem charsLE_trans {l l' l'' : List Char} (h : charsLE l l' = true)
    (h' : charsLE l' l'' = true) : charsLE l l'' = true := by
  rw [charsLE_eq] at h h' ⊢
  exact lexLE_trans h h'

theorem charsLE_antisymm {l l' : List Char} (h : charsLE l l' = true)
    (h' : charsLE l' l = true) : l = l' := by
  rw [charsLE_eq] at h h'
  exact lexLE_antisymm (fun a b => Char.toNat_inj.1) h h'

example : (obj [("b", arr [num 10, null]), ("a", str "x\n")]).canonical =
    "\x7b\x22a\x22:\x22x\\n\x22,\x22b\x22:[10,null]\x7d" := by decide +kernel

end Json
