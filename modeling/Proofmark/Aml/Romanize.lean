/-
  Romanised forms of Hangul names (src/aml/romanize.ts).
-/
import Proofmark.Aml.Normalize

namespace Proofmark

namespace Aml

def CHO : List String :=
  ["g", "kk", "n", "d", "tt", "r", "m", "b", "pp", "s", "ss", "", "j", "jj", "ch", "k", "t", "p",
    "h"]

def JUNG : List String :=
  ["a", "ae", "ya", "yae", "eo", "e", "yeo", "ye", "o", "wa", "wae", "oe", "yo", "u", "wo", "we",
    "wi", "yu", "eu", "ui", "i"]

def JONG : List String :=
  ["", "k", "k", "k", "n", "n", "n", "t", "l", "l", "l", "l", "l", "l", "l", "l", "m", "p", "p",
    "t", "t", "ng", "t", "t", "k", "t", "p", "t"]

/-- Surnames as people spell them. -/
def SURNAME_VARIANTS : List (ℕ × List String) :=
  [(0xae40, ["kim", "gim"]), (0xc774, ["lee", "yi", "rhee", "ri", "i"]),
    (0xbc15, ["park", "pak", "bak"]), (0xcd5c, ["choi", "choe", "chwe"]),
    (0xc815, ["jung", "jeong", "chung", "jong"]), (0xac15, ["kang", "gang"]),
    (0xc870, ["cho", "jo"]), (0xc724, ["yoon", "yun"]), (0xc7a5, ["jang", "chang"]),
    (0xc784, ["lim", "im", "rim"]), (0xd55c, ["han"]), (0xc624, ["oh", "o"]),
    (0xc11c, ["seo", "suh", "so"]), (0xc2e0, ["shin", "sin"]), (0xad8c, ["kwon", "gwon"]),
    (0xd669, ["hwang"]), (0xc548, ["ahn", "an"]), (0xc1a1, ["song"]),
    (0xc804, ["jeon", "jun", "chun"]), (0xd64d, ["hong"]), (0xc720, ["yoo", "yu", "ryu"]),
    (0xace0, ["ko", "go"]), (0xbb38, ["moon", "mun"]), (0xc591, ["yang"]),
    (0xc190, ["son", "sohn"]), (0xbc30, ["bae", "pae"]), (0xbc31, ["baek", "paek", "back"]),
    (0xb178, ["noh", "no", "roh"]), (0xd5c8, ["heo", "hur", "huh"]), (0xc2ec, ["shim", "sim"])]

/-- The official spellings of the DPRK. -/
def DPRK_VARIANTS : List (ℕ × List String) :=
  [(0xae40, ["kim"]), (0xb9ac, ["ri", "li", "lee"]), (0xbc15, ["pak"]), (0xcd5c, ["choe"]),
    (0xc815, ["jong", "jung"]), (0xc8fc, ["ju", "chu"]), (0xc740, ["un", "eun"]),
    (0xc77c, ["il"]), (0xc131, ["song", "sung"]), (0xcca0, ["chol", "cheol"]),
    (0xc601, ["yong", "young"]), (0xb0a8, ["nam"])]

def isHangulSyllable (c : Char) : Bool := inRange 0xac00 0xd7a3 c

/-- The revised romanisation of one syllable. -/
def syllableRR (ch : Char) : Str :=
  let c := ch.toNat - 0xac00
  (CHO.getD (c / (21 * 28)) "" ++ JUNG.getD (c % (21 * 28) / 28) "" ++ JONG.getD (c % 28) "").toList

def hasHangul (s : Str) : Bool := s.any isHangulSyllable

/-- `table[ch] ?? []` -/
def variants (table : List (ℕ × List String)) (ch : Char) : List Str :=
  ((table.lookup ch.toNat).getD []).map String.toList

/-- The choices of one form per syllable, for at most four syllables. -/
def cartesian (arrs : List (List Str)) : List (List Str) :=
  (arrs.take 4).foldl (fun acc cur => acc.flatMap fun a => cur.map fun c => a ++ [c]) [[]]

/-- `join(sep)` -/
def join (sep : Str) (parts : List Str) : Str := (parts.intersperse sep).flatten

/-- Joined without a space, with one, and with a hyphen. -/
def joinForms (parts : List Str) : List Str := [join [] parts, join [' '] parts, join ['-'] parts]

/-- The forms of the given name. -/
def givenForms (given : List Char) : List Str :=
  if given = [] then []
  else
    (joinForms (given.map syllableRR) ++
      (cartesian (given.map fun g => syllableRR g :: variants DPRK_VARIANTS g)).flatMap
        joinForms).eraseDups

/-- A surname of one syllable and the rest as the given name. -/
def romanizeVariants (name : Str) : List Str :=
  match (name.filter fun c => !isSpace c).filter isHangulSyllable with
  | [] => []
  | surname :: given =>
    let surnameForms := (syllableRR surname :: variants SURNAME_VARIANTS surname ++
      variants DPRK_VARIANTS surname).eraseDups
    (surnameForms.flatMap (fun s =>
      if givenForms given = [] then [s]
      else (givenForms given).flatMap fun g => [s ++ ' ' :: g, g ++ ' ' :: s]) ++
      [join [] ((surname :: given).map syllableRR)]).eraseDups

end Aml

end Proofmark
