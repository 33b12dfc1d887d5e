/-
  Dates of birth and the comparison of identities (`normalizeDob` of src/aml/normalize.ts,
  src/aml/identity.ts, src/aml/jurisdiction.ts).
-/
import Proofmark.Aml.Normalize

namespace Proofmark

namespace Aml

/-! ## Dates of birth -/

/-- `\d` -/
def isDigit (c : Char) : Bool := inRange 0x30 0x39 c

/-- `/^\d{n}$/` -/
def isDigits (n : ℕ) (s : Str) : Bool := s.length == n && s.all isDigit

/-- `[A-Za-z]` -/
def isAsciiLetter (c : Char) : Bool := inRange 0x41 0x5a c || inRange 0x61 0x7a c

/-- The three parts of a date `dddd-dd-dd`. -/
def isoParts (s : Str) : Option (Str × Str × Str) :=
  let (y, m, d) := (s.take 4, (s.drop 5).take 2, s.drop 8)
  if s = y ++ '-' :: m ++ '-' :: d ∧ isDigits 4 y = true ∧ isDigits 2 m = true ∧
      isDigits 2 d = true then some (y, m, d)
  else none

def MONTHS : List Str :=
  ["jan", "feb", "mar", "apr", "may", "jun", "jul", "aug", "sep", "oct", "nov", "dec"].map
    String.toList

/-- `padStart(2, '0')` -/
def padStart2 (s : Str) : Str := List.replicate (2 - s.length) '0' ++ s

/-- The format of OFAC and the UN, `12 Jan 1970`. -/
def dayMonthYear (s : Str) : Option Str :=
  let (day, s) := s.span isDigit
  let (gap, s) := s.span isSpace
  let (month, s) := s.span isAsciiLetter
  let (gap', year) := s.span isSpace
  if (day.length = 1 ∨ day.length = 2) ∧ gap ≠ [] ∧ month.length = 3 ∧ gap' ≠ [] ∧
      isDigits 4 year = true ∧ month.map Char.toLower ∈ MONTHS then
    some (year ++ '-' :: padStart2 (Nat.toDigits 10 (MONTHS.idxOf (month.map Char.toLower) + 1)) ++
      '-' :: padStart2 day)
  else none

/-- `match(/(\d{4})/)`, which also takes a year alone. -/
def firstYear : Str → Option Str
  | [] => none
  | c :: s => if isDigits 4 ((c :: s).take 4) then some ((c :: s).take 4) else firstYear s

def normalizeDob (raw : Str) : Option Str :=
  if raw = [] then none
  else
    let s := trim raw
    if (isoParts s).isSome then some s
    else (dayMonthYear s).or (firstYear s)

/-! ## The comparison -/

inductive Precision where
  | day
  | year
deriving DecidableEq

def isLeapYear (y : ℕ) : Bool := y % 4 == 0 && (y % 100 != 0 || y % 400 == 0)

def daysInMonth (y m : ℕ) : ℕ :=
  if m = 2 then if isLeapYear y then 29 else 28
  else if m = 4 ∨ m = 6 ∨ m = 9 ∨ m = 11 then 30 else 31

def digitsToNat (s : Str) : ℕ := s.foldl (fun n c => 10 * n + (c.toNat - 0x30)) 0

/-- `Date.UTC` keeps the year, the month and the day. -/
def isCalendarDate (y m d : ℕ) : Bool :=
  decide (1 ≤ m) && decide (m ≤ 12) && decide (1 ≤ d) && decide (d ≤ daysInMonth y m)

def precision (value : Str) : Option Precision :=
  if value.head? = some '0' then none
  else if isDigits 4 value then some .year
  else
    match isoParts value with
    | none => none
    | some (y, m, d) =>
      if isCalendarDate (digitsToNat y) (digitsToNat m) (digitsToNat d) then some .day else none

inductive DobComparison where
  | match_
  | yearMatch
  | conflict
  | missing
  | invalid
deriving DecidableEq

inductive CountryComparison where
  | match_
  | conflict
  | missing
  | invalid
deriving DecidableEq

structure IdentityComparison where
  dob : DobComparison
  nationality : CountryComparison
deriving DecidableEq

def compareDob (subject : Option Str) (listed : List Str) : DobComparison :=
  match subject with
  | none | some [] => .missing
  | some subject =>
    match precision subject with
    | none => .invalid
    | some p =>
      let valid := listed.filter fun value => (precision value).isSome
      if listed = [] then .missing
      else if valid = [] then .invalid
      else if p = .day ∧ ∃ value ∈ valid, precision value = some .day ∧ value = subject then .match_
      else if ∃ value ∈ valid, value.take 4 = subject.take 4 ∧
          (p = .year ∨ precision value = some .year) then .yearMatch
      else .conflict

/-- `/^[A-Z]{2}$/` -/
def isCountryCode (s : Str) : Bool := s.length == 2 && s.all (inRange 0x41 0x5a)

def compareIdentity (dob : Option Str) (nationality : Str) (listedDobs listedCountries : List Str) :
    IdentityComparison where
  dob := compareDob dob listedDobs
  nationality :=
    if nationality = [] ∨ listedCountries = [] then .missing
    else if isCountryCode nationality = false ∨ listedCountries.any isCountryCode = false then .invalid
    else if nationality ∈ listedCountries then .match_
    else .conflict

def identityConflicts (c : IdentityComparison) : Bool :=
  c.dob == .conflict || c.nationality == .conflict

def identityUnusable (c : IdentityComparison) : Bool :=
  c.dob == .invalid || c.nationality == .invalid

/-! ## Jurisdictions -/

/-- `FATF.callForAction` -/
def callForAction : List Str := ["KP", "IR", "MM"].map String.toList

/-- `FATF.increasedMonitoring` -/
def increasedMonitoring : List Str :=
  ["AO", "BO", "BA", "BG", "CM", "CI", "CD", "HT", "IQ", "KE", "KW", "LA", "LB", "MC", "NP", "PG",
    "SS", "SY", "VE", "VN", "VG", "YE"].map String.toList

/-- The level of `jurisdictionRisk`. -/
def jurisdictionRisk (u : Unicode) (iso2 : Str) : ℕ :=
  let c := u.toUpperCase iso2
  if c ∈ callForAction then 2 else if c ∈ increasedMonitoring then 1 else 0

end Aml

end Proofmark
