/-
  ExportQuery.Calendar.Reading — dates as they are written in catalogs and options.

  Catalogs write `2025年6月1日`, `2025/6/1` or `2025-6-1`, always with a year of four digits.
  An option takes year, month and day with dashes between, blanks around any of them, and with
  a sign a year of any length.
-/

import ExportQuery.Calendar.Date

namespace ExportQuery.Calendar

open ExportQuery.Text

def number? (low high : Nat) (s : Text) : Option (Nat × Text) :=
  let digits := s.takeWhile Char.isDigit
  if low ≤ digits.length && digits.length ≤ high then some (digitsValue digits, s.dropWhile Char.isDigit) else none

def dropIf? (p : Char → Bool) : Text → Option Text
  | [] => none
  | c :: s => if p c then some s else none

/-- The numbers of year, month and day with the separators given, up to the end of the text. -/
def ymd? (afterYear afterMonth : Char → Bool) (afterDay : Text) (s : Text) : Option (Nat × Nat × Nat) := do
  let (year, s) ← number? 4 4 s
  let s ← dropIf? afterYear s
  let (month, s) ← number? 1 2 s
  let s ← dropIf? afterMonth s
  let (day, s) ← number? 1 2 s
  if s = afterDay then some (year, month, day) else none

/-- `2025年6月1日`. -/
def japaneseDate? (s : Text) : Option Date :=
  (ymd? (· == '年') (· == '月') ['日'] s).bind fun (y, m, d) => Date.ofYmd? y m d

def isDateSeparator (c : Char) : Bool := c == '/' || c == '-'

/-- `2025/6/1` or `2025-6-1`, the separators mixed at will. -/
def numericDate? (s : Text) : Option Date :=
  (ymd? isDateSeparator isDateSeparator [] s).bind fun (y, m, d) => Date.ofYmd? y m d

/-- A full date between blanks. -/
def readDate? (s : Text) : Option Date := (japaneseDate? (trim s)).or (numericDate? (trim s))

/-- `6月1日` of the year given. -/
def monthDay? (year : Int) (s : Text) : Option Date := do
  let (month, s) ← number? 1 2 s
  let s ← dropIf? (· == '月') s
  let (day, s) ← number? 1 2 s
  if s = ['日'] then Date.ofYmd? year month day else none

/-! ## Options -/

/-- At most `high` digits after blanks, at least one. -/
def leadingNumber? (high : Option Nat) (s : Text) : Option (Nat × Text) :=
  let digits := s.takeWhile Char.isDigit
  let taken := match high with
    | some n => digits.take n
    | none => digits
  if taken.isEmpty then none else some (digitsValue taken, s.drop taken.length)

def signedYear? (s : Text) : Option (Int × Text) :=
  match trimStart s with
  | '-' :: s => (leadingNumber? none s).map fun (n, s) => (-(n : Int), s)
  | '+' :: s => (leadingNumber? none s).map fun (n, s) => ((n : Int), s)
  | s => (leadingNumber? (some 4) s).map fun (n, s) => ((n : Int), s)

def optionDate? (s : Text) : Option Date := do
  let (year, s) ← signedYear? s
  let s ← dropIf? (· == '-') (trimStart s)
  let (month, s) ← leadingNumber? (some 2) (trimStart s)
  let s ← dropIf? (· == '-') (trimStart s)
  let (day, s) ← leadingNumber? (some 2) (trimStart s)
  if trimStart s = [] then Date.ofYmd? year month day else none

end ExportQuery.Calendar
