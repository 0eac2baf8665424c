/-
  ExportQuery.Calendar.Date — dates of the proleptic Gregorian calendar.

  Year 0 exists and is a leap year. Dates run from the first day of the year -262143 to the
  last day of the year 262142; a date carries the proof that it exists. Dates are ordered by
  year, month and day.

  - `back?_zero`: no days back from a date is the date itself.
  - `ofYmd?_isSome`: a date is built exactly from a day that exists.
-/

import ExportQuery.Text.Numeral

namespace ExportQuery.Calendar

open ExportQuery.Text

def isLeap (year : Int) : Bool := year % 4 == 0 && (year % 100 != 0 || year % 400 == 0)

/-- Days in a month, none in a month that does not exist. -/
def monthLength (year : Int) (month : Nat) : Nat :=
  match month with
  | 1 | 3 | 5 | 7 | 8 | 10 | 12 => 31
  | 4 | 6 | 9 | 11 => 30
  | 2 => if isLeap year then 29 else 28
  | _ => 0

def firstYear : Int := -262143

def lastYear : Int := 262142

/-- Whether the day exists and can be held. -/
def isDate (year : Int) (month day : Nat) : Bool :=
  firstYear ≤ year && year ≤ lastYear && 1 ≤ day && day ≤ monthLength year month

theorem isDate_iff {year : Int} {month day : Nat} :
    isDate year month day = true ↔ firstYear ≤ year ∧ year ≤ lastYear ∧ 1 ≤ day ∧ day ≤ monthLength year month := by
  simp only [isDate, Bool.and_eq_true, decide_eq_true_eq, and_assoc]

theorem monthLength_pos_iff {year : Int} {month : Nat} : 1 ≤ monthLength year month ↔ 1 ≤ month ∧ month ≤ 12 := by
  match month with
  | 0 | 1 | 3 | 4 | 5 | 6 | 7 | 8 | 9 | 10 | 11 | 12 => simp [monthLength]
  | 2 => cases h : isLeap year <;> simp [monthLength, h]
  | month + 13 => simp [monthLength]

structure Date where
  year : Int
  month : Nat
  day : Nat
  valid : isDate year month day = true
  deriving DecidableEq, Repr

namespace Date

def ofYmd? (year : Int) (month day : Nat) : Option Date :=
  if h : isDate year month day = true then some ⟨year, month, day, h⟩ else none

/-- Earlier, by year, month and day. -/
def Before (a b : Date) : Prop :=
  a.year < b.year ∨ (a.year = b.year ∧ (a.month < b.month ∨ (a.month = b.month ∧ a.day < b.day)))

instance (a b : Date) : Decidable (Before a b) := by unfold Before; exact inferInstance

theorem ofYmd?_isSome (y : Int) (m d : Nat) : (ofYmd? y m d).isSome = isDate y m d := by
  unfold ofYmd?
  split <;> simp_all

theorem ofYmd?_eq_none_iff {year : Int} {month day : Nat} : ofYmd? year month day = none ↔ isDate year month day = false := by
  rw [← ofYmd?_isSome, Option.isSome_eq_false_iff, Option.isNone_iff_eq_none]

theorem ofYmd?_eq_some_iff {year : Int} {month day : Nat} {d : Date} :
    ofYmd? year month day = some d ↔ d.year = year ∧ d.month = month ∧ d.day = day := by
  unfold ofYmd?
  constructor
  · intro h
    split at h
    · simp only [Option.some.injEq] at h
      rw [← h]
      exact ⟨rfl, rfl, rfl⟩
    · cases h
  · intro ⟨hy, hm, hd⟩
    rw [← hy, ← hm, ← hd, dif_pos d.valid]

theorem day_pos (d : Date) : 0 < d.day := (isDate_iff.mp d.valid).2.2.1

theorem monthLength_le (year : Int) (month : Nat) : monthLength year month ≤ 31 := by
  match month with
  | 0 | 1 | 3 | 4 | 5 | 6 | 7 | 8 | 9 | 10 | 11 | 12 => simp [monthLength]
  | 2 => cases h : isLeap year <;> simp [monthLength, h]
  | month + 13 => simp [monthLength]

theorem month_le (d : Date) : 1 ≤ d.month ∧ d.month ≤ 12 := by
  obtain ⟨_, _, hpos, hle⟩ := isDate_iff.mp d.valid
  exact monthLength_pos_iff.mp (Nat.le_trans hpos hle)

theorem day_le (d : Date) : d.day ≤ 31 := Nat.le_trans (isDate_iff.mp d.valid).2.2.2 (monthLength_le d.year d.month)

/-! ## Days back -/

/-- The last day before the month of `d`. -/
def monthBefore? (d : Date) : Option Date :=
  if d.month = 1 then ofYmd? (d.year - 1) 12 31 else ofYmd? d.year (d.month - 1) (monthLength d.year (d.month - 1))

/-- The day before. -/
def pred? (d : Date) : Option Date := if 1 < d.day then ofYmd? d.year d.month (d.day - 1) else d.monthBefore?

/-- The day `n` days before, reached month by month. -/
def back? (n : Nat) (d : Date) : Option Date :=
  if n < d.day then ofYmd? d.year d.month (d.day - n)
  else
    match d.monthBefore? with
    | none => none
    | some e => back? (n - d.day) e
termination_by n
decreasing_by have := d.day_pos; omega

theorem back?_zero (d : Date) : back? 0 d = some d := by
  unfold back?
  simp [d.day_pos, ofYmd?, d.valid]

/-! ## Writing -/

/-- Years 0 to 9999 in four digits, other years with a sign and four digits or more. -/
def yearText (year : Int) : Text :=
  if 0 ≤ year ∧ year ≤ 9999 then padded 4 year.toNat
  else (if year < 0 then '-' else '+') :: padded 4 year.natAbs

def text (d : Date) : Text := yearText d.year ++ '-' :: padded 2 d.month ++ '-' :: padded 2 d.day

end Date

end ExportQuery.Calendar
