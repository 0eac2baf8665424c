/-
  ExportQuery.Period.Expr — the period conditions of a catalog.

  | Condition | Days |
  |---|---|
  | `当日`, `前日` | that day |
  | `当日まで累積`, `前日まで累積` | all days through that day |
  | `日付～当日まで累積`, `日付～前日まで累積` | from the date through that day |
  | `日付～日付`, with `まで`, `の期間`, `までの期間` behind it | from date through date |
  | `N日前時点を1日分` | the day N days ago |
  | `2025年6月1日` | that day |

  The end of a range may leave out its year, which then is that of the start. Three kinds of
  wave serve as the separator.
-/

import ExportQuery.Calendar.Reading
import ExportQuery.Text.Search

namespace ExportQuery.Period

open ExportQuery.Text ExportQuery.Calendar

inductive Expr where
  | today
  | yesterday
  | throughYesterday
  | throughToday
  | sinceThroughYesterday (start : Date)
  | sinceThroughToday (start : Date)
  | range (start stop : Date)
  | daysAgo (days : Nat)
  | onDate (date : Date)
  deriving DecidableEq, Repr

def todayWord : Text := "当日".toList

def yesterdayWord : Text := "前日".toList

def throughYesterdayWord : Text := "前日まで累積".toList

def throughTodayWord : Text := "当日まで累積".toList

def cumulativeWord : Text := "累積".toList

def daysAgoWord : Text := "日前時点を1日分".toList

/-- The endings a range may have, in the order they are taken off. -/
def rangeEndings : List Text := ["までの期間".toList, "の期間".toList, "まで".toList]

/-- Full-width tilde, wave dash and ASCII tilde. -/
def isWave (c : Char) : Bool := c == '～' || c == '〜' || c == '~'

/-- More days than this cannot be written. -/
def maxDays : Nat := 0xffffffff

/-- The texts before and after the first wave. -/
def splitAtWave? (s : Text) : Option (Text × Text) :=
  match s.dropWhile (!isWave ·) with
  | [] => none
  | _ :: after => some (s.takeWhile (!isWave ·), after)

/-- The text without the endings of a range and without blanks around. -/
def withoutRangeEndings (s : Text) : Text :=
  rangeEndings.foldl (fun s ending => trimEnd ((dropEnding? ending s).getD s)) (trim s)

/-- The end of a range that starts in `year`. -/
def rangeEnd? (year : Int) (s : Text) : Option Date :=
  (readDate? (withoutRangeEndings s)).or (monthDay? year (withoutRangeEndings s))

/-- The condition `start～stop` of the whole text `s`. -/
def rangeOf? (s start stop : Text) : Option Expr :=
  if trim stop = throughYesterdayWord then (readDate? start).map .sinceThroughYesterday
  else if trim stop = throughTodayWord then (readDate? start).map .sinceThroughToday
  else if occurs cumulativeWord s then none
  else (readDate? start).bind fun a => (rangeEnd? a.year stop).map fun b => .range a b

/-- `N日前時点を1日分`. -/
def daysAgo? (s : Text) : Option Nat :=
  let digits := s.takeWhile Char.isDigit
  if digits.isEmpty || s.dropWhile Char.isDigit ≠ daysAgoWord || maxDays < digitsValue digits then none
  else some (digitsValue digits)

/-- The condition without blanks around it. -/
def Expr.ofTrimmed? (s : Text) : Option Expr :=
  if s = todayWord then some .today
  else if s = yesterdayWord then some .yesterday
  else if s = throughYesterdayWord then some .throughYesterday
  else if s = throughTodayWord then some .throughToday
  else
    match splitAtWave? s with
    | some (start, stop) => rangeOf? s start stop
    | none => ((daysAgo? s).map .daysAgo).or ((japaneseDate? s).map .onDate)

/-- The condition a text writes; none outside the vocabulary. -/
def Expr.ofText? (s : Text) : Option Expr := Expr.ofTrimmed? (trim s)

end ExportQuery.Period
