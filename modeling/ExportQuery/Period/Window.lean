/-
  ExportQuery.Period.Window — the days a period condition selects, and the SQL for them.

  A condition is resolved against a reference date into one window of days. On the first date
  that can be held there is no day before, and no condition resolves.
-/

import ExportQuery.Period.Expr

namespace ExportQuery.Period

open ExportQuery.Text ExportQuery.Calendar

inductive Window where
  | on (date : Date)
  | through (date : Date)
  | between (first last : Date)
  deriving DecidableEq, Repr

def Window.Holds (d : Date) : Window → Prop
  | .on date => d = date
  | .through date => ¬ date.Before d
  | .between first last => ¬ d.Before first ∧ ¬ last.Before d

instance (d : Date) (w : Window) : Decidable (w.Holds d) := by
  cases w <;> simp only [Window.Holds] <;> exact inferInstance

/-- The window of a condition on the date `today`. -/
def Expr.window? (today : Date) (e : Expr) : Option Window :=
  today.pred?.bind fun yesterday =>
    match e with
    | .today => some (.on today)
    | .yesterday => some (.on yesterday)
    | .throughYesterday => some (.through yesterday)
    | .throughToday => some (.through today)
    | .sinceThroughYesterday start => some (.between start yesterday)
    | .sinceThroughToday start => some (.between start today)
    | .range start stop => some (.between start stop)
    | .daysAgo n => (today.back? n).map .on
    | .onDate date => some (.on date)

/-! ## SQL -/

/-- The days of the window as a condition on the date of a column. -/
def Window.sql (column : Text) : Window → Text
  | .on date => "DATE(".toList ++ column ++ ") = '".toList ++ date.text ++ ['\'']
  | .through date => "DATE(".toList ++ column ++ ") <= '".toList ++ date.text ++ ['\'']
  | .between first last =>
    "DATE(".toList ++ column ++ ") BETWEEN '".toList ++ first.text ++ "' AND '".toList ++ last.text ++ ['\'']

def window? (today : Date) (condition : Text) : Option Window := (Expr.ofText? condition).bind (Expr.window? today)

def qualified (table column : Text) : Text := table ++ '.' :: column

/-- The condition on one column; empty when there is no window. -/
def columnCondition (today : Date) (condition column table : Text) : Text :=
  match window? today condition with
  | some w => ' ' :: w.sql (qualified table column)
  | none => []

/-- The condition on the time of the last update or of the last login; empty when there is no
    window. -/
def loginCondition (today : Date) (condition table : Text) : Text :=
  match window? today condition with
  | some w =>
    " (".toList ++ w.sql (qualified table "updated_at".toList) ++ " OR ".toList ++
      w.sql (qualified table "last_login_at".toList) ++ [')']
  | none => []

end ExportQuery.Period
