/-
  ExportQuery.Sql.GroupBy — cutting off the GROUP BY clause and putting it back.

  The clause runs from the first GROUP BY after the FROM marker, outside comments, through
  the end of the text. Without one, or without the marker, nothing is cut.

  - `restoreGroupBy_nil`: without a clause nothing is put back.
-/

import ExportQuery.Sql.Template
import ExportQuery.Sql.Keyword

namespace ExportQuery.Sql

open ExportQuery.Text

/-- The text before the GROUP BY clause, and the clause. -/
def extractGroupBy (s : Text) : Text × Text :=
  match fromClause? s with
  | none => (s, [])
  | some (head, rest) =>
    match findClause [.grouping] head rest with
    | none => (s, [])
    | some (read, clause) => (trimEnd read.reverse, trimEnd clause)

/-- The clause on a line of its own after the text. -/
def restoreGroupBy (s clause : Text) : Text := if clause.isEmpty then s else trimEnd s ++ '\n' :: clause

theorem restoreGroupBy_nil (s : Text) : restoreGroupBy s [] = s := rfl

end ExportQuery.Sql
