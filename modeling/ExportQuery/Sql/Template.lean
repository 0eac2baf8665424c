/-
  ExportQuery.Sql.Template — the text of a query template and its FROM marker.

  A template is plain SQL text. The comment `-- FROM clause` marks where its outer FROM
  clause starts: what stands up to and with the marker is never edited. A query is kept
  without its final semicolon while it is worked on.

  - `fromClause_joins`: head and rest make up the text, and the head ends with the marker.
-/

import ExportQuery.Text.Search

namespace ExportQuery.Sql

open ExportQuery.Text

/-- The comment that the outer FROM clause follows. -/
def fromMarker : Text := "-- FROM clause".toList

/-- The query without the blanks around it and without one final semicolon. -/
def bare (s : Text) : Text := trimEnd ((dropEnding? [';'] (trim s)).getD (trim s))

/-- The text through the first FROM marker, and the text after it. -/
def fromClause? (s : Text) : Option (Text × Text) :=
  (cut? fromMarker s).map fun (before, after) => (before ++ fromMarker, after)

def fromClauseEnd? (s : Text) : Option Nat := (fromClause? s).map fun (head, _) => bytes head

theorem fromClause_joins {s head rest : Text} (h : fromClause? s = some (head, rest)) :
    s = head ++ rest ∧ fromMarker <:+ head := by
  simp only [fromClause?, Option.map_eq_some_iff, Prod.exists, Prod.mk.injEq] at h
  obtain ⟨a, b, hc, rfl, rfl⟩ := h
  exact ⟨eq_of_cut? hc, List.suffix_append _ _⟩

end ExportQuery.Sql
