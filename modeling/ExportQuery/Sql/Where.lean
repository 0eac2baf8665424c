/-
  ExportQuery.Sql.Where — merging conditions into the outer WHERE clause.

  The conditions go right after the first WHERE behind the FROM marker, before the predicate
  that is there; without a WHERE they form a clause of their own, ahead of the first ORDER BY
  or LIMIT outside parentheses, else at the end. Comments hide keywords, and so do regions,
  which are swapped for tokens meanwhile. A predicate that is there is not parenthesised.

  - `Site` names the three cases with the pieces of text around the insertion.
  - `site_joins`: the pieces and one run of blanks make up the text.
  - `mergeWhere_blank`: blank conditions change nothing.
-/

import ExportQuery.Sql.Region
import ExportQuery.Sql.Keyword

namespace ExportQuery.Sql

open ExportQuery.Text

inductive Site where
  /-- After the keyword that ends `before`, before the predicate `predicate`. -/
  | extending (before predicate : Text)
  /-- On a line of its own between `before` and the clauses that close the query. -/
  | preceding (before closing : Text)
  /-- On a line of its own after the query. -/
  | atEnd (before : Text)
  deriving DecidableEq, Repr

/-- The site in `head ++ rest`, keywords being looked for in `rest`. -/
def site (head rest : Text) : Site :=
  match findClause [.filter] head rest with
  | some (read, left) => .extending (read.reverse ++ left.take 5) (trimStart (left.drop 5))
  | none =>
    match findOuterClause [.ordering, .limit] head rest with
    | some (read, left) => .preceding (trimEnd read.reverse) left
    | none => .atEnd (trimEnd (head ++ rest))

def Site.insert (condition : Text) : Site → Text
  | .extending before [] => before ++ ' ' :: condition
  | .extending before predicate => before ++ ' ' :: condition ++ " AND ".toList ++ predicate
  | .preceding before closing => before ++ "\nWHERE ".toList ++ condition ++ '\n' :: closing
  | .atEnd before => before ++ "\nWHERE ".toList ++ condition

/-- The conditions that are not blank, trimmed and joined by AND. -/
def conjunction (conditions : List Text) : Text :=
  join " AND ".toList ((conditions.map trim).filter (!·.isEmpty))

/-- The text with the conditions merged into its outer WHERE clause. Without the FROM marker
    nothing is merged. -/
def mergeWhere (s : Text) (conditions : List Text) : Except Overflow Text :=
  let condition := conjunction conditions
  if condition.isEmpty then .ok s
  else
    match fromClause? s with
    | none => .ok s
    | some (head, rest) => do
      let first ← freshIndex s
      let regions := divide rest
      -- the last region has the largest index
      let _ ← addWords first (regions.count - 1)
      let name := tokenFrom first
      pure (restoreFrom name 0 regions.bodies ((site head (regions.outer name)).insert condition))

def hasWhere (s : Text) : Bool :=
  match fromClause? (extractRegions s).1 with
  | none => false
  | some (head, rest) => (findClause [.filter] head rest).isSome

theorem mergeWhere_blank {s : Text} {conditions : List Text} (h : conjunction conditions = []) :
    mergeWhere s conditions = .ok s := by
  simp [mergeWhere, h]

theorem trimEnd_joins (s : Text) : ∃ w, s = trimEnd s ++ w ∧ allBlank w = true := by
  refine ⟨(s.reverse.takeWhile isBlank).reverse, ?_, ?_⟩
  · rw [trimEnd, ← List.reverse_append, List.takeWhile_append_dropWhile, List.reverse_reverse]
  · simp only [allBlank, List.all_reverse]
    exact List.all_takeWhile

theorem trimStart_joins (s : Text) : ∃ w, s = w ++ trimStart s ∧ allBlank w = true :=
  ⟨s.takeWhile isBlank, List.takeWhile_append_dropWhile.symm, List.all_takeWhile⟩

def Site.before : Site → Text
  | .extending b _ | .preceding b _ | .atEnd b => b

def Site.after : Site → Text
  | .extending _ a | .preceding _ a => a
  | .atEnd _ => []

theorem site_joins (head rest : Text) :
    ∃ w, head ++ rest = (site head rest).before ++ w ++ (site head rest).after ∧ allBlank w = true := by
  unfold site
  split
  · rename_i read left h
    obtain ⟨w, hw, hb⟩ := trimStart_joins (left.drop 5)
    have := seek_joins h
    refine ⟨w, ?_, hb⟩
    simp only [Site.before, Site.after, List.append_assoc]
    rw [← hw, List.take_append_drop, this, List.reverse_reverse]
  · split
    · rename_i read left h
      obtain ⟨w, hw, hb⟩ := trimEnd_joins read.reverse
      have := seek_joins h
      refine ⟨w, ?_, hb⟩
      simp only [Site.before, Site.after]
      rw [← hw, this, List.reverse_reverse]
    · obtain ⟨w, hw, hb⟩ := trimEnd_joins (head ++ rest)
      exact ⟨w, by simpa [Site.before, Site.after] using hw, hb⟩

end ExportQuery.Sql
