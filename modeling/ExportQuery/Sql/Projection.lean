/-
  ExportQuery.Sql.Projection — labels of projections and the columns behind them.

  Users know the columns of an export by the labels of the query's projections. Three shapes
  are read: `t.c AS "label"`, `DATE_FORMAT(t.c, 'format') AS "label"`, standing for `t.c`, and
  `CASE … END AS "label"`, standing for the whole expression. The shapes are looked for in
  this order over the whole text, and the first column of a label counts.

  CASE and END are paired by depth, so that only an outermost expression directly before its
  label is read. They do not count inside single quotes, which are paired from the start of
  the line, nor behind a dot, where they name columns.

  - `firstOf_keys`: no label is bound twice.
-/

import ExportQuery.Sql.TableAlias

namespace ExportQuery.Sql

open ExportQuery.Text

/-! ## Pieces -/

def untilQuote? (quote : Char) (s : Text) : Option (Text × Text) :=
  match s.dropWhile (· ≠ quote) with
  | _ :: rest => some (s.takeWhile (· ≠ quote), rest)
  | [] => none

/-- The label after blanks, AS and blanks, and the text after it. -/
def label? (s : Text) : Option (Text × Text) :=
  ((((dropBlanks? s).bind (dropWord? "AS".toList)).bind dropBlanks?).bind (dropStart? ['"'])).bind fun s =>
    (untilQuote? '"' s).filter (!·.1.isEmpty)

/-- The qualified column a text starts with, and the text after it. -/
def column? (s : Text) : Option (Text × Text) :=
  (word? s).bind fun table =>
    (dropStart? ['.'] (takeWord s).2).bind fun r =>
      (word? r).map fun column => (table ++ '.' :: column, (takeWord r).2)

def dropFormat? : Text → Option Text
  | '\'' :: s => (untilQuote? '\'' s).map (·.2)
  | '"' :: s => (untilQuote? '"' s).map (·.2)
  | _ => none

/-! ## Columns and formatted dates -/

def plainAt? (read left : Text) : Option ((Text × Text) × Text) :=
  if startsInWord read then none
  else (column? left).bind fun (column, s) => (label? s).map fun (label, rest) => ((label, column), rest)

def dateAt? (read left : Text) : Option ((Text × Text) × Text) :=
  if startsInWord read then none
  else
    (dropWord? "DATE_FORMAT(".toList left).bind fun s =>
      (column? (trimStart s)).bind fun (column, s) =>
        ((dropStart? [','] (trimStart s)).bind fun s => dropFormat? (trimStart s)).bind fun s =>
          ((dropStart? [')'] (trimStart s)).bind label?).map fun (label, rest) => ((label, column), rest)

/-! ## CASE expressions -/

/-- The keyword of a CASE expression at a place, and the text after it. Only an opening one is
    true; the long s makes `caſe` close. -/
def caseWord? (read left : Text) : Option (Bool × Text) :=
  if startsInWord read then none
  else
    (((dropWord? "CASE".toList left).or (dropWord? "END".toList left)).filter (!startsInWord ·)).map fun rest =>
      (sameAscii "CASE".toList (left.take (left.length - rest.length)), rest)

def inLiteral (read : Text) : Bool := (lineSoFar read).count '\'' % 2 == 1

/-- The labelled CASE expressions from here on. `depth` of them are open, the outermost since
    `start` characters of the text. -/
def casesFrom : (depth start : Nat) → (read left : Text) → List (Text × Text)
  | _, _, _, [] => []
  | depth, start, read, c :: left =>
    match caseWord? read (c :: left) with
    | none => casesFrom depth start (c :: read) left
    | some (opening, rest) =>
      if inLiteral read || read.head? == some '.' then casesFrom depth start (c :: read) left
      else if opening then casesFrom (depth + 1) (if depth = 0 then read.length else start) (c :: read) left
      else
        let found :=
          if depth = 1 then
            (label? rest).toList.map fun (label, _) =>
              (label, (read.take (read.length - start)).reverse ++ (c :: left).take (left.length + 1 - rest.length))
          else []
        found ++ casesFrom (depth - 1) start (c :: read) left

def labelledCases (s : Text) : List (Text × Text) := casesFrom 0 0 [] s

/-! ## Labels -/

def firstOf : List (Text × Text) → List (Text × Text)
  | [] => []
  | (key, value) :: more => (key, value) :: (firstOf more).filter (·.1 ≠ key)

/-- Each label with the column it stands for. -/
def columns (s : Text) : List (Text × Text) := firstOf (scan plainAt? 0 [] s ++ scan dateAt? 0 [] s ++ labelledCases s)

theorem firstOf_keys (l : List (Text × Text)) : ((firstOf l).map (·.1)).Nodup := by
  induction l with
  | nil => simp [firstOf]
  | cons x l ih =>
    obtain ⟨key, value⟩ := x
    simp only [firstOf, List.map_cons, List.nodup_cons]
    refine ⟨by simp, ?_⟩
    exact (List.filter_sublist.map _).nodup ih

end ExportQuery.Sql
