/-
  ExportQuery.Sql.TableAlias — the names that conditions qualify their columns with.

  The alias of the outer table is read off the first `FROM name` after the FROM marker: the
  word that follows, an AS between them passed over, unless it is a keyword that can follow a
  table name; then the name itself serves. The alias of the submission table is the first such
  word behind `user_applications`, else the qualifier of a submission time column.
-/

import ExportQuery.Sql.Template
import ExportQuery.Sql.Keyword

namespace ExportQuery.Sql

open ExportQuery.Text

/-- Words that can follow a table name without being its alias. -/
def nonAliases : List Text :=
  ["AS", "CROSS", "FOR", "FORCE", "FULL", "GROUP", "HAVING", "IGNORE", "INNER", "JOIN", "LEFT", "LIMIT", "LOCK",
    "NATURAL", "ON", "ORDER", "OUTER", "PARTITION", "RIGHT", "STRAIGHT_JOIN", "UNION", "USE", "USING", "WHERE",
    "WINDOW"].map String.toList

def isNonAlias (word : Text) : Bool := nonAliases.any (sameAscii word)

/-- Characters of a table name, schema included. -/
def isNameChar (c : Char) : Bool := isWord c || c == '.'

def word? (s : Text) : Option Text := if startsInWord s then some (takeWord s).1 else none

/-- The word after blanks. An AS with a word of its own behind it is passed over. -/
def aliasAfter? (s : Text) : Option Text :=
  (dropBlanks? s).bind fun s => (((dropWord? "AS".toList s).bind dropBlanks?).bind word?).or (word? s)

/-! ## The outer table -/

def tableAt? (read left : Text) : Option (Text × Text) :=
  if startsInWord read then none
  else
    ((dropWord? "FROM".toList left).bind dropBlanks?).bind fun s =>
      if (s.takeWhile isNameChar).isEmpty then none else some (s.takeWhile isNameChar, s.dropWhile isNameChar)

def outerTable? (s : Text) : Option (Text × Text) := (fromClause? s).bind fun (_, rest) => seekSome tableAt? [] rest

/-- What the outer query calls its first table. -/
def outerAlias? (s : Text) : Option Text :=
  (outerTable? s).map fun (table, after) => ((aliasAfter? after).filter (!isNonAlias ·)).getD table

/-! ## The submission table -/

def submissionTableAt? (read left : Text) : Option Text :=
  if startsInWord read then none
  else ((dropWord? "USER_APPLICATIONS".toList left).bind aliasAfter?).filter (!isNonAlias ·)

/-- The qualifier of a submission time column at a place. -/
def submissionColumnAt? (read left : Text) : Option Text :=
  if startsInWord read then none
  else
    (word? left).bind fun word =>
      ((dropStart? ".last_submission_datetime".toList (takeWord left).2).filter (!startsInWord ·)).map fun _ => word

/-- What the query calls the table of submission times. -/
def submissionAlias? (s : Text) : Option Text :=
  (seekSome submissionTableAt? [] s).or (seekSome submissionColumnAt? [] s)

/-! ## The users table -/

def startsWithUsers (s : Text) : Bool := ((dropWord? "USERS".toList s).filter (!startsInWord ·)).isSome

def dropSchema? (s : Text) : Option Text := (word? s).bind fun _ => dropStart? ['.'] (takeWord s).2

def usersAt (read left : Text) : Bool :=
  !startsInWord read &&
    (((dropWord? "FROM".toList left).or (dropWord? "JOIN".toList left)).bind dropBlanks?).any fun s =>
      (dropSchema? s).any startsWithUsers || startsWithUsers s

def readsUsers (s : Text) : Bool := (seek usersAt [] s).isSome

end ExportQuery.Sql
