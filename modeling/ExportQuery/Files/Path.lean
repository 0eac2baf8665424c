/-
  ExportQuery.Files.Path — paths and their parts.

  A path is a text of names with slashes between them; with a slash in front it starts at
  the root. Slashes and `.` names at its end do not count for the name of the file, and
  neither `.` nor `..` is the name of a file. The extension of a file follows the last dot
  of its name, unless that is the first character.

  - `segments_joined`: the segments and the slashes between them make up a path.
-/

import ExportQuery.Text.Blank

namespace ExportQuery.Files

open ExportQuery.Text

def isAbsolute (path : Text) : Bool := path.head? = some '/'

/-- The path `path` as seen from the directory `dir`. -/
def within (dir path : Text) : Text :=
  if isAbsolute path || dir.isEmpty then path
  else if dir.getLast? = some '/' then dir ++ path
  else dir ++ '/' :: path

/-! ## Names of files -/

/-- A path from its end, without the slashes and `.` names there. -/
def dropIdle : Text → Text
  | '/' :: s => dropIdle s
  | '.' :: '/' :: s => dropIdle s
  | s => s

/-- The path without slashes and `.` names at its end. -/
def trunk (path : Text) : Text := (dropIdle path.reverse).reverse

/-- The name of the file a path leads to. -/
def fileName? (path : Text) : Option Text :=
  let name := ((dropIdle path.reverse).takeWhile (· ≠ '/')).reverse
  if name.isEmpty || name = ['.'] || name = ['.', '.'] then none else some name

def hasExtension (path : Text) : Bool :=
  match fileName? path with
  | none => false
  | some name => name.tail.contains '.'

/-- The path with an extension added to the name of the file, if it has one. -/
def addExtension (path extension : Text) : Text :=
  if (fileName? path).isNone then path else trunk path ++ '.' :: extension

/-! ## Segments -/

/-- What stands before, between and behind the slashes. -/
def segments : Text → List Text
  | [] => [[]]
  | c :: s =>
    if c = '/' then [] :: segments s
    else
      match segments s with
      | [] => [[c]]
      | name :: names => (c :: name) :: names

/-- The names that lead along a path. A slash at the end counts as the name `.`, for it asks for a
    directory too. -/
def names (path : Text) : List Text :=
  (segments path).filter (!·.isEmpty) ++ if path.getLast? = some '/' then [['.']] else []

theorem segments_joined (path : Text) : join ['/'] (segments path) = path := by
  induction path with
  | nil => simp [segments, join]
  | cons c s ih =>
    simp only [segments]
    cases h : segments s with
    | nil =>
      rw [h] at ih
      subst ih
      cases h
    | cons name names =>
      rw [h] at ih
      split
      · subst ‹c = '/'›
        simpa [join, List.intercalate] using ih
      · cases names <;> simp_all [join, List.intercalate]

end ExportQuery.Files
