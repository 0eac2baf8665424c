/-
  ExportQuery.Files.Disk — reading files.

  A disk answers what a path leads to. Texts are read from files in UTF-8.
-/

import ExportQuery.Text.Blank

namespace ExportQuery.Files

/-- Why a file cannot be read. -/
inductive FileError where
  | missing
  | notDirectory
  | isDirectory
  | nameTooLong
  | nulInPath
  | notUtf8
  | other (reason : Text)
  deriving DecidableEq, Repr

def FileError.message : FileError → Text
  | .missing => "No such file or directory (os error 2)".toList
  | .notDirectory => "Not a directory (os error 20)".toList
  | .isDirectory => "Is a directory (os error 21)".toList
  | .nameTooLong => "File name too long (os error 36)".toList
  | .nulInPath => "file name contained an unexpected NUL byte".toList
  | .notUtf8 => "stream did not contain valid UTF-8".toList
  | .other reason => reason

/-- Where files are read from, in computations of `m`. -/
structure Disk (m : Type → Type) where
  /-- The content of the file at a path. -/
  read : Text → m (Except FileError ByteArray)
  /-- Whether a path leads to a file or a directory. -/
  holds : Text → m Bool

def decode (content : ByteArray) : Except FileError Text :=
  match String.fromUTF8? content with
  | some s => .ok s.toList
  | none => .error .notUtf8

/-- The text of the file at a path. -/
def Disk.readText {m : Type → Type} [Monad m] (disk : Disk m) (path : Text) : m (Except FileError Text) := do
  match ← disk.read path with
  | .ok content => pure (decode content)
  | .error e => pure (.error e)

end ExportQuery.Files
