/-
  ExportQuery.Files.Tree — files and directories at places in a tree.

  A place is given by the names that lead to it from the root. A path is followed name by
  name, and each name needs a directory to be looked up in: `.` stays there and `..` leads
  to its parent, which of the root is the root. A name takes 255 bytes at most, a path 4095.
-/

import ExportQuery.Files.Disk
import ExportQuery.Files.Path

namespace ExportQuery.Files

open ExportQuery.Text

inductive Node where
  | file (content : ByteArray)
  | directory

/-- Names from the root. -/
abbrev Place := List Text

structure Tree where
  nodes : List (Place × Node)

namespace Tree

/-- What is at a place. What has something below it is a directory. -/
def node? (t : Tree) (place : Place) : Option Node :=
  match t.nodes.find? (·.1 == place) with
  | some (_, node) => some node
  | none => if place.isEmpty || t.nodes.any (place.isPrefixOf ·.1) then some .directory else none

def maxName : Nat := 255

def maxPath : Nat := 4095

/-- One name further on from a place. -/
def step (t : Tree) (place : Place) (name : Text) : Except FileError Place :=
  match t.node? place with
  | none => .error .missing
  | some (.file _) => .error .notDirectory
  | some .directory =>
    if name = ['.'] then .ok place
    else if name = ['.', '.'] then .ok place.dropLast
    else if maxName < bytes name then .error .nameTooLong
    else .ok (place ++ [name])

def walk (t : Tree) (place : Place) (names : List Text) : Except FileError Place := names.foldlM t.step place

/-- The place a path leads to from a working directory. -/
def locate (t : Tree) (cwd : Place) (path : Text) : Except FileError Place :=
  if path.contains '\x00' then .error .nulInPath
  else if path.isEmpty then .error .missing
  else if maxPath < bytes path then .error .nameTooLong
  else t.walk (if isAbsolute path then [] else cwd) (names path)

def read (t : Tree) (cwd : Place) (path : Text) : Except FileError ByteArray := do
  match t.node? (← t.locate cwd path) with
  | none => .error .missing
  | some .directory => .error .isDirectory
  | some (.file content) => .ok content

def holds (t : Tree) (cwd : Place) (path : Text) : Bool :=
  match t.locate cwd path with
  | .ok place => (t.node? place).isSome
  | .error _ => false

/-- The tree as a disk, paths starting at `cwd`. -/
def disk {m : Type → Type} [Monad m] (t : Tree) (cwd : Place) : Disk m :=
  ⟨fun path => pure (t.read cwd path), fun path => pure (t.holds cwd path)⟩

/-- The place that names lead to, whatever is there. -/
def placeOf (cwd : Place) (names : List Text) : Place :=
  names.foldl (fun place name =>
    if name = ['.'] then place else if name = ['.', '.'] then place.dropLast else place ++ [name]) cwd

/-- A tree of files and, where the path ends with a slash, directories. -/
def ofFiles (cwd : Place) (files : List (Text × ByteArray)) : Tree :=
  ⟨(cwd, .directory) :: files.map fun (path, content) =>
    (placeOf (if isAbsolute path then [] else cwd) (names path),
      if path.getLast? = some '/' then .directory else .file content)⟩

end Tree

end ExportQuery.Files
