/-
  ExportQuery.Catalog.Sheet — catalogs as TOML documents.

  The rows are the records of the array `rows`; without one the catalog is empty. The cells
  of a row are strings, empty where they are missing.
-/

import ExportQuery.Catalog.Row
import ExportQuery.Files.Disk
import ExportQuery.Toml.Document
import ExportQuery.Toml.Record

namespace ExportQuery.Catalog

open ExportQuery.Text ExportQuery.Files ExportQuery.Toml

inductive CatalogError where
  | notFound (path : Text)
  | unreadable (error : FileError)
  /-- The document is not a catalog. -/
  | malformed
  deriving DecidableEq, Repr

def CatalogError.message : CatalogError → Text
  | .notFound path => "Catalog file not found: ".toList ++ path
  | .unreadable e => "IO error: ".toList ++ e.message
  | .malformed => "Failed to parse catalog: not a catalog".toList

def rowOf? (v : Value) : Option Row := do
  let fields ← fields? Row.columns v
  let cells ← Row.columns.mapM fun column => field? asText? column [] fields
  Row.ofCells? cells

/-- The rows of a catalog. -/
def ofText? (s : Text) : Option (List Row) := do
  let fields ← fields? ["rows".toList] (← document? s)
  let rows ← field? asItems? "rows".toList [] fields
  rows.mapM rowOf?

/-- The rows of the catalog in a file. -/
def load {m : Type → Type} [Monad m] (disk : Disk m) (path : Text) : m (Except CatalogError (List Row)) := do
  if ← disk.holds path then
    match ← disk.readText path with
    | .error e => pure (.error (.unreadable e))
    | .ok s =>
      match ofText? s with
      | none => pure (.error .malformed)
      | some rows => pure (.ok rows)
  else pure (.error (.notFound path))

end ExportQuery.Catalog
