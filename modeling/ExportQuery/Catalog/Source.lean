/-
  ExportQuery.Catalog.Source — where the templates of a catalog come from.

  A source answers with the template of a name, or that it has none. Templates in a
  directory are files; a name without an extension gets that of the source, whose leading
  dots do not count, and blanks around a name do not count either.
-/

import ExportQuery.Catalog.Sheet
import ExportQuery.Files.Path
import ExportQuery.Json.Value

namespace ExportQuery.Catalog

open ExportQuery.Text ExportQuery.Files

/-- Finds the template of a name. -/
abbrev Source (m : Type → Type) := Text → m (Except CatalogError (Option Text))

namespace Source

def path (dir extension name : Text) : Text :=
  let path := within dir (trim name)
  let extension := extension.dropWhile (· == '.')
  if hasExtension path || extension.isEmpty then path else addExtension path extension

/-- Templates in a directory. -/
def directory {m : Type → Type} [Monad m] (disk : Disk m) (dir extension : Text) : Source m := fun name => do
  if (trim name).isEmpty then pure (.ok none)
  else
    match ← disk.readText (path dir extension name) with
    | .ok s => pure (.ok (some s))
    | .error .missing => pure (.ok none)
    | .error e => pure (.error (.unreadable e))

def ofList {m : Type → Type} [Monad m] (templates : List (Text × Text)) : Source m :=
  fun name => pure (.ok (Json.get? name templates))

end Source

end ExportQuery.Catalog
