/-
  ExportQuery.Toml.Value — TOML values, and tables while they are put together.

  A table remembers what made it, for that decides what may still be added. Headers and
  dotted keys lead through tables: a missing one is made on the way, one written inline
  takes no additions, one with a header takes none from dotted keys. In an array of tables
  they lead to its last table.

  - `assign_twice`: a key is bound once.
-/

import ExportQuery.Json.Value

namespace ExportQuery.Toml

open ExportQuery.Decimal ExportQuery.Json

/-- What made a table. -/
inductive Origin where
  /-- A header of its own; the document itself counts as one. -/
  | header
  /-- The header of a table inside it. -/
  | longerHeader
  | dottedKey
  | inline
  deriving DecidableEq, Repr

inductive Value where
  | string (s : Text)
  | integer (n : Int)
  | real (x : Double)
  | infinity (negative : Bool)
  | notANumber
  | boolean (b : Bool)
  | time
  | array (items : List Value)
  | table (origin : Origin) (members : List (Text × Value))
  /-- An array of tables with headers, the last one first. -/
  | tables (latestFirst : List (List (Text × Value)))
  deriving Repr

structure Table where
  origin : Origin
  members : List (Text × Value)
  deriving Repr

namespace Table

/-- A document without statements. -/
def document : Table := ⟨.header, []⟩

def value (t : Table) : Value := .table t.origin t.members

def bind (t : Table) (key : Text) (v : Value) : Table := { t with members := put key v t.members }

/-- Changes the table that `path` leads to, by a dotted key or by a header. -/
def enter (dotted : Bool) (change : Table → Option Table) : List Text → Table → Option Table
  | [], t => change t
  | key :: path, t =>
    match get? key t.members with
    | none =>
      (enter dotted change path ⟨if dotted then .dottedKey else .longerHeader, []⟩).map fun u => t.bind key u.value
    | some (.table origin members) =>
      if origin = .inline || (dotted && origin = .header) then none
      else (enter dotted change path ⟨origin, members⟩).map fun u => t.bind key u.value
    | some (.tables (latest :: older)) =>
      (enter dotted change path ⟨.header, latest⟩).map fun u => t.bind key (.tables (u.members :: older))
    | some _ => none

/-- Binds the key behind the dotted `path`. Only a table that dotted keys made takes it through
    a path, and only a table that they did not make takes it directly. -/
def assign (path : List Text) (key : Text) (v : Value) : Table → Option Table :=
  enter true (fun t =>
    if (t.origin == .dottedKey) == path.isEmpty || (get? key t.members).isSome then none else some (t.bind key v)) path

/-- Opens the table of a header. -/
def openTable (path : List Text) (key : Text) : Table → Option Table :=
  enter false (fun t =>
    match get? key t.members with
    | none => some (t.bind key (.table .header []))
    | some (.table .longerHeader members) => some (t.bind key (.table .header members))
    | some _ => none) path

/-- Opens one more table of an array of tables. -/
def openElement (path : List Text) (key : Text) : Table → Option Table :=
  enter false (fun t =>
    match get? key t.members with
    | none => some (t.bind key (.tables [[]]))
    | some (.tables tables) => some (t.bind key (.tables ([] :: tables)))
    | some _ => none) path

theorem assign_twice {key : Text} {v w : Value} {t u : Table} (h : assign [] key v t = some u) :
    assign [] key w u = none := by
  simp only [assign, enter] at h ⊢
  split at h
  · cases h
  · simp only [Option.some.injEq] at h
    subst h
    simp [bind, get?_put]

end Table

end ExportQuery.Toml
