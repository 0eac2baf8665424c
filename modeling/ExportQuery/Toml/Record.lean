/-
  ExportQuery.Toml.Record — records of fixed fields in TOML.

  A record is a table with members named for its fields, in which other members are passed
  over, or an array with one item for each field in order, in which further items are. A
  point in time has none of the fields. A field that is missing has its default; one of
  another type makes the record invalid.
-/

import ExportQuery.Toml.Value

namespace ExportQuery.Toml

open ExportQuery.Json

/-- The fields of a record. -/
abbrev Fields := List (Text × Value)

/-- What a value has of the fields with the given names. -/
def fields? (names : List Text) : Value → Option Fields
  | .table _ members => some members
  | .array items => some (names.zip items)
  | .time => some []
  | _ => none

/-- The field `name` by `read`, or its default. -/
def field? {α : Type} (read : Value → Option α) (name : Text) (default : α) (fields : Fields) : Option α :=
  match get? name fields with
  | none => some default
  | some v => read v

def asText? : Value → Option Text
  | .string s => some s
  | _ => none

def asBool? : Value → Option Bool
  | .boolean b => some b
  | _ => none

/-- Numbers that an unsigned 64-bit word holds. -/
def asWord? : Value → Option Nat
  | .integer n => if 0 ≤ n && n < 0x10000000000000000 then some n.toNat else none
  | _ => none

def asItems? : Value → Option (List Value)
  | .array items => some items
  | .tables latestFirst => some (latestFirst.reverse.map (.table .header ·))
  | _ => none

end ExportQuery.Toml
