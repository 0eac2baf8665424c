/-
  ExportQuery.Filter.Input — filter values from the browsing page, with the types of their fields.

  The document is an object with the members `values`, an object, and `types`, an object of
  tags; both may be missing, neither may be repeated, and other members are passed over. An
  array of the two in this order serves as well. Fields without a type are of type `other`.
-/

import ExportQuery.Json.Tree

namespace ExportQuery.Filter

open ExportQuery.Text ExportQuery.Json

/-- The kinds of input controls. -/
inductive FieldType where
  | freeText
  | dropdown
  | radio
  | checkbox
  | json
  | date
  | other
  deriving DecidableEq, Repr

def FieldType.tags : List (Text × FieldType) :=
  [("FA".toList, .freeText), ("プルダウン".toList, .dropdown), ("ラジオボタン".toList, .radio),
    ("チェックボックス".toList, .checkbox), ("JSON".toList, .json), ("Date".toList, .date)]

/-- The type of a tag between blanks. -/
def FieldType.ofTag (tag : Text) : FieldType := (get? (trim tag) tags).getD .other

structure Input where
  values : List (Text × Value)
  types : List (Text × FieldType)
  deriving Repr

namespace Input

def empty : Input := ⟨[], []⟩

def typeOf (input : Input) (field : Text) : FieldType := (get? field input.types).getD .other

def withField (input : Input) (field : Text) (type : FieldType) (value : Value) : Input :=
  ⟨put field value input.values, put field type input.types⟩

/-! ## Reading -/

/-- What a document has of the two members. -/
structure Parts where
  values : Option (List (Text × Value))
  types : Option (List (Text × FieldType))

def valuesOf? (t : Tree) : Option (List (Text × Value)) :=
  match t.value? (maxDepth - 1) with
  | some (.object members) => some members
  | _ => none

def typeMember? : Option Text × Tree → Option (Text × FieldType)
  | (some field, .string (some tag)) => some (field, .ofTag tag)
  | _ => none

def typesOf? : Tree → Option (List (Text × FieldType))
  | .object members => (members.mapM typeMember?).map collect
  | _ => none

/-- Takes one more member of the document. -/
def Parts.add? (parts : Parts) : Option Text × Tree → Option Parts
  | (none, _) => none
  | (some name, t) =>
    if name = "values".toList then
      if parts.values.isSome then none else (valuesOf? t).map fun v => { parts with values := some v }
    else if name = "types".toList then
      if parts.types.isSome then none else (typesOf? t).map fun v => { parts with types := some v }
    else some parts

def ofTree? : Tree → Option Input
  | .object members =>
    (members.foldlM Parts.add? ⟨none, none⟩).map fun parts => ⟨parts.values.getD [], parts.types.getD []⟩
  | .array [] => some empty
  | .array [values] => (valuesOf? values).map fun v => ⟨v, []⟩
  | .array [values, types] => do
    let v ← valuesOf? values
    let t ← typesOf? types
    pure ⟨v, t⟩
  | _ => none

/-- The input a document holds. -/
def ofText? (s : Text) : Option Input := (Tree.ofText? s).bind ofTree?

end Input

end ExportQuery.Filter
