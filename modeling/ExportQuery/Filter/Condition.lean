/-
  ExportQuery.Filter.Condition — SQL conditions for filter values.

  A field yields conditions when its value is filled in and a projection bears its name. Texts
  go into literals as they are. Arrays become IN lists, other scalars equalities; free text is
  matched by LIKE, checkboxes by the options checked, dates by their two ends, and paths of
  JSON columns by JSON_CONTAINS. The first value that cannot be written refuses the whole
  input. The exclusion of deleted rows comes last and needs the alias of the outer table.
-/

import ExportQuery.Filter.Input
import ExportQuery.Json.Printer
import ExportQuery.Sql.Keyword

namespace ExportQuery.Filter

open ExportQuery.Text ExportQuery.Json ExportQuery.Sql

inductive FilterError where
  | unsupportedValue (field : Text) (value : Value)
  | missingAlias
  deriving Repr

def FilterError.message : FilterError → Text
  | .unsupportedValue field value =>
    "Unsupported value for filter '".toList ++ field ++ "': expected a scalar, got ".toList ++ value.text
  | .missingAlias => "Deletion exclusion requested but the query has no table alias".toList

/-! ## Pieces of conditions -/

/-- A scalar as the text of a literal. -/
def scalarText (field : Text) : Value → Except FilterError Text
  | .string s => .ok s
  | .number n => .ok n.text
  | .bool b => .ok (if b then ['1'] else ['0'])
  | .null => .ok []
  | v => .error (.unsupportedValue field v)

def literal (s : Text) : Text := '\'' :: s ++ ['\'']

/-- `column IN (…)`; nothing for an empty list. -/
def inList (column : Text) (items : List Text) : List Text :=
  if items.isEmpty then []
  else [column ++ " IN (".toList ++ join ", ".toList (items.map literal) ++ [')']]

/-- An end of a date range, when it is filled in. -/
def bound? (key : Text) (range : List (Text × Value)) : Option Text :=
  match get? key range with
  | some (.string s) => if (trim s).isEmpty then none else some (trim s)
  | _ => none

/-- The date that the page writes as `2025/06/01`. -/
def pageDate (s : Text) : Text := "STR_TO_DATE(".toList ++ literal s ++ ", '%Y/%m/%d')".toList

/-- The condition of a date range; nothing unless both ends are filled in. -/
def dateRange (column : Text) (range : List (Text × Value)) : List Text :=
  match bound? "start_date".toList range, bound? "end_date".toList range with
  | some first, some last =>
    let date := "DATE(".toList ++ column ++ [')']
    if first = last then [date ++ " = ".toList ++ pageDate first]
    else [date ++ " BETWEEN ".toList ++ pageDate first ++ " AND ".toList ++ pageDate last]
  | _, _ => []

/-- `JSON_CONTAINS` of a text at a path. -/
def contains (column item path : Text) : Text :=
  "JSON_CONTAINS(".toList ++ column ++ ", '\"".toList ++ item ++ "\"', '".toList ++ path ++ "')".toList

def isNull : Value → Bool
  | .null => true
  | _ => false

/-- The texts looked for at one path: a scalar, or the items of an array. -/
def pathItems (field : Text) : Value → Except FilterError (List Text)
  | .null => .ok []
  | .array items => (items.filter (!isNull ·)).mapM (scalarText field)
  | v => (scalarText field v).map ([·])

/-- The conditions of one path of a JSON column. -/
def pathConditions (field column : Text) (path : Text × Value) : Except FilterError (List Text) :=
  (pathItems field path.2).map fun items => items.map fun item => contains column item ("$.".toList ++ path.1)

/-! ## Conditions of fields -/

def arrayConditions (field column : Text) (items : List Value) : Except FilterError (List Text) :=
  (items.mapM (scalarText field)).map (inList column)

def equality (field column : Text) (v : Value) : Except FilterError (List Text) :=
  (scalarText field v).map fun s => [column ++ " = ".toList ++ literal s]

/-- The conditions of a field with the value given. -/
def fieldConditions (field column : Text) : FieldType → Value → Except FilterError (List Text)
  | .date, .object range => .ok (dateRange column range)
  | .freeText, .string s => .ok (if (trim s).isEmpty then [] else [column ++ " LIKE '%".toList ++ s ++ "%'".toList])
  | .json, .object paths => (paths.mapM (pathConditions field column)).map List.flatten
  | .json, .string s => .ok [contains column s ['$']]
  | .checkbox, .object options => .ok (inList column ((options.filter (·.2.isFilled)).map (·.1)))
  | _, .array items => arrayConditions field column items
  | _, v => equality field column v

/-- The conditions of a member of the input; none when it is empty or names no column. -/
def memberConditions (columns : List (Text × Text)) (input : Input) (member : Text × Value) :
    Except FilterError (List Text) :=
  if member.2.isFilled then
    match get? member.1 columns with
    | some column => fieldConditions member.1 column (input.typeOf member.1) member.2
    | none => .ok []
  else .ok []

/-! ## Exclusion of deleted rows -/

/-- Whether a flag is TRUE in any case. -/
def isTrue (flag : Text) : Bool := sameAscii (trim flag) "TRUE".toList

def exclusion (alias? : Option Text) : Except FilterError (List Text) :=
  match alias? with
  | some table => .ok [table ++ ".deleted_at IS NULL".toList]
  | none => .error .missingAlias

/-- All conditions of the input, in the order of its values. -/
def conditions (columns : List (Text × Text)) (input : Input) (deletionFlag : Text) (skipDeletion : Bool)
    (alias? : Option Text) : Except FilterError (List Text) := do
  let fields ← input.values.mapM (memberConditions columns input)
  let deletion ← if !skipDeletion && isTrue deletionFlag then exclusion alias? else .ok []
  pure (fields.flatten ++ deletion)

end ExportQuery.Filter
