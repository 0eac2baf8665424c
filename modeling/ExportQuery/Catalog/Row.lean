/-
  ExportQuery.Catalog.Row — the rows of an export catalog.

  A row names the template of one export and says how it is to be conditioned; the other
  columns tell where the result goes. Rows flagged TRUE, in any case and between blanks,
  take part in test runs. A row without a template of its own exports its main table.
-/

import ExportQuery.Assembly

namespace ExportQuery.Catalog

open ExportQuery.Text ExportQuery.Sql ExportQuery.Filter

structure Row where
  sqlFileName : Text
  csvFileName : Text
  periodCondition : Text
  periodCriterion : Text
  savePathId : Text
  /-- CSV, Parquet or the tab of a spreadsheet. -/
  outputTarget : Text
  deletionFlag : Text
  pasteFormat : Text
  testFlag : Text
  category : Text
  mainTable : Text
  csvNameColumn : Text
  sheetName : Text
  deriving DecidableEq, Repr

namespace Row

def columns : List Text :=
  ["sql_file_name".toList, "csv_file_name".toList, "period_condition".toList, "period_criteria".toList,
    "save_path_id".toList, "output_target".toList, "deletion_exclusion".toList, "paste_format".toList,
    "test_execution".toList, "category".toList, "main_table_name".toList, "csv_file_name_column".toList,
    "sheet_name".toList]

/-- The cells, in the order of the columns. -/
def cells (row : Row) : List Text :=
  [row.sqlFileName, row.csvFileName, row.periodCondition, row.periodCriterion, row.savePathId, row.outputTarget,
    row.deletionFlag, row.pasteFormat, row.testFlag, row.category, row.mainTable, row.csvNameColumn, row.sheetName]

/-- The row with the given cells; none if there are not as many as columns. -/
def ofCells? : List Text → Option Row
  | [a, b, c, d, e, f, g, h, i, j, k, l, m] => some ⟨a, b, c, d, e, f, g, h, i, j, k, l, m⟩
  | _ => none

def isTest (row : Row) : Bool := isTrue row.testFlag

def request (row : Row) : Assembly.Request :=
  ⟨row.periodCondition, row.periodCriterion, row.deletionFlag, false, row.category, .empty⟩

/-- The query of the whole main table. -/
def fallback (row : Row) : Text := "SELECT *\n".toList ++ fromMarker ++ "\nFROM ".toList ++ row.mainTable

end Row

end ExportQuery.Catalog
