import ExportQuery.Assembly
import ExportQuery.Calendar.Date
import ExportQuery.Calendar.Reading
import ExportQuery.Catalog.Batch
import ExportQuery.Catalog.Row
import ExportQuery.Catalog.Sheet
import ExportQuery.Catalog.Source
import ExportQuery.CommandLine.Arguments
import ExportQuery.CommandLine.Run
import ExportQuery.Decimal.Double
import ExportQuery.Decimal.Literal
import ExportQuery.Decimal.Shortest
import ExportQuery.Files.Disk
import ExportQuery.Files.Path
import ExportQuery.Files.Tree
import ExportQuery.Filter.Condition
import ExportQuery.Filter.Input
import ExportQuery.Json.Number
import ExportQuery.Json.Printer
import ExportQuery.Json.Token
import ExportQuery.Json.Tree
import ExportQuery.Json.Value
import ExportQuery.Main
import ExportQuery.Period.Criterion
import ExportQuery.Period.Expr
import ExportQuery.Period.Window
import ExportQuery.Settings.Environment
import ExportQuery.Settings.File
import ExportQuery.Sql.GroupBy
import ExportQuery.Sql.Keyword
import ExportQuery.Sql.Projection
import ExportQuery.Sql.Region
import ExportQuery.Sql.TableAlias
import ExportQuery.Sql.Template
import ExportQuery.Sql.Where
import ExportQuery.Text.Blank
import ExportQuery.Text.Numeral
import ExportQuery.Text.Search
import ExportQuery.Text.Word
import ExportQuery.Toml.Document
import ExportQuery.Toml.Quoted
import ExportQuery.Toml.Record
import ExportQuery.Toml.Scalar
import ExportQuery.Toml.Value
import ExportQuery.Proofs.WrittenDate
import ExportQuery.Proofs.Occurrence
import ExportQuery.Proofs.Token
import ExportQuery.Proofs.Division
import ExportQuery.Proofs.Edit
import ExportQuery.Proofs.Placement
import ExportQuery.Proofs.Merge
import ExportQuery.Proofs.FinalSemicolon
import ExportQuery.Proofs.Marker
import ExportQuery.Proofs.Clauses
import ExportQuery.Proofs.Predicate
import ExportQuery.Proofs.Alias
import ExportQuery.Proofs.Remerge
import ExportQuery.Proofs.Grouping
import ExportQuery.Proofs.Query
import ExportQuery.Proofs.TwoPasses
import ExportQuery.Proofs.MergeTwice
import ExportQuery.Proofs.View
import ExportQuery.Proofs.Layers
import ExportQuery.Proofs.Frame
import ExportQuery.Proofs.FixedPoint
import ExportQuery.Proofs.Condition
import ExportQuery.Proofs.Restored
import ExportQuery.Proofs.Vocabulary
import ExportQuery.Proofs.Isolation
import ExportQuery.Proofs.Refusal
import ExportQuery.Proofs.DaysBack
import ExportQuery.Proofs.NoWindow
import ExportQuery.Proofs.Closing
import ExportQuery.Proofs.OuterWhere
import ExportQuery.Proofs.Waking
import ExportQuery.Proofs.Numbered
import ExportQuery.Proofs.Pairing
import ExportQuery.Proofs.Projected
import ExportQuery.Proofs.Relabel
import ExportQuery.Proofs.Remark
import ExportQuery.Proofs.WhereBody
import ExportQuery.Proofs.Unwritable
import ExportQuery.Proofs.Enquoted
import ExportQuery.Proofs.Substitution
import ExportQuery.Proofs.NamedTable
import ExportQuery.Proofs.Fallback
import ExportQuery.Proofs.DailyWindows
import ExportQuery.Proofs.Scanner
import ExportQuery.Proofs.FreshIndex
import ExportQuery.Proofs.KeptAlias
import ExportQuery.Proofs.PrintedDate
