/-
  ExportQuery.Assembly — from a template to the query of one export.

  Two passes edit the text one after the other, each on the query without its semicolon: the
  first merges the period condition, the second the filter conditions and the exclusion of
  deleted rows. A pass swaps sub-queries for tokens, cuts the GROUP BY clause off, merges, and
  puts clause and sub-queries back. Templates of the master category get no conditions.

  An assembly is refused for one of three reasons. Merging can also run out of indices for its
  tokens, which ends the program.

  - `assemble_master`: of the master category, any request gives the bare template.
  - `Failure.message` words the reasons to refuse.
-/

import ExportQuery.Filter.Condition
import ExportQuery.Period.Criterion
import ExportQuery.Period.Window
import ExportQuery.Sql.GroupBy
import ExportQuery.Sql.Projection
import ExportQuery.Sql.TableAlias
import ExportQuery.Sql.Where

namespace ExportQuery

open ExportQuery.Text ExportQuery.Sql ExportQuery.Period ExportQuery.Filter ExportQuery.Calendar

namespace Assembly

inductive Failure where
  | invalidCriterion (label : Text)
  | missingTableAlias (criterion : Criterion)
  | filter (error : FilterError)
  deriving Repr

def Failure.message : Failure → Text
  | .invalidCriterion label => "Invalid period criterion: ".toList ++ label
  | .missingTableAlias criterion =>
    "No table alias found for period criterion '".toList ++ criterion.label ++ ['\'']
  | .filter error => "Filter error: ".toList ++ error.message

/-- What ends an assembly without a query. -/
inductive Halt where
  | refused (failure : Failure)
  | overflow (cause : Overflow)
  deriving Repr

structure Options where
  /-- The category that gets no conditions. -/
  masterCategory : Text
  /-- The alias of the table of submissions where the query shows none. -/
  submissionFallback : Text
  deriving DecidableEq, Repr

def Options.default : Options := ⟨"マスタ".toList, "ua".toList⟩

/-- What an assembly needs besides the template. -/
structure Request where
  periodCondition : Text
  periodCriterion : Text
  deletionFlag : Text
  skipDeletion : Bool
  category : Text
  filters : Input
  deriving Repr

/-- No conditions at all. -/
def Request.empty : Request := ⟨[], [], [], false, [], .empty⟩

end Assembly

open Assembly

/-- A reference date and options: what all queries of a run share. -/
structure Assembler where
  today : Date
  options : Options
  deriving Repr

namespace Assembler

def isMaster (a : Assembler) (category : Text) : Bool := trim category == a.options.masterCategory

/-! ## Passes -/

/-- The outer query of a pass: the text before the GROUP BY clause, with tokens for its
    sub-queries; the clause; and the sub-queries. -/
structure Outer where
  head : Text
  groupBy : Text
  bodies : List Text
  deriving Repr

def Outer.of (s : Text) : Outer :=
  let (text, bodies) := extractRegions s
  let (head, groupBy) := extractGroupBy text
  ⟨head, groupBy, bodies⟩

/-- The query with `head` in place of its own, semicolon included. -/
def Outer.close (o : Outer) (head : Text) : Text := restoreRegions (restoreGroupBy head o.groupBy) o.bodies ++ [';']

/-- The query with the conditions merged. -/
def Outer.merge (o : Outer) (conditions : List Text) : Except Halt Text :=
  ((mergeWhere o.head conditions).map o.close).mapError .overflow

/-- The SQL of a period condition; empty when the condition selects no window of days. -/
def periodSql (a : Assembler) (s : Text) (outer : Outer) (condition : Text) (criterion : Criterion) :
    Except Failure Text :=
  match criterion.aliasSource with
  | .outerTable =>
    match outerAlias? outer.head with
    | none => .error (.missingTableAlias criterion)
    | some table =>
      .ok (if criterion = .login && readsUsers s then Period.loginCondition a.today condition table
        else columnCondition a.today condition criterion.column table)
  | .submissions =>
    .ok (columnCondition a.today condition criterion.column ((submissionAlias? s).getD a.options.submissionFallback))

/-- Merges the period condition. -/
def periodPass (a : Assembler) (template condition label category : Text) : Except Halt Text :=
  let s := bare template
  if a.isMaster category || (trim condition).isEmpty then .ok (s ++ [';'])
  else
    match Criterion.ofLabel? label with
    | none => .error (.refused (.invalidCriterion (trim label)))
    | some criterion =>
      let outer := Outer.of s
      match a.periodSql s outer condition criterion with
      | .error f => .error (.refused f)
      | .ok sql => if sql.isEmpty then .ok (outer.close outer.head) else outer.merge [sql]

/-- Merges the filter conditions and the exclusion of deleted rows. -/
def filterPass (a : Assembler) (template : Text) (filters : Input) (deletionFlag category : Text)
    (skipDeletion : Bool) : Except Halt Text :=
  let s := bare template
  if a.isMaster category then .ok (s ++ [';'])
  else
    let outer := Outer.of s
    match conditions (columns outer.head) filters deletionFlag skipDeletion (outerAlias? outer.head) with
    | .error e => .error (.refused (.filter e))
    | .ok cs => outer.merge cs

/-- Both passes, the period first. -/
def assemble (a : Assembler) (template : Text) (r : Request) : Except Halt Text :=
  match a.periodPass template r.periodCondition r.periodCriterion r.category with
  | .error e => .error e
  | .ok s => a.filterPass s r.filters r.deletionFlag r.category r.skipDeletion

/-! ## Passes without conditions -/

theorem periodPass_master {a : Assembler} {category : Text} (h : a.isMaster category = true)
    (template condition label : Text) : a.periodPass template condition label category = .ok (bare template ++ [';']) := by
  simp [periodPass, h]

theorem periodPass_blank {a : Assembler} {condition : Text} (h : trim condition = []) (template label category : Text) :
    a.periodPass template condition label category = .ok (bare template ++ [';']) := by
  simp [periodPass, h]

theorem filterPass_master {a : Assembler} {category : Text} (h : a.isMaster category = true) (template : Text)
    (filters : Input) (flag : Text) (skip : Bool) :
    a.filterPass template filters flag category skip = .ok (bare template ++ [';']) := by
  simp [filterPass, h]

theorem assemble_master {a : Assembler} {r : Request} (h : a.isMaster r.category = true) (template : Text) :
    a.assemble template r = .ok (bare (bare template ++ [';']) ++ [';']) := by
  simp [assemble, periodPass_master h, filterPass_master h]

end Assembler

end ExportQuery
