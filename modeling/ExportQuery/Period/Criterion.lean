/-
  ExportQuery.Period.Criterion — the timestamp a period is measured against.

  A criterion names a column and the table the column belongs to: the outer table of the query
  or the table of submissions.

  - `ofLabel?_label`: a label reads back as its criterion.
-/

import ExportQuery.Text.Blank

namespace ExportQuery.Period

open ExportQuery.Text

inductive Criterion where
  | registration
  | update
  | login
  | lastSubmission
  | submissionDeadline
  deriving DecidableEq, Repr

/-- Whose alias qualifies the column of a criterion. -/
inductive AliasSource where
  | outerTable
  | submissions
  deriving DecidableEq, Repr

namespace Criterion

def all : List Criterion := [.registration, .update, .login, .lastSubmission, .submissionDeadline]

/-- The name a catalog gives the criterion. -/
def label : Criterion → Text
  | .registration => "登録日時".toList
  | .update => "更新日時".toList
  | .login => "ログイン日時".toList
  | .lastSubmission => "最終提出日時".toList
  | .submissionDeadline => "提出期限".toList

def column : Criterion → Text
  | .registration => "created_at".toList
  | .update => "updated_at".toList
  | .login => "last_login_at".toList
  | .lastSubmission => "last_submission_datetime".toList
  | .submissionDeadline => "submission_deadline".toList

def aliasSource : Criterion → AliasSource
  | .lastSubmission | .submissionDeadline => .submissions
  | _ => .outerTable

/-- The criterion of a label between blanks. -/
def ofLabel? (s : Text) : Option Criterion := all.find? fun c => c.label == trim s

theorem ofLabel?_label (c : Criterion) : ofLabel? c.label = some c := by cases c <;> decide

end Criterion

end ExportQuery.Period
