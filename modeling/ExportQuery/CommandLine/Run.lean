/-
  ExportQuery.CommandLine.Run — the program: one query, or the queries of a catalog.

  `render` prints the query of a template. `plan` prints the query of each row of a catalog
  under a comment that tells where it goes, then reports the rows that failed and the counts. Queries go to
  standard output, all else to standard error. The status is 0 when every query was printed, 1
  when one was not, 2 when the arguments are wrong, and that of a panic after an overflow.
-/

import ExportQuery.Catalog.Batch
import ExportQuery.CommandLine.Arguments
import ExportQuery.Settings.File

namespace ExportQuery.CommandLine

open ExportQuery.Text ExportQuery.Calendar ExportQuery.Files ExportQuery.Catalog ExportQuery.Filter

/-- What the program runs on. -/
structure Host (m : Type → Type) where
  disk : Disk m
  /-- The value of an environment variable. -/
  lookup : Settings.Lookup m
  today : m Date
  /-- Waits for some milliseconds. -/
  wait : Nat → m Unit
  say : Text → m Unit
  warn : Text → m Unit

/-! ## Texts -/

def versionText : Text := "dataexport 0.1.0\n".toList

def usageText : Text :=
  ("Usage: dataexport [--config <file>] [--today <date>] <command>\n\n" ++
    "Commands:\n" ++
    "  render <template> [-p <period>] [-c <criteria>] [-d <deletion exclusion>] [--category <category>] [-f <filters>]\n" ++
    "  plan <catalog> [-t <templates>] [--test-mode]\n").toList

/-- The comment above a query of a catalog. -/
def routing (row : Row) : Text :=
  "-- ".toList ++ row.sqlFileName ++ " -> ".toList ++ row.csvFileName ++ " (".toList ++ row.outputTarget ++ ")\n".toList

def failureLine : Outcome → Text
  | .failed name reason => "✗ ".toList ++ name ++ ": ".toList ++ reason ++ ['\n']
  | _ => []

def countLine (outcomes : List Outcome) : Text :=
  decimal (outcomes.countP Outcome.isAssembled) ++ " assembled, ".toList ++
    decimal (outcomes.countP Outcome.isFailed) ++ " failed, ".toList ++
    decimal (outcomes.countP Outcome.isSkipped) ++ " skipped\n".toList

/-! ## Tasks -/

/-- The status of a program that panicked. What it says about that is not modelled. -/
def panicStatus : Nat := 101

variable {m : Type → Type} [Monad m]

/-- Reports why nothing is printed. -/
def Host.fail (host : Host m) (what why : Text) : m Nat := do
  host.warn (what ++ ": ".toList ++ why ++ ['\n'])
  pure 1

/-- The filters of a file, or why they cannot be had. -/
def readFilters (disk : Disk m) (path : Text) : m (Except Text Input) := do
  match ← disk.readText path with
  | .error e => pure (.error e.message)
  | .ok s =>
    match Input.ofText? s with
    | none => pure (.error "not a filter document".toList)
    | some input => pure (.ok input)

def quoted (s : Text) : Text := '\'' :: s ++ ['\'']

def Render.request (r : Render) (filters : Input) : Assembly.Request :=
  ⟨r.period, r.criterion, r.deletion, false, r.category, filters⟩

def Render.run (r : Render) (host : Host m) (a : Assembler) : m Nat := do
  match ← host.disk.readText r.template with
  | .error e => host.fail ("Error reading template ".toList ++ quoted r.template) e.message
  | .ok template =>
    let filters : Except (Text × Text) Input ← match r.filters with
      | none => pure (.ok .empty)
      | some path => do pure ((← readFilters host.disk path).mapError fun why => (path, why))
    match filters with
    | .error (path, why) => host.fail ("Error reading filters ".toList ++ quoted path) why
    | .ok filters =>
      match a.assemble template (r.request filters) with
      | .error (.refused f) => host.fail "Assembly failed".toList f.message
      | .error (.overflow _) => pure panicStatus
      | .ok sql => do
        host.say (sql ++ ['\n'])
        pure 0

/-- Prints the queries it takes. -/
def Host.sink (host : Host m) : Sink m := fun row sql => do
  host.say (routing row ++ sql ++ "\n\n".toList)
  pure (.ok ())

/-- The directory of templates: the one asked for, else that of the settings. -/
def Plan.templatesDir (p : Plan) (host : Host m) (settings : Settings) : m (Except Settings.SettingsError Text) :=
  match p.templates with
  | some dir => pure (.ok dir)
  | none => Settings.resolve host.lookup settings.templatesDir

def Plan.run (p : Plan) (host : Host m) (a : Assembler) (settings : Settings) : m Nat := do
  match ← Catalog.load host.disk p.catalog with
  | .error e => host.fail "Error loading catalog".toList e.message
  | .ok rows =>
    match ← p.templatesDir host settings with
    | .error e => host.fail "Error resolving template dir".toList e.message
    | .ok dir =>
      let batch : Batch m := ⟨a, settings.testMode || p.testMode, host.wait settings.rowDelay⟩
      match ← batch.run (Source.directory host.disk dir settings.templatesExtension) host.sink rows |>.run with
      | .error _ => pure panicStatus
      | .ok outcomes =>
        host.warn ((outcomes.map failureLine).flatten ++ countLine outcomes)
        pure (if outcomes.any Outcome.isFailed then 1 else 0)

/-! ## Runs -/

/-- Tells when the directory of logs has no name for lack of a variable. -/
def checkLogDir (host : Host m) (settings : Settings) : m Unit :=
  match settings.logDir with
  | none => pure ()
  | some dir => do
    match ← Settings.resolve host.lookup dir with
    | .ok _ => pure ()
    | .error e => host.warn ("log dir not usable (".toList ++ e.message ++ "); logging to stderr\n".toList)

def Invocation.run (i : Invocation) (host : Host m) : m Nat := do
  let settings ← match i.config with
    | some path => Settings.load host.disk path
    | none => Settings.find host.disk host.lookup
  match settings with
  | .error e => host.fail "Error loading settings".toList e.message
  | .ok settings =>
    checkLogDir host settings
    let today ← match i.today with
      | some today => pure today
      | none => host.today
    let a : Assembler := ⟨today, settings.options⟩
    match i.task with
    | .render r => r.run host a
    | .plan p => p.run host a settings

/-- Says what a run that is not asked for says instead. -/
def Stop.run (host : Host m) : Stop → m Nat
  | .help => do
    host.say usageText
    pure 0
  | .version => do
    host.say versionText
    pure 0
  | .usage => do
    host.warn usageText
    pure 2

/-- Runs the program and returns its exit status. -/
def run (host : Host m) (args : List Text) : m Nat :=
  match read args with
  | .error stop => stop.run host
  | .ok i => i.run host

end ExportQuery.CommandLine
