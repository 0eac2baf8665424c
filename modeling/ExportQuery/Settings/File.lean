/-
  ExportQuery.Settings.File — the settings of a program run.

  Settings are read from a TOML document with the records `assemble`, `templates`, `batch`
  and `logging`; what is missing has its default. The document is the file that the variable
  DATAEXPORT_CONFIG names, else `dataexport.toml` in the working directory, else
  `dataexport/config.toml` in the user's directory of configurations; without any of them
  all settings have their defaults.
-/

import ExportQuery.Assembly
import ExportQuery.Files.Disk
import ExportQuery.Files.Path
import ExportQuery.Settings.Environment
import ExportQuery.Toml.Document
import ExportQuery.Toml.Record

namespace ExportQuery

open ExportQuery.Text ExportQuery.Files ExportQuery.Toml

structure Settings where
  options : Assembly.Options
  /-- The directory of templates, with references to variables. -/
  templatesDir : Text
  templatesExtension : Text
  /-- Milliseconds between two rows. -/
  rowDelay : Nat
  testMode : Bool
  logLevel : Text
  /-- The directory of logs, with references to variables. -/
  logDir : Option Text
  deriving DecidableEq, Repr

namespace Settings

def default : Settings := ⟨.default, "./sql".toList, "sql".toList, 0, false, "info".toList, none⟩

inductive SettingsError where
  | notFound (path : Text)
  | unreadable (error : FileError)
  /-- The document holds no settings. -/
  | malformed
  | missingVariable (name : Text)
  deriving DecidableEq, Repr

def SettingsError.message : SettingsError → Text
  | .notFound path => "Config file not found: ".toList ++ path
  | .unreadable e => "Failed to read config file: ".toList ++ e.message
  | .malformed => "Failed to parse config file: not settings".toList
  | .missingVariable name => "Missing environment variable: ".toList ++ name

/-! ## Documents -/

/-- The fields of a record of the document. -/
def record? (names : List Text) (name : Text) (document : Fields) : Option Fields :=
  field? (fields? names) name [] document

def ofText? (s : Text) : Option Settings := do
  let document ← fields? ["assemble".toList, "templates".toList, "batch".toList, "logging".toList] (← document? s)
  let assemble ← record? ["master_category".toList, "submission_alias_fallback".toList] "assemble".toList document
  let templates ← record? ["dir".toList, "extension".toList] "templates".toList document
  let batch ← record? ["row_delay_ms".toList, "test_mode".toList] "batch".toList document
  let logging ← record? ["level".toList, "dir".toList] "logging".toList document
  let masterCategory ← field? asText? "master_category".toList default.options.masterCategory assemble
  let fallback ← field? asText? "submission_alias_fallback".toList default.options.submissionFallback assemble
  let dir ← field? asText? "dir".toList default.templatesDir templates
  let extension ← field? asText? "extension".toList default.templatesExtension templates
  let rowDelay ← field? asWord? "row_delay_ms".toList default.rowDelay batch
  let testMode ← field? asBool? "test_mode".toList default.testMode batch
  let level ← field? asText? "level".toList default.logLevel logging
  let logDir ← field? (fun v => (asText? v).map some) "dir".toList default.logDir logging
  pure ⟨⟨masterCategory, fallback⟩, dir, extension, rowDelay, testMode, level, logDir⟩

/-! ## Files -/

variable {m : Type → Type} [Monad m]

/-- The settings in a file. -/
def load (disk : Disk m) (path : Text) : m (Except SettingsError Settings) := do
  if ← disk.holds path then
    match ← disk.readText path with
    | .error e => pure (.error (.unreadable e))
    | .ok s =>
      match ofText? s with
      | none => pure (.error .malformed)
      | some settings => pure (.ok settings)
  else pure (.error (.notFound path))

/-- Finds the value of an environment variable. -/
abbrev Lookup (m : Type → Type) := Text → m (Option Text)

/-- The user's directory of configurations: the one that XDG_CONFIG_HOME names from the root, else
    `.config` in the home directory. -/
def userDir? (lookup : Lookup m) : m (Option Text) := do
  match (← lookup "XDG_CONFIG_HOME".toList).filter isAbsolute with
  | some dir => pure (some dir)
  | none =>
    match (← lookup "HOME".toList).filter (!·.isEmpty) with
    | some home => pure (some (within home ".config".toList))
    | none => pure none

/-- The settings of the first file there is. -/
def find (disk : Disk m) (lookup : Lookup m) : m (Except SettingsError Settings) := do
  match ← lookup "DATAEXPORT_CONFIG".toList with
  | some path => load disk path
  | none =>
    let inWork := "dataexport.toml".toList
    if ← disk.holds inWork then load disk inWork
    else
      match ← userDir? lookup with
      | none => pure (.ok default)
      | some dir =>
        let ofUser := within (within dir "dataexport".toList) "config.toml".toList
        if ← disk.holds ofUser then load disk ofUser else pure (.ok default)

/-! ## Directories -/

/-- A text with the values of its variables. -/
def resolve (lookup : Lookup m) (s : Text) : m (Except SettingsError Text) := do
  let values ← (references s).mapM fun name => do pure (name, ← lookup name)
  match expand (fun name => (Json.get? name values).join) s with
  | .ok t => pure (.ok t)
  | .error name => pure (.error (.missingVariable name))

end Settings

end ExportQuery
