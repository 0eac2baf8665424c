/-
  ExportQuery.CommandLine.Arguments — what the arguments of the program ask for.

  The command `render` has one operand, a template; `plan` has one, a catalog. The options
  of a command follow its name; `--config` and `--today` may stand before it as well, and
  count less there. An option is written `--name value`, `--name=value`, `-n value`, `-nvalue` or
  `-n=value`; behind `--` there are no options. An option is given once at most on either
  side of the command, a value set apart does not start with a dash, and paths are not
  empty. Arguments are read from the left, and the first that asks for help or the version,
  or breaks a rule, decides.

  - `scan_ended`: behind `--`, all arguments are operands.
-/

import ExportQuery.Calendar.Reading
import ExportQuery.Text.Search

namespace ExportQuery.CommandLine

open ExportQuery.Text ExportQuery.Calendar

/-! ## Words -/

/-- The options of a command with their letters: those with a value, and the switches. -/
structure Grammar where
  valued : List (Text × Option Char)
  switches : List (Text × Option Char)
  deriving Repr

/-- An argument as the options of a command see it. -/
inductive Word where
  | operand
  | switch (name : Text)
  /-- An option with its value. -/
  | valued (name value : Text)
  /-- An option whose value is the next argument. -/
  | waiting (name : Text)
  | unknown
  deriving DecidableEq, Repr

/-- The option with a letter. -/
def withLetter? (c : Char) (options : List (Text × Option Char)) : Option Text :=
  (options.find? (·.2 == some c)).map (·.1)

def Grammar.long (g : Grammar) (s : Text) : Word :=
  let name := s.takeWhile (· ≠ '=')
  let value := s.dropWhile (· ≠ '=')
  if g.valued.any (·.1 == name) then
    match value with
    | [] => .waiting name
    | _ :: value => .valued name value
  else if g.switches.any (·.1 == name) && value.isEmpty then .switch name
  else .unknown

def Grammar.short (g : Grammar) (c : Char) (s : Text) : Word :=
  match withLetter? c g.valued with
  | some name =>
    match s with
    | [] => .waiting name
    | '=' :: value => .valued name value
    | value => .valued name value
  | none =>
    match withLetter? c g.switches with
    | some name => .switch name
    | none => .unknown

def Grammar.word (g : Grammar) : Text → Word
  | '-' :: '-' :: s => g.long s
  | '-' :: c :: s => g.short c s
  | _ => .operand

/-- Whether an argument cannot be the value of the option before it. -/
def startsOption (s : Text) : Bool := s.head? = some '-' && s ≠ ['-']

/-! ## Requests -/

/-- Why arguments are not run as a command. -/
inductive Stop where
  | help
  | version
  | usage
  deriving DecidableEq, Repr

/-- The options that may stand on either side of the command. -/
structure Globals where
  config : Option Text
  today : Option Date
  deriving Repr

structure RenderArguments where
  template : Option Text
  period : Option Text
  criterion : Option Text
  deletion : Option Text
  category : Option Text
  filters : Option Text
  deriving Repr

structure PlanArguments where
  catalog : Option Text
  templates : Option Text
  testMode : Bool
  deriving Repr

inductive Command where
  | render (arguments : RenderArguments)
  | plan (arguments : PlanArguments)
  deriving Repr

/-- A value for what has none yet. -/
def once {α : Type} (old : Option α) (new : α) : Except Stop (Option α) :=
  if old.isSome then .error .usage else .ok (some new)

def oncePath (old : Option Text) (path : Text) : Except Stop (Option Text) :=
  if path.isEmpty then .error .usage else once old path

def Globals.set (g : Globals) (name value : Text) : Except Stop Globals :=
  if name = "config".toList then (oncePath g.config value).map fun v => { g with config := v }
  else
    match optionDate? value with
    | none => .error .usage
    | some day => (once g.today day).map fun v => { g with today := v }

def RenderArguments.set (r : RenderArguments) (name value : Text) : Except Stop RenderArguments :=
  if name = "period".toList then (once r.period value).map fun v => { r with period := v }
  else if name = "criteria".toList then (once r.criterion value).map fun v => { r with criterion := v }
  else if name = "deletion-exclusion".toList then (once r.deletion value).map fun v => { r with deletion := v }
  else if name = "category".toList then (once r.category value).map fun v => { r with category := v }
  else (oncePath r.filters value).map fun v => { r with filters := v }

/-- The arguments read so far. -/
structure Draft where
  outer : Globals
  inner : Globals
  command : Option Command
  deriving Repr

namespace Draft

def empty : Draft := ⟨⟨none, none⟩, ⟨none, none⟩, none⟩

def globalOptions : List (Text × Option Char) := [("config".toList, none), ("today".toList, none)]

def helpSwitch : Text × Option Char := ("help".toList, some 'h')

/-- The options at the place reached. -/
def grammar (d : Draft) : Grammar :=
  match d.command with
  | none => ⟨globalOptions, [helpSwitch, ("version".toList, some 'V')]⟩
  | some (.render _) =>
    ⟨[("period".toList, some 'p'), ("criteria".toList, some 'c'), ("deletion-exclusion".toList, some 'd'),
      ("category".toList, none), ("filters".toList, some 'f')] ++ globalOptions, [helpSwitch]⟩
  | some (.plan _) =>
    ⟨("templates".toList, some 't') :: globalOptions, [helpSwitch, ("test-mode".toList, none)]⟩

/-- Takes an option of the place reached with its value. -/
def set (d : Draft) (name value : Text) : Except Stop Draft :=
  if globalOptions.any (·.1 == name) then
    if d.command.isNone then (d.outer.set name value).map fun g => { d with outer := g }
    else (d.inner.set name value).map fun g => { d with inner := g }
  else
    match d.command with
    | none => .error .usage
    | some (.render r) => (r.set name value).map fun r => { d with command := some (.render r) }
    | some (.plan p) =>
      (oncePath p.templates value).map fun v => { d with command := some (.plan { p with templates := v }) }

def switch (d : Draft) (name : Text) : Except Stop Draft :=
  if name = "help".toList then .error .help
  else if name = "version".toList then .error .version
  else
    match d.command with
    | some (.plan p) =>
      if p.testMode then .error .usage else .ok { d with command := some (.plan { p with testMode := true }) }
    | _ => .error .usage

def commandOf? (name : Text) : Option Command :=
  if name = "render".toList then some (.render ⟨none, none, none, none, none, none⟩)
  else if name = "plan".toList then some (.plan ⟨none, none, false⟩)
  else none

/-- Takes an operand of the command. -/
def operand (d : Draft) (s : Text) : Except Stop Draft :=
  match d.command with
  | none => .error .usage
  | some (.render r) => (oncePath r.template s).map fun v => { d with command := some (.render { r with template := v }) }
  | some (.plan p) => (oncePath p.catalog s).map fun v => { d with command := some (.plan { p with catalog := v }) }

/-- What the command `help` with the arguments `rest` ends in. -/
def helpOn : List Text → Stop
  | [] => .help
  | [name] => if (commandOf? name).isSome || name = "help".toList then .help else .usage
  | _ => .usage

/-- Takes an operand that no `--` precedes: the name of a command, when there is none yet. -/
def nameOrOperand (d : Draft) (s : Text) (rest : List Text) : Except Stop Draft :=
  if d.command.isSome then d.operand s
  else if s = "help".toList then .error (helpOn rest)
  else
    match commandOf? s with
    | none => .error .usage
    | some command => .ok { d with command := some command }

/-- Takes all arguments; `ended` tells whether `--` precedes them. -/
def scan (ended : Bool) (d : Draft) : List Text → Except Stop Draft
  | [] => .ok d
  | s :: rest =>
    if ended then (d.operand s).bind (scan true · rest)
    else if s = ['-', '-'] then scan true d rest
    else
      match d.grammar.word s with
      | .operand => (d.nameOrOperand s rest).bind (scan false · rest)
      | .switch name => (d.switch name).bind (scan false · rest)
      | .valued name value => (d.set name value).bind (scan false · rest)
      | .waiting name =>
        match rest with
        | [] => .error .usage
        | value :: rest => if startsOption value then .error .usage else (d.set name value).bind (scan false · rest)
      | .unknown => .error .usage

theorem scan_ended (d : Draft) (args : List Text) : scan true d args = args.foldlM operand d := by
  induction args generalizing d with
  | nil => rfl
  | cons s rest ih =>
    unfold scan
    simp only [if_true, List.foldlM_cons, bind]
    cases d.operand s with
    | error e => rfl
    | ok u => exact ih u

end Draft

/-! ## Runs -/

/-- One template, and what its query is to be conditioned by. -/
structure Render where
  template : Text
  period : Text
  criterion : Text
  deletion : Text
  category : Text
  filters : Option Text
  deriving Repr

/-- One catalog. -/
structure Plan where
  catalog : Text
  templates : Option Text
  testMode : Bool
  deriving Repr

inductive Task where
  | render (r : Render)
  | plan (p : Plan)
  deriving Repr

structure Invocation where
  config : Option Text
  today : Option Date
  task : Task
  deriving Repr

def Command.task? : Command → Option Task
  | .render r => r.template.map fun template =>
    .render ⟨template, r.period.getD [], r.criterion.getD "登録日時".toList, r.deletion.getD "FALSE".toList,
      r.category.getD [], r.filters⟩
  | .plan p => p.catalog.map fun catalog => .plan ⟨catalog, p.templates, p.testMode⟩

/-- What the arguments ask for. -/
def read (args : List Text) : Except Stop Invocation :=
  match Draft.empty.scan false args with
  | .error stop => .error stop
  | .ok d =>
    match d.command.bind Command.task? with
    | none => .error .usage
    | some task => .ok ⟨d.inner.config.or d.outer.config, d.inner.today.or d.outer.today, task⟩

end ExportQuery.CommandLine
