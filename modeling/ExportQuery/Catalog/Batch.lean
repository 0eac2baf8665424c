/-
  ExportQuery.Catalog.Batch — the queries of all rows of a catalog.

  The rows are taken in order. Each is skipped, fails, or has its query assembled and taken
  by the sink; a row that fails stops no other. An overflow is no failure of a row: it ends the
  run there, without outcomes. In test mode all rows but those of test runs are skipped. A row
  whose template the source does not have gets the fallback query.

  - `counts_add`: the three counts make up the number of outcomes.
  - `Row.run_deliver` / `Batch.run_cons`: what a row does, and what a run does behind it.
-/

import ExportQuery.Catalog.Source

namespace ExportQuery.Catalog

open ExportQuery.Text ExportQuery.Sql

inductive Outcome where
  | assembled (name : Text) (usedFallback : Bool)
  | skipped (name : Text)
  | failed (name reason : Text)
  deriving DecidableEq, Repr

namespace Outcome

/-- The template name of the row. -/
def name : Outcome → Text
  | .assembled name _ => name
  | .skipped name => name
  | .failed name _ => name

def isAssembled : Outcome → Bool
  | .assembled .. => true
  | _ => false

def isSkipped : Outcome → Bool
  | .skipped _ => true
  | _ => false

def isFailed : Outcome → Bool
  | .failed .. => true
  | _ => false

theorem counts_add (outcomes : List Outcome) :
    outcomes.countP isAssembled + outcomes.countP isFailed + outcomes.countP isSkipped = outcomes.length := by
  induction outcomes with
  | nil => rfl
  | cons o os ih => cases o <;> simp [List.countP_cons, isAssembled, isFailed, isSkipped] <;> omega

end Outcome

/-! ## Sinks -/

/-- Why a sink refuses a query, and under which name. -/
structure SinkError where
  name : Text
  reason : Text
  deriving DecidableEq, Repr

def SinkError.message (e : SinkError) : Text := "Sink rejected query for ".toList ++ e.name ++ ": ".toList ++ e.reason

/-- Takes the query of a row, or refuses it. -/
abbrev Sink (m : Type → Type) := Row → Text → m (Except SinkError Unit)

namespace Sink

/-- Keeps names and queries in the order they come. -/
def collecting : Sink (StateM (List (Text × Text))) := fun row sql => do
  modify (· ++ [(row.sqlFileName, sql)])
  pure (.ok ())

/-- Refuses the rows for which `refusal?` has an error, and passes the others on. -/
def guarded {m : Type → Type} [Monad m] (refusal? : Row → Option SinkError) (sink : Sink m) : Sink m := fun row sql =>
  match refusal? row with
  | some e => pure (.error e)
  | none => sink row sql

/-- Refuses the rows for which `reason?` has a reason, under their own names. -/
def refusing {m : Type → Type} [Monad m] (reason? : Row → Option Text) (sink : Sink m) : Sink m :=
  guarded (fun row => (reason? row).map (SinkError.mk row.sqlFileName)) sink

end Sink

/-! ## Rows -/

/-- What a source found for a row's name. -/
abbrev Found := Except CatalogError (Option Text)

/-- Whether the source has no template. -/
def Found.isAbsent : Found → Bool
  | .ok none => true
  | _ => false

/-- The query of a row, or why it has none. -/
def Row.query (row : Row) (a : Assembler) : Found → Except Overflow (Except Text Text)
  | .error e => .ok (.error e.message)
  | .ok template =>
    match a.assemble (template.getD row.fallback) row.request with
    | .ok sql => .ok (.ok sql)
    | .error (.refused f) => .ok (.error f.message)
    | .error (.overflow e) => .error e

variable {m : Type → Type} [Monad m]

/-- Assembles the query of a row and hands it to the sink. -/
def Row.deliver (row : Row) (a : Assembler) (source : Source m) (sink : Sink m) : ExceptT Overflow m Outcome := do
  let found ← source row.sqlFileName
  match ← row.query a found with
  | .error reason => pure (.failed row.sqlFileName reason)
  | .ok sql =>
    match ← sink row sql with
    | .ok () => pure (.assembled row.sqlFileName (Found.isAbsent found))
    | .error e => pure (.failed row.sqlFileName e.message)

/-- How a batch is run, apart from what it reads and writes. -/
structure Batch (m : Type → Type) where
  assembler : Assembler
  testMode : Bool
  /-- What is done between two rows. -/
  pause : m Unit

namespace Batch

def outcome (b : Batch m) (source : Source m) (sink : Sink m) (row : Row) : ExceptT Overflow m Outcome :=
  if b.testMode && !row.isTest then pure (.skipped row.sqlFileName) else row.deliver b.assembler source sink

/-- The outcomes of the rows, in order. -/
def run (b : Batch m) (source : Source m) (sink : Sink m) : List Row → ExceptT Overflow m (List Outcome)
  | [] => pure []
  | row :: rows => do
    let o ← b.outcome source sink row
    if !rows.isEmpty then b.pause
    let os ← run b source sink rows
    pure (o :: os)

end Batch

/-! ## Runs with a state -/

section

variable {ε σ α β : Type}

theorem run_bind (x : ExceptT ε (StateM σ) α) (f : α → ExceptT ε (StateM σ) β) (s : σ) :
    (x >>= f).run s =
      match x.run s with
      | (.ok a, s') => (f a).run s'
      | (.error e, s') => (.error e, s') := by
  show (match x.run s with | (r, s') => (ExceptT.bindCont f r) s') = _
  rcases x.run s with ⟨e | a, s'⟩
  · rfl
  · rfl

theorem run_bind_lift (x : StateM σ α) (f : α → ExceptT ε (StateM σ) β) (s : σ) :
    (do let a ← x; f a : ExceptT ε (StateM σ) β).run s = (f (x s).1).run (x s).2 := rfl

theorem run_bind_except (x : Except ε α) (f : α → ExceptT ε (StateM σ) β) (s : σ) :
    (do let a ← x; f a : ExceptT ε (StateM σ) β).run s =
      match x with
      | .ok a => (f a).run s
      | .error e => (.error e, s) := by
  cases x with
  | ok a => rfl
  | error e => rfl

/-- What a row does, where source and sink have a state. -/
theorem Row.run_deliver (row : Row) (a : Assembler) (source : Source (StateM σ)) (sink : Sink (StateM σ)) (s : σ) :
    (row.deliver a source sink).run s =
      match row.query a (source row.sqlFileName s).1 with
      | .error e => (.error e, (source row.sqlFileName s).2)
      | .ok (.error reason) => (.ok (.failed row.sqlFileName reason), (source row.sqlFileName s).2)
      | .ok (.ok sql) =>
        match sink row sql (source row.sqlFileName s).2 with
        | (.ok (), s') => (.ok (.assembled row.sqlFileName (Found.isAbsent (source row.sqlFileName s).1)), s')
        | (.error e, s') => (.ok (.failed row.sqlFileName e.message), s') := by
  rw [Row.deliver, run_bind_lift, run_bind_except]
  rcases row.query a (source row.sqlFileName s).1 with e | ⟨reason | sql⟩
  · rfl
  · rfl
  · dsimp only
    rw [run_bind_lift]
    rcases sink row sql (source row.sqlFileName s).2 with ⟨e | u, s'⟩
    · rfl
    · rfl

/-- Behind a row that does not overflow, a run pauses unless that was the last row. -/
theorem Batch.run_cons (b : Batch (StateM σ)) (source : Source (StateM σ)) (sink : Sink (StateM σ)) (row : Row)
    (rows : List Row) (s : σ) :
    (b.run source sink (row :: rows)).run s =
      match (b.outcome source sink row).run s with
      | (.error e, s') => (.error e, s')
      | (.ok o, s') =>
        let r := (b.run source sink rows).run (if rows.isEmpty then s' else (b.pause s').2)
        (r.1.map (o :: ·), r.2) := by
  have more : ∀ (o : Outcome) (s' : σ),
      (do let os ← b.run source sink rows; pure (o :: os) : ExceptT Overflow (StateM σ) (List Outcome)).run s' =
        (((b.run source sink rows).run s').1.map (o :: ·), ((b.run source sink rows).run s').2) := by
    intro o s'
    rw [run_bind]
    rcases (b.run source sink rows).run s' with ⟨e | os, s''⟩
    · rfl
    · rfl
  rw [Batch.run, run_bind]
  rcases (b.outcome source sink row).run s with ⟨e | o, s'⟩
  · rfl
  · cases rows with
    | nil => exact more o s'
    | cons next rows => exact more o (b.pause s').2

end

end ExportQuery.Catalog
