/-
  ExportQuery.Proofs.Isolation — the rows of a batch do not touch each other.

  A row is left out, comes to no query, hands one query to the sink, or overflows, and which of
  these it is depends on the row alone. So the state of the sink goes from row to row, and only
  such a query changes it; the first row that overflows ends the run, without outcomes. The
  source answers alike whenever it is asked; a sink is any transformer of its state, and waiting
  between two rows changes only the rest of the world.

  - `Steady.outcome_of_none` / `Steady.outcome_of_some`: what one row does.
  - `Steady.run_append` / `Steady.run_breaks`: a run over two lists of rows is two runs, and one
    that is broken stops there.
  - `Steady.run_waiting` / `Steady.run_logged`: the pauses of a run, and the calls of its sink.
  - `Steady.run_guarded`: what a sink that collects holds in the end.
  - `Steady.run_isolated`: all of it, for every batch and every sink.
-/

import Mathlib.Logic.Function.Iterate
import Mathlib.Tactic.Common
import ExportQuery.Catalog.Batch

namespace ExportQuery.Catalog

open ExportQuery.Text ExportQuery.Sql ExportQuery.Assembly

/-! ## Sinks with more beside their state -/

namespace Sink

variable {σ τ : Type}

/-- The sink with the rest of the world beside its state. -/
def beside (sink : Sink (StateM σ)) : Sink (StateM (σ × τ)) := fun row sql s =>
  ((sink row sql s.1).1, (sink row sql s.1).2, s.2)

/-- The sink with the calls it got. -/
def logged (sink : Sink (StateM σ)) : Sink (StateM (σ × List (Row × Text))) := fun row sql s =>
  ((sink row sql s.1).1, (sink row sql s.1).2, s.2 ++ [(row, sql)])

end Sink

/-! ## Runs -/

/-- A batch whose source answers alike whenever it is asked. -/
structure Steady where
  assembler : Assembler
  testMode : Bool
  find : Text → Found

namespace Steady

variable {σ τ : Type} (x : Steady)

/-- Whether the row takes part in the run. -/
def Selects (row : Row) : Prop := x.testMode = true → row.isTest = true

instance (row : Row) : Decidable (x.Selects row) := by unfold Selects; exact inferInstance

def source {m : Type → Type} [Monad m] : Source m := fun name => pure (x.find name)

/-- The batch with `pause` between two rows. -/
def batch {m : Type → Type} (pause : m Unit) : Batch m := ⟨x.assembler, x.testMode, pause⟩

/-- The outcomes of a run, unless it overflows, and the state it leaves the sink in, from the
    state `s` on. -/
def run (sink : Sink (StateM σ)) (rows : List Row) (s : σ) : Except Overflow (List Outcome) × σ :=
  ((x.batch (pure ())).run x.source sink rows).run s

/-- The run of one row. -/
def outcome (sink : Sink (StateM σ)) (row : Row) (s : σ) : Except Overflow Outcome × σ :=
  ((x.batch (pure ())).outcome x.source sink row).run s

/-- The same run with pauses, each of which changes the rest of the world by `wait`. -/
def runWaiting (wait : τ → τ) (sink : Sink (StateM σ)) (rows : List Row) (s : σ × τ) :
    Except Overflow (List Outcome) × σ × τ :=
  ((x.batch (fun s => ((), s.1, wait s.2))).run x.source sink.beside rows).run s

/-- The query that a row hands to the sink, if it comes to that: the one of its own template, or
    of its fallback where the source has none. -/
def query? (row : Row) : Option Text :=
  if x.Selects row then
    match x.find row.sqlFileName with
    | .error _ => none
    | .ok template => (x.assembler.assemble (template.getD row.fallback) row.request).toOption
  else none

/-- The row overflows. -/
def Breaks (row : Row) : Prop := x.Selects row ∧ row.query x.assembler (x.find row.sqlFileName) = .error .index

instance (row : Row) : Decidable (x.Breaks row) := inferInstanceAs (Decidable (_ ∧ _))

/-- The rows ahead of the first one that overflows. -/
def reached (rows : List Row) : List Row := rows.takeWhile fun row => ¬ x.Breaks row

/-- The outcome of a row whose query the sink answered. -/
def answered (row : Row) : Except SinkError Unit → Outcome
  | .ok () => .assembled row.sqlFileName (x.find row.sqlFileName).isAbsent
  | .error e => .failed row.sqlFileName e.message

/-! ## One row -/

section

variable {x} {row : Row} {sql : Text}

theorem skips_iff : (x.testMode && !row.isTest) = true ↔ ¬ x.Selects row := by
  simp [Selects]

theorem outcome_of_skipped (h : ¬ x.Selects row) (sink : Sink (StateM σ)) (s : σ) :
    x.outcome sink row s = (.ok (.skipped row.sqlFileName), s) := by
  have e : (x.batch (pure ())).outcome x.source sink row = pure (.skipped row.sqlFileName) := if_pos (skips_iff.mpr h)
  rw [outcome, e]
  rfl

theorem outcome_of_selected (h : x.Selects row) (sink : Sink (StateM σ)) (s : σ) : x.outcome sink row s =
    match row.query x.assembler (x.find row.sqlFileName) with
    | .error e => (.error e, s)
    | .ok (.error reason) => (.ok (.failed row.sqlFileName reason), s)
    | .ok (.ok sql) => (.ok (x.answered row (sink row sql s).1), (sink row sql s).2) := by
  have e : (x.batch (pure ())).outcome x.source sink row = row.deliver x.assembler x.source sink :=
    if_neg fun hskip => skips_iff.mp hskip h
  have hsource : (x.source row.sqlFileName : StateM σ Found) s = (x.find row.sqlFileName, s) := rfl
  rw [outcome, e, Row.run_deliver, hsource]
  rcases row.query x.assembler (x.find row.sqlFileName) with e | ⟨reason | sql⟩
  · rfl
  · rfl
  · dsimp only
    rcases sink row sql s with ⟨e | u, s'⟩
    · rfl
    · rfl

theorem outcome_of_breaks (h : x.Breaks row) (sink : Sink (StateM σ)) (s : σ) :
    x.outcome sink row s = (.error .index, s) := by
  rw [outcome_of_selected h.1, h.2]

theorem outcome_of_unread {e : CatalogError} (h : x.Selects row) (hfind : x.find row.sqlFileName = .error e)
    (sink : Sink (StateM σ)) (s : σ) : x.outcome sink row s = (.ok (.failed row.sqlFileName e.message), s) := by
  rw [outcome_of_selected h, hfind]
  rfl

theorem outcome_of_unassembled {template : Option Text} {f : Failure} (h : x.Selects row)
    (hfind : x.find row.sqlFileName = .ok template)
    (hfail : x.assembler.assemble (template.getD row.fallback) row.request = .error (.refused f))
    (sink : Sink (StateM σ)) (s : σ) : x.outcome sink row s = (.ok (.failed row.sqlFileName f.message), s) := by
  rw [outcome_of_selected h, hfind, Row.query, hfail]

theorem outcome_of_delivered {template : Option Text} (h : x.Selects row) (hfind : x.find row.sqlFileName = .ok template)
    (hsql : x.assembler.assemble (template.getD row.fallback) row.request = .ok sql) (sink : Sink (StateM σ)) (s : σ) :
    x.outcome sink row s = (.ok (x.answered row (sink row sql s).1), (sink row sql s).2) := by
  rw [outcome_of_selected h, hfind, Row.query, hsql]

/-- A row that hands a query to the sink does so once. -/
theorem outcome_of_some (h : x.query? row = some sql) (sink : Sink (StateM σ)) (s : σ) :
    x.outcome sink row s = (.ok (x.answered row (sink row sql s).1), (sink row sql s).2) := by
  unfold query? at h
  split at h
  · rename_i hsel
    split at h
    · cases h
    · rename_i template hfind
      cases hsql : x.assembler.assemble (template.getD row.fallback) row.request with
      | error f => simp [hsql, Except.toOption] at h
      | ok sql' =>
        obtain rfl : sql' = sql := by simpa [hsql, Except.toOption] using h
        exact outcome_of_delivered hsel hfind hsql sink s
  · cases h

/-- Any other row leaves every sink alone, and unless it overflows its outcome hangs on nothing
    but the row. -/
theorem outcome_of_none (h : x.query? row = none) (hb : ¬ x.Breaks row) :
    ∃ o : Outcome, o.name = row.sqlFileName ∧ o.isAssembled = false ∧
      ∀ {σ : Type} (sink : Sink (StateM σ)) (s : σ), x.outcome sink row s = (.ok o, s) := by
  unfold query? at h
  split at h
  · rename_i hsel
    split at h
    · rename_i e hfind
      exact ⟨.failed row.sqlFileName e.message, rfl, rfl, outcome_of_unread hsel hfind⟩
    · rename_i template hfind
      cases hsql : x.assembler.assemble (template.getD row.fallback) row.request with
      | error halt =>
        cases halt with
        | refused f => exact ⟨.failed row.sqlFileName f.message, rfl, rfl, outcome_of_unassembled hsel hfind hsql⟩
        | overflow cause => exact absurd ⟨hsel, by rw [hfind, Row.query, hsql]⟩ hb
      | ok sql => simp [hsql, Except.toOption] at h
  · rename_i hskip
    exact ⟨.skipped row.sqlFileName, rfl, rfl, outcome_of_skipped hskip⟩

theorem not_breaks_of_ok {sink : Sink (StateM σ)} {s s' : σ} {o : Outcome} (h : x.outcome sink row s = (.ok o, s')) :
    ¬ x.Breaks row := by
  intro hb
  rw [outcome_of_breaks hb] at h
  cases h

theorem name_answered (answer : Except SinkError Unit) : (x.answered row answer).name = row.sqlFileName := by
  cases answer with
  | ok u => rfl
  | error e => rfl

/-- A row that does not overflow has an outcome under its name. -/
theorem exists_outcome (h : ¬ x.Breaks row) (sink : Sink (StateM σ)) (s : σ) :
    ∃ o s', x.outcome sink row s = (.ok o, s') ∧ o.name = row.sqlFileName := by
  cases hq : x.query? row with
  | none =>
    obtain ⟨o, ho, -, hout⟩ := outcome_of_none hq h
    exact ⟨o, s, hout sink s, ho⟩
  | some sql => exact ⟨_, _, outcome_of_some hq sink s, name_answered _⟩

end

/-! ## Runs over rows -/

section

variable {x} {sink : Sink (StateM σ)} {row : Row} {rows rows₁ rows₂ : List Row} {s s' : σ} {o : Outcome} {os : List Outcome}

theorem run_nil : x.run sink [] s = (.ok [], s) := rfl

theorem run_cons : x.run sink (row :: rows) s =
    match x.outcome sink row s with
    | (.error e, s') => (.error e, s')
    | (.ok o, s') => ((x.run sink rows s').1.map (o :: ·), (x.run sink rows s').2) := by
  have hpause : ∀ s', ((x.batch (pure () : StateM σ Unit)).pause s').2 = s' := fun _ => rfl
  unfold run outcome
  rw [Batch.run_cons]
  simp only [hpause, ite_self]
  rcases ((x.batch (pure ())).outcome x.source sink row).run s with ⟨e | o, s'⟩
  · rfl
  · rfl

theorem run_cons_ok (h : x.outcome sink row s = (.ok o, s')) :
    x.run sink (row :: rows) s = ((x.run sink rows s').1.map (o :: ·), (x.run sink rows s').2) := by
  rw [run_cons, h]

theorem run_cons_breaks (h : x.Breaks row) : x.run sink (row :: rows) s = (.error .index, s) := by
  rw [run_cons, outcome_of_breaks h]

theorem run_single (h : x.outcome sink row s = (.ok o, s')) : x.run sink [row] s = (.ok [o], s') := run_cons_ok h

theorem run_cons_eq_ok (h : (x.run sink (row :: rows) s).1 = .ok os) :
    ∃ o s' os', x.outcome sink row s = (.ok o, s') ∧ (x.run sink rows s').1 = .ok os' ∧ os = o :: os' := by
  rw [run_cons] at h
  rcases hout : x.outcome sink row s with ⟨e | o, s'⟩
  · rw [hout] at h
    cases h
  · cases hrest : (x.run sink rows s').1 with
    | error e => simp [hout, hrest, Except.map] at h
    | ok os' =>
      simp only [hout, hrest] at h
      exact ⟨o, s', os', rfl, hrest, (Except.ok.inj h).symm⟩

/-- A run over two lists of rows goes on where the first one left the sink. -/
theorem run_append (h : x.run sink rows₁ s = (.ok os, s')) (rows₂ : List Row) :
    x.run sink (rows₁ ++ rows₂) s = ((x.run sink rows₂ s').1.map (os ++ ·), (x.run sink rows₂ s').2) := by
  induction rows₁ generalizing s os with
  | nil =>
    cases h
    rw [List.nil_append]
    rcases x.run sink rows₂ s' with ⟨e | os₂, s''⟩
    · rfl
    · rfl
  | cons row rows₁ ih =>
    obtain ⟨o, t, os', hout, hrest, rfl⟩ := run_cons_eq_ok (congrArg Prod.fst h)
    have hleft : (x.run sink rows₁ t).2 = s' := by
      rw [run_cons_ok hout] at h
      exact congrArg Prod.snd h
    rw [List.cons_append, run_cons_ok hout, ih (Prod.ext hrest hleft)]
    cases (x.run sink rows₂ s').1 with
    | error e => rfl
    | ok os₂ => rfl

/-- A run in which no row overflows has one outcome for each row, under its name. -/
theorem exists_run (h : ∀ row ∈ rows, ¬ x.Breaks row) (s : σ) :
    ∃ os s', x.run sink rows s = (.ok os, s') ∧ os.map Outcome.name = rows.map (·.sqlFileName) := by
  induction rows generalizing s with
  | nil => exact ⟨[], s, rfl, rfl⟩
  | cons row rows ih =>
    obtain ⟨o, t, hout, hname⟩ := exists_outcome (h row (by simp)) sink s
    obtain ⟨os, s', hrun, hnames⟩ := ih (fun row' hr => h row' (by simp [hr])) t
    refine ⟨o :: os, s', ?_, by rw [List.map_cons, List.map_cons, hname, hnames]⟩
    rw [run_cons_ok hout, hrun]
    rfl

/-- The first row that overflows ends the run, and leaves the sink as the rows before it did. -/
theorem run_breaks (h : ∀ row ∈ rows₁, ¬ x.Breaks row) (hb : x.Breaks row) (rows₂ : List Row) (s : σ) :
    x.run sink (rows₁ ++ row :: rows₂) s = (.error .index, (x.run sink rows₁ s).2) := by
  obtain ⟨os, s', hrun, -⟩ := exists_run h s
  rw [run_append hrun, run_cons_breaks hb, hrun]
  rfl

theorem run_ends_iff : (∃ os, (x.run sink rows s).1 = .ok os) ↔ ∀ row ∈ rows, ¬ x.Breaks row := by
  constructor
  · rintro ⟨os, hos⟩
    induction rows generalizing s os with
    | nil => simp
    | cons row rows ih =>
      obtain ⟨o, s', os', hout, hrest, -⟩ := run_cons_eq_ok hos
      exact List.forall_mem_cons.mpr ⟨not_breaks_of_ok hout, ih os' hrest⟩
  · intro h
    obtain ⟨os, s', hrun, -⟩ := exists_run h s
    exact ⟨os, by rw [hrun]⟩

theorem names_run (h : (x.run sink rows s).1 = .ok os) : os.map Outcome.name = rows.map (·.sqlFileName) := by
  obtain ⟨os', s', hrun, hnames⟩ := exists_run (run_ends_iff.mp ⟨os, h⟩) s
  rw [hrun, Except.ok.injEq] at h
  rw [← h, hnames]

/-! ## Pauses and calls -/

theorem reached_of_breaks (h : x.Breaks row) : x.reached (row :: rows) = [] := List.takeWhile_cons_of_neg (by simpa using h)

theorem reached_cons (h : ¬ x.Breaks row) : x.reached (row :: rows) = row :: x.reached rows :=
  List.takeWhile_cons_of_pos (by simpa using h)

theorem outcome_beside (row : Row) (s : σ) (t : τ) :
    x.outcome sink.beside row (s, t) = ((x.outcome sink row s).1, (x.outcome sink row s).2, t) := by
  by_cases hb : x.Breaks row
  · rw [outcome_of_breaks hb, outcome_of_breaks hb]
  cases h : x.query? row with
  | none =>
    obtain ⟨o, -, -, hout⟩ := outcome_of_none h hb
    rw [hout, hout]
  | some sql =>
    rw [outcome_of_some h, outcome_of_some h]
    rfl

theorem runWaiting_cons {wait : τ → τ} {s : σ × τ} : x.runWaiting wait sink (row :: rows) s =
    match x.outcome sink.beside row s with
    | (.error e, s') => (.error e, s')
    | (.ok o, s') =>
      let r := x.runWaiting wait sink rows (if rows.isEmpty then s' else (s'.1, wait s'.2))
      (r.1.map (o :: ·), r.2) := by
  have hsame : ((x.batch (fun s : σ × τ => ((), s.1, wait s.2))).outcome x.source sink.beside row).run s =
    x.outcome sink.beside row s := rfl
  unfold runWaiting
  rw [Batch.run_cons, hsame]
  rcases x.outcome sink.beside row s with ⟨e | o, s'⟩
  · rfl
  · rfl

/-- Waiting happens between two rows and nowhere else, and changes nothing of the run. -/
theorem run_waiting (wait : τ → τ) (rows : List Row) (s : σ) (t : τ) : x.runWaiting wait sink rows (s, t) =
    ((x.run sink rows s).1, (x.run sink rows s).2, Nat.iterate wait (min (x.reached rows).length (rows.length - 1)) t) := by
  induction rows generalizing s t with
  | nil => rfl
  | cons row rows ih =>
    by_cases hb : x.Breaks row
    · rw [runWaiting_cons, outcome_beside, outcome_of_breaks hb, run_cons_breaks hb, reached_of_breaks hb]
      rfl
    obtain ⟨o, s', hout, -⟩ := exists_outcome hb sink s
    rw [runWaiting_cons, outcome_beside, hout, run_cons_ok hout, reached_cons hb]
    cases rows with
    | nil => rfl
    | cons next rows =>
      have hsteps : min ((x.reached (next :: rows)).length + 1) (rows.length + 1) =
          min (x.reached (next :: rows)).length rows.length + 1 := by omega
      simp only [List.isEmpty_cons, Bool.false_eq_true, if_false, ih, List.length_cons, Nat.add_sub_cancel, hsteps]
      rfl

/-- The calls of the sink are the queries of the rows reached, each once and in order. -/
theorem run_logged (rows : List Row) (s : σ) (calls : List (Row × Text)) : x.run sink.logged rows (s, calls) =
    ((x.run sink rows s).1, (x.run sink rows s).2,
      calls ++ (x.reached rows).filterMap fun row => (x.query? row).map (row, ·)) := by
  induction rows generalizing s calls with
  | nil => simp [run_nil, reached]
  | cons row rows ih =>
    by_cases hb : x.Breaks row
    · rw [run_cons_breaks hb, run_cons_breaks hb, reached_of_breaks hb]
      simp
    rw [reached_cons hb]
    cases h : x.query? row with
    | none =>
      obtain ⟨o, -, -, hout⟩ := outcome_of_none h hb
      rw [run_cons_ok (hout _ _), run_cons_ok (hout _ _), ih]
      simp [h]
    | some sql =>
      have hlog : x.outcome sink.logged row (s, calls) =
          (.ok (x.answered row (sink row sql s).1), (sink row sql s).2, calls ++ [(row, sql)]) := outcome_of_some h _ _
      rw [run_cons_ok hlog, run_cons_ok (outcome_of_some h sink s), ih]
      simp [h]

end

/-! ## Sinks that collect -/

/-- The names and queries of the rows that are reported assembled. -/
def reported (rows : List Row) (outcomes : List Outcome) : List (Text × Text) :=
  (rows.zip outcomes).filterMap fun (row, o) => if o.isAssembled then (x.query? row).map (row.sqlFileName, ·) else none

section

variable {x} {refusal? : Row → Option SinkError}

theorem guarded_collecting (row : Row) (sql : Text) (q : List (Text × Text)) : Sink.guarded refusal? Sink.collecting row sql q =
    match refusal? row with
    | some e => (.error e, q)
    | none => (.ok (), q ++ [(row.sqlFileName, sql)]) := by
  unfold Sink.guarded
  cases refusal? row with
  | some e => rfl
  | none => rfl

/-- The outcome of a row does not hang on what was collected, and its query is added when it is
    assembled. -/
theorem outcome_guarded {row : Row} (refusal? : Row → Option SinkError) (hb : ¬ x.Breaks row) : ∃ o : Outcome, ∀ q,
    x.outcome (Sink.guarded refusal? Sink.collecting) row q =
      (.ok o, q ++ if o.isAssembled then ((x.query? row).map (row.sqlFileName, ·)).toList else []) := by
  cases h : x.query? row with
  | none =>
    obtain ⟨o, -, ho, hout⟩ := outcome_of_none h hb
    refine ⟨o, fun q => ?_⟩
    rw [hout, ho]
    simp
  | some sql =>
    cases hr : refusal? row with
    | some e =>
      refine ⟨x.answered row (.error e), fun q => ?_⟩
      rw [outcome_of_some h, guarded_collecting, hr]
      simp [answered, Outcome.isAssembled]
    | none =>
      refine ⟨x.answered row (.ok ()), fun q => ?_⟩
      rw [outcome_of_some h, guarded_collecting, hr]
      simp [answered, Outcome.isAssembled]

theorem reported_cons {row : Row} {rows : List Row} {o : Outcome} {os : List Outcome} : x.reported (row :: rows) (o :: os) =
    (if o.isAssembled then ((x.query? row).map (row.sqlFileName, ·)).toList else []) ++ x.reported rows os := by
  simp only [reported, List.zip_cons_cons, List.filterMap_cons]
  cases o.isAssembled with
  | false => simp
  | true => cases x.query? row <;> simp

/-- Behind a filter a collecting sink holds the queries of the rows reported assembled, in order. -/
theorem run_guarded {rows : List Row} {q : List (Text × Text)} {os : List Outcome}
    (h : (x.run (Sink.guarded refusal? Sink.collecting) rows q).1 = .ok os) :
    (x.run (Sink.guarded refusal? Sink.collecting) rows q).2 = q ++ x.reported rows os := by
  induction rows generalizing q os with
  | nil =>
    cases h
    simp [run_nil, reported]
  | cons row rows ih =>
    obtain ⟨o', q', os', hout, hrest, rfl⟩ := run_cons_eq_ok h
    obtain ⟨o, ho⟩ := outcome_guarded refusal? (not_breaks_of_ok hout)
    rw [ho q, Prod.mk.injEq, Except.ok.injEq] at hout
    obtain ⟨rfl, rfl⟩ := hout
    rw [run_cons_ok (ho q), ih hrest, reported_cons, List.append_assoc]

/-- There every row has the outcome that it has alone, and overflows when it does alone. -/
theorem run_guarded_alone (rows : List Row) (q q' : List (Text × Text)) :
    (x.run (Sink.guarded refusal? Sink.collecting) rows q).1 =
      (rows.mapM fun row => (x.run (Sink.guarded refusal? Sink.collecting) [row] q').1).map List.flatten := by
  induction rows generalizing q with
  | nil => rfl
  | cons row rows ih =>
    rw [List.mapM_cons]
    by_cases hb : x.Breaks row
    · rw [run_cons_breaks hb, run_cons_breaks hb]
      rfl
    obtain ⟨o, ho⟩ := outcome_guarded refusal? hb
    rw [run_cons_ok (ho q), run_single (ho q'), ih]
    cases rows.mapM fun row => (x.run (Sink.guarded refusal? Sink.collecting) [row] q').1 with
    | error e => rfl
    | ok os => rfl

end

/-! ## Isolation -/

/-- What holds of the runs of a batch with any sink. -/
structure Isolated (sink : Sink (StateM σ)) : Prop where
  /-- A run has outcomes exactly when no row overflows. -/
  ends : ∀ rows s, (∃ os, (x.run sink rows s).1 = .ok os) ↔ ∀ row ∈ rows, ¬ x.Breaks row
  /-- One outcome for each row, in order and under its name. -/
  names : ∀ rows s os, (x.run sink rows s).1 = .ok os → os.map Outcome.name = rows.map (·.sqlFileName)
  counts : ∀ rows s os, (x.run sink rows s).1 = .ok os →
    os.countP Outcome.isAssembled + os.countP Outcome.isFailed + os.countP Outcome.isSkipped = rows.length
  append : ∀ rows₁ rows₂ s os s', x.run sink rows₁ s = (.ok os, s') →
    x.run sink (rows₁ ++ rows₂) s = ((x.run sink rows₂ s').1.map (os ++ ·), (x.run sink rows₂ s').2)
  /-- A row that overflows leaves the sink as the rows before it did, and ends the run. -/
  breaks : ∀ rows₁ row rows₂ s, (∀ row' ∈ rows₁, ¬ x.Breaks row') → x.Breaks row →
    x.run sink (rows₁ ++ row :: rows₂) s = (.error .index, (x.run sink rows₁ s).2)
  skipped : ∀ row s, ¬ x.Selects row → x.run sink [row] s = (.ok [.skipped row.sqlFileName], s)
  unread : ∀ row s e, x.Selects row → x.find row.sqlFileName = .error e →
    x.run sink [row] s = (.ok [.failed row.sqlFileName e.message], s)
  unassembled : ∀ row s template f, x.Selects row → x.find row.sqlFileName = .ok template →
    x.assembler.assemble (template.getD row.fallback) row.request = .error (.refused f) →
      x.run sink [row] s = (.ok [.failed row.sqlFileName f.message], s)
  delivered : ∀ row s template sql, x.Selects row → x.find row.sqlFileName = .ok template →
    x.assembler.assemble (template.getD row.fallback) row.request = .ok sql →
      x.run sink [row] s = (.ok [x.answered row (sink row sql s).1], (sink row sql s).2)
  /-- The sink is called once for each row reached that comes to a query, and for no other. -/
  calls : ∀ rows s, x.run sink.logged rows (s, []) = ((x.run sink rows s).1, (x.run sink rows s).2,
    (x.reached rows).filterMap fun row => (x.query? row).map (row, ·))
  /-- Pauses change none of it. -/
  pauses : ∀ {τ : Type} (wait : τ → τ) rows s t, x.runWaiting wait sink rows (s, t) = ((x.run sink rows s).1,
    (x.run sink rows s).2, Nat.iterate wait (min (x.reached rows).length (rows.length - 1)) t)

/-- What holds besides of the runs with a sink that collects. -/
structure Collected (sink : Sink (StateM (List (Text × Text)))) : Prop where
  pairs : ∀ rows q os, (x.run sink rows q).1 = .ok os → (x.run sink rows q).2 = q ++ x.reported rows os
  alone : ∀ rows q q', (x.run sink rows q).1 = (rows.mapM fun row => (x.run sink [row] q').1).map List.flatten

theorem isolated (sink : Sink (StateM σ)) : x.Isolated sink where
  ends _ _ := run_ends_iff
  names _ _ _ := names_run
  counts := by
    intro rows s os h
    rw [Outcome.counts_add, ← List.length_map Outcome.name, names_run h, List.length_map]
  append _ rows₂ _ _ _ h := run_append h rows₂
  breaks _ _ rows₂ s h hb := run_breaks h hb rows₂ s
  skipped _ _ h := run_single (outcome_of_skipped h _ _)
  unread _ _ _ h hfind := run_single (outcome_of_unread h hfind _ _)
  unassembled _ _ _ _ h hfind hfail := run_single (outcome_of_unassembled h hfind hfail _ _)
  delivered _ _ _ _ h hfind hsql := run_single (outcome_of_delivered h hfind hsql _ _)
  calls := by
    intro rows s
    rw [run_logged, List.nil_append]
  pauses := run_waiting

theorem collected (refusal? : Row → Option SinkError) : x.Collected (Sink.guarded refusal? Sink.collecting) :=
  ⟨fun _ _ _ => run_guarded, run_guarded_alone⟩

end Steady

end ExportQuery.Catalog
