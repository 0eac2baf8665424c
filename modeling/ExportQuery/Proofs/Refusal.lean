/-
  ExportQuery.Proofs.Refusal — when an assembly is refused, and why.

  The first pass refuses a label that no criterion has, and a criterion of the outer table when
  that table shows no alias. Neither hangs on the date or on what the condition says, only on
  whether there is one. The second pass refuses what its conditions refuse. Templates of the
  master category are never refused. What is not refused becomes a query, unless merging
  overflows.

  - `periodConditions_error_iff`: the causes of the first pass.
  - `filterPass_refused_iff`: those of the second.
  - `assemble_failure_iff`: each cause, exactly when it arises.
-/

import ExportQuery.Proofs.TwoPasses

namespace ExportQuery.Period

open ExportQuery.Text

namespace Criterion

theorem trim_label (c : Criterion) : trim c.label = c.label := by cases c <;> decide

theorem ofLabel?_eq_some_iff {s : Text} {c : Criterion} : ofLabel? s = some c ↔ trim s = c.label := by
  constructor
  · intro h
    have := List.find?_some h
    exact (beq_iff_eq.mp this).symm
  · intro h
    have hc := ofLabel?_label c
    rwa [ofLabel?, trim_label, ← h] at hc

theorem ofLabel?_eq_none_iff {s : Text} : ofLabel? s = none ↔ ∀ c : Criterion, trim s ≠ c.label := by
  constructor
  · intro h c hc
    rw [ofLabel?_eq_some_iff.mpr hc] at h
    cases h
  · intro h
    cases hs : ofLabel? s with
    | none => rfl
    | some c => exact absurd (ofLabel?_eq_some_iff.mp hs) (h c)

theorem aliasSource_eq_outerTable_iff {c : Criterion} :
    c.aliasSource = .outerTable ↔ c = .registration ∨ c = .update ∨ c = .login := by
  cases c <;> decide

end Criterion

end ExportQuery.Period

namespace ExportQuery.Assembler

open ExportQuery.Text ExportQuery.Sql ExportQuery.Period ExportQuery.Filter ExportQuery.Calendar ExportQuery.Assembly

/-! ## The causes -/

/-- There is a condition, and `label` is the name of its criterion without the blanks around it,
    which none of the criteria bears. -/
structure Unlabelled (r : Request) (label : Text) : Prop where
  asked : trim r.periodCondition ≠ []
  named : label = trim r.periodCriterion
  unknown : ∀ c : Criterion, label ≠ c.label

/-- There is a condition on a criterion of the outer table, and the template shows no alias of
    that table. -/
structure Unaliased (t : Text) (r : Request) (criterion : Criterion) : Prop where
  asked : trim r.periodCondition ≠ []
  named : trim r.periodCriterion = criterion.label
  outer : criterion = .registration ∨ criterion = .update ∨ criterion = .login
  missing : outerAlias? (Outer.of (bare t)).head = none

section

variable {a : Assembler} {t s condition : Text} {r : Request} {f : Failure}

theorem unlabelled_congr (hb : trim condition = [] ↔ trim r.periodCondition = []) {label : Text} :
    Unlabelled { r with periodCondition := condition } label ↔ Unlabelled r label := by
  constructor
  · intro h
    exact ⟨fun h0 => h.asked (hb.mpr h0), h.named, h.unknown⟩
  · intro h
    exact ⟨fun h0 => h.asked (hb.mp h0), h.named, h.unknown⟩

theorem unaliased_congr (hb : trim condition = [] ↔ trim r.periodCondition = []) {criterion : Criterion} :
    Unaliased t { r with periodCondition := condition } criterion ↔ Unaliased t r criterion := by
  constructor
  · intro h
    exact ⟨fun h0 => h.asked (hb.mpr h0), h.named, h.outer, h.missing⟩
  · intro h
    exact ⟨fun h0 => h.asked (hb.mp h0), h.named, h.outer, h.missing⟩

/-! ## The first pass -/

theorem periodSql_error_iff {o : Outer} {criterion : Criterion} :
    a.periodSql s o condition criterion = .error f ↔
      criterion.aliasSource = .outerTable ∧ outerAlias? o.head = none ∧ f = .missingTableAlias criterion := by
  unfold periodSql
  cases hsource : criterion.aliasSource with
  | submissions => simp
  | outerTable =>
    cases halias : outerAlias? o.head with
    | none => simp [eq_comm]
    | some table => simp

theorem periodConditions_error_iff : a.periodConditions (bare t) r.periodCondition r.periodCriterion = .error f ↔
    (∃ label, f = .invalidCriterion label ∧ Unlabelled r label) ∨
      ∃ criterion, f = .missingTableAlias criterion ∧ Unaliased t r criterion := by
  by_cases hb : trim r.periodCondition = []
  · have hnone : a.periodConditions (bare t) r.periodCondition r.periodCriterion = .ok [] := if_pos (List.isEmpty_iff.mpr hb)
    rw [hnone]
    constructor
    · intro h; cases h
    · intro h
      rcases h with ⟨label, -, h⟩ | ⟨criterion, -, h⟩
      · exact absurd hb h.asked
      · exact absurd hb h.asked
  rw [periodConditions, if_neg (by simpa using hb)]
  cases hc : Criterion.ofLabel? r.periodCriterion with
  | none =>
    have hnone := Criterion.ofLabel?_eq_none_iff.mp hc
    constructor
    · intro h
      cases h
      exact Or.inl ⟨_, rfl, hb, rfl, hnone⟩
    · intro h
      rcases h with ⟨label, rfl, h⟩ | ⟨criterion, -, h⟩
      · rw [h.named]
      · exact absurd h.named (hnone criterion)
  | some criterion =>
    have hsome := Criterion.ofLabel?_eq_some_iff.mp hc
    simp only [map_eq_error_iff, periodSql_error_iff, Criterion.aliasSource_eq_outerTable_iff]
    constructor
    · intro h
      obtain ⟨houter, hmissing, hf⟩ := h
      exact Or.inr ⟨criterion, hf, hb, hsome, houter, hmissing⟩
    · intro h
      rcases h with ⟨label, -, h⟩ | ⟨criterion', hf, h⟩
      · exact absurd (h.named.trans hsome) (h.unknown criterion)
      · have he : criterion' = criterion := by
          have := Criterion.ofLabel?_eq_some_iff.mpr h.named
          rw [hc] at this
          exact (Option.some.inj this).symm
        rw [he] at h hf
        exact ⟨h.outer, h.missing, hf⟩

theorem Outer.merge_ne_refused (o : Outer) (cs : List Text) (f : Failure) : o.merge cs ≠ .error (.refused f) := by
  by_cases ho : Overflows o.head cs
  · rw [Outer.merge_eq_error ho]; exact nofun
  · rw [Outer.merge_eq_ok ho]; exact nofun

/-- The first pass is refused what its condition is. -/
theorem periodPass_refused_iff (hr : a.isMaster r.category = false) :
    a.periodPass t r.periodCondition r.periodCriterion r.category = .error (.refused f) ↔
      a.periodConditions (bare t) r.periodCondition r.periodCriterion = .error f := by
  cases hP : a.periodConditions (bare t) r.periodCondition r.periodCriterion with
  | error g => simp [periodPass_refused hr hP]
  | ok P =>
    apply iff_of_false
    · rw [periodPass_eq hr hP]
      split
      · exact nofun
      · exact Outer.merge_ne_refused _ _ _
    · exact nofun

/-! ## Both passes -/

theorem filterPass_refused_iff (hr : a.isMaster r.category = false) :
    a.filterPass s r.filters r.deletionFlag r.category r.skipDeletion = .error (.refused f) ↔
      ∃ e, f = .filter e ∧ conditions (columns (Outer.of (bare s)).head) r.filters r.deletionFlag r.skipDeletion
        (outerAlias? (Outer.of (bare s)).head) = .error e := by
  unfold filterPass
  simp only [hr, Bool.false_eq_true, if_false]
  cases conditions (columns (Outer.of (bare s)).head) r.filters r.deletionFlag r.skipDeletion
    (outerAlias? (Outer.of (bare s)).head) with
  | error e => simp [eq_comm]
  | ok cs => simp [Outer.merge_ne_refused]

theorem filterPass_overflow_iff (hr : a.isMaster r.category = false) :
    a.filterPass s r.filters r.deletionFlag r.category r.skipDeletion = .error (.overflow .index) ↔
      ∃ F, conditions (columns (Outer.of (bare s)).head) r.filters r.deletionFlag r.skipDeletion
        (outerAlias? (Outer.of (bare s)).head) = .ok F ∧ Overflows (Outer.of (bare s)).head F := by
  unfold filterPass
  simp only [hr, Bool.false_eq_true, if_false]
  cases conditions (columns (Outer.of (bare s)).head) r.filters r.deletionFlag r.skipDeletion
    (outerAlias? (Outer.of (bare s)).head) with
  | error e => simp
  | ok cs =>
    by_cases ho : Overflows (Outer.of (bare s)).head cs
    · simp [Outer.merge_eq_error ho, ho]
    · simp [Outer.merge_eq_ok ho, ho]

/-- A cause of the first pass refuses the assembly, and nothing else gives that failure. -/
theorem assemble_refused_iff (hr : a.isMaster r.category = false) (hf : ∀ e, f ≠ .filter e) :
    a.assemble t r = .error (.refused f) ↔ a.periodConditions (bare t) r.periodCondition r.periodCriterion = .error f := by
  rw [← periodPass_refused_iff hr, assemble]
  cases a.periodPass t r.periodCondition r.periodCriterion r.category with
  | error e => rfl
  | ok s => simp [filterPass_refused_iff hr, hf]

/-- The first pass minds whether there is a condition, and neither what it says nor the date. -/
theorem periodPass_refused_congr {b : Assembler} (ho : b.options = a.options)
    (hb : trim condition = [] ↔ trim r.periodCondition = []) :
    b.periodPass t condition r.periodCriterion r.category = .error (.refused f) ↔
      a.periodPass t r.periodCondition r.periodCriterion r.category = .error (.refused f) := by
  have hsame : b.isMaster r.category = a.isMaster r.category := by
    unfold isMaster
    rw [ho]
  cases hr : a.isMaster r.category with
  | true =>
    rw [periodPass_master hr, periodPass_master (hsame.trans hr)]
  | false =>
    have hcauses :=
      (periodPass_refused_iff (r := { r with periodCondition := condition }) (t := t) (f := f) (hsame.trans hr)).trans
        periodConditions_error_iff
    simp only [unlabelled_congr hb, unaliased_congr hb] at hcauses
    rw [periodPass_refused_iff hr, periodConditions_error_iff]
    exact hcauses

end

end ExportQuery.Assembler
