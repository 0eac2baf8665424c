/-
  ExportQuery.Proofs.NoWindow — a condition that selects no days is as good as none.

  It may be a text that is no condition, or a condition whose days lie before the first date. The
  first pass then takes the query apart and puts it together without merging, where without a
  condition it hands on the query as it is. The two texts differ in the blanks around a GROUP BY
  clause; the second pass takes both apart into the same parts, and reads nothing else.

  - `unusable_iff`: the conditions that select no days.
  - `exists_stable_query`: taking a query apart and putting it together gives a stable one.
  - `filterPass_congr`: all that the second pass reads of a query.
  - `assemble_of_no_window`: such a condition gives what a blank one gives.
-/

import ExportQuery.Proofs.DaysBack
import ExportQuery.Proofs.FixedPoint

/-! ## Conditions that select no days -/

namespace ExportQuery.Period

open ExportQuery.Text ExportQuery.Calendar

variable {today : Date} {condition column table : Text}

/-- `condition` selects no days: it is none of the conditions, or resolves to no window. -/
def Unusable (today : Date) (condition : Text) : Prop :=
  ∀ e, Expr.ofText? condition = some e → e.window? today = none

theorem Expr.window?_eq_none_iff {e : Expr} :
    e.window? today = none ↔ today.IsFirst ∨ ∃ n, e = .daysAgo n ∧ today.back? n = none := by
  rw [← Date.pred?_eq_none_iff]
  unfold Expr.window?
  cases today.pred? with
  | none => simp
  | some yesterday => cases e <;> simp

/-- It is none of the conditions, or there is no day before `today`, or it goes back more days
    than there are. -/
theorem unusable_iff : Unusable today condition ↔ Expr.ofText? condition = none ∨ today.IsFirst ∨
    ∃ n, Expr.ofText? condition = some (.daysAgo n) ∧ ∃ k first, k < n ∧ today.back? k = some first ∧ first.IsFirst := by
  simp only [← Date.back?_eq_none_iff]
  cases hread : Expr.ofText? condition with
  | none => simp [Unusable, hread]
  | some e => simp [Unusable, hread, Expr.window?_eq_none_iff]

theorem window?_eq_none_iff : window? today condition = none ↔ Unusable today condition := Option.bind_eq_none_iff

theorem columnCondition_of_unusable (h : Unusable today condition) : columnCondition today condition column table = [] := by
  rw [columnCondition, window?_eq_none_iff.mpr h]

theorem loginCondition_of_unusable (h : Unusable today condition) : loginCondition today condition table = [] := by
  rw [loginCondition, window?_eq_none_iff.mpr h]

end ExportQuery.Period

namespace ExportQuery.Assembler

open ExportQuery.Text ExportQuery.Sql ExportQuery.Period ExportQuery.Filter ExportQuery.Calendar ExportQuery.Assembly

section

variable {a : Assembler} {t s s' : Text} {r : Request} {criterion : Criterion}

/-! ## The first pass -/

/-- The table that the condition of a criterion names is there: the outer table has an alias,
    unless the criterion is one of submissions. -/
def Aliased (t : Text) (criterion : Criterion) : Prop :=
  criterion.aliasSource = .submissions ∨ (outerAlias? (Outer.of (bare t)).head).isSome = true

theorem periodSql_of_unusable {condition : Text} (hw : Unusable a.today condition) (ha : Aliased t criterion) :
    a.periodSql (bare t) (Outer.of (bare t)) condition criterion = .ok [] := by
  unfold periodSql
  cases hsource : criterion.aliasSource with
  | submissions => simp only [columnCondition_of_unusable hw]
  | outerTable =>
    have hsome : (outerAlias? (Outer.of (bare t)).head).isSome = true := by
      rcases ha with h | h
      · rw [hsource] at h; cases h
      · exact h
    obtain ⟨table, ht⟩ := Option.isSome_iff_exists.mp hsome
    simp only [ht, columnCondition_of_unusable hw, loginCondition_of_unusable hw, ite_self]

/-- The query is taken apart and put together. -/
theorem periodPass_of_unusable (hr : a.isMaster r.category = false) (hb : trim r.periodCondition ≠ [])
    (hc : Criterion.ofLabel? r.periodCriterion = some criterion) (hw : Unusable a.today r.periodCondition)
    (ha : Aliased t criterion) :
    a.periodPass t r.periodCondition r.periodCriterion r.category = .ok ((Outer.of (bare t)).close (Outer.of (bare t)).head) := by
  have hb : ¬ (trim r.periodCondition).isEmpty = true := by simpa using hb
  have hP : a.periodConditions (bare t) r.periodCondition r.periodCriterion = .ok [] := by
    rw [periodConditions, if_neg hb]
    simp only [hc, periodSql_of_unusable hw ha]
    rfl
  rw [periodPass_eq hr hP, if_neg hb, Outer.merge_nil]

/-- Taking a query apart and putting it together gives a query of the same parts. -/
theorem exists_stable_query (hf : TokenFree s) (hs : trimStart s = s) (he : trimEnd s = s) :
    ∃ u, (Outer.of s).Stable u := by
  rcases Division.unmarked_or_exists_markedAt (divide s) with hm | ⟨d₁, d₂, hmark⟩
  · exact ⟨s, stable_of_none hf hs he hm⟩
  · obtain ⟨head, _, rest, -, hcut⟩ := exists_marked hmark.joins
    obtain ⟨d, hd⟩ := exists_source hf hs he hcut
    exact ⟨d.text, hd.stable⟩

/-! ## The second pass -/

/-- The second pass reads of a query what it takes it apart into. -/
theorem filterPass_congr (hr : a.isMaster r.category = false) (h : Outer.of (bare s) = Outer.of (bare s')) :
    a.filterPass s r.filters r.deletionFlag r.category r.skipDeletion =
      a.filterPass s' r.filters r.deletionFlag r.category r.skipDeletion := by
  unfold filterPass
  simp only [hr, h, Bool.false_eq_true, if_false]

theorem filterPass_of_stable {u : Text} (hr : a.isMaster r.category = false) (hu : (Outer.of (bare t)).Stable u) :
    a.filterPass ((Outer.of (bare t)).close (Outer.of (bare t)).head) r.filters r.deletionFlag r.category r.skipDeletion =
      a.filterPass (bare t ++ [';']) r.filters r.deletionFlag r.category r.skipDeletion := by
  apply filterPass_congr hr
  rw [hu.close, hu.bare, hu.again, bare_semicolon]

/-- A condition that selects no days gives what a blank one gives, as a whole: the query, or the
    failure of the second pass. -/
theorem assemble_of_no_window {blank : Text} (ht : TokenFree t) (hr : a.isMaster r.category = false)
    (hc : Criterion.ofLabel? r.periodCriterion = some criterion) (ha : Aliased t criterion)
    (hw : Unusable a.today r.periodCondition) (hb : trim blank = []) :
    a.assemble t r = a.assemble t { r with periodCondition := blank } := by
  unfold assemble
  rw [periodPass_blank hb]
  by_cases hasked : trim r.periodCondition = []
  · rw [periodPass_blank hasked]
  · rw [periodPass_of_unusable hr hasked hc hw ha]
    obtain ⟨u, hu⟩ := exists_stable_query (ht.within (bare_within t)) (trimStart_bare t) (trimEnd_bare t)
    exact filterPass_of_stable hr hu

end

/-- Ten days before the tenth day there is: the first pass closes up the lines before GROUP BY,
    and a blank condition leaves them. -/
theorem assemble_of_no_window_grouped :
    let t :=
      "SELECT u.id\n-- FROM clause\nFROM users u, (-- subquery start LIMIT 1 -- subquery end) v\n\n  GROUP BY u.id ;".toList
    let a : Assembler := ⟨⟨-262143, 1, 10, by decide⟩, Options.default⟩
    let r : Request := ⟨"10日前時点を1日分".toList, "登録日時".toList, "TRUE".toList, false, [], .empty⟩
    let out := "SELECT u.id\n-- FROM clause\nFROM users u, (-- subquery start LIMIT 1 -- subquery end) v\n".toList ++
      "WHERE u.deleted_at IS NULL\nGROUP BY u.id;".toList
    TokenFree t ∧ a.isMaster r.category = false ∧ Criterion.ofLabel? r.periodCriterion = some .registration ∧
      Aliased t .registration ∧ Unusable a.today r.periodCondition ∧ trim [' '] = [] ∧
      a.assemble t { r with periodCondition := [' '] } = .ok out ∧ a.assemble t r = .ok out ∧
      a.periodPass t [' '] r.periodCriterion r.category ≠ a.periodPass t r.periodCondition r.periodCriterion r.category := by
  repeat rw [String.toList_ofList]
  intro t a r out
  have ht : TokenFree t := by decide +kernel
  have hr : a.isMaster r.category = false := by decide +kernel
  have hc : Criterion.ofLabel? r.periodCriterion = some .registration := by decide +kernel
  have ha : Aliased t .registration := Or.inr (by decide +kernel)
  have hw : Unusable a.today r.periodCondition := by
    have hread : Expr.ofText? r.periodCondition = some (.daysAgo 10) := by decide +kernel
    obtain ⟨first, hreach, hy, hm, hd⟩ := Date.back?_of_lt (show 9 < a.today.day by decide)
    exact unusable_iff.mpr (Or.inr (Or.inr ⟨10, hread, 9, first, by decide, hreach, hy, hm, hd⟩))
  have hblank : trim [' '] = [] := by decide
  have hout : a.assemble t { r with periodCondition := [' '] } = .ok out := eq_ok_of_toOption (by decide +kernel)
  refine ⟨ht, hr, hc, ha, hw, hblank, hout, (assemble_of_no_window ht hr hc ha hw hblank).trans hout, ?_⟩
  rw [periodPass_blank hblank, periodPass_of_unusable hr (by decide +kernel) hc hw ha]
  intro h
  exact absurd (Except.ok.inj h) (by decide +kernel)

end ExportQuery.Assembler
