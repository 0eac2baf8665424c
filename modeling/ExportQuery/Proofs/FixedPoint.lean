/-
  ExportQuery.Proofs.FixedPoint — assembling what was assembled, without conditions.

  The query that an assembly writes comes apart as it was put together: its GROUP BY clause
  stands on a line of its own, and is the first one again, since predicates hold none and are
  merged outside literals. So taking it apart and putting it together changes nothing.

  - `Outer.Stable.assemble_empty`: a stable query is a fixed point.
  - `exists_stable`: an assembly without filter values writes one.
  - `assemble_assemble`: its output is a fixed point.
-/

import ExportQuery.Proofs.Frame

namespace ExportQuery.Assembler

open ExportQuery.Text ExportQuery.Sql ExportQuery.Period ExportQuery.Filter ExportQuery.Assembly

/-! ## Stable queries are fixed points -/

section

variable {a : Assembler} {o : Outer} {t out head rest : Text} {r : Request} {P F : List Text}

theorem Outer.Stable.periodPass (h : o.Stable t) : a.periodPass (t ++ [';']) [] [] [] = .ok (t ++ [';']) := by
  have hb : (trim ([] : Text)).isEmpty = true := by decide
  simp only [Assembler.periodPass, hb, Bool.or_true, if_true, h.bare]

theorem Outer.Stable.filterPass (h : o.Stable t) : a.filterPass (t ++ [';']) .empty [] [] false = .ok (t ++ [';']) := by
  have hnone : ∀ columns alias?, conditions columns .empty [] false alias? = .ok [] := fun _ _ => rfl
  cases hr : a.isMaster [] with
  | true => rw [filterPass_master hr, h.bare]
  | false =>
    simp only [Assembler.filterPass, hr, h.bare, h.again, hnone, Outer.merge_nil, h.close]
    rfl

/-- A query that comes apart as it was put together is a fixed point. -/
theorem Outer.Stable.assemble_empty (h : o.Stable t) : a.assemble (t ++ [';']) .empty = .ok (t ++ [';']) := by
  rw [assemble]
  simp only [Request.empty, h.periodPass, h.filterPass]

/-! ## Assemblies write stable queries -/

/-- A query without a FROM marker outside its regions is stable. -/
theorem stable_of_none {s : Text} (ht : TokenFree s) (hs : trimStart s = s) (he : trimEnd s = s)
    (hm : ∀ d₁ d₂, divide s ≠ d₁ ++ Division.plain fromMarker ++ d₂) : (Outer.of s).Stable s := by
  refine ⟨?_, bare_closed hs he, rfl⟩
  have h : (Outer.of s).merge [] = .ok (s ++ [';']) := merge_of_none ht hm
  rw [Outer.merge_nil] at h
  exact Except.ok.inj h

/-- The conditions of a request without filter values are predicates. -/
theorem Merges.predicate (h : a.Merges t r P F) (hf : ∀ c ∈ a.options.submissionFallback, isWord c = true)
    (hv : r.filters.values = []) : ∀ c ∈ F ++ P, Predicate (trim c) := by
  intro c hc
  rcases List.mem_append.mp hc with hc | hc
  · obtain ⟨s, -, hF⟩ := h.filters
    have := predicate_conditions hv (fun _ => isNameChar_of_outerAlias?) hF c hc
    rwa [this.trim]
  · exact predicate_of_periodConditions hf h.period c hc

/-- Without filter values, an assembly that merges no tokens writes a stable query. -/
theorem exists_stable (ht : TokenFree t) (hf : ∀ c ∈ a.options.submissionFallback, isWord c = true)
    (hr : a.isMaster r.category = false) (hv : r.filters.values = []) (hout : a.assemble t r = .ok out)
    (h : a.Merges t r P F) (hc : ∀ c ∈ P ++ F, TokenFree c)
    (hm : fromClause? (Outer.of (bare t)).head = some (head, rest)) (hq : KeywordsOutside head rest) :
    ∃ (o : Outer) (u : Text), o.Stable u ∧ out = u ++ [';'] := by
  obtain ⟨t', rest₁, hpass, hbare, hof, -, hagain⟩ :=
    exists_first_pass hr ht hf hm hq h.period (fun c hP => hc c (by simp [hP])) (h.not_overflows hr)
  obtain ⟨d, hd⟩ := exists_source (ht.within (bare_within t)) (trimStart_bare t) (trimEnd_bare t) hm
  -- both passes together fill one gap of the template
  obtain ⟨rest₂, hfill⟩ := exists_filled (trimEnd_head hd.marker) (conjunction (F ++ P)) rest
  have hfree : TokenFree (conjunction (F ++ P)) :=
    tokenFree_conjunction fun c hmem => hc c (by simpa [or_comm] using hmem)
  obtain ⟨d₂, hd₂⟩ := hd.fill (predicate_conjunction (h.predicate hf hv)) hfree hq hfill
  refine ⟨_, d₂.text, hd₂.stable, ?_⟩
  rw [h.assemble hr hpass, hbare, hof, Outer.merge_eq_ok_iff] at hout
  obtain ⟨ho, hclose⟩ := hout
  have hboth : merged (head ++ rest) (F ++ P) = merged (head ++ rest₁) F :=
    (mergeWhere_eq_ok_iff.mp ((hagain F).symm.trans (mergeWhere_eq_ok ho))).2
  rw [← hclose, ← hd₂.stable.close]
  simp only [← hboth, merged_filled hd.marker hd.divide hfill]
  rfl

/-- Assembling the output of an assembly without filter values again, without conditions, gives
    the same query.

    Two things are asked. No keyword that conditions are merged at stands in a literal: a
    predicate merged there can bring out a GROUP BY that a comment hid. And no condition holds a
    token, which swapping regions back would take for the place of a sub-query. -/
theorem assemble_assemble (ht : TokenFree t) (hf : ∀ c ∈ a.options.submissionFallback, isWord c = true)
    (hr : a.isMaster r.category = false) (hv : r.filters.values = []) (hout : a.assemble t r = .ok out)
    (h : a.Merges t r P F) (hc : ∀ c ∈ P ++ F, TokenFree c)
    (hq : ∀ head rest, fromClause? (Outer.of (bare t)).head = some (head, rest) → KeywordsOutside head rest) :
    a.assemble out .empty = .ok out := by
  have hs := ht.within (bare_within t)
  rcases Division.unmarked_or_exists_markedAt (divide (bare t)) with hm | ⟨d₁, d₂, hmark⟩
  · rw [assemble_of_none ht hr h hm] at hout
    cases hout
    exact (stable_of_none hs (trimStart_bare t) (trimEnd_bare t) hm).assemble_empty
  · obtain ⟨head, _, rest, -, hcut⟩ := exists_marked hmark.joins
    obtain ⟨o, u, hu, rfl⟩ := exists_stable ht hf hr hv hout h hc hcut (hq head rest hcut)
    exact hu.assemble_empty

end

/-- A comment hides a GROUP BY, and the one that is there stands behind a LIMIT. -/
theorem assemble_assemble_grouped :
    let t := "-- FROM clause\nFROM users u, (-- subquery start LIMIT 1 -- subquery end) v LIMIT 5 -- GROUP BY v\n".toList ++
      "  GROUP BY u.id ;".toList
    let a : Assembler := ⟨⟨2025, 6, 15, by decide⟩, Options.default⟩
    let r : Request := ⟨"当日".toList, "登録日時".toList, "TRUE".toList, false, [], .empty⟩
    let P := [" DATE(u.created_at) = '2025-06-15'".toList]
    let F := ["u.deleted_at IS NULL".toList]
    let out := "-- FROM clause\nFROM users u, (-- subquery start LIMIT 1 -- subquery end) v\n".toList ++
      "WHERE u.deleted_at IS NULL AND DATE(u.created_at) = '2025-06-15'\nLIMIT 5 -- GROUP BY v\nGROUP BY u.id;".toList
    TokenFree t ∧ (∀ c ∈ a.options.submissionFallback, isWord c = true) ∧ a.isMaster r.category = false ∧
      r.filters.values = [] ∧ a.assemble t r = .ok out ∧ a.Merges t r P F ∧ (∀ c ∈ P ++ F, TokenFree c) ∧
      (∀ head rest, fromClause? (Outer.of (bare t)).head = some (head, rest) → KeywordsOutside head rest) ∧
      a.assemble out .empty = .ok out := by
  repeat rw [String.toList_ofList]
  intro t a r P F out
  have ht : TokenFree t := by decide +kernel
  have hf : ∀ c ∈ a.options.submissionFallback, isWord c = true := List.all_eq_true.mp (by decide)
  have hr : a.isMaster r.category = false := by decide +kernel
  have hout : a.assemble t r = .ok out := eq_ok_of_toOption (by decide +kernel)
  have hP : a.periodConditions (bare t) r.periodCondition r.periodCriterion = .ok P := eq_ok_of_toOption (by decide +kernel)
  let s := "-- FROM clause\nFROM users u, (-- subquery start LIMIT 1 -- subquery end) v\n".toList ++
    "WHERE DATE(u.created_at) = '2025-06-15'\nLIMIT 5 -- GROUP BY v\nGROUP BY u.id;".toList
  have hs : a.periodPass t r.periodCondition r.periodCriterion r.category = .ok s := eq_ok_of_toOption (by decide +kernel)
  have hM : a.Merges t r P F := ⟨hP, s, hs, eq_ok_of_toOption (by decide +kernel)⟩
  have hc : ∀ c ∈ P ++ F, TokenFree c := by decide +kernel
  have hq : ∀ p, fromClause? (Outer.of (bare t)).head = some p → KeywordsOutside p.1 p.2 := by
    have hm : fromClause? (Outer.of (bare t)).head =
        some (fromMarker, "\nFROM users u, (__SUBQUERY_PLACEHOLDER_0__) v LIMIT 5 -- GROUP BY v".toList) := by decide +kernel
    rw [hm]
    rintro p ⟨rfl⟩
    decide +kernel
  exact ⟨ht, hf, hr, rfl, hout, hM, hc, fun head rest h => hq (head, rest) h,
    assemble_assemble ht hf hr rfl hout hM hc fun head rest h => hq (head, rest) h⟩

end ExportQuery.Assembler
