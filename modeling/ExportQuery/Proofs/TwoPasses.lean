/-
  ExportQuery.Proofs.TwoPasses — merging in two passes is merging once.

  The second pass reads the text that the first one wrote. It finds the same regions, GROUP BY
  clause, labels and alias, and the conditions it merges go before those merged already; so
  both passes together merge one list of conditions into the template.

  - `Outer.merge_eq_ok_iff`: what a pass writes.
  - `Outer.Stable`: a query that comes apart as it was put together.
  - `Source.exists_view` / `Source.fill`: what merging conditions leaves of a query.
  - `exists_first_pass`: the first pass writes one.
  - `assemble_one_merge`: an assembly is one merge.
-/

import ExportQuery.Proofs.Labels
import ExportQuery.Proofs.Query
import ExportQuery.Proofs.View

namespace ExportQuery.Assembler

open ExportQuery.Text ExportQuery.Sql ExportQuery.Period ExportQuery.Filter ExportQuery.Assembly

/-! ## Merging into a query -/

section

variable {o : Outer} {cs : List Text}

theorem Outer.merge_eq_ok (h : ¬ Overflows o.head cs) : o.merge cs = .ok (o.close (merged o.head cs)) := by
  rw [Outer.merge, mergeWhere_eq_ok h]
  rfl

theorem Outer.merge_eq_error (h : Overflows o.head cs) : o.merge cs = .error (.overflow .index) := by
  rw [Outer.merge, mergeWhere_eq_error h]
  rfl

theorem Outer.merge_eq_ok_iff {t : Text} : o.merge cs = .ok t ↔ ¬ Overflows o.head cs ∧ o.close (merged o.head cs) = t := by
  by_cases ho : Overflows o.head cs
  · simp [Outer.merge_eq_error ho, ho]
  · simp [Outer.merge_eq_ok ho, ho]

theorem Outer.merge_nil (o : Outer) : o.merge [] = .ok (o.close o.head) := by
  rw [Outer.merge_eq_ok (not_overflows_blank rfl), merged_blank rfl]

end

/-! ## Stable queries -/

/-- `t` is the query that `o` closes to, and it comes apart into `o` again. -/
structure Outer.Stable (o : Outer) (t : Text) : Prop where
  close : o.close o.head = t ++ [';']
  bare : bare (t ++ [';']) = t
  again : Outer.of t = o

section

variable {o : Outer} {s head rest clause : Text} {d : Division}

theorem outer_of_sound (h : Sound d) :
    Outer.of d.text = ⟨(extractGroupBy (d.outerAt token 0)).1, (extractGroupBy (d.outerAt token 0)).2, d.bodies⟩ := by
  unfold Outer.of
  rw [h.extract]

theorem stable_of_sound (h : Sound d) (hb : d.bodies = o.bodies) (hv : d.outerAt token 0 = restoreGroupBy o.head o.groupBy)
    (hx : extractGroupBy (restoreGroupBy o.head o.groupBy) = (o.head, o.groupBy)) : o.Stable d.text := by
  refine ⟨?_, h.bare, ?_⟩
  · rw [Outer.close, ← hv, ← hb, h.restore]
  · rw [outer_of_sound h, hv, hx, hb]

/-- A query that can be put together from `o`, whose text behind the FROM marker is `rest`. -/
structure Source (o : Outer) (head rest : Text) (d : Division) : Prop where
  sound : Sound d
  bodies : d.bodies = o.bodies
  view : d.outerAt token 0 = restoreGroupBy o.head o.groupBy
  marker : fromClause? (head ++ rest) = some (head, rest)
  text : o.head = head ++ rest
  ends : EndsInInk (head ++ rest)
  grouped : Grouped head rest o.groupBy

theorem Source.stable (h : Source o head rest d) : o.Stable d.text := by
  refine stable_of_sound h.sound h.bodies h.view ?_
  rw [h.text]
  exact extractGroupBy_restoreGroupBy h.marker h.ends h.grouped

theorem Source.head_ne_nil (h : Source o head rest d) : head ≠ [] := by
  obtain ⟨t, ht⟩ := (fromClause_joins h.marker).2
  intro h0
  rw [h0] at ht
  exact absurd (List.append_eq_nil_iff.mp ht).2 (by decide)

/-- The text behind the marker holds no region any more. -/
theorem Source.divide (h : Source o head rest d) : divide rest = Division.plain rest := by
  obtain ⟨f, -, hf⟩ := restoreGroupBy_eq o.groupBy
  refine divide_view Division.tokens_token h.sound.proper ⟨head, f ++ o.groupBy, ?_⟩
  rw [h.view, h.text, hf _ h.ends]

/-- Merging into it overflows only when there are as many regions as words. -/
theorem Source.not_overflows (h : Source o head rest d) (hcount : d.count < indexLimit) (cs : List Text) :
    ¬ Overflows o.head cs := by
  obtain ⟨f, hf, hclause⟩ := restoreGroupBy_eq o.groupBy
  have hview : d.outerAt token 0 = head ++ rest ++ (f ++ o.groupBy) := by rw [h.view, h.text, hclause _ h.ends]
  have hseam : Seam (head ++ rest) (f ++ o.groupBy) := by
    apply Or.inr
    rcases hf with ⟨rfl, hg⟩ | ⟨rfl, -⟩
    · rw [hg]; rfl
    · rfl
  intro ho
  rw [h.text, overflows_plain_iff h.marker h.divide, ← mem_tokenIndices_iff] at ho
  have hmem : indexLimit - 1 ∈ tokenIndices (d.outerAt token 0) := by
    rw [hview, tokenIndices_append hseam]
    exact List.mem_append_left _ ho.2
  have := Division.lt_of_mem_tokenIndices_view h.sound.free hmem
  omega

theorem exists_source (hf : TokenFree s) (hs : trimStart s = s) (he : trimEnd s = s)
    (hm : fromClause? (Outer.of s).head = some (head, rest)) : ∃ d, Source (Outer.of s) head rest d := by
  have h0 : s ≠ [] := by
    rintro rfl
    have : fromClause? (Outer.of []).head = none := by decide +kernel
    rw [this] at hm; cases hm
  have h := sound_divide hf hs he h0
  have ho := outer_of_sound h
  rw [divide_joins] at ho
  rw [ho] at hm ⊢
  obtain ⟨d, clause, hx, hd, hb, hv, hi, hg⟩ := h.regroup hm
  rw [hx] at hm ⊢
  exact ⟨d, hd, hb, hv, hm, rfl, hi, hg⟩

/-- Merging a condition leaves the regions and the GROUP BY clause. -/
theorem Source.exists_view {J rest' : Text} (h : Source o head rest d) (hJ : J ≠ [] → Trimmed J) (hm : J ≠ [] → MarkerFree J)
    (hf : TokenFree J) (hfill : Filled head J rest rest') :
    ∃ d', Sound d' ∧ d'.bodies = o.bodies ∧ d'.outerAt token 0 = restoreGroupBy (head ++ rest') o.groupBy ∧
      EndsInInk (head ++ rest') := by
  have hview := h.text ▸ h.view
  cases hfill with
  | same blank => exact ⟨d, h.sound, h.bodies, hview, h.ends⟩
  | placed condition placed widest =>
    have hJ := hJ condition
    obtain ⟨d', hd, hb, hv⟩ := h.sound.merge hview h.ends h.head_ne_nil placed widest.blank hJ (hm condition) hf
    exact ⟨d', hd, hb.trans h.bodies, hv, placed.endsInInk hJ h.ends⟩

/-- Merging a predicate makes another query that comes apart as it is put together. -/
theorem Source.fill {J rest' : Text} (h : Source o head rest d) (hJ : J ≠ [] → Predicate J) (hf : TokenFree J)
    (hq : KeywordsOutside head rest) (hfill : Filled head J rest rest') :
    ∃ d', Source { o with head := head ++ rest' } head rest' d' := by
  obtain ⟨d', hd, hb, hv, hi⟩ := h.exists_view (fun h0 => (hJ h0).toTrimmed) (fun h0 => (hJ h0).markerFree) hf hfill
  refine ⟨d', hd, hb, hv, fromClause?_congr h.marker _, rfl, hi, ?_⟩
  cases hfill with
  | same blank => exact h.grouped
  | placed condition placed widest => exact h.grouped.edit placed widest.blank (hJ condition) hq

end

/-! ## The first pass -/

/-- The conditions of a period: one at most, none when it is blank or selects no window. -/
def periodConditions (a : Assembler) (s condition label : Text) : Except Failure (List Text) :=
  if (trim condition).isEmpty then .ok []
  else
    match Criterion.ofLabel? label with
    | none => .error (.invalidCriterion (trim label))
    | some criterion => (a.periodSql s (Outer.of s) condition criterion).map fun sql => if sql.isEmpty then [] else [sql]

section

variable {a : Assembler} {t condition label category head rest table after : Text} {P : List Text}

theorem periodConditions_cases {s : Text} (hP : a.periodConditions s condition label = .ok P) :
    (trim condition).isEmpty = true ∧ P = [] ∨
      (trim condition).isEmpty = false ∧ ∃ criterion sql, Criterion.ofLabel? label = some criterion ∧
        a.periodSql s (Outer.of s) condition criterion = .ok sql ∧ P = if sql.isEmpty then [] else [sql] := by
  unfold periodConditions at hP
  split at hP
  · rename_i hb
    simp only [Except.ok.injEq] at hP
    exact Or.inl ⟨hb, hP.symm⟩
  · rename_i hb
    split at hP
    · cases hP
    · rename_i criterion hc
      obtain ⟨sql, hs, rfl⟩ := exists_of_map hP
      exact Or.inr ⟨by simpa using hb, criterion, sql, hc, hs, rfl⟩

/-- The first pass merges the condition of the period. -/
theorem periodPass_eq (hr : a.isMaster category = false) (hP : a.periodConditions (bare t) condition label = .ok P) :
    a.periodPass t condition label category =
      if (trim condition).isEmpty then .ok (bare t ++ [';']) else (Outer.of (bare t)).merge P := by
  unfold periodPass
  simp only [hr, Bool.false_or]
  rcases periodConditions_cases hP with ⟨hb, -⟩ | ⟨hb, criterion, sql, hc, hs, rfl⟩
  · rw [if_pos hb, if_pos hb]
  · rw [if_neg (by simp [hb]), if_neg (by simp [hb])]
    simp only [hc, hs]
    by_cases h0 : sql.isEmpty = true
    · rw [if_pos h0, if_pos h0, Outer.merge_nil]
    · rw [if_neg h0, if_neg h0]

/-- It is refused what its condition is. -/
theorem periodPass_refused {f : Failure} (hr : a.isMaster category = false)
    (hP : a.periodConditions (bare t) condition label = .error f) :
    a.periodPass t condition label category = .error (.refused f) := by
  unfold periodConditions at hP
  unfold periodPass
  simp only [hr, Bool.false_or]
  by_cases hb : (trim condition).isEmpty = true
  · rw [if_pos hb] at hP; cases hP
  rw [if_neg hb] at hP ⊢
  cases hc : Criterion.ofLabel? label with
  | none =>
    rw [hc] at hP
    cases hP
    rfl
  | some criterion =>
    simp only [hc] at hP ⊢
    cases hs : a.periodSql (bare t) (Outer.of (bare t)) condition criterion with
    | error g =>
      rw [hs] at hP
      cases hP
      rfl
    | ok sql => rw [hs] at hP; cases hP

theorem exists_periodPass (hr : a.isMaster category = false) (hP : a.periodConditions (bare t) condition label = .ok P)
    (ho : ¬ Overflows (Outer.of (bare t)).head P) : ∃ s, a.periodPass t condition label category = .ok s := by
  rw [periodPass_eq hr hP]
  split
  · exact ⟨_, rfl⟩
  · exact ⟨_, Outer.merge_eq_ok ho⟩

theorem periodPass_overflow (hr : a.isMaster category = false) (hP : a.periodConditions (bare t) condition label = .ok P)
    (ho : Overflows (Outer.of (bare t)).head P) : a.periodPass t condition label category = .error (.overflow .index) := by
  have hasked : ¬ (trim condition).isEmpty = true := by
    intro hb
    rcases periodConditions_cases hP with ⟨-, rfl⟩ | ⟨hb', -⟩
    · exact ho.1 rfl
    · rw [hb] at hb'; cases hb'
  rw [periodPass_eq hr hP, if_neg hasked, Outer.merge_eq_error ho]

/-- The condition of a period is a predicate. -/
theorem predicate_of_periodConditions {s : Text} (hf : ∀ c ∈ a.options.submissionFallback, isWord c = true)
    (hP : a.periodConditions s condition label = .ok P) : ∀ c ∈ P, Predicate (trim c) := by
  rcases periodConditions_cases hP with ⟨-, rfl⟩ | ⟨-, criterion, sql, -, hs, rfl⟩
  · simp
  · rcases predicate_periodSql hf hs with rfl | ⟨p, rfl, hp⟩
    · simp
    · have htrim : trim (' ' :: p) = p := hp.trim
      simpa [htrim] using hp

/-- Conditions that are predicates are one, put together. -/
theorem predicate_conjunction {cs : List Text} (h : ∀ c ∈ cs, Predicate (trim c)) (h0 : conjunction cs ≠ []) :
    Predicate (conjunction cs) :=
  conjunction_induction h0 (fun c hc _ => h c hc)
    fun _ _ hp hq => hp.connect hq (mild_words (by decide)) ⟨' ', by decide, by decide⟩

/-- What the first pass writes unless it overflows, as the second pass reads it: conditions that
    are predicates leave the rest of the query. -/
theorem exists_first_pass_of_predicate (hr : a.isMaster category = false) (ht : TokenFree t)
    (hp : ∀ c ∈ P, Predicate (trim c))
    (hm : fromClause? (Outer.of (bare t)).head = some (head, rest)) (hq : KeywordsOutside head rest)
    (hP : a.periodConditions (bare t) condition label = .ok P) (hPf : ∀ c ∈ P, TokenFree c)
    (ho : ¬ Overflows (Outer.of (bare t)).head P) :
    ∃ t' rest', a.periodPass t condition label category = .ok (t' ++ [';']) ∧ bare (t' ++ [';']) = t' ∧
      Outer.of t' = { Outer.of (bare t) with head := head ++ rest' } ∧ Filled head (conjunction P) rest rest' ∧
      ∀ F, mergeWhere (head ++ rest') F = mergeWhere (head ++ rest) (F ++ P) := by
  have hpass := periodPass_eq hr hP
  have hs := trimStart_bare t
  have he := trimEnd_bare t
  obtain ⟨d, hd⟩ := exists_source (ht.within (bare_within t)) hs he hm
  by_cases hb : (trim condition).isEmpty = true
  · -- the query as it was
    have hP : P = [] := by
      simp only [periodConditions, if_pos hb, Except.ok.injEq] at hP
      exact hP.symm
    rw [if_pos hb] at hpass
    refine ⟨bare t, rest, hpass, bare_closed hs he, ?_, .same (by rw [hP]; rfl), fun F => by rw [hP, List.append_nil]⟩
    rw [← hd.text]
  · -- conditions merged, and the GROUP BY clause on a line of its own
    rw [if_neg hb] at hpass
    obtain ⟨rest', hfill⟩ := exists_filled (trimEnd_head hd.marker) (conjunction P) rest
    obtain ⟨d', hd'⟩ := hd.fill (predicate_conjunction hp) (tokenFree_conjunction hPf) hq hfill
    have hclose : (Outer.of (bare t)).close (head ++ rest') = d'.text ++ [';'] := hd'.stable.close
    rw [Outer.merge_eq_ok ho, hd.text, merged_filled hd.marker hd.divide hfill, hclose] at hpass
    rw [hd.text] at ho
    exact ⟨d'.text, rest', hpass, hd'.stable.bare, hd'.stable.again, hfill,
      mergeWhere_again_filled hd.marker hd.divide hd'.divide (tokenFree_conjunction hPf) hfill ho⟩

theorem exists_first_pass (hr : a.isMaster category = false) (ht : TokenFree t)
    (hf : ∀ c ∈ a.options.submissionFallback, isWord c = true)
    (hm : fromClause? (Outer.of (bare t)).head = some (head, rest)) (hq : KeywordsOutside head rest)
    (hP : a.periodConditions (bare t) condition label = .ok P) (hPf : ∀ c ∈ P, TokenFree c)
    (ho : ¬ Overflows (Outer.of (bare t)).head P) :
    ∃ t' rest', a.periodPass t condition label category = .ok (t' ++ [';']) ∧ bare (t' ++ [';']) = t' ∧
      Outer.of t' = { Outer.of (bare t) with head := head ++ rest' } ∧ Filled head (conjunction P) rest rest' ∧
      ∀ F, mergeWhere (head ++ rest') F = mergeWhere (head ++ rest) (F ++ P) :=
  exists_first_pass_of_predicate hr ht (predicate_of_periodConditions hf hP) hm hq hP hPf ho

end

/-! ## Labels and alias -/

section

variable {head rest rest' J table after : Text}

/-- Merging a predicate leaves the labels of the projections. -/
theorem columns_filled (h : Filled head J rest rest') (hJ : J ≠ [] → Predicate J) (hh : fromMarker <:+ head)
    (hquote : '"' ∉ rest) :
    columns (head ++ rest') = columns (head ++ rest) := by
  cases h with
  | same blank => rfl
  | placed condition placed widest =>
    have hins := (placed.mild (hJ condition)).unquoted
    refine columns_congr hh ?_ hquote
    simp only [List.mem_append, not_or] at hquote ⊢
    exact ⟨⟨hquote.1.1, hins⟩, hquote.2⟩

/-- It leaves the alias of the outer table. -/
theorem outerAlias?_filled (h : Filled head J rest rest') (hJ : J ≠ [] → Predicate J)
    (hm : fromClause? (head ++ rest) = some (head, rest)) (htable : outerTable? (head ++ rest) = some (table, after))
    (hparts : ∀ part ∈ table.splitOn '.', isNonAlias part = false)
    (hlong : ∀ w, aliasAfter? after = some w → Spells "AS".toList w → isNonAlias w = true) :
    outerAlias? (head ++ rest') = outerAlias? (head ++ rest) := by
  cases h with
  | same blank => rfl
  | @placed a w b ins condition placed widest =>
    have hseek : seekSome tableAt? [] (a ++ w ++ b) = some (table, after) := by
      rw [outerTable?, hm] at htable
      exact htable
    obtain ⟨after', hat, hown, -⟩ := (placed.beside widest (hJ condition)).table_edit hseek hparts
    have hown := hown fun _ k hl => by
      have hk := hlong k (Option.filter_eq_some_iff.mp hl.ownAlias?).1 hl.spelt
      rw [hl.taken] at hk; cases hk
    rw [outerAlias?_eq (fromClause?_congr hm _), outerAlias?_eq hm, hat, hseek]
    simp only [Option.map_some, hown]

end

/-! ## Both passes -/

/-- An assembly merges the conditions of filters and period, in this order, into the template. It
    writes a query unless there are as many regions as words.

    The exceptions are these. A table name with a keyword for one of its parts, or an alias that
    spells AS with a long s, reads otherwise once a condition stands behind it. Double quotes
    behind the FROM marker could end a label that a condition stands in. A keyword in a literal is
    one for the first pass, and the second finds another. And a condition that holds a token is
    taken for the place of a sub-query. -/
theorem assemble_one_merge {a : Assembler} {t : Text} {r : Request} {head rest table after : Text} {P F : List Text}
    (hr : a.isMaster r.category = false) (ht : TokenFree t) (hf : ∀ c ∈ a.options.submissionFallback, isWord c = true)
    (hm : fromClause? (Outer.of (bare t)).head = some (head, rest))
    (htable : outerTable? (Outer.of (bare t)).head = some (table, after))
    (hparts : ∀ part ∈ table.splitOn '.', isNonAlias part = false)
    (hlong : ∀ w, aliasAfter? after = some w → Spells "AS".toList w → isNonAlias w = true) (hquote : '"' ∉ rest)
    (hq : KeywordsOutside head rest)
    (hP : a.periodConditions (bare t) r.periodCondition r.periodCriterion = .ok P) (hPf : ∀ c ∈ P, TokenFree c)
    (hF : conditions (columns (Outer.of (bare t)).head) r.filters r.deletionFlag r.skipDeletion
      (outerAlias? (Outer.of (bare t)).head) = .ok F) :
    a.assemble t r = (Outer.of (bare t)).merge (F ++ P) ∧
      ((divide (bare t)).count < indexLimit → ∃ out, a.assemble t r = .ok out) := by
  have hmerge : a.assemble t r = (Outer.of (bare t)).merge (F ++ P) := by
    by_cases ho : Overflows (Outer.of (bare t)).head P
    · rw [assemble, periodPass_overflow hr hP ho, Outer.merge_eq_error ho.append]
    · obtain ⟨t', rest', hpass, hbare, hof, hfill, hagain⟩ := exists_first_pass hr ht hf hm hq hP hPf ho
      have hJ := predicate_conjunction (predicate_of_periodConditions hf hP)
      obtain ⟨hhead, hmark⟩ := fromClause_joins hm
      rw [hhead] at hm htable hF
      have hcols := columns_filled hfill hJ hmark hquote
      have halias := outerAlias?_filled hfill hJ hm htable hparts hlong
      rw [assemble, hpass]
      simp only [filterPass, hr, hbare, hof, hcols, halias, hF, Outer.merge, hagain, hhead]
      rfl
  refine ⟨hmerge, fun hcount => ?_⟩
  obtain ⟨d, hd⟩ := exists_source (ht.within (bare_within t)) (trimStart_bare t) (trimEnd_bare t) hm
  have hlength : d.count = (divide (bare t)).count := Division.count_congr hd.bodies
  exact ⟨_, hmerge.trans (Outer.merge_eq_ok (hd.not_overflows (hlength ▸ hcount) _))⟩

/-- A region ahead of the WHERE that both passes extend, and a GROUP BY behind it. -/
theorem assemble_one_merge_extending :
    let t := "SELECT u.name AS \"Name\"\n-- FROM clause\n".toList ++
      "FROM app.users AS u, (-- subquery start WHERE 1 -- subquery end) v\n".toList ++
      "WHERE u.a = 'x' -- ORDER BY\n  GROUP BY u.id;".toList
    let a : Assembler := ⟨⟨2025, 6, 15, by decide⟩, Options.default⟩
    let r : Request := ⟨"当日".toList, "登録日時".toList, "TRUE".toList, false, [], ⟨[("Name".toList, .string ['y'])], []⟩⟩
    let o := Outer.of (bare t)
    let P := [" DATE(u.created_at) = '2025-06-15'".toList]
    let F := ["u.name = 'y'".toList, "u.deleted_at IS NULL".toList]
    a.isMaster r.category = false ∧ TokenFree t ∧ (∀ c ∈ a.options.submissionFallback, isWord c = true) ∧
      (fromClause? o.head).isSome = true ∧ (outerTable? o.head).map (·.1) = some "app.users".toList ∧
      a.periodConditions (bare t) r.periodCondition r.periodCriterion = .ok P ∧
      conditions (columns o.head) r.filters r.deletionFlag r.skipDeletion (outerAlias? o.head) = .ok F ∧
      ∃ out, o.merge (F ++ P) = .ok out ∧ a.assemble t r = .ok out := by
  repeat rw [String.toList_ofList]
  intro t a r o P F
  have hr : a.isMaster r.category = false := by decide +kernel
  have ht : TokenFree t := by decide +kernel
  have hf : ∀ c ∈ a.options.submissionFallback, isWord c = true := List.all_eq_true.mp (by decide)
  let head := "SELECT u.name AS \"Name\"\n-- FROM clause".toList
  let after := " AS u, (__SUBQUERY_PLACEHOLDER_0__) v\nWHERE u.a = 'x' -- ORDER BY".toList
  let rest := "\nFROM app.users".toList ++ after
  have hm : fromClause? o.head = some (head, rest) := by decide +kernel
  have htable : outerTable? o.head = some ("app.users".toList, after) := by decide +kernel
  have halias : aliasAfter? after = some ['u'] := by decide +kernel
  have hP : a.periodConditions (bare t) r.periodCondition r.periodCriterion = .ok P := eq_ok_of_toOption (by decide +kernel)
  have hF : conditions (columns o.head) r.filters r.deletionFlag r.skipDeletion (outerAlias? o.head) = .ok F :=
    eq_ok_of_toOption (by decide +kernel)
  refine ⟨hr, ht, hf, by rw [hm]; rfl, by rw [htable]; rfl, hP, hF, ?_⟩
  have hlong : ∀ w, aliasAfter? after = some w → Spells "AS".toList w → isNonAlias w = true := by
    intro w hw hs
    rw [halias] at hw
    cases hw
    exact absurd hs.length_eq (by decide)
  obtain ⟨hmerge, hends⟩ := assemble_one_merge hr ht hf hm htable (by decide +kernel) hlong (by decide +kernel)
    (by decide +kernel) hP (by decide +kernel) hF
  obtain ⟨out, hout⟩ := hends (by decide +kernel)
  exact ⟨out, hmerge.symm.trans hout, hout⟩

end ExportQuery.Assembler
