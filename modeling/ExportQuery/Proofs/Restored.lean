/-
  ExportQuery.Proofs.Restored — every token is swapped back.

  The view of a query holds one token for each region. Merging conditions that hold none, and
  putting the GROUP BY clause on a line of its own, leaves those tokens; so swapping them back
  leaves none. Conditions hold no token when a request holds none and neither the alias nor the
  columns read off the views do: a token copied into a condition is left over, since swapping
  back puts each body where its token stands first.

  - `Restorable`: divisions whose regions can be swapped back.
  - `Copied`: what is read off a view and written into a condition.
  - `tokenFree_pass`: a pass that merges no tokens leaves none.
  - `assemble_tokenFree`: neither does an assembly.
-/

import ExportQuery.Proofs.Condition
import ExportQuery.Proofs.Frame

namespace ExportQuery.Sql

open ExportQuery.Text

/-! ## Edits of the view -/

/-- A division without tokens in its text, whose bodies tokens cannot run into. -/
structure Restorable (d : Division) : Prop where
  fenced : d.Fenced
  free : TokenFree d.text

section

variable {d : Division} {a w b ins : Text}

theorem Sound.restorable (h : Sound d) : Restorable d := ⟨h.proper.fenced, h.free⟩

theorem Restorable.restore (h : Restorable d) : restoreRegions (d.outerAt token 0) d.bodies = d.text :=
  Division.restoreFrom_of_tokenFree Division.tokens_token h.fenced h.free

/-- Filling a gap of the view with text that holds no token. -/
theorem Restorable.edit (h : Restorable d) (e : d.outerAt token 0 = a ++ w ++ b) (hg : Gap a w b) (hf : Filler ins b)
    (hi : TokenFree ins) : ∃ d', Restorable d' ∧ d'.bodies = d.bodies ∧ d'.outerAt token 0 = a ++ ins ++ b := by
  have hfence := h.fenced
  obtain ⟨d₁, d₂, rfl, rfl, rfl, hfree⟩ := exists_edit hfence h.free e hg hf hi
  exact ⟨d₁ ++ Division.plain ins ++ d₂, ⟨fun b hb => hfence b (by simpa using hb), hfree⟩, by simp, by simp⟩

end

end ExportQuery.Sql

namespace ExportQuery.Assembler

open ExportQuery.Text ExportQuery.Sql ExportQuery.Period ExportQuery.Filter ExportQuery.Assembly

section

variable {a : Assembler} {t s : Text} {r : Request} {P F cs : List Text}

/-! ## One pass -/

theorem tokenFree_semicolon {u : Text} (h : TokenFree u) : TokenFree (u ++ [';']) := (h.sep (separator_of (by decide))).free

/-- A pass over a query without tokens that merges conditions without tokens. -/
theorem tokenFree_pass {u : Text} (ht : TokenFree s) (hs : trimStart s = s) (he : trimEnd s = s) (hc : ∀ c ∈ cs, TokenFree c)
    (hu : (Outer.of s).merge cs = .ok u) : TokenFree u := by
  rcases Division.unmarked_or_exists_markedAt (divide s) with hm | ⟨d₁, d₂, hmark⟩
  · rw [merge_of_none ht hm] at hu
    rw [← Except.ok.inj hu]
    exact tokenFree_semicolon ht
  · obtain ⟨-, rfl⟩ := Outer.merge_eq_ok_iff.mp hu
    obtain ⟨head, _, rest, -, hcut⟩ := exists_marked hmark.joins
    obtain ⟨d, hd⟩ := exists_source ht hs he hcut
    by_cases hj : conjunction cs = []
    · rw [merged_blank hj, hd.stable.close]
      exact tokenFree_semicolon hd.sound.free
    · obtain ⟨x, w, b, ins, rfl, hp, hw⟩ := exists_placed (trimEnd_head hd.marker) (conjunction cs) rest
      obtain ⟨r, e₁, e₂, hg, hf, -⟩ := hp.regroup hw.blank (trimmed_conjunction hj) hd.ends (Outer.of s).groupBy
      have hview : d.outerAt token 0 = (head ++ x) ++ w ++ (b ++ r) := by rw [hd.view, hd.text, e₁]
      obtain ⟨d', hd', hb, ho⟩ :=
        hd.sound.restorable.edit hview hg hf (hp.tokenFree_filling.mpr (tokenFree_conjunction hc))
      have hclose : (Outer.of s).close (head ++ (x ++ ins ++ b)) = d'.text ++ [';'] := by
        rw [Outer.close, e₂, ← ho, ← hd.bodies, ← hb, hd'.restore]
      rw [hd.text, merged_placed hd.marker hd.divide hj hp hw rfl, hclose]
      exact tokenFree_semicolon hd'.free

/-! ## Both passes -/

/-- `x` is read off the view of a pass and written into a condition that the pass merges: the
    alias of the outer table into that of the period or into the exclusion of deleted rows, the
    column of a label into those of a filter. -/
inductive Copied (a : Assembler) (t : Text) (r : Request) (x : Text) : Prop
  | period {criterion : Criterion} (reads : Criterion.ofLabel? r.periodCriterion = some criterion)
      (source : criterion.aliasSource = .outerTable) (writes : (window? a.today r.periodCondition).isSome = true)
      (found : outerAlias? (Outer.of (bare t)).head = some x)
  | deletion {s : Text} (pass : a.periodPass t r.periodCondition r.periodCriterion r.category = .ok s)
      (writes : (!r.skipDeletion && isTrue r.deletionFlag) = true) (found : outerAlias? (Outer.of (bare s)).head = some x)
  | column {s : Text} {m : Text × Json.Value} {cs : List Text}
      (pass : a.periodPass t r.periodCondition r.periodCriterion r.category = .ok s) (member : m ∈ r.filters.values)
      (reads : memberConditions (columns (Outer.of (bare s)).head) r.filters m = .ok cs) (writes : cs ≠ [])
      (found : Json.get? m.1 (columns (Outer.of (bare s)).head) = some x)

/-- The conditions of a request without tokens hold none when nothing copied into them does. -/
theorem Merges.tokenFree (h : a.Merges t r P F) (ht : TokenFree t) (hf : TokenFree a.options.submissionFallback)
    (hv : ∀ m ∈ r.filters.values, ∀ u ∈ m.2.texts, TokenFree u) (hx : ∀ x, a.Copied t r x → TokenFree x) :
    (∀ c ∈ P, TokenFree c) ∧ ∀ c ∈ F, TokenFree c := by
  constructor
  · rcases periodConditions_cases h.period with ⟨-, rfl⟩ | ⟨-, criterion, sql, hc, hs, rfl⟩
    · simp
    · have := tokenFree_periodSql (ht.within (bare_within t)) hf
        (fun hsource hw x hfound => hx x (.period hc hsource hw hfound)) hs
      split
      · simp
      · simpa using this
  · obtain ⟨s, hs, hF⟩ := h.filters
    exact tokenFree_conditions hv (fun m hm cs x hcs h0 hfound => hx x (.column hs hm hcs h0 hfound))
      (fun hd x hfound => hx x (.deletion hs hd hfound)) hF

/-- An assembly of texts without tokens leaves no token, unless it copies one: swapping regions
    back puts a body into one place alone, and the other is left as a token. -/
theorem assemble_tokenFree {out : Text} (ht : TokenFree t) (hf : TokenFree a.options.submissionFallback)
    (hv : ∀ m ∈ r.filters.values, ∀ u ∈ m.2.texts, TokenFree u)
    (hx : a.isMaster r.category = false → ∀ x, a.Copied t r x → TokenFree x) (hout : a.assemble t r = .ok out) :
    TokenFree out := by
  have hbare : TokenFree (bare t) := ht.within (bare_within t)
  cases hr : a.isMaster r.category with
  | true =>
    rw [assemble_master hr] at hout
    rw [← Except.ok.inj hout]
    exact tokenFree_semicolon ((tokenFree_semicolon hbare).within (bare_within _))
  | false =>
    obtain ⟨P, F, h⟩ := exists_merges hr hout
    obtain ⟨hP, hF⟩ := h.tokenFree ht hf hv (hx hr)
    obtain ⟨s, hs, -⟩ := h.filters
    have hfree : TokenFree s := by
      have hpass := hs
      rw [periodPass_eq hr h.period] at hpass
      split at hpass
      · rw [← Except.ok.inj hpass]
        exact tokenFree_semicolon hbare
      · exact tokenFree_pass hbare (trimStart_bare t) (trimEnd_bare t) hP hpass
    rw [h.assemble hr hs] at hout
    exact tokenFree_pass (hfree.within (bare_within s)) (trimStart_bare s) (trimEnd_bare s) hF hout

end

/-- A region beside the CASE expression that a filter copies, and one in the outer FROM clause. -/
theorem assemble_tokenFree_case :
    let t := "SELECT CASE WHEN u.a THEN 1 END AS \"Kind\", (-- subquery start 2 -- subquery end) AS n\n".toList ++
      "-- FROM clause\nFROM users u JOIN (-- subquery start 3 -- subquery end) v".toList
    let a : Assembler := ⟨⟨2025, 6, 15, by decide⟩, Options.default⟩
    let r : Request := ⟨"当日".toList, "登録日時".toList, "TRUE".toList, false, [], ⟨[("Kind".toList, .string ['1'])], []⟩⟩
    let out := t ++
      "\nWHERE CASE WHEN u.a THEN 1 END = '1' AND u.deleted_at IS NULL AND DATE(u.created_at) = '2025-06-15';".toList
    TokenFree t ∧ TokenFree a.options.submissionFallback ∧ (∀ m ∈ r.filters.values, ∀ u ∈ m.2.texts, TokenFree u) ∧
      (a.isMaster r.category = false → ∀ x, a.Copied t r x → TokenFree x) ∧ a.assemble t r = .ok out ∧ TokenFree out := by
  repeat rw [String.toList_ofList]
  intro t a r out
  have ht : TokenFree t := by decide +kernel
  have hf : TokenFree a.options.submissionFallback := by decide +kernel
  have hv : ∀ m ∈ r.filters.values, ∀ u ∈ m.2.texts, TokenFree u := by decide +kernel
  have hout : a.assemble t r = .ok out := eq_ok_of_toOption (by decide +kernel)
  let s := t ++ "\nWHERE DATE(u.created_at) = '2025-06-15';".toList
  have hs : a.periodPass t r.periodCondition r.periodCriterion r.category = .ok s := eq_ok_of_toOption (by decide +kernel)
  have hx : ∀ x, a.Copied t r x → TokenFree x := by
    intro x hx
    cases hx with
    | period reads source writes found =>
      have e : outerAlias? (Outer.of (bare t)).head = some ['u'] := by decide +kernel
      rw [e] at found
      cases found
      decide +kernel
    | deletion pass writes found =>
      rw [hs] at pass
      rw [← Except.ok.inj pass] at found
      have e : outerAlias? (Outer.of (bare s)).head = some ['u'] := by decide +kernel
      rw [e] at found
      cases found
      decide +kernel
    | @column _ m _ pass member reads writes found =>
      rw [hs] at pass
      rw [← Except.ok.inj pass] at found
      obtain rfl : m = ("Kind".toList, .string ['1']) := List.mem_singleton.mp member
      have e : Json.get? "Kind".toList (columns (Outer.of (bare s)).head) = some "CASE WHEN u.a THEN 1 END".toList := by
        decide +kernel
      rw [e] at found
      cases found
      decide +kernel
  exact ⟨ht, hf, hv, fun _ => hx, hout, assemble_tokenFree ht hf hv (fun _ => hx) hout⟩

end ExportQuery.Assembler
