/-
  ExportQuery.Proofs.WhereBody — conditions ahead of the predicate of a WHERE, and ahead of none.

  Conditions go right behind the WHERE, and an AND joins them to whatever follows it but blanks.
  Nothing asks whether that is a predicate: keywords in comments are passed over, but a remark
  counts as a predicate. So behind a WHERE with nothing but remarks the AND is left without a
  second side, and only a WHERE with nothing but blanks behind it gets none.

  - `merged_behind_where`: what a merge writes where the outer query has a WHERE.
  - `Remarks`: blanks and line comments.
  - `mergeWhere_and`: when an AND follows the conditions, and what it joins.
-/

import ExportQuery.Proofs.Labels
import ExportQuery.Proofs.MergeTwice
import ExportQuery.Proofs.View

namespace ExportQuery.Sql

open ExportQuery.Text

/-! ## Behind a WHERE -/

section

variable {s head rest kw : Text} {e₁ e₂ : Division} {conditions : List Text}

/-- Where a WHERE is the first of the outer query, conditions take the place of the blanks behind it. -/
theorem merged_behind_where (hs : TokenFree s) (hm : fromClause? s = some (head, rest)) (hj : conjunction conditions ≠ [])
    (hc : ∀ c ∈ conditions, TokenFree c) (hd : divide rest = e₁ ++ Division.plain kw ++ e₂) (hk : Spells "WHERE".toList kw)
    (hw : FirstAt (opensClause [.filter]) head (e₁.outerAt (tokenFrom (indexAbove s)) 0)
      (kw ++ e₂.outerAt (tokenFrom (indexAbove s)) e₁.count)) :
    merged s conditions = head ++ e₁.text ++ kw ++
      (' ' :: conjunction conditions ++ if trimStart e₂.text = [] then [] else " AND ".toList) ++ trimStart e₂.text := by
  have hn := Division.tokens_tokenFrom (indexAbove s)
  have hproper := divide_proper rest
  obtain ⟨m, hwide, -⟩ := merged_eq hm hj
  have hresult := m.merged_result hm rfl hj ⟨m.blank, hwide.1, hwide.2⟩ hs.clean hc
  have hview :
      m.before.outerAt (tokenFrom (indexAbove s)) 0 ++ m.gap ++ m.after.outerAt (tokenFrom (indexAbove s)) m.before.count =
      e₁.outerAt (tokenFrom (indexAbove s)) 0 ++ (kw ++ e₂.outerAt (tokenFrom (indexAbove s)) e₁.count) := by
    rw [← m.view]
    simp [hd]
  rcases m.placed.inv with ⟨a, kw', ha, hk', hfirst, hins⟩ | ⟨none_opens, -⟩
  · -- the keyword ahead of the gap is the one given
    obtain ⟨rfl, hbehind⟩ := hfirst.unique hw (by rw [← hview, ha]; simp)
    rw [List.append_assoc] at hbehind
    obtain ⟨rfl, -⟩ := List.append_inj hbehind (hk'.length_eq.trans hk.length_eq.symm)
    have hjoins : m.before ++ (Division.plain m.gap ++ m.after) = e₁ ++ Division.plain kw' ++ e₂ := by
      rw [← hd, ← Division.append_assoc]
      exact m.joins.symm
    obtain ⟨hbefore, hafter⟩ := Division.append_inj hn.wordy (i := 0) hjoins (by simpa using ha)
    have hfenced := (m.fenced hproper.fenced).1
    have htrim : trimStart e₂.text = m.after.text := by
      rw [← hafter, Division.text_append, Division.text_plain]
      exact trimStart_blank_append m.blank (Division.trimStart_text hfenced hwide.2)
    rw [hresult, Merging.result, hins, hbefore, htrim]
    simp only [Division.outerAt_eq_nil_iff_text hn.wordy hfenced]
    simp
  · exact absurd hw (none_opens.not_firstAt hview)

end

/-! ## Behind an AND -/

/-- Blanks and line comments. -/
inductive Remarks : Text → Prop where
  | nil : Remarks []
  | blank {c : Char} {s : Text} (blank : isBlank c = true) (more : Remarks s) : Remarks (c :: s)
  | line {c s : Text} (one : '\n' ∉ c) (more : Remarks s) : Remarks ('-' :: '-' :: c ++ '\n' :: s)
  | last {c : Text} (one : '\n' ∉ c) : Remarks ('-' :: '-' :: c)

/-- The first ink of remarks is a pair of dashes. -/
theorem Remarks.dashes {s : Text} (h : Remarks s) (h0 : allBlank s = false) :
    ∃ w r, s = w ++ '-' :: '-' :: r ∧ allBlank w = true := by
  induction h with
  | nil => cases h0
  | @blank c s hc _ ih =>
    have h0 : allBlank s = false := by simpa [allBlank, hc] using h0
    obtain ⟨w, r, rfl, hw⟩ := ih h0
    exact ⟨c :: w, r, rfl, by simpa [allBlank, hc] using hw⟩
  | @line c s _ _ _ => exact ⟨[], c ++ '\n' :: s, rfl, rfl⟩
  | @last c _ => exact ⟨[], c, rfl, rfl⟩

section

variable {s head rest kw : Text} {e₁ e₂ : Division} {conditions : List Text}

/-- The first WHERE of the outer query has the conditions behind it after a merge. Where nothing but
    blanks stood behind it no AND follows them, and else one does. It joins them to the text that
    stood there, be it a remark: where nothing but blanks and remarks stood behind the WHERE, no
    AND follows exactly when there was no remark. -/
theorem mergeWhere_and (hs : TokenFree s) (hm : fromClause? s = some (head, rest)) (hj : ∃ c ∈ conditions, trim c ≠ [])
    (hc : ∀ c ∈ conditions, TokenFree c) (hd : divide rest = e₁ ++ Division.plain kw ++ e₂) (hk : Spells "WHERE".toList kw)
    (hw : FirstAt (opensClause [.filter]) head (e₁.outerAt (tokenFrom (indexAbove s)) 0)
      (kw ++ e₂.outerAt (tokenFrom (indexAbove s)) e₁.count)) :
    (allBlank e₂.text = true → mergeWhere s conditions = .ok (head ++ e₁.text ++ kw ++ ' ' :: conjunction conditions)) ∧
    (∀ w c r, e₂.text = w ++ c :: r → allBlank w = true → isBlank c = false →
      mergeWhere s conditions =
        .ok (head ++ e₁.text ++ kw ++ ' ' :: conjunction conditions ++ " AND ".toList ++ c :: r)) ∧
    (Remarks e₂.text → allBlank e₂.text = false → ∃ w r, e₂.text = w ++ '-' :: '-' :: r ∧ allBlank w = true ∧
      mergeWhere s conditions =
        .ok (head ++ e₁.text ++ kw ++ ' ' :: conjunction conditions ++ " AND ".toList ++ '-' :: '-' :: r)) := by
  have hmerge := mergeWhere_of_tokenFree hs conditions
  rw [merged_behind_where hs hm (conjunction_ne_nil hj) hc hd hk hw] at hmerge
  have joined : ∀ w c r, e₂.text = w ++ c :: r → allBlank w = true → isBlank c = false →
      mergeWhere s conditions =
        .ok (head ++ e₁.text ++ kw ++ ' ' :: conjunction conditions ++ " AND ".toList ++ c :: r) := by
    intro w c r e hw hc
    rw [e, trimStart_blank_append hw (trimStart_cons_ink r c hc)] at hmerge
    rw [hmerge, if_neg (by simp)]
    simp
  refine ⟨fun hb => ?_, joined, fun hr h0 => ?_⟩
  · have hnil : trimStart e₂.text = [] := by
      have := trimStart_blank_append (y := []) hb rfl
      rwa [List.append_nil] at this
    rw [hmerge, hnil, if_pos rfl]
    simp
  · obtain ⟨w, r, e, hw⟩ := hr.dashes h0
    exact ⟨w, r, e, hw, joined w '-' ('-' :: r) e hw (by decide)⟩

end

/-- A WHERE with a remark behind it, and the same one with a line feed. Ahead of it stand a region
    with a WHERE and a WHERE in a comment. -/
theorem mergeWhere_and_remark :
    let head := "-- FROM clause".toList
    let kw := "Where".toList
    let e₁ : Division :=
      ⟨[("\nFROM (".toList, "-- subquery start SELECT 1 WHERE 2 -- subquery end".toList)], ") t -- WHERE\n".toList⟩
    let remark := Division.plain " -- none yet\n".toList
    let feed := Division.plain "\n".toList
    let conditions := ["t.a = 1".toList]
    let text := fun body : Division => head ++ (e₁ ++ Division.plain kw ++ body).text
    let opens := fun body : Division => FirstAt (opensClause [.filter]) head (e₁.outerAt (tokenFrom (indexAbove (text body))) 0)
      (kw ++ body.outerAt (tokenFrom (indexAbove (text body))) e₁.count)
    (∀ body ∈ [remark, feed], TokenFree (text body) ∧
        fromClause? (text body) = some (head, (e₁ ++ Division.plain kw ++ body).text) ∧
        divide (e₁ ++ Division.plain kw ++ body).text = e₁ ++ Division.plain kw ++ body ∧ opens body) ∧
      (∃ c ∈ conditions, trim c ≠ []) ∧ (∀ c ∈ conditions, TokenFree c) ∧ Spells "WHERE".toList kw ∧
      Remarks remark.text ∧ allBlank remark.text = false ∧
      mergeWhere (text remark) conditions = .ok (head ++ e₁.text ++ "Where t.a = 1 AND -- none yet\n".toList) ∧
      allBlank feed.text = true ∧ mergeWhere (text feed) conditions = .ok (head ++ e₁.text ++ "Where t.a = 1".toList) := by
  intro head kw e₁ remark feed conditions text opens
  have each : ∀ body ∈ [remark, feed], TokenFree (text body) ∧
      fromClause? (text body) = some (head, (e₁ ++ Division.plain kw ++ body).text) ∧
      divide (e₁ ++ Division.plain kw ++ body).text = e₁ ++ Division.plain kw ++ body ∧ opens body := by
    intro body hb
    rcases List.mem_cons.mp hb with rfl | hb
    · exact ⟨by decide +kernel, by decide +kernel, by decide +kernel, by decide +kernel⟩
    · obtain rfl := List.mem_singleton.mp hb
      exact ⟨by decide +kernel, by decide +kernel, by decide +kernel, by decide +kernel⟩
  have hj : ∃ c ∈ conditions, trim c ≠ [] := by decide +kernel
  have hc : ∀ c ∈ conditions, TokenFree c := by decide +kernel
  have hk : Spells "WHERE".toList kw := by
    unfold Spells
    decide +kernel
  have hremarks : Remarks remark.text := .blank (by decide) (.line (c := " none yet".toList) (by decide) .nil)
  obtain ⟨ht, hm, hd, hw⟩ := each remark (by simp)
  obtain ⟨ht', hm', hd', hw'⟩ := each feed (by simp)
  refine ⟨each, hj, hc, hk, hremarks, by decide, ?_, by decide, ?_⟩
  · rw [(mergeWhere_and ht hm hj hc hd hk hw).2.1 [' '] '-' "- none yet\n".toList (by decide) (by decide) (by decide)]
    decide
  · rw [(mergeWhere_and ht' hm' hj hc hd' hk hw').1 (by decide)]
    decide

end ExportQuery.Sql
