/-
  ExportQuery.Proofs.FinalSemicolon — a query without its final semicolon.

  A query comes to a pass with a semicolon behind it, is worked on without, and leaves with one
  again. What is worked on is the bare query: the text between the blanks and, when a semicolon
  ends that, the text between the blanks ahead of the semicolon. No more than one semicolon goes,
  so of several each baring takes one.

  - `bare_eq_iff`: the bare query, told by where it stands in the text.
  - `bare_closed`, `bare_semicolon`: taking the semicolon off a query that was given one.
  - `finalSemicolons_bare`, `bare_iterate_iff`: semicolons at the end go one by one.
  - `bare_bare`: a bare query has no blank at its ends, is had back from behind a semicolon, and is
    its own bare query exactly when no semicolon ends it.
-/

import Mathlib.Logic.Function.Iterate
import ExportQuery.Proofs.Merge

namespace ExportQuery.Sql

open ExportQuery.Text

/-- The bare query `u` of a text: between blanks, with a semicolon behind it or not ended by any. -/
inductive Bared : Text → Text → Prop where
  | unended {w u v : Text} (ahead : allBlank w = true) (trimmed : trim u = u) (behind : allBlank v = true)
      (last : ¬ [';'] <:+ u) : Bared (w ++ u ++ v) u
  | closed {w u v z : Text} (ahead : allBlank w = true) (trimmed : trim u = u) (between : allBlank v = true)
      (behind : allBlank z = true) : Bared (w ++ (u ++ v ++ [';']) ++ z) u

/-- How many semicolons end the text, blanks aside. -/
def finalSemicolons (s : Text) : Nat := ((s.reverse.filter (!isBlank ·)).takeWhile (· == ';')).length

section

variable {s u v w z : Text}

/-! ## Trimmed texts -/

theorem trimStart_of_trim (h : trim u = u) : trimStart u = u := h ▸ trimStart_trim u

theorem trimEnd_of_trim (h : trim u = u) : trimEnd u = u := h ▸ trimEnd_trimEnd (trimStart u)

/-- The empty text aside, a trimmed text has ink at both ends. -/
theorem trim_eq_self_iff : trim u = u ↔ u.head?.any isBlank = false ∧ u.getLast?.any isBlank = false := by
  constructor
  · intro h
    by_cases h0 : u = []
    · rw [h0]; exact ⟨rfl, rfl⟩
    · obtain ⟨⟨c, r, e, hc⟩, d, hd, hink⟩ : Trimmed u := h ▸ trimmed_trim (by rwa [h])
      exact ⟨by simpa [e] using hc, by simpa [hd] using hink⟩
  · intro ⟨hhead, hlast⟩
    by_cases h0 : u = []
    · rw [h0]; rfl
    · obtain ⟨c, r, hc⟩ := List.exists_cons_of_ne_nil h0
      have hd := List.getLast?_eq_some_getLast h0
      rw [hd] at hlast
      exact Trimmed.trim ⟨⟨c, r, hc, by simpa [hc] using hhead⟩, _, hd, hlast⟩

/-- Blanks between the text and the semicolon are inside, unless there is no text: then they go too. -/
theorem trim_semicolon (h : trim u = u) (hv : allBlank v = true) :
    ∃ t, trim (u ++ v ++ [';']) = t ++ [';'] ∧ trimEnd t = u := by
  by_cases h0 : u = []
  · refine ⟨[], ?_, h0.symm⟩
    have := trim_padded hv (v := []) rfl [';']
    rw [List.append_nil] at this
    rw [h0, List.nil_append, this]
    rfl
  · refine ⟨u ++ v, ?_, by rw [trimEnd_append_blanks hv, trimEnd_of_trim h]⟩
    rw [trim, List.append_assoc, trimStart_append (trimStart_of_trim h) h0, ← List.append_assoc]
    exact trimEnd_append_ink (u ++ v) ';' (by decide)

/-! ## The bare query -/

theorem bared_bare (s : Text) : Bared s (bare s) := by
  obtain ⟨w, z, e, hw, hz⟩ := trim_joins s
  by_cases hs : [';'] <:+ trim s
  · obtain ⟨t, ht⟩ := hs
    obtain ⟨v, hv, hblank⟩ := trimEnd_joins t
    have hbare : bare s = trimEnd t := by rw [bare, ← ht, dropEnding?_append, Option.getD_some]
    have htrim : trim (trimEnd t) = trimEnd t := by
      have hstart := trimStart_prefix_eq (trimStart_trim s) ((prefix_trimEnd t).trans ⟨_, ht⟩)
      rw [trim, hstart, trimEnd_trimEnd]
    have hb : Bared (w ++ (trimEnd t ++ v ++ [';']) ++ z) (trimEnd t) := .closed hw htrim hblank hz
    rwa [← hv, ht, ← e, ← hbare] at hb
  · have hbare : bare s = trim s := by
      rw [bare, dropEnding?_eq_none hs, Option.getD_none]
      exact trimEnd_of_trim (trim_trim s)
    have hb : Bared (w ++ trim s ++ z) (trim s) := .unended hw (trim_trim s) hz hs
    rwa [← e, ← hbare] at hb

/-- Between blanks, a trimmed text is the bare query unless a semicolon ends it; ahead of the final
    semicolon it is the bare query whatever ends it. -/
theorem bare_eq_iff : bare s = u ↔ Bared s u := by
  constructor
  · rintro rfl
    exact bared_bare s
  · intro h
    cases h with
    | unended hw hu hv hlast =>
      rw [bare, trim_padded hw hv, hu, dropEnding?_eq_none hlast, Option.getD_none, trimEnd_of_trim hu]
    | closed hw hu hv hz =>
      obtain ⟨t, ht, htu⟩ := trim_semicolon hu hv
      rw [bare, trim_padded hw hz, ht, dropEnding?_append, Option.getD_some, htu]

theorem Bared.trim_eq (h : Bared s u) : trim u = u := by
  cases h with
  | unended _ hu _ _ => exact hu
  | closed _ hu _ _ => exact hu

theorem trim_bare (s : Text) : trim (bare s) = bare s := (bared_bare s).trim_eq

theorem trimStart_bare (s : Text) : trimStart (bare s) = bare s := trimStart_of_trim (trim_bare s)

theorem trimEnd_bare (s : Text) : trimEnd (bare s) = bare s := trimEnd_trimEnd _

theorem Bared.within (h : Bared s u) : u <:+: s := by
  cases h with
  | unended _ _ _ _ => exact List.infix_append _ _ _
  | @closed w _ v z _ _ _ _ => exact ⟨w, v ++ [';'] ++ z, by simp⟩

theorem bare_within (s : Text) : bare s <:+: s := (bared_bare s).within

/-- A trimmed query comes back when a semicolon was put behind it. -/
theorem bare_closed (h : trimStart s = s) (he : trimEnd s = s) : bare (s ++ [';']) = s := by
  have hs : trim s = s := by rw [trim, h, he]
  have hb : Bared ([] ++ (s ++ [] ++ [';']) ++ []) s := .closed rfl hs rfl rfl
  rw [List.nil_append, List.append_nil, List.append_nil] at hb
  exact bare_eq_iff.mpr hb

theorem bare_semicolon (s : Text) : bare (bare s ++ [';']) = bare s := bare_closed (trimStart_bare s) (trimEnd_bare s)

/-! ## Semicolons at the end -/

theorem filter_blanks (hw : allBlank w = true) : w.reverse.filter (!isBlank ·) = [] := by
  rw [List.filter_eq_nil_iff]
  intro c hc
  simp [List.all_eq_true.mp hw c (List.mem_reverse.mp hc)]

theorem finalSemicolons_padded (hw : allBlank w = true) (hv : allBlank v = true) :
    finalSemicolons (w ++ u ++ v) = finalSemicolons u := by
  simp [finalSemicolons, List.reverse_append, List.filter_append, filter_blanks hw, filter_blanks hv]

theorem finalSemicolons_concat (hv : allBlank v = true) : finalSemicolons (u ++ v ++ [';']) = finalSemicolons u + 1 := by
  have hink : isBlank ';' = false := by decide
  simp [finalSemicolons, List.reverse_append, List.filter_append, filter_blanks hv, hink]

theorem finalSemicolons_eq_zero_iff (h : trim u = u) : finalSemicolons u = 0 ↔ ¬ [';'] <:+ u := by
  by_cases h0 : u = []
  · rw [h0]; decide
  · obtain ⟨c, hc, hink⟩ := endsInInk_of_trimEnd (trimEnd_of_trim h) h0
    obtain ⟨r, rfl⟩ := List.getLast?_eq_some_iff.mp hc
    by_cases hs : c = ';'
    · subst hs
      have hends : [';'] <:+ r ++ [';'] := List.suffix_append _ _
      simp [finalSemicolons, hink, hends]
    · have hother : ¬ [';'] <:+ r ++ [c] := not_suffix_of_getLast rfl hc (Ne.symm hs)
      simp [finalSemicolons, hink, hs, hother]

/-- One of them goes, if there is any. -/
theorem finalSemicolons_bare (s : Text) : finalSemicolons (bare s) = finalSemicolons s - 1 := by
  generalize hu : bare s = u
  cases bare_eq_iff.mp hu with
  | unended hw htrim hv hlast =>
    rw [finalSemicolons_padded hw hv, (finalSemicolons_eq_zero_iff htrim).mpr hlast]
  | closed hw htrim hv hz =>
    rw [finalSemicolons_padded hw hz, finalSemicolons_concat hv]
    omega

theorem bare_eq_self_iff (h : trim u = u) : bare u = u ↔ ¬ [';'] <:+ u := by
  constructor
  · intro hb
    have hone := finalSemicolons_bare u
    rw [hb] at hone
    exact (finalSemicolons_eq_zero_iff h).mp (by omega)
  · intro hlast
    have hb : Bared ([] ++ u ++ []) u := .unended rfl h rfl hlast
    rw [List.nil_append, List.append_nil] at hb
    exact bare_eq_iff.mpr hb

theorem finalSemicolons_iterate (n : Nat) (s : Text) : finalSemicolons (bare^[n] s) = finalSemicolons s - n := by
  induction n with
  | zero => rfl
  | succ n ih =>
    rw [Function.iterate_succ_apply', finalSemicolons_bare, ih]
    omega

/-- Bared again and again, a query comes to rest once each of its final semicolons was taken. -/
theorem bare_iterate_iff (n : Nat) (s : Text) : bare^[n + 2] s = bare^[n + 1] s ↔ finalSemicolons s ≤ n + 1 := by
  have htrim : trim (bare^[n + 1] s) = bare^[n + 1] s := by
    rw [Function.iterate_succ_apply']
    exact trim_bare _
  rw [Function.iterate_succ_apply', bare_eq_self_iff htrim, ← finalSemicolons_eq_zero_iff htrim, finalSemicolons_iterate]
  omega

end

/-- The bare query of a text stands in it between blanks, with no other ink behind it than one
    semicolon, and has no blank at either end. Bared again from behind a semicolon it is the same;
    bared again as it is, only when it does not end in a semicolon, which is when no more than one
    semicolon ended the text. -/
theorem bare_bare (t : Text) :
    Bared t (bare t) ∧ ((bare t).head?.any isBlank = false ∧ (bare t).getLast?.any isBlank = false) ∧
      bare (bare t ++ [';']) = bare t ∧ (bare (bare t) = bare t ↔ ¬ [';'] <:+ bare t) ∧
      (bare (bare t) = bare t ↔ finalSemicolons t ≤ 1) :=
  ⟨bared_bare t, trim_eq_self_iff.mp (trim_bare t), bare_semicolon t, bare_eq_self_iff (trim_bare t), bare_iterate_iff 0 t⟩

/-- A blank between two semicolons does not keep the second from ending the query. -/
example : bare " SELECT 1 ; ;\n".toList = "SELECT 1 ;".toList ∧ finalSemicolons " SELECT 1 ; ;\n".toList = 2 := by decide

end ExportQuery.Sql
