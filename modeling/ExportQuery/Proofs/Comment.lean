/-
  ExportQuery.Proofs.Comment — whether a place stands in a comment, told from the text before.

  At a place outside comments and literals, what follows on the line is read as if the line
  started there. So text may be put in at such a place, or taken out, as long as it ends
  outside comments and literals again: no place behind it sees the difference.

  - `opensComment_append`: a line read in two parts.
  - `Outside.inComment_append`: the text before a place outside comments and literals does not
    count behind it.
-/

import Mathlib.Data.List.TakeWhile
import ExportQuery.Proofs.Reading
import ExportQuery.Sql.Projection

namespace ExportQuery.Sql

open ExportQuery.Text

/-! ## Lines in parts -/

/-- An odd number of single quotes. -/
def oddQuotes (l : Text) : Bool := l.count '\'' % 2 == 1

theorem oddQuotes_append (l q : Text) : oddQuotes (l ++ q) = (oddQuotes l != oddQuotes q) := by
  simp only [oddQuotes, List.count_append]
  have h₁ := Nat.mod_two_eq_zero_or_one (l.count '\'')
  have h₂ := Nat.mod_two_eq_zero_or_one (q.count '\'')
  rcases h₁ with h₁ | h₁ <;> rcases h₂ with h₂ | h₂ <;> simp [Nat.add_mod, h₁, h₂]

theorem oddQuotes_of_not_mem {l : Text} (h : '\'' ∉ l) : oddQuotes l = false := by
  simp [oddQuotes, List.count_eq_zero.mpr h]

theorem opensComment_quote (b : Bool) (s : Text) : opensComment b ('\'' :: s) = opensComment (!b) s := by
  cases b <;> rfl

theorem opensComment_other {b : Bool} {c : Char} {s : Text} (hc : c ≠ '\'')
    (hd : b = true ∨ c ≠ '-' ∨ s.head? ≠ some '-') : opensComment b (c :: s) = opensComment b s := by
  rw [opensComment]
  · simpa using hc
  · intro t hb he hs
    rcases hd with hd | hd | hd
    · rw [hb] at hd; cases hd
    · exact hd he
    · rw [hs] at hd; exact hd rfl

theorem opensComment_dashes (s : Text) : opensComment false ('-' :: '-' :: s) = true := rfl

/-- A line read in two parts, no comment being opened across them. -/
theorem opensComment_append {b : Bool} {l q : Text} (hd : l.getLast? ≠ some '-' ∨ q.head? ≠ some '-') :
    opensComment b (l ++ q) = (opensComment b l || opensComment (b != oddQuotes l) q) := by
  induction l generalizing b with
  | nil => simp [opensComment, oddQuotes]
  | cons c l ih =>
    have hd' : l.getLast? ≠ some '-' ∨ q.head? ≠ some '-' := by
      refine hd.imp_left fun h he => h ?_
      rw [List.getLast?_cons, he]; rfl
    have hq := oddQuotes_append [c] l
    rw [List.singleton_append] at hq
    by_cases hc : c = '\''
    · subst hc
      rw [List.cons_append, opensComment_quote, opensComment_quote, ih hd', hq]
      cases b <;> cases oddQuotes l <;> rfl
    have hodd : oddQuotes (c :: l) = oddQuotes l := by
      rw [hq, oddQuotes_of_not_mem (l := [c]) (by simpa using Ne.symm hc)]; simp
    by_cases hdash : b = false ∧ c = '-' ∧ (l ++ q).head? = some '-'
    · -- two dashes: they stand in the first part, or one in each
      obtain ⟨rfl, rfl, hh⟩ := hdash
      cases l with
      | nil =>
        rcases hd with hd | hd
        · exact absurd rfl hd
        · exact absurd hh hd
      | cons d l =>
        obtain rfl : d = '-' := by simpa using hh
        simp [opensComment_dashes]
    · have hr : b = true ∨ c ≠ '-' ∨ (l ++ q).head? ≠ some '-' := by
        cases b
        · by_cases hc' : c = '-'
          · exact Or.inr (Or.inr fun hh => hdash ⟨rfl, hc', hh⟩)
          · exact Or.inr (Or.inl hc')
        · exact Or.inl rfl
      have hl : b = true ∨ c ≠ '-' ∨ l.head? ≠ some '-' := by
        refine hr.imp_right (Or.imp_right fun h he => h ?_)
        cases l with
        | nil => cases he
        | cons d l => simpa using he
      rw [List.cons_append, opensComment_other hc hr, opensComment_other hc hl, ih hd', hodd]

/-- The line up to a place, of a text in two parts. -/
theorem lineSoFar_append (x q : Text) :
    lineSoFar (x ++ q).reverse = if '\n' ∈ q then lineSoFar q.reverse else lineSoFar x.reverse ++ q := by
  have hall : (∀ c ∈ q.reverse, decide (c ≠ '\n') = true) ↔ '\n' ∉ q := by
    simp only [List.mem_reverse, decide_eq_true_eq]
    exact ⟨fun h hm => h _ hm rfl, fun h c hc he => h (he ▸ hc)⟩
  simp only [lineSoFar, List.reverse_append, List.takeWhile_append]
  by_cases hm : '\n' ∈ q
  · rw [if_pos hm, if_neg]
    intro he
    have hs := List.takeWhile_eq_self_iff.mp (List.takeWhile_prefix _ |>.eq_of_length he)
    exact hall.mp hs hm
  · rw [if_neg hm, List.takeWhile_eq_self_iff.mpr (hall.mpr hm)]
    simp

theorem lineSoFar_of_not_mem {q : Text} (h : '\n' ∉ q) : lineSoFar q.reverse = q := by
  have := lineSoFar_append [] q
  rwa [List.nil_append, if_neg h] at this

theorem getLast?_ne_dash {x y : Text} (h0 : y ≠ []) (hy : '-' ∉ y) : (x ++ y).getLast? ≠ some '-' := by
  intro h
  rw [List.getLast?_append, List.getLast?_eq_some_getLast h0, Option.some_or, Option.some.injEq] at h
  exact hy (by rw [← h]; exact List.getLast_mem h0)

/-! ## Places outside -/

/-- The end of the text stands outside comments and literals. -/
structure Outside (x : Text) : Prop where
  comment : inComment x.reverse = false
  literal : inLiteral x.reverse = false

section

variable {x q : Text}

theorem inLiteral_reverse (x : Text) : inLiteral x.reverse = oddQuotes (lineSoFar x.reverse) := rfl

theorem getLast?_lineSoFar (hd : x.getLast? ≠ some '-') : (lineSoFar x.reverse).getLast? ≠ some '-' := by
  intro h
  apply hd
  rw [lineSoFar, List.getLast?_reverse] at h
  rw [← List.head?_reverse]
  cases hx : x.reverse with
  | nil => rw [hx] at h; cases h
  | cons c t =>
    rw [hx] at h
    by_cases hc : c = '\n'
    · rw [List.takeWhile_cons, if_neg (by simp [hc])] at h; cases h
    · rw [List.takeWhile_cons, if_pos (by simp [hc])] at h; exact h

/-- Behind a place outside, comments do not depend on the text before. -/
theorem Outside.inComment_append (h : Outside x) (hd : x.getLast? ≠ some '-' ∨ q.head? ≠ some '-') :
    inComment (x ++ q).reverse = inComment q.reverse := by
  have hl := h.literal
  rw [inLiteral_reverse] at hl
  have hc : opensComment false (lineSoFar x.reverse) = false := h.comment
  unfold inComment
  rw [lineSoFar_append]
  split
  · rfl
  · rename_i hm
    rw [opensComment_append (hd.imp_left getLast?_lineSoFar), hc, hl, lineSoFar_of_not_mem hm]; rfl

/-- Behind two places outside, comments are told alike. -/
theorem Outside.inComment_congr {y : Text} (hx : Outside x) (hy : Outside y) (hd : x.getLast? ≠ some '-')
    (hd' : y.getLast? ≠ some '-' ∨ q.head? ≠ some '-') : inComment (x ++ q).reverse = inComment (y ++ q).reverse := by
  rw [hx.inComment_append (Or.inl hd), hy.inComment_append hd']

/-- Behind paired quotes, literals do not depend on the text before. -/
theorem inLiteral_append (h : inLiteral x.reverse = false) : inLiteral (x ++ q).reverse = inLiteral q.reverse := by
  rw [inLiteral_reverse] at h ⊢
  rw [inLiteral_reverse, lineSoFar_append]
  split
  · rfl
  · rename_i hm
    rw [oddQuotes_append, h, lineSoFar_of_not_mem hm]; simp

theorem Outside.inLiteral_append (h : Outside x) : inLiteral (x ++ q).reverse = inLiteral q.reverse :=
  Sql.inLiteral_append h.literal

theorem Outside.append (h : Outside x) (hq : Outside q) (hd : x.getLast? ≠ some '-' ∨ q.head? ≠ some '-') :
    Outside (x ++ q) := ⟨(h.inComment_append hd).trans hq.comment, h.inLiteral_append.trans hq.literal⟩

theorem opensComment_of_not_infix {b : Bool} {l : Text} (h : ¬ ['-', '-'] <:+: l) : opensComment b l = false := by
  induction l generalizing b with
  | nil => rfl
  | cons c l ih =>
    have hl : ¬ ['-', '-'] <:+: l := fun hi => h (List.infix_cons hi)
    by_cases hc : c = '\''
    · rw [hc, opensComment_quote]; exact ih hl
    · rw [opensComment_other hc ?_]
      · exact ih hl
      · by_cases hd : c = '-'
        · refine Or.inr (Or.inr fun hh => h ?_)
          obtain ⟨t, rfl⟩ := List.head?_eq_some_iff.mp hh
          exact ⟨[], t, by rw [hd]; rfl⟩
        · exact Or.inr (Or.inl hd)

theorem opensComment_of_not_mem {b : Bool} {l : Text} (h : '-' ∉ l) : opensComment b l = false :=
  opensComment_of_not_infix fun hi => h (hi.subset (by simp))

theorem mem_of_mem_lineSoFar {c : Char} (h : c ∈ lineSoFar x.reverse) : c ∈ x := by
  rw [lineSoFar, List.mem_reverse] at h
  exact List.mem_reverse.mp ((List.takeWhile_prefix _).subset h)

/-- A text without dashes and quotes ends outside. -/
theorem outside_of_not_mem (h₁ : '-' ∉ x) (h₂ : '\'' ∉ x) : Outside x :=
  ⟨opensComment_of_not_mem fun h => h₁ (mem_of_mem_lineSoFar h),
    (inLiteral_reverse x).trans (oddQuotes_of_not_mem fun h => h₂ (mem_of_mem_lineSoFar h))⟩

/-- Text without dashes and quotes stays outside. -/
theorem Outside.skip (h : Outside x) (h₁ : '-' ∉ q) (h₂ : '\'' ∉ q) : Outside (x ++ q) :=
  h.append (outside_of_not_mem h₁ h₂) (Or.inr fun hh => h₁ (List.mem_of_head? hh))

/-- A line feed ends comments and literals. -/
theorem outside_feed (x : Text) : Outside (x ++ ['\n']) := by
  have e : lineSoFar (x ++ ['\n']).reverse = [] := by simp [lineSoFar]
  exact ⟨by rw [inComment, e]; rfl, by rw [inLiteral_reverse, e]; rfl⟩

end

end ExportQuery.Sql
