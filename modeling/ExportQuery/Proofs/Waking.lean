/-
  ExportQuery.Proofs.Waking — merging comments nothing out, and wakes nothing in a comment.

  Lines are read at the keyword that conditions are merged at as they are in the view, when
  regions end their lines: no region stands before the keyword on its line. So the keyword
  stands outside comments, and when the quotes before it close, outside literals. Conditions
  that open no comment and close their quotes put in there leave the rest of the line as it
  was, and a line of their own starts like any line.

  - `Tame`: conditions that open no comment; `tame_conjunction` joins them.
  - `EndsLines`: regions that end their lines; `line_outerAt`: there lines are read as in the view.
  - `MergedAt`: the keyword that conditions are merged at.
  - `mergeWhere_comments`: comments are where they were.
-/

import ExportQuery.Proofs.Layers

namespace ExportQuery.Sql

open ExportQuery.Text

/-! ## Tame conditions -/

/-- A condition that opens no comment, stays on its line and closes its literals. -/
structure Tame (s : Text) : Prop where
  dashes : ¬ ['-', '-'] <:+: s
  feed : '\n' ∉ s
  quotes : oddQuotes s = false

instance (s : Text) : Decidable (Tame s) :=
  decidable_of_iff (¬ ['-', '-'] <:+: s ∧ '\n' ∉ s ∧ oddQuotes s = false) ⟨fun h => ⟨h.1, h.2.1, h.2.2⟩, fun h => ⟨h.1, h.2, h.3⟩⟩

section

variable {s p q : Text}

theorem Tame.outside (h : Tame s) : Outside s := by
  constructor
  · rw [inComment, lineSoFar_of_not_mem h.feed]; exact opensComment_of_not_infix h.dashes
  · rw [inLiteral_reverse, lineSoFar_of_not_mem h.feed]; exact h.quotes

/-- Blanks hold no quotes. -/
theorem Tame.trim (h : Tame s) : Tame (trim s) := by
  obtain ⟨w, v, e, hw, hv⟩ := trim_joins s
  have hq := h.quotes
  rw [e, oddQuotes_append, oddQuotes_append, oddQuotes_of_not_mem (not_mem_blank (by decide) hw),
    oddQuotes_of_not_mem (not_mem_blank (by decide) hv)] at hq
  refine ⟨fun hi => h.dashes (hi.trans (trim_within s)), fun hm => h.feed ((trim_within s).subset hm), ?_⟩
  simpa using hq

theorem Tame.joined (hp : Tame p) (hq : Tame q) : Tame (p ++ " AND ".toList ++ q) := by
  constructor
  · intro hi
    have e : p ++ " AND ".toList ++ q = p ++ ' ' :: ("AND".toList ++ ' ' :: q) := by simp
    rw [e] at hi
    rcases infix_across (by decide) hi with hi | hi
    · exact hp.dashes hi
    rcases infix_across (by decide) hi with hi | hi
    · exact absurd hi (by decide)
    · exact hq.dashes hi
  · have and : '\n' ∉ " AND ".toList := by decide
    simp only [List.mem_append, not_or]
    exact ⟨⟨hp.feed, and⟩, hq.feed⟩
  · rw [oddQuotes_append, oddQuotes_append, hp.quotes, hq.quotes]
    decide

theorem tame_conjunction {conditions : List Text} (h : ∀ c ∈ conditions, Tame c) (h0 : conjunction conditions ≠ []) :
    Tame (conjunction conditions) :=
  conjunction_induction h0 (fun c hc _ => (h c hc).trim) fun _ _ => Tame.joined

/-- Between blanks and an AND they end outside. -/
theorem Tame.extending (h : Tame s) : Outside ([' '] ++ s ++ " AND ".toList) := by
  have space : Outside [' '] := outside_of_not_mem (by decide) (by decide)
  exact (space.append h.outside (Or.inl (by decide))).skip (by decide) (by decide)

/-- A WHERE on a line of its own is outside comments. -/
theorem outside_own_where (x : Text) : Outside (x ++ "\nWHERE ".toList) := by
  have line : Outside (x ++ ['\n'] ++ "WHERE ".toList) := (outside_feed x).skip (by decide) (by decide)
  simpa using line

end

/-! ## The line of a keyword -/

/-- The text is empty or starts with a line feed. -/
def StartsLine (s : Text) : Prop := s = [] ∨ s.head? = some '\n'

instance (s : Text) : Decidable (StartsLine s) := inferInstanceAs (Decidable (_ ∨ _))

/-- A word starts no line. -/
theorem not_startsLine {s : Text} (h : ∃ c t, s = c :: t ∧ isWord c = true) : ¬ StartsLine s := by
  obtain ⟨c, t, rfl, hc⟩ := h
  rintro (h | h)
  · cases h
  · rw [Option.some.inj h] at hc
    exact absurd hc (by decide)

namespace Division

/-- Each region ends its line, or the text. -/
def EndsLines (d : Division) : Prop := ∀ e p b f, d = e ++ cons p b f → StartsLine f.text

theorem endsLines_plain (s : Text) : (plain s).EndsLines := by
  intro e p b f h
  induction e with
  | plain t => rw [plain_append_cons] at h; exact absurd h plain_ne_cons
  | cons q c e _ => rw [cons_append] at h; exact absurd h plain_ne_cons

theorem endsLines_cons_iff {p b : Text} {d : Division} : (cons p b d).EndsLines ↔ StartsLine d.text ∧ d.EndsLines := by
  constructor
  · intro h
    exact ⟨h (plain []) p b d (by simp), fun e q c f hd => h (cons p b e) q c f (by rw [hd, cons_append])⟩
  · rintro ⟨hline, h⟩ e q c f hd
    induction e with
    | plain t =>
      rw [plain_append_cons, cons_inj] at hd
      rw [← hd.2.2]; exact hline
    | cons q' c' e _ =>
      rw [cons_append, cons_inj] at hd
      exact h e q c f hd.2.2

instance decidableEndsLines : (regions : List (Text × Text)) → (last : Text) → Decidable (EndsLines ⟨regions, last⟩)
  | [], last => isTrue (endsLines_plain last)
  | (p, b) :: more, last =>
    have := decidableEndsLines more last
    decidable_of_iff (StartsLine (⟨more, last⟩ : Division).text ∧ EndsLines ⟨more, last⟩)
      (endsLines_cons_iff (p := p) (b := b) (d := ⟨more, last⟩)).symm

instance (d : Division) : Decidable d.EndsLines := decidableEndsLines d.regions d.last

variable {name : Nat → Text} {i : Nat}

/-- Ahead of text that does not start a line, the last line holds no region. -/
theorem exists_line {d e : Division} (h : (d ++ e).EndsLines) (he : ¬ StartsLine e.text) :
    (∃ s, d = plain s) ∨ ∃ f l, d = f ++ plain ('\n' :: l) := by
  induction d with
  | plain s => exact Or.inl ⟨s, rfl⟩
  | cons p b d ih =>
    right
    rw [cons_append, endsLines_cons_iff] at h
    rcases ih h.2 with ⟨s, rfl⟩ | ⟨f, l, rfl⟩
    · have hline := h.1
      rw [text_append, text_plain] at hline
      cases s with
      | nil => exact absurd hline he
      | cons c s =>
        rcases hline with hline | hline
        · cases hline
        · obtain rfl : c = '\n' := Option.some.inj hline
          exact ⟨cons p b (plain []), s, by simp⟩
    · exact ⟨cons p b f, l, by simp⟩

/-- There, the line of the text is the line of the view. -/
theorem line_outerAt {d e : Division} (h : (d ++ e).EndsLines) (he : ¬ StartsLine e.text) (x : Text) :
    lineSoFar (x ++ d.text).reverse = lineSoFar (x ++ d.outerAt name i).reverse := by
  rcases exists_line h he with ⟨s, rfl⟩ | ⟨f, l, rfl⟩
  · rfl
  · have last : ∀ z : Text, lineSoFar (z ++ '\n' :: l).reverse = lineSoFar ('\n' :: l).reverse := fun z => by
      rw [lineSoFar_append, if_pos (by simp)]
    rw [text_append, outerAt_append, text_plain, outerAt_plain, ← List.append_assoc, ← List.append_assoc, last, last]

/-- A keyword that the view starts with starts the text. -/
theorem starts_of_keyword (hn : Tokens name) {ks : List Clause} {read : Text} {d : Division}
    (h : opensClause ks read (d.outerAt name i) = true) : ∃ c t, d.text = c :: t ∧ isWord c = true := by
  obtain ⟨-, -, k, -, kw, r, hk, e, -⟩ := opensClause_iff.mp h
  have hfree := hk.underscore_not_mem k.lettered
  obtain ⟨c, t, rfl, hc⟩ := hk.starts k.lettered k.words_ne_nil
  induction d with
  | plain s => exact ⟨c, t ++ r, e, hc⟩
  | cons p b d _ =>
    cases p with
    | nil =>
      obtain ⟨m, hm⟩ := hn.eq_concat i
      rw [outerAt_cons, hm] at e
      simp only [List.nil_append, List.cons_append, List.cons.injEq] at e
      exact absurd (by rw [e.1]; simp) hfree
    | cons c' p =>
      simp only [outerAt_cons, List.cons_append, List.cons.injEq] at e
      exact ⟨c', p ++ b ++ d.text, by simp, by rw [e.1]; exact hc⟩

end Division

/-- A keyword that stands outside comments in the view does so in the text, and outside literals
    when quotes close before it on its line. -/
theorem outside_of_opensClause {name : Nat → Text} (hn : Division.Tokens name) {ks : List Clause} {head : Text} {e₁ e₂ : Division}
    {i : Nat} (hl : (e₁ ++ e₂).EndsLines)
    (ho : opensClause ks (head ++ e₁.outerAt name 0).reverse (e₂.outerAt name i) = true)
    (hq : inLiteral (head ++ e₁.text).reverse = false) : Outside (head ++ e₁.text) := by
  have same : lineSoFar (head ++ e₁.text).reverse = lineSoFar (head ++ e₁.outerAt name 0).reverse :=
    Division.line_outerAt hl (not_startsLine (Division.starts_of_keyword hn ho)) head
  refine ⟨?_, hq⟩
  rw [inComment, same]
  exact (opensClause_iff.mp ho).2.1

/-! ## Merged conditions -/

/-- The keyword that conditions are merged at stands where the division behind `head` is cut: the
    first WHERE, else the first ORDER BY or LIMIT outside parentheses. -/
def MergedAt (s head : Text) (e₁ e₂ : Division) : Prop :=
  FirstAt (opensClause [.filter]) head (e₁.outerAt (tokenFrom (indexAbove s)) 0)
      (e₂.outerAt (tokenFrom (indexAbove s)) e₁.count) ∨
    Nowhere (opensClause [.filter]) head ((e₁ ++ e₂).outerAt (tokenFrom (indexAbove s)) 0) ∧
      FirstAt (opensOuterClause [.ordering, .limit] head) head (e₁.outerAt (tokenFrom (indexAbove s)) 0)
        (e₂.outerAt (tokenFrom (indexAbove s)) e₁.count)

instance (s head : Text) (e₁ e₂ : Division) : Decidable (MergedAt s head e₁ e₂) := inferInstanceAs (Decidable (_ ∨ _))

/-- There is one such keyword. -/
theorem MergedAt.unique {s head : Text} {e₁ e₂ f₁ f₂ : Division} (h : MergedAt s head e₁ e₂) (h' : MergedAt s head f₁ f₂)
    (e : e₁ ++ e₂ = f₁ ++ f₂) : e₁ = f₁ := by
  have hn := (Division.tokens_tokenFrom (indexAbove s)).wordy
  have hview : e₁.outerAt (tokenFrom (indexAbove s)) 0 ++ e₂.outerAt (tokenFrom (indexAbove s)) e₁.count =
      f₁.outerAt (tokenFrom (indexAbove s)) 0 ++ f₂.outerAt (tokenFrom (indexAbove s)) f₁.count := by
    simpa using congrArg (Division.outerAt (tokenFrom (indexAbove s)) 0) e
  have cut : e₁.outerAt (tokenFrom (indexAbove s)) 0 = f₁.outerAt (tokenFrom (indexAbove s)) 0 := by
    rcases h with h | ⟨hnone, h⟩
    · rcases h' with h' | ⟨hnone', -⟩
      · exact (h.unique h' hview).1
      · exact absurd h (hnone'.not_firstAt (by rw [← e]; simp))
    · rcases h' with h' | ⟨-, h'⟩
      · exact absurd h' (hnone.not_firstAt (by rw [e]; simp))
      · exact (h.unique h' hview).1
  exact (Division.append_inj hn e cut).1

section

variable {s head J : Text} {d : Division} (m : Merging (tokenFrom (indexAbove s)) head J d)

/-- Behind a WHERE: the text through the keyword ends outside. -/
theorem Merging.outside_where {kw a : Text} (hd : d.EndsLines) (hcut : m.before.outerAt (tokenFrom (indexAbove s)) 0 = a ++ kw)
    (hq : ∀ e₁ e₂, d = e₁ ++ e₂ → MergedAt s head e₁ e₂ → inLiteral (head ++ e₁.text).reverse = false)
    (spelt : Spells "WHERE".toList kw)
    (opens : FirstAt (opensClause [.filter]) head a (kw ++ m.gap ++ m.after.outerAt (tokenFrom (indexAbove s)) m.before.count)) :
    ∃ z, head ++ m.before.text = z ++ kw ∧ Outside z := by
  have hn := Division.tokens_tokenFrom (indexAbove s)
  have apart := (startsInWord_reverse.mp (opensClause_iff.mp opens.here).1).suffix
  obtain ⟨e, hbefore, rfl⟩ := Division.exists_word hn hcut apart (spelt.underscore_not_mem whereWord.2)
  have hjoin := m.joins
  rw [hbefore, Division.append_assoc, Division.append_assoc] at hjoin
  rw [hbefore] at opens
  have merged : FirstAt (opensClause [.filter]) head (e.outerAt (tokenFrom (indexAbove s)) 0)
      ((Division.plain kw ++ (Division.plain m.gap ++ m.after)).outerAt (tokenFrom (indexAbove s)) e.count) := by
    simpa using opens
  exact ⟨head ++ e.text, by rw [hbefore]; simp, outside_of_opensClause hn (hjoin ▸ hd) merged.here (hq _ _ hjoin (Or.inl merged))⟩

/-- Ahead of a clause that closes the query: the text through the gap ends outside. -/
theorem Merging.outside_gap (hd : d.EndsLines)
    (hq : ∀ e₁ e₂, d = e₁ ++ e₂ → MergedAt s head e₁ e₂ → inLiteral (head ++ e₁.text).reverse = false)
    (nowhere : Nowhere (opensClause [.filter]) head (m.before.outerAt (tokenFrom (indexAbove s)) 0 ++ m.gap ++
      m.after.outerAt (tokenFrom (indexAbove s)) m.before.count))
    (closes : FirstAt (opensOuterClause [.ordering, .limit] head) head (m.before.outerAt (tokenFrom (indexAbove s)) 0 ++ m.gap)
      (m.after.outerAt (tokenFrom (indexAbove s)) m.before.count)) :
    Outside (head ++ m.before.text ++ m.gap) ∧ ∃ c t, m.after.text = c :: t ∧ isWord c = true := by
  have hn := Division.tokens_tokenFrom (indexAbove s)
  have merged : MergedAt s head (m.before ++ Division.plain m.gap) m.after := by
    refine Or.inr ⟨by simpa using nowhere, by simpa using closes⟩
  have hopen := opensClause_of_outer closes.here
  have hcut : (m.before ++ Division.plain m.gap).outerAt (tokenFrom (indexAbove s)) 0 =
      m.before.outerAt (tokenFrom (indexAbove s)) 0 ++ m.gap := by simp
  rw [← hcut] at hopen
  have hout := outside_of_opensClause hn (m.joins ▸ hd) hopen (hq _ _ m.joins merged)
  exact ⟨by simpa using hout, Division.starts_of_keyword hn hopen⟩

end

section

variable {s head rest : Text} {conditions : List Text}

/-- What a merge writes has its comments where they were. -/
theorem merged_comments (hs : Clean s) (hm : fromClause? s = some (head, rest)) (hj : ∃ c ∈ conditions, trim c ≠ [])
    (hc : ∀ c ∈ conditions, TokenFree c ∧ Tame c) (hl : (divide rest).EndsLines)
    (hq : ∀ e₁ e₂, divide rest = e₁ ++ e₂ → MergedAt s head e₁ e₂ → inLiteral (head ++ e₁.text).reverse = false) :
    ∃ x w y pre post, s = x ++ w ++ y ∧ allBlank w = true ∧
      merged s conditions = x ++ (pre ++ conjunction conditions ++ post) ++ y ∧
      inComment (x ++ pre).reverse = false ∧
      ∀ u c v, y = u ++ c :: v →
        inComment (x ++ (pre ++ conjunction conditions ++ post) ++ u).reverse = inComment (x ++ w ++ u).reverse := by
  have hn := Division.tokens_tokenFrom (indexAbove s)
  have hj := conjunction_ne_nil hj
  have hJ := tame_conjunction (fun c h => (hc c h).2) hj
  obtain ⟨m, hresult⟩ := exists_merging hm hj hs fun c h => (hc c h).1
  have htext : s = head ++ m.before.text ++ m.gap ++ m.after.text := by
    rw [← m.text_parts, divide_joins]
    exact (fromClause_joins hm).1
  refine ⟨head ++ m.before.text, m.gap, m.after.text, ?_⟩
  rcases m.placed.inv with ⟨a, kw, hcut, spelt, opens, hins⟩ | ⟨nowhere, ⟨closes, hins⟩ | ⟨hb, -, hins⟩⟩
  · -- behind a WHERE
    obtain ⟨z, hz, hout⟩ := m.outside_where hl hcut hq spelt opens
    have hword := spelt.word whereWord.2
    have hkw : Outside (head ++ m.before.text) := hz ▸ hout.skip (not_mem_word (by decide) hword) (not_mem_word (by decide) hword)
    refine ⟨[' '], if m.after.outerAt (tokenFrom (indexAbove s)) m.before.count = [] then [] else " AND ".toList, htext, m.blank,
      ?_, (hkw.skip (q := [' ']) (by decide) (by decide)).comment, fun u c v hy => ?_⟩
    · rw [hresult, Merging.result, hins]
      rfl
    · have hne : m.after.outerAt (tokenFrom (indexAbove s)) m.before.count ≠ [] := by
        intro h0
        rw [(Division.outerAt_eq_nil_iff hn.wordy).mp h0, Division.text_plain] at hy
        simp at hy
      rw [if_neg hne, hz]
      refine comments_behind_word hout (spelt.ne_nil whereWord.1) hword m.blank hJ.extending (by simp) ?_ u
      rw [← List.append_assoc]
      exact getLast?_ne_dash (by decide) (by decide)
  · -- ahead of a clause that closes the query
    obtain ⟨hout, c', t, hafter, hc'⟩ := m.outside_gap hl hq nowhere closes
    refine ⟨"\nWHERE ".toList, ['\n'], htext, m.blank, ?_, (outside_own_where _).comment, fun u c v hy => ?_⟩
    · rw [hresult, Merging.result, hins]
    · refine comments_ahead _ hout fun hu => ?_
      obtain ⟨r, rfl⟩ := List.head?_eq_some_iff.mp hu
      rw [hafter, List.cons_append, List.cons.injEq] at hy
      rw [hy.1] at hc'
      exact absurd hc' (by decide)
  · -- at the end
    have hafter : m.after.text = [] := by
      rw [(Division.outerAt_eq_nil_iff hn.wordy).mp hb, Division.text_plain]
    refine ⟨"\nWHERE ".toList, [], htext, m.blank, ?_, (outside_own_where _).comment, fun u c v hy => ?_⟩
    · rw [hresult, Merging.result, hins, List.append_nil]
    · rw [hafter] at hy
      simp at hy

end

/-- Behind the last but one token that a word can count, the second region has none. -/
example :
    let s := "-- FROM clause\nFROM __SUBQUERY_PLACEHOLDER_0__ x, __SUBQUERY_PLACEHOLDER_18446744073709551614__ y, ".toList ++
      "(-- subquery start A -- subquery end\n), (-- subquery start B -- subquery end\n)".toList
    Clean s ∧ mergeWhere s ["c = 1".toList] = .error .index := by
  repeat rw [String.toList_ofList]
  decide +kernel

end ExportQuery.Sql
