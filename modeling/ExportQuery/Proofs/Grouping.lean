/-
  ExportQuery.Proofs.Grouping — the GROUP BY clause is cut off again where it was put back.

  A clause put back stands on a line of its own, so it opens there whatever the lines before
  hold. It is the first GROUP BY again: a predicate merged before it holds none, and behind a
  predicate lines are read as they were, since predicates are merged at places outside comments
  and literals.

  - `Placed.mild` / `Placed.beside`: what fills the gap at a placement.
  - `Placed.unseen`: it is unseen by the search for GROUP BY.
  - `extractGroupBy_grouped`: what is cut off, and where it goes back.
  - `extractGroupBy_restoreGroupBy`: a clause put back is cut off again.
  - `extractGroupBy_again`: so is the clause of any text.
  - `Grouped.edit`: a merged predicate makes no difference.
-/

import ExportQuery.Proofs.Alias
import ExportQuery.Proofs.Remerge
import ExportQuery.Sql.GroupBy

namespace ExportQuery.Sql

open ExportQuery.Text

/-! ## What fills the gap -/

section

variable {head J a w b ins : Text}

theorem Placed.mild (h : Placed head J a w b ins) (hJ : Predicate J) : Mild ins := by
  have space : Mild [' '] := mild_words (by decide)
  have line : Mild "\nWHERE ".toList := mild_words (by decide)
  have quiet : ∀ x, ∃ c, (x ++ J).getLast? = some c ∧ loud c = false := fun x =>
    let ⟨c, hc, _, hl⟩ := hJ.last x
    ⟨c, hc, hl⟩
  have hspace : Mild (' ' :: J) := space.append hJ.toMild (Or.inl ⟨' ', rfl, by decide⟩)
  have hline : Mild ("\nWHERE ".toList ++ J) := line.append hJ.toMild (Or.inl ⟨' ', by decide, by decide⟩)
  cases h with
  | extending opens spelt =>
    split
    · rw [List.append_nil]; exact hspace
    · exact hspace.append (mild_words (by decide)) (Or.inl (quiet [' ']))
  | preceding none_opens closes => exact hline.append (mild_words (by decide)) (Or.inl (quiet _))
  | atEnd none_opens none_closes => exact hline

/-- It starts with one blank, and then ink. -/
theorem Placed.starts (h : Placed head J a w b ins) (hJ : Trimmed J) :
    ∃ c d r, ins = c :: d :: r ∧ isBlank c = true ∧ isBlank d = false := by
  obtain ⟨d, r, rfl, hd⟩ := hJ.starts
  cases h with
  | extending opens spelt => exact ⟨' ', d, _, rfl, by decide, hd⟩
  | preceding none_opens closes => exact ⟨'\n', 'W', _, rfl, by decide, by decide⟩
  | atEnd none_opens none_closes => exact ⟨'\n', 'W', _, rfl, by decide, by decide⟩

/-- It ends with the condition, or with a blank ahead of something. -/
theorem Placed.ends (h : Placed head J a w b ins) :
    (∃ x, ins = x ++ J) ∨ (∃ c, ins.getLast? = some c ∧ isBlank c = true) ∧ b ≠ [] := by
  cases h with
  | extending opens spelt =>
    split
    · exact Or.inl ⟨[' '], by simp⟩
    · rename_i hb
      exact Or.inr ⟨⟨' ', by rw [List.getLast?_append]; rfl, by decide⟩, hb⟩
  | @preceding a w b none_opens closes =>
    refine Or.inr ⟨⟨'\n', by rw [List.getLast?_append]; rfl, by decide⟩, ?_⟩
    rintro rfl
    obtain ⟨c, t, e, -⟩ := starts_of_opensClause (opensClause_of_outer closes.here)
    cases e
  | atEnd none_opens none_closes => exact Or.inl ⟨"\nWHERE ".toList, rfl⟩

theorem not_loud_of_isBlank {c : Char} (h : isBlank c = true) : loud c = false := by
  by_contra hl
  simp only [loud, Bool.not_eq_false, Bool.or_eq_true, beq_iff_eq] at hl
  rcases hl with (hl | hl) | rfl
  · rw [not_isBlank_of_sameLetter (by decide) hl] at h; cases h
  · rw [not_isBlank_of_sameLetter (by decide) hl] at h; cases h
  · exact absurd h (by decide)

/-- It ends in no loud character. -/
theorem Placed.quiet (h : Placed head J a w b ins) (hJ : Predicate J) {c : Char} (hc : ins.getLast? = some c) :
    loud c = false := by
  rcases h.ends with ⟨x, rfl⟩ | ⟨⟨d, hd, hb⟩, -⟩
  · obtain ⟨d, hd, -, hl⟩ := hJ.last x
    rw [hd, Option.some.injEq] at hc
    rw [← hc]; exact hl
  · rw [hd, Option.some.injEq] at hc
    rw [← hc]; exact not_loud_of_isBlank hb

/-- A condition in which no FROM names a table, as names and aliases see it. -/
theorem Placed.beside_of_silent (h : Placed head J a w b ins) (hw : Widest a w b ins) (hJ : Trimmed J)
    (silent : ∀ u v, ins = u ++ v → v ≠ [] → namesTable (a ++ u).reverse (v ++ b) = false) : Beside a w b ins := by
  obtain ⟨c, d, r, hins, hc, -⟩ := h.starts hJ
  have hg := h.gap hw.blank
  refine ⟨h.spot, ?_, hw.after, ⟨hw.blank, fun h0 => (hg.seam h0).shrink ⟨head, rfl⟩⟩, h.filler, silent, ⟨c, d :: r, hins, hc⟩⟩
  intro h0
  cases h with
  | @extending a kw w b opens spelt =>
    exact (spelt.endsInInk whereWord).append a
  | preceding none_opens closes => exact endsInInk_of_trimEnd (hw.before ⟨_, List.append_assoc _ _ _⟩) h0
  | atEnd none_opens none_closes => exact endsInInk_of_trimEnd (hw.before ⟨_, rfl⟩) h0

theorem Placed.beside (h : Placed head J a w b ins) (hw : Widest a w b ins) (hJ : Predicate J) : Beside a w b ins :=
  h.beside_of_silent hw hJ.toTrimmed fun _ _ e hv =>
    namesTable_of_calm (h.mild hJ).calm h.filler.seam (fun _ => h.quiet hJ) e hv _

/-- Without text behind the gap, what fills it ends in ink. -/
theorem Placed.ink (h : Placed head J a w b ins) (hJ : Trimmed J) (hb : b = []) : EndsInInk ins := by
  rcases h.ends with ⟨x, rfl⟩ | ⟨-, hb'⟩
  · exact hJ.ends.append x
  · exact absurd hb hb'

/-- The text ends in ink as it did, or with the condition. -/
theorem Placed.endsInInk (h : Placed head J a w b ins) (hJ : Trimmed J) {x : Text} (hx : EndsInInk (x ++ (a ++ w ++ b))) :
    EndsInInk (x ++ (a ++ ins ++ b)) := by
  rw [← List.append_assoc]
  by_cases hb : b = []
  · rw [hb, List.append_nil, ← List.append_assoc]
    exact (h.ink hJ hb).append _
  · rw [← List.append_assoc] at hx
    exact (hx.right hb).append _

/-! ## Lines behind the gap -/

/-- No keyword that conditions are merged at stands inside single quotes. -/
def KeywordsOutside (head rest : Text) : Prop :=
  ∀ u v, rest = u ++ v → opensClause [.filter, .ordering, .limit] (head ++ u).reverse v = true →
    inLiteral (head ++ u).reverse = false

instance (head rest : Text) : Decidable (KeywordsOutside head rest) :=
  decidable_of_iff (∀ n < rest.length + 1,
      opensClause [.filter, .ordering, .limit] (head ++ rest.take n).reverse (rest.drop n) = true →
        inLiteral (head ++ rest.take n).reverse = false) <| by
    constructor
    · intro h u v e
      have := h u.length (by rw [e]; simp only [List.length_append]; omega)
      simpa [e] using this
    · intro h n _
      exact h _ _ (List.take_append_drop n rest).symm

theorem opensClause_mono {ks ks' : List Clause} (hks : ks ⊆ ks') {read left : Text} (h : opensClause ks read left = true) :
    opensClause ks' read left = true := by
  obtain ⟨hr, hc, k, hk, kw, r, hs⟩ := opensClause_iff.mp h
  exact opensClause_iff.mpr ⟨hr, hc, k, hks hk, kw, r, hs⟩

/-- A line feed behind the gap starts a line either way. -/
theorem lines_at_end {x e z : Text} (he : e = [] ∧ z = [] ∨ e = ['\n']) {u v : Text} (hb : e = u ++ v)
    (hv : startsInWord (v ++ z) = true) : inComment (x ++ ins ++ u).reverse = inComment (x ++ w ++ u).reverse := by
  rcases he with ⟨rfl, rfl⟩ | rfl
  · obtain ⟨rfl, rfl⟩ := List.append_eq_nil_iff.mp hb.symm
    cases hv
  · cases u with
    | nil =>
      rw [List.nil_append] at hb
      rw [← hb] at hv
      exact absurd hv (by simp [startsInWord]; decide)
    | cons c u =>
      simp only [List.cons_append, List.cons.injEq] at hb
      obtain ⟨rfl, hb⟩ := hb
      obtain ⟨rfl, rfl⟩ := List.append_eq_nil_iff.mp hb.symm
      rw [(outside_feed _).comment, (outside_feed _).comment]

/-- Behind the gap, comments are where they were. -/
theorem Placed.lines (h : Placed head J a w b ins) (hw : allBlank w = true) (hJ : Predicate J)
    (hq : KeywordsOutside head (a ++ w ++ b)) {e z : Text} (he : e = [] ∧ z = [] ∨ e = ['\n']) (u v : Text)
    (hb : b ++ e = u ++ v) (hv : startsInWord (v ++ z) = true) :
    inComment (head ++ a ++ ins ++ u).reverse = inComment (head ++ a ++ w ++ u).reverse := by
  by_cases hb0 : b = []
  · rw [hb0, List.nil_append] at hb
    exact lines_at_end he hb hv
  have hmild := h.mild hJ
  obtain ⟨c₀, d₀, r₀, hins, hc₀, -⟩ := h.starts hJ.toTrimmed
  have hlast : (head ++ a ++ ins).getLast? ≠ some '-' := by
    have h0 := h.filler.ne_nil
    rw [List.getLast?_append, List.getLast?_eq_some_getLast h0, Option.some_or]
    intro hd
    exact absurd (h.quiet hJ ((List.getLast?_eq_some_getLast h0).trans hd)) (by decide)
  cases h with
  | @extending a kw w b opens spelt =>
    have hplace : Outside (head ++ a) := by
      refine ⟨(opensClause_iff.mp opens.here).2.1, hq a (kw ++ w ++ b) (by simp) ?_⟩
      exact opensClause_mono (by simp) opens.here
    have hfirst : (' ' :: J ++ if b = [] then [] else " AND ".toList).head? ≠ some '-' := by
      rw [hins]
      rintro ⟨rfl⟩
      exact absurd hc₀ (by decide)
    rw [← List.append_assoc head a kw] at hlast ⊢
    exact comments_behind_word hplace (spelt.ne_nil whereWord.1) (spelt.word whereWord.2) hw hmild.outside hfirst hlast u
  | @preceding a w b none_opens closes =>
    have hh := opensClause_of_outer closes.here
    have hplace : Outside (head ++ a ++ w) := by
      rw [List.append_assoc]
      exact ⟨(opensClause_iff.mp hh).2.1, hq (a ++ w) b (by simp) (opensClause_mono (by simp) hh)⟩
    refine comments_ahead _ hplace fun hu => ?_
    obtain ⟨d, s, rfl, hd⟩ := starts_of_opensClause hh
    cases u with
    | nil => cases hu
    | cons d' u =>
      simp only [List.cons_append, List.cons.injEq] at hb
      simp only [List.head?_cons, Option.some.injEq] at hu
      rw [hb.1, hu] at hd
      exact absurd hd (by decide)
  | atEnd => exact absurd rfl hb0

theorem Gap.extend {x t : Text} (h : Gap x w b) (ht : startsInWord t = false) : Gap x w (b ++ t) := by
  refine ⟨h.blank, fun h0 => ?_⟩
  rcases h.seam h0 with hs | hs
  · exact Or.inl hs
  · cases b with
    | nil => exact Or.inr ht
    | cons c b => exact Or.inr hs

theorem Filler.extend {t : Text} (h : Filler ins b) (ht : startsInWord t = false) : Filler ins (b ++ t) := by
  refine ⟨h.starts, h.ne_nil, ?_⟩
  rcases h.seam with hs | hs
  · exact Or.inl hs
  · cases b with
    | nil => exact Or.inr ht
    | cons c b => exact Or.inr hs

/-- No GROUP BY goes on into the condition: none does behind a WHERE, and elsewhere one comes first. -/
theorem Placed.bars (h : Placed head J a w b ins) (y : Text) : Bars [.grouping] (head ++ a) (ins ++ y) := by
  cases h with
  | @extending a kw w b opens spelt =>
    rw [← List.append_assoc]
    exact bars_grouping (startsBlank_space _) spelt
  | preceding none_opens closes => exact bars_of_blank (d := 'W') (by decide) (by decide) (by decide) _ _
  | atEnd none_opens none_closes => exact bars_of_blank (d := 'W') (by decide) (by decide) (by decide) _ _

/-- The search for GROUP BY sees a predicate no more than the blanks it took the place of. -/
theorem Placed.unseen (h : Placed head J a w b ins) (hw : allBlank w = true) (hJ : Predicate J)
    (hq : KeywordsOutside head (a ++ w ++ b)) {e z : Text} (he : e = [] ∧ z = [] ∨ e = ['\n']) :
    Unseen [.grouping] (head ++ a) w ins (b ++ e) z := by
  have hz : startsInWord (e ++ z) = false := by
    rcases he with ⟨rfl, rfl⟩ | rfl
    · rfl
    · exact rfl
  have hgap : Gap (head ++ a) w (b ++ e ++ z) := by
    rw [List.append_assoc]
    exact (h.gap hw).extend hz
  have hfill : Filler ins (b ++ e ++ z) := by
    rw [List.append_assoc]
    exact h.filler.extend hz
  refine ⟨hgap, hfill, h.bars _, ?_, h.lines hw hJ hq he⟩
  intro u v hu hv
  by_contra ho
  obtain ⟨-, -, k, hk, kw, r, hs, e', -⟩ := opensClause_iff.mp (by simpa using ho)
  obtain rfl : k = .grouping := by simpa using hk
  obtain ⟨g, ws, y, rfl, hg, h0, hws, -⟩ := hs
  have hg : Spells "GROUP".toList g := hg
  have hgw := hg.word (List.all_eq_true.mp (by decide))
  have hlast : ∃ s c, g = s ++ [c] ∧ loud c = true := by
    obtain ⟨s, c, rfl, hc⟩ := hg.last (u := 'P') rfl
    exact ⟨s, c, rfl, by simp [loud, hc]⟩
  exact no_word_of_calm (h.mild hJ).calm hfill.seam (fun c => h.quiet hJ) hu hv hgw hlast hws h0 (r := y ++ r)
    (by rw [List.append_assoc, e']; simp)

end

/-! ## The clause -/

/-- A clause is put back behind a line feed, unless there is none. -/
theorem restoreGroupBy_eq (clause : Text) :
    ∃ f, (f = [] ∧ clause = [] ∨ f = ['\n'] ∧ clause ≠ []) ∧ ∀ x, EndsInInk x → restoreGroupBy x clause = x ++ (f ++ clause) := by
  by_cases h : clause = []
  · exact ⟨[], Or.inl ⟨rfl, h⟩, fun x _ => by rw [h, restoreGroupBy_nil]; simp⟩
  · refine ⟨['\n'], Or.inr ⟨rfl, h⟩, fun x hx => ?_⟩
    simp [restoreGroupBy, h, hx.trimEnd]

/-- The clause of `head ++ rest`, when it stands on a line of its own. -/
inductive Grouped (head rest : Text) : (clause : Text) → Prop where
  | none (nowhere : Nowhere (opensClause [.grouping]) head rest) : Grouped head rest []
  | line {clause : Text} (ends : EndsInInk clause) (opens : FirstAt (opensClause [.grouping]) head (rest ++ ['\n']) clause) :
      Grouped head rest clause

section

variable {s head rest clause : Text}

/-- Blanks ahead of the clause are one line feed as well as any. -/
theorem unseen_feed {g : Text} (hg : allBlank g = true) (hf : FirstAt (opensClause [.grouping]) head (rest ++ g) clause) :
    Unseen [.grouping] (head ++ rest) g ['\n'] [] clause := by
  obtain ⟨hr, hc, k, hk, kw, r, hs, rfl, -⟩ := opensClause_iff.mp hf.here
  obtain rfl : k = .grouping := by simpa using hk
  obtain ⟨u, ws, y, rfl, hu, -⟩ := hs
  have hu : Spells ('G' :: "ROUP".toList) u := hu
  cases hu with
  | @cons _ c _ t hG ht =>
    have hc0 : isBlank c = false := not_isBlank_of_sameLetter (by decide) hG
    have hB : sameLetter 'B' c = false := sameLetter_other hG (by decide) (by decide) (by decide)
    refine ⟨⟨hg, fun h0 => ?_⟩, ⟨by decide, by simp, Or.inl (EndsApart.concat (by decide) [])⟩,
      bars_of_blank (d := c) (by decide) hc0 hB _ _, ?_, ?_⟩
    · rw [h0, List.append_nil, startsInWord_reverse] at hr
      exact Or.inl hr
    · intro a v e hv
      cases a with
      | nil =>
        by_contra ho
        obtain ⟨d, s, e', hd⟩ := starts_of_opensClause (by simpa using ho)
        rw [List.nil_append] at e
        rw [← e] at e'
        simp only [List.cons_append, List.nil_append, List.cons.injEq] at e'
        rw [← e'.1] at hd
        exact absurd hd (by decide)
      | cons d a =>
        simp only [List.cons_append, List.cons.injEq] at e
        exact absurd (List.append_eq_nil_iff.mp e.2.symm).2 hv
    · intro a v e _
      obtain ⟨rfl, rfl⟩ := List.append_eq_nil_iff.mp e.symm
      rw [List.append_nil, List.append_nil, (outside_feed _).comment, ← hc, List.append_assoc]

theorem extractGroupBy_of_none (h : fromClause? s = none) : extractGroupBy s = (s, []) := by
  simp only [extractGroupBy, h]

theorem endsInInk_head (hm : fromClause? s = some (head, rest)) (a : Text) : EndsInInk (head ++ trimEnd a) := by
  obtain ⟨-, t, ht⟩ := fromClause_joins hm
  refine endsInInk_of_trimEnd ?_ ?_
  · rw [trimEnd_append (trimEnd_head hm), trimEnd_trimEnd]
  · rw [← ht]
    simp [show fromMarker ≠ [] by decide]

/-- A clause that stands behind blanks could as well stand on a line of its own. -/
theorem grouped_of_firstAt {g : Text} (hg : allBlank g = true) (hc : EndsInInk clause)
    (hf : FirstAt (opensClause [.grouping]) head (rest ++ g) clause) : Grouped head rest clause := by
  refine .line hc ?_
  have := firstAt_edit (unseen_feed hg hf) (by simpa using hf)
  simpa using this

/-- What stands behind `head` is kept as far as `kept`, and the clause is cut off, without the
    blanks on either side. -/
structure Cutting (head kept w₁ clause w₂ : Text) : Prop where
  before : allBlank w₁ = true
  behind : allBlank w₂ = true
  keptInk : EndsInInk (head ++ kept)
  clauseInk : EndsInInk clause
  opens : FirstAt (opensClause [.grouping]) head (kept ++ w₁) (clause ++ w₂)

section

variable {kept w₁ w₂ : Text}

theorem Cutting.ne_nil (h : Cutting head kept w₁ clause w₂) : clause ≠ [] := h.clauseInk.ne_nil

/-- The clause opens with the blanks behind it and without. -/
theorem Cutting.alone (h : Cutting head kept w₁ clause w₂) : FirstAt (opensClause [.grouping]) head (kept ++ w₁) clause :=
  (firstAt_append_blank h.behind).mp h.opens

theorem Cutting.grouped (h : Cutting head kept w₁ clause w₂) : Grouped head kept clause :=
  grouped_of_firstAt h.before h.clauseInk h.alone

theorem Cutting.restored (h : Cutting head kept w₁ clause w₂) :
    restoreGroupBy (head ++ kept) clause = head ++ kept ++ '\n' :: clause := by
  simp [restoreGroupBy, h.ne_nil, h.keptInk.trimEnd]

end

/-- The GROUP BY clause is cut off where the first one opens, with the blanks ahead of it. -/
theorem extractGroupBy_cases {h r : Text} (hm : fromClause? s = some (h, r)) :
    Nowhere (opensClause [.grouping]) h r ∧ extractGroupBy s = (s, []) ∨
      ∃ kept w₁ clause w₂, r = kept ++ w₁ ++ (clause ++ w₂) ∧ Cutting h kept w₁ clause w₂ ∧
        extractGroupBy s = (h ++ kept, clause) := by
  cases hf : findClause [.grouping] h r with
  | none => exact Or.inl ⟨seek_nowhere_iff.mp hf, by simp only [extractGroupBy, hm, hf]⟩
  | some p =>
    obtain ⟨read, c⟩ := p
    obtain ⟨a, rfl, rfl, found⟩ := seek_firstAt_iff.mp hf
    obtain ⟨w₁, ha, hw₁⟩ := trimEnd_joins a
    obtain ⟨w₂, hc, hw₂⟩ := trimEnd_joins c
    obtain ⟨d, t, e, hd⟩ := starts_of_opensClause found.here
    obtain ⟨t', e'⟩ := trimEnd_cons_ink t d (not_isBlank_of_isWord hd)
    have ink : EndsInInk (trimEnd c) := endsInInk_of_trimEnd (trimEnd_trimEnd c) (by rw [e, e']; simp)
    rw [ha, hc] at found
    refine Or.inr ⟨trimEnd a, w₁, trimEnd c, w₂, by rw [← ha, ← hc], ⟨hw₁, hw₂, endsInInk_head hm a, ink, found⟩, ?_⟩
    simp only [extractGroupBy, hm, hf, List.reverse_reverse]
    rw [trimEnd_append (trimEnd_head hm)]

/-- What is cut off stands behind blanks, and could as well stand on a line of its own. -/
theorem extractGroupBy_grouped (hs : EndsInInk s) (hm : fromClause? (extractGroupBy s).1 = some (head, rest)) :
    ∃ g clause, extractGroupBy s = (head ++ rest, clause) ∧ s = head ++ rest ++ g ++ clause ∧ Gap (head ++ rest) g clause ∧
      (clause = [] → g = []) ∧ EndsInInk (head ++ rest) ∧ Grouped head rest clause := by
  cases hm₀ : fromClause? s with
  | none =>
    rw [extractGroupBy_of_none hm₀, hm₀] at hm
    cases hm
  | some p =>
    obtain ⟨h, r⟩ := p
    obtain ⟨rfl, -⟩ := fromClause_joins hm₀
    rcases extractGroupBy_cases hm₀ with ⟨hnone, e⟩ | ⟨kept, g, clause, w, rfl, cut, e⟩
    · rw [e, hm₀] at hm
      simp only [Option.some.injEq, Prod.mk.injEq] at hm
      obtain ⟨rfl, rfl⟩ := hm
      exact ⟨[], [], e, by simp, ⟨rfl, fun _ => Seam.nil _⟩, fun _ => rfl, hs, .none hnone⟩
    · rw [← List.append_assoc, ← List.append_assoc] at hs
      obtain rfl : w = [] := hs.not_blank cut.behind
      rw [e, fromClause?_congr hm₀] at hm
      simp only [Option.some.injEq, Prod.mk.injEq] at hm
      obtain ⟨rfl, rfl⟩ := hm
      exact ⟨g, clause, e, by simp, (unseen_feed cut.before cut.alone).gap, fun h0 => absurd h0 cut.ne_nil, cut.keptInk,
        cut.grouped⟩

theorem filler_feed (clause : Text) : Filler ['\n'] clause :=
  ⟨by decide, by simp, Or.inl (EndsApart.concat (by decide) [])⟩

/-- With the clause on a line of its own a text is as it was, or has a line feed for the blanks
    ahead of the clause. -/
theorem extractGroupBy_feed (hs : EndsInInk s) (hm : fromClause? (extractGroupBy s).1 = some (head, rest)) :
    ∃ clause, extractGroupBy s = (head ++ rest, clause) ∧ EndsInInk (head ++ rest) ∧ Grouped head rest clause ∧
      (s = restoreGroupBy (head ++ rest) clause ∨ ∃ g, s = head ++ rest ++ g ++ clause ∧ Gap (head ++ rest) g clause ∧
        clause ≠ [] ∧ restoreGroupBy (head ++ rest) clause = head ++ rest ++ ['\n'] ++ clause) := by
  obtain ⟨g, clause, hx, e, hg, h0, hi, hgr⟩ := extractGroupBy_grouped hs hm
  refine ⟨clause, hx, hi, hgr, ?_⟩
  by_cases hc : clause = []
  · left
    rw [h0 hc, hc] at e
    rw [hc, restoreGroupBy_nil]
    simpa using e
  · right
    refine ⟨g, e, hg, hc, ?_⟩
    simp [restoreGroupBy, hc, hi.trimEnd]

/-- Ahead of the clause, conditions fill the gap that they fill without it. -/
theorem Placed.regroup {J a w b ins : Text} (h : Placed head J a w b ins) (hw : allBlank w = true) (hJ : Trimmed J)
    (hi : EndsInInk (head ++ (a ++ w ++ b))) (clause : Text) :
    ∃ r, restoreGroupBy (head ++ (a ++ w ++ b)) clause = (head ++ a) ++ w ++ (b ++ r) ∧
      restoreGroupBy (head ++ (a ++ ins ++ b)) clause = (head ++ a) ++ ins ++ (b ++ r) ∧
      Gap (head ++ a) w (b ++ r) ∧ Filler ins (b ++ r) ∧ (r = [] ∨ ∃ t, r = '\n' :: t) := by
  obtain ⟨f, hf, he⟩ := restoreGroupBy_eq clause
  have hline : f ++ clause = [] ∨ ∃ t, f ++ clause = '\n' :: t := by
    rcases hf with ⟨rfl, rfl⟩ | ⟨rfl, -⟩
    · exact Or.inl rfl
    · exact Or.inr ⟨clause, rfl⟩
  have hclause : startsInWord (f ++ clause) = false := by
    rcases hline with h0 | ⟨t, ht⟩
    · rw [h0]; rfl
    · rw [ht]; rfl
  refine ⟨f ++ clause, ?_, ?_, (h.gap hw).extend hclause, h.filler.extend hclause, hline⟩
  · rw [he _ hi]; simp
  · rw [he _ (h.endsInInk hJ hi)]; simp

/-- A clause put back is cut off again. -/
theorem extractGroupBy_restoreGroupBy (hm : fromClause? (head ++ rest) = some (head, rest)) (hi : EndsInInk (head ++ rest))
    (h : Grouped head rest clause) : extractGroupBy (restoreGroupBy (head ++ rest) clause) = (head ++ rest, clause) := by
  cases h with
  | none nowhere =>
    have hf : findClause [.grouping] head rest = none := seek_nowhere_iff.mpr nowhere
    simp only [restoreGroupBy_nil, extractGroupBy, hm, hf]
  | line ends opens =>
    have hf : findClause [.grouping] head (rest ++ ['\n'] ++ clause) = some ((head ++ (rest ++ ['\n'])).reverse, clause) :=
      seek_firstAt_iff.mpr ⟨_, rfl, rfl, opens⟩
    have e : restoreGroupBy (head ++ rest) clause = head ++ (rest ++ ['\n'] ++ clause) := by
      simp [restoreGroupBy, ends.ne_nil, hi.trimEnd]
    simp only [e, extractGroupBy, fromClause?_congr hm, hf, List.reverse_reverse]
    rw [← List.append_assoc, trimEnd_append_blank _ _ (by decide), hi.trimEnd, ends.trimEnd]

/-- The GROUP BY clause is cut off where the first one stands behind the FROM marker that no comment
    hides, and of the rest only blanks go missing; without one nothing is cut off. Put back, it
    stands on a line of its own, and there it is cut off again. -/
theorem extractGroupBy_again (s : Text) :
    let head := (extractGroupBy s).1
    let clause := (extractGroupBy s).2
    (clause = [] ↔ ∀ marked rest u v, fromClause? s = some (marked, rest) → rest = u ++ v →
      ¬ KeywordAt [.grouping] (marked ++ u) v) ∧
    (clause = [] → head = s ∧ restoreGroupBy head clause = s) ∧
    (clause ≠ [] → ∃ marked kept w₁ w₂,
      fromClause? s = some (marked, kept ++ w₁ ++ clause ++ w₂) ∧ head = marked ++ kept ∧
      s = head ++ w₁ ++ clause ++ w₂ ∧ allBlank w₁ = true ∧ allBlank w₂ = true ∧
      KeywordAt [.grouping] (head ++ w₁) clause ∧
      (∀ u v, kept = u ++ v → v ≠ [] → ¬ KeywordAt [.grouping] (marked ++ u) (v ++ w₁ ++ clause ++ w₂)) ∧
      restoreGroupBy head clause = head ++ '\n' :: clause ∧
      extractGroupBy (head ++ '\n' :: clause) = (head, clause)) := by
  cases hm : fromClause? s with
  | none =>
    rw [extractGroupBy_of_none hm]
    simp [restoreGroupBy_nil]
  | some p =>
    obtain ⟨marked, rest⟩ := p
    have joined := (fromClause_joins hm).1
    rcases extractGroupBy_cases hm with ⟨nowhere, e⟩ | ⟨kept, w₁, clause, w₂, hrest, cut, e⟩
    · rw [e]
      refine ⟨⟨fun _ m r u v h hr => ?_, fun _ => rfl⟩, fun _ => ⟨rfl, restoreGroupBy_nil s⟩, fun h => absurd rfl h⟩
      rw [Option.some.injEq, Prod.mk.injEq] at h
      obtain ⟨rfl, rfl⟩ := h
      exact not_keywordAt_iff.mpr (nowhere u v hr)
    · rw [e]
      have hs : s = marked ++ kept ++ w₁ ++ clause ++ w₂ := by
        rw [joined, hrest]; simp only [List.append_assoc]
      have kept_marked : fromClause? (marked ++ kept) = some (marked, kept) := by
        rw [joined] at hm
        exact fromClause?_congr hm kept
      refine ⟨⟨fun h => absurd h cut.ne_nil, fun h => ?_⟩, fun h => absurd h cut.ne_nil,
        fun _ => ⟨marked, kept, w₁, w₂, ?_, rfl, hs, cut.before, cut.behind, ?_, fun u v hk hv => ?_, cut.restored, ?_⟩⟩
      · exact absurd (keywordAt_iff.mpr cut.opens.here) (h marked _ _ _ rfl hrest)
      · rw [hrest]; simp only [List.append_assoc]
      · rw [List.append_assoc]; exact keywordAt_iff.mpr cut.alone.here
      · rw [not_keywordAt_iff, List.append_assoc]
        exact cut.opens.before u (v ++ w₁) (by rw [hk, List.append_assoc]) (by simp [hv])
      · rw [← cut.restored]
        exact extractGroupBy_restoreGroupBy kept_marked cut.keptInk cut.grouped

/-- A remark that names the clause is kept, and the blanks around the clause are not. -/
example : extractGroupBy "-- FROM clause\nFROM t -- GROUP BY x\n  group  by y -- all\n".toList =
    ("-- FROM clause\nFROM t -- GROUP BY x".toList, "group  by y -- all".toList) := by
  decide +kernel

theorem Grouped.edit {J a w b ins : Text} (hg : Grouped head (a ++ w ++ b) clause) (h : Placed head J a w b ins)
    (hw : allBlank w = true) (hJ : Predicate J) (hq : KeywordsOutside head (a ++ w ++ b)) :
    Grouped head (a ++ ins ++ b) clause := by
  cases hg with
  | none nowhere =>
    have hu := h.unseen hw hJ hq (Or.inl ⟨rfl, rfl⟩ : [] = [] ∧ [] = [] ∨ [] = ['\n'])
    rw [List.append_nil] at hu
    exact .none (nowhere_edit hu nowhere)
  | line ends opens =>
    have hu := h.unseen hw hJ hq (Or.inr rfl) (z := clause)
    refine .line ends ?_
    rw [List.append_assoc]
    exact firstAt_edit hu (by rw [← List.append_assoc]; exact opens)

end

end ExportQuery.Sql
