/-
  ExportQuery.Proofs.Pairing — CASE and END paired over nested expressions.

  The pairing goes over the text once, with the number of open expressions and the start of the
  outermost one. Text in which every CASE and END stands in a literal or behind a dot leaves
  both as they were; where nothing is open, so does text in which every CASE does. A keyword
  counts when it stands apart, behind no dot and behind paired quotes, so one that stands
  between two such texts moves the number by one; by induction on the nesting, a whole
  expression leaves the number as it was, and it leaves its label and its text when nothing
  else was open.

  - `caseWord?_eq_some_iff`: which words count as keywords of CASE expressions.
  - `casesFrom_quiet` / `casesFrom_idle`: text without bare keywords is passed over.
  - `Nested.scan` / `IsCase.scan`: a nested expression is passed over as a whole.
  - `labelledCases_eq`: the labelled CASE expressions of a list of projections.
-/

import ExportQuery.Proofs.Comment
import ExportQuery.Proofs.Labels

namespace ExportQuery.Sql

open ExportQuery.Text

/-! ## Keywords -/

/-- CASE or END, in any case of their letters. -/
def IsCaseWord (k : Text) : Prop := Spells "CASE".toList k ∨ Spells "END".toList k

theorem upper_case : "CASE".toList ≠ [] ∧ ∀ u ∈ "CASE".toList, u.isUpper = true := ⟨by decide, List.all_eq_true.mp (by decide)⟩

theorem upper_end : "END".toList ≠ [] ∧ ∀ u ∈ "END".toList, u.isUpper = true := ⟨by decide, List.all_eq_true.mp (by decide)⟩

theorem IsCaseWord.starts {k : Text} (h : IsCaseWord k) : ∃ c s, k = c :: s ∧ isWord c = true := by
  rcases h with h | h
  · exact h.starts upper_case
  · exact h.starts upper_end

theorem IsCaseWord.word {k : Text} (h : IsCaseWord k) : ∀ c ∈ k, isWord c = true := by
  rcases h with h | h
  · exact h.word upper_case.2
  · exact h.word upper_end.2

theorem IsCaseWord.ne_nil {k : Text} (h : IsCaseWord k) : k ≠ [] := by
  obtain ⟨c, s, rfl, -⟩ := h.starts
  simp

theorem IsCaseWord.quote_not_mem {k : Text} (h : IsCaseWord k) : '\'' ∉ k := by
  intro hm
  have := h.word _ hm
  rw [not_isWord_quote] at this; cases this

/-- No text starts with both keywords. -/
theorem dropWord?_case_of_end {e : Text} (h : Spells "END".toList e) (rest : Text) :
    dropWord? "CASE".toList (e ++ rest) = none := by
  cases hd : dropWord? "CASE".toList (e ++ rest) with
  | none => rfl
  | some r =>
    obtain ⟨k, hk, hs⟩ := dropWord?_eq_some_iff.mp hd
    obtain ⟨c, e, rfl, hc⟩ := Spells.head 'E' "ND".toList h
    obtain ⟨d, k, rfl, hd'⟩ := Spells.head 'C' "ASE".toList hk
    simp only [List.cons_append, List.cons.injEq] at hs
    rw [← hs.1, sameLetter_other hc (by decide) (by decide) (by decide)] at hd'
    cases hd'

/-- A keyword is read at a word of its own; it opens when it is CASE in ASCII letters. -/
theorem caseWord?_eq_some_iff {x left rest : Text} {opening : Bool} :
    caseWord? x.reverse left = some (opening, rest) ↔ EndsApart x ∧ ∃ k, IsCaseWord k ∧ left = k ++ rest ∧
      startsInWord rest = false ∧ opening = sameAscii "CASE".toList k := by
  have htake : ∀ k : Text, (k ++ rest).take ((k ++ rest).length - rest.length) = k := by
    intro k
    rw [List.length_append, Nat.add_sub_cancel, List.take_left]
  unfold caseWord?
  constructor
  · intro h
    split at h
    · cases h
    rename_i hx
    obtain ⟨r, hr, h⟩ := Option.map_eq_some_iff.mp h
    obtain ⟨hr, hs⟩ := Option.filter_eq_some_iff.mp hr
    simp only [Prod.mk.injEq] at h
    obtain ⟨ho, rfl⟩ := h
    have hk : ∃ k, IsCaseWord k ∧ left = k ++ r := by
      rcases Option.or_eq_some_iff.mp hr with h | ⟨-, h⟩
      · obtain ⟨k, hk, e⟩ := dropWord?_eq_some_iff.mp h
        exact ⟨k, Or.inl hk, e⟩
      · obtain ⟨k, hk, e⟩ := dropWord?_eq_some_iff.mp h
        exact ⟨k, Or.inr hk, e⟩
    obtain ⟨k, hk, rfl⟩ := hk
    rw [htake] at ho
    exact ⟨startsInWord_reverse.mp (by simpa using hx), k, hk, rfl, by simpa using hs, ho.symm⟩
  · intro h
    obtain ⟨hx, k, hk, rfl, hs, rfl⟩ := h
    rw [startsInWord_reverse.mpr hx]
    have hdrop : (dropWord? "CASE".toList (k ++ rest)).or (dropWord? "END".toList (k ++ rest)) = some rest := by
      rcases hk with hk | hk
      · rw [dropWord?_eq_some_iff.mpr ⟨k, hk, rfl⟩]; rfl
      · rw [dropWord?_case_of_end hk, dropWord?_eq_some_iff.mpr ⟨k, hk, rfl⟩]; rfl
    rw [hdrop]
    simp [Option.filter, hs]

/-- Letters that are the same in ASCII spell the same word. -/
theorem spells_of_sameAscii {word k : Text} (hw : ∀ u ∈ word, u.isUpper = true) (h : sameAscii word k = true) :
    Spells word k := by
  have letter : ∀ u c : Char, u.isUpper = true → c.toLower = u.toLower → sameLetter u c = true := by
    intro u c hu hc
    have back : ∀ {u : Char}, u.isUpper = true → u.toLower.toUpper = u :=
      fun hu => forall_upper (M := fun u => u.toLower.toUpper = u) (by decide) hu
    by_cases hup : c.isUpper = true
    · have : c = u := by rw [← back hup, hc, back hu]
      simp [sameLetter, this]
    · have : c.toLower = c := dif_neg fun h => hup (decide_eq_true h)
      simp [sameLetter, ← hc, this]
  have hmap : word.map Char.toLower = k.map Char.toLower := by simpa [sameAscii] using h
  clear h
  induction word generalizing k with
  | nil =>
    obtain rfl : k = [] := by simpa using hmap.symm
    exact List.Forall₂.nil
  | cons u word ih =>
    cases k with
    | nil => cases hmap
    | cons c k =>
      simp only [List.map_cons, List.cons.injEq] at hmap
      exact List.Forall₂.cons (letter u c (hw u (by simp)) hmap.1.symm) (ih (fun v hv => hw v (by simp [hv])) hmap.2)

/-- No word of another length is CASE. -/
theorem not_case_of_length {k : Text} (h : k.length ≠ 4) : sameAscii "CASE".toList k = false := by
  rw [sameAscii, beq_eq_false_iff_ne]
  intro he
  have hlen := congrArg List.length he
  simp only [List.length_map] at hlen
  exact h hlen.symm

/-- A keyword that closes an expression: END, or CASE written with a long s. -/
def Closes (n : Text) : Prop := IsCaseWord n ∧ sameAscii "CASE".toList n = false

theorem closes_of_end {n : Text} (h : sameAscii "END".toList n = true) : Closes n := by
  refine ⟨Or.inr (spells_of_sameAscii upper_end.2 h), not_case_of_length fun h4 => ?_⟩
  have hl : "END".toList.map Char.toLower = n.map Char.toLower := by simpa [sameAscii] using h
  have hlen := congrArg List.length hl
  simp only [List.length_map, h4] at hlen
  exact absurd hlen (by decide)

/-! ## Text without bare keywords -/

/-- Every CASE and END of the text stands in a literal or behind a dot. -/
def Quiet (t : Text) : Prop :=
  ∀ a k b, t = a ++ k ++ b → IsCaseWord k → EndsApart a → startsInWord b = false →
    inLiteral a.reverse = true ∨ a.getLast? = some '.'

/-- Every CASE of the text stands in a literal or behind a dot, so it opens no expression. -/
def Idle (t : Text) : Prop :=
  ∀ a k b, t = a ++ k ++ b → sameAscii "CASE".toList k = true → EndsApart a → startsInWord b = false →
    inLiteral a.reverse = true ∨ a.getLast? = some '.'

/-- Text that opens no expression and ends outside literals. -/
structure Harmless (t : Text) : Prop where
  idle : Idle t
  paired : inLiteral t.reverse = false

/-- A keyword behind the text counts. -/
structure Counting (x : Text) : Prop where
  apart : EndsApart x
  undotted : x.getLast? ≠ some '.'
  paired : inLiteral x.reverse = false

variable {depth start : Nat} {x t rest : Text}

/-- Whether a text is quiet is told from its places. -/
theorem quiet_iff : Quiet t ↔ ∀ n < t.length, (caseWord? (t.take n).reverse (t.drop n)).isSome = true →
    inLiteral (t.take n).reverse = true ∨ (t.take n).getLast? = some '.' := by
  constructor
  · intro h n hn hc
    obtain ⟨⟨opening, r⟩, hc⟩ := Option.isSome_iff_exists.mp hc
    obtain ⟨hx, k, hk, e, hr, -⟩ := caseWord?_eq_some_iff.mp hc
    exact h (t.take n) k r (by rw [List.append_assoc, ← e, List.take_append_drop]) hk hx hr
  · intro h a k b e hk ha hb
    have hlen : 0 < k.length := List.length_pos_iff.mpr hk.ne_nil
    have htake : t.take a.length = a := by rw [e, List.append_assoc, List.take_left]
    have hdrop : t.drop a.length = k ++ b := by rw [e, List.append_assoc, List.drop_left]
    have := h a.length (by rw [e]; simp only [List.length_append]; omega)
    rw [htake, hdrop] at this
    exact this (Option.isSome_iff_exists.mpr ⟨_, caseWord?_eq_some_iff.mpr ⟨ha, k, hk, rfl, hb, rfl⟩⟩)

instance (t : Text) : Decidable (Quiet t) := decidable_of_iff' _ quiet_iff

theorem isCaseWord_case {k : Text} (h : sameAscii "CASE".toList k = true) : IsCaseWord k :=
  Or.inl (spells_of_sameAscii upper_case.2 h)

theorem Quiet.idle (h : Quiet t) : Idle t := fun a k b e hk => h a k b e (isCaseWord_case hk)

theorem counting_iff : Counting x ↔ startsInWord x.reverse = false ∧ x.getLast? ≠ some '.' ∧ inLiteral x.reverse = false :=
  ⟨fun h => ⟨startsInWord_reverse.mpr h.apart, h.undotted, h.paired⟩, fun h => ⟨startsInWord_reverse.mp h.1, h.2.1, h.2.2⟩⟩

instance (x : Text) : Decidable (Counting x) := decidable_of_iff' _ counting_iff

theorem Counting.nil : Counting [] := ⟨EndsApart.nil, by simp, rfl⟩

theorem Counting.append (h : Counting t) (h0 : t = [] → Counting x) (hx : inLiteral x.reverse = false) : Counting (x ++ t) := by
  by_cases ht : t = []
  · rw [ht, List.append_nil]; exact h0 ht
  · refine ⟨h.apart.append ht x, ?_, (inLiteral_append hx).trans h.paired⟩
    rw [List.getLast?_append, List.getLast?_eq_some_getLast ht, Option.some_or, ← List.getLast?_eq_some_getLast ht]
    exact h.undotted

theorem paired_of_not_mem (h : '\'' ∉ x) : inLiteral x.reverse = false :=
  (inLiteral_reverse x).trans (oddQuotes_of_not_mem fun hm => h (mem_of_mem_lineSoFar hm))

theorem paired_append (hx : inLiteral x.reverse = false) (ht : inLiteral t.reverse = false) :
    inLiteral (x ++ t).reverse = false :=
  (inLiteral_append hx).trans ht

/-- A single word opens an expression when it is CASE. -/
theorem idle_of_word (h : ∀ c ∈ t, isWord c = true) (hc : sameAscii "CASE".toList t = false) : Idle t := by
  intro a k b e hk ha hb
  cases a using List.reverseRecOn with
  | append_singleton a c =>
    have := ha c (by simp)
    rw [h c (by rw [e]; simp)] at this; cases this
  | nil =>
    cases b with
    | cons c b =>
      rw [startsInWord, h c (by rw [e]; simp)] at hb; cases hb
    | nil =>
      rw [e, List.nil_append, List.append_nil, hk] at hc; cases hc

/-- CASE has its first letter. -/
theorem harmless_of_not_mem (h₁ : 'C' ∉ t) (h₂ : 'c' ∉ t) (h₃ : '\'' ∉ t) : Harmless t := by
  refine ⟨?_, paired_of_not_mem h₃⟩
  intro a k b e hk _ _
  obtain ⟨c, s, rfl, hc⟩ := Spells.head 'C' "ASE".toList (spells_of_sameAscii upper_case.2 hk)
  have hmem : c ∈ t := by rw [e]; simp
  have hcc : c = 'C' ∨ c = 'c' := by simpa [sameLetter] using hc
  rcases hcc with rfl | rfl
  · exact absurd hmem h₁
  · exact absurd hmem h₂

/-- Texts that open no expression open none together, unless a word reaches across. -/
theorem Harmless.append_idle (ht : Harmless t) (hr : Idle rest) (hs : Seam t rest) : Idle (t ++ rest) := by
  intro a k b e hk ha hb
  rcases hs.split (isCaseWord_case hk).word e with ⟨v, rfl, rfl⟩ | ⟨u, rfl, rfl⟩
  · refine ht.idle a k v rfl hk ha ?_
    cases v with
    | nil => rfl
    | cons c v => exact hb
  · rw [inLiteral_append ht.paired]
    refine (hr u k b rfl hk ha.suffix hb).imp_right fun hd => ?_
    rw [List.getLast?_append, hd]; rfl

theorem Harmless.append (ht : Harmless t) (hr : Harmless rest) (hs : Seam t rest) : Harmless (t ++ rest) :=
  ⟨ht.append_idle hr.idle hs, paired_append ht.paired hr.paired⟩

/-- Where a keyword does not count, or closes where nothing is open, nothing changes. -/
theorem casesFrom_skip {c : Char} {left : Text}
    (h : ∀ k r, IsCaseWord k → c :: left = k ++ r → startsInWord r = false → EndsApart x →
      inLiteral x.reverse = true ∨ x.getLast? = some '.' ∨ depth = 0 ∧ sameAscii "CASE".toList k = false) :
    casesFrom depth start x.reverse (c :: left) = casesFrom depth start (x ++ [c]).reverse left := by
  rw [List.reverse_append, List.reverse_singleton, List.singleton_append]
  cases hc : caseWord? x.reverse (c :: left) with
  | none => exact casesFrom_step hc depth start
  | some found =>
    obtain ⟨opening, r⟩ := found
    obtain ⟨hx, k, hk, e, hr, rfl⟩ := caseWord?_eq_some_iff.mp hc
    rw [casesFrom, hc]
    rcases h k r hk e hr hx with hl | hd | ⟨rfl, ho⟩
    · simp only [hl, Bool.true_or, if_true]
    · simp only [List.head?_reverse, hd, beq_self_eq_true, Bool.or_true, if_true]
    · simp [ho, - String.reduceToList]

/-- Text is passed over when none of its keywords counts, or none opens where nothing is open. -/
theorem casesFrom_pass (hx : inLiteral x.reverse = false) (hs : Seam t rest)
    (h : ∀ a k b, t = a ++ k ++ b → IsCaseWord k → EndsApart a → startsInWord b = false →
      inLiteral a.reverse = true ∨ a.getLast? = some '.' ∨ depth = 0 ∧ sameAscii "CASE".toList k = false) :
    casesFrom depth start x.reverse (t ++ rest) = casesFrom depth start (x ++ t).reverse rest := by
  have from_here : ∀ v u, t = u ++ v →
      casesFrom depth start (x ++ u).reverse (v ++ rest) = casesFrom depth start (x ++ t).reverse rest := by
    intro v
    induction v with
    | nil =>
      intro u e
      rw [e, List.append_nil, List.nil_append]
    | cons c v ih =>
      intro u e
      rw [List.cons_append, casesFrom_skip ?_, List.append_assoc]
      · exact ih (u ++ [c]) (by rw [e]; simp)
      intro k r hk ek hr hxu
      have hseam : Seam (c :: v) rest := hs.shrink ⟨u, e.symm⟩
      rcases hseam.split (u := []) (v := r) hk.word (by simpa using ek) with ⟨v', hv, hr'⟩ | ⟨u', -, hu⟩
      · have hu : EndsApart u := hxu.suffix
        have hv' : startsInWord v' = false := by
          rw [hr'] at hr
          cases v' with
          | nil => rfl
          | cons d v' => exact hr
        rw [inLiteral_append hx]
        refine (h u k v' (by rw [e, hv]; simp) hk hu hv').imp_right (Or.imp_left fun hd => ?_)
        rw [List.getLast?_append, hd]; rfl
      · simp at hu
  simpa using from_here t [] rfl

/-- Text without bare keywords is passed over. -/
theorem casesFrom_quiet (hq : Quiet t) (hx : inLiteral x.reverse = false) (hs : Seam t rest) :
    casesFrom depth start x.reverse (t ++ rest) = casesFrom depth start (x ++ t).reverse rest :=
  casesFrom_pass hx hs fun a k b e hk ha hb => (hq a k b e hk ha hb).imp_right Or.inl

/-- Where nothing is open, text that opens no expression is passed over. -/
theorem casesFrom_idle (hi : Idle t) (hx : inLiteral x.reverse = false) (hs : Seam t rest) :
    casesFrom 0 start x.reverse (t ++ rest) = casesFrom 0 start (x ++ t).reverse rest := by
  refine casesFrom_pass hx hs fun a k b e hk ha hb => ?_
  by_cases ho : sameAscii "CASE".toList k = true
  · exact (hi a k b e ho ha hb).imp_right Or.inl
  · exact Or.inr (Or.inr ⟨rfl, by simpa using ho⟩)

/-- Within a word no keyword starts. -/
theorem casesFrom_word (depth start : Nat) (rest : Text) {w : Text} (hx : startsInWord x.reverse = true)
    (hw : ∀ c ∈ w, isWord c = true) :
    casesFrom depth start x.reverse (w ++ rest) = casesFrom depth start (x ++ w).reverse rest := by
  induction w generalizing x with
  | nil => simp
  | cons c w ih =>
    rw [List.cons_append, casesFrom_skip ?_, ih ?_ fun d hd => hw d (by simp [hd])]
    · simp
    · rw [List.reverse_append]; exact hw c (by simp)
    · intro k r _ _ _ he
      rw [startsInWord_reverse.mpr he] at hx; cases hx

/-! ## Keywords that count -/

/-- CASE opens one more expression, the outermost one when none is open. -/
theorem casesFrom_case {k : Text} (hx : Counting x) (hk : sameAscii "CASE".toList k = true) (hr : startsInWord rest = false) :
    casesFrom depth start x.reverse (k ++ rest) =
      casesFrom (depth + 1) (if depth = 0 then x.length else start) (x ++ k).reverse rest := by
  have hword : IsCaseWord k := Or.inl (spells_of_sameAscii upper_case.2 hk)
  obtain ⟨c, w, rfl, hc⟩ := hword.starts
  have hread : caseWord? x.reverse (c :: w ++ rest) = some (true, rest) :=
    caseWord?_eq_some_iff.mpr ⟨hx.apart, c :: w, hword, rfl, hr, hk.symm⟩
  have hdot : (x.reverse.head? == some '.') = false := by
    rw [List.head?_reverse, beq_eq_false_iff_ne]; exact hx.undotted
  rw [List.cons_append] at hread ⊢
  rw [casesFrom, hread]
  simp only [hx.paired, hdot, Bool.or_self, Bool.false_eq_true, if_false, if_true, List.length_reverse]
  have hin : startsInWord (x ++ [c]).reverse = true := by rw [List.reverse_append]; exact hc
  have := casesFrom_word (depth + 1) (if depth = 0 then x.length else start) rest hin
    fun d hd => hword.word d (List.mem_cons_of_mem c hd)
  simpa using this

/-- The text read since a place. -/
theorem reverse_take_reverse (x : Text) (n : Nat) : (x.reverse.take (x.reverse.length - n)).reverse = x.drop n := by
  rw [List.length_reverse, ← List.reverse_drop, List.reverse_reverse]

/-- END closes an expression; the outermost one is taken when a label follows. -/
theorem casesFrom_end {e : Text} (hx : Counting x) (he : Closes e) (hr : startsInWord rest = false) :
    casesFrom depth start x.reverse (e ++ rest) =
      (if depth = 1 then (label? rest).toList.map fun p => (p.1, x.drop start ++ e) else []) ++
        casesFrom (depth - 1) start (x ++ e).reverse rest := by
  obtain ⟨c, w, rfl, hc⟩ := he.1.starts
  have hread : caseWord? x.reverse (c :: w ++ rest) = some (false, rest) :=
    caseWord?_eq_some_iff.mpr ⟨hx.apart, c :: w, he.1, rfl, hr, he.2.symm⟩
  have hdot : (x.reverse.head? == some '.') = false := by
    rw [List.head?_reverse, beq_eq_false_iff_ne]; exact hx.undotted
  have hkey : (c :: (w ++ rest)).take ((w ++ rest).length + 1 - rest.length) = c :: w := by
    have : (w ++ rest).length + 1 - rest.length = (c :: w).length := by
      simp only [List.length_append, List.length_cons]; omega
    rw [this, ← List.cons_append, List.take_left]
  have hin : startsInWord (x ++ [c]).reverse = true := by rw [List.reverse_append]; exact hc
  have hrest := casesFrom_word (depth - 1) start rest hin
    fun d hd => he.1.word d (List.mem_cons_of_mem c hd)
  rw [List.cons_append] at hread ⊢
  rw [casesFrom, hread]
  simp only [hx.paired, hdot, Bool.or_self, Bool.false_eq_true, if_false, reverse_take_reverse, hkey]
  congr 1
  simpa using hrest

/-- Behind a place where a keyword counts, a keyword counts as if the text started there. -/
theorem Counting.fresh (h : Counting x) (y : Text) : startsInWord (x ++ y).reverse = startsInWord y.reverse ∧
    inLiteral (x ++ y).reverse = inLiteral y.reverse ∧
      ((x ++ y).reverse.head? == some '.') = (y.reverse.head? == some '.') := by
  refine ⟨?_, inLiteral_append h.paired, ?_⟩
  · cases y using List.reverseRecOn with
    | nil => rw [List.append_nil, startsInWord_reverse.mpr h.apart]; rfl
    | append_singleton y c => simp [startsInWord]
  · cases y using List.reverseRecOn with
    | nil => simp [h.undotted]
    | append_singleton y c => simp

/-- Behind a place where a keyword counts, with nothing open, the pairing goes on as from the start. -/
theorem casesFrom_fresh (h : Counting x) : casesFrom 0 start x.reverse rest = labelledCases rest := by
  have from_here : ∀ (s y : Text) (depth start start' : Nat), depth = 0 ∨ start = x.length + start' →
      casesFrom depth start (x ++ y).reverse s = casesFrom depth start' y.reverse s := by
    intro s
    induction s with
    | nil => intros; rfl
    | cons c s ih =>
      intro y depth start start' hs
      have hstep : ∀ depth start start', depth = 0 ∨ start = x.length + start' →
          casesFrom depth start (c :: (x ++ y).reverse) s = casesFrom depth start' (c :: y.reverse) s := by
        intro depth start start' hs
        have := ih (y ++ [c]) depth start start' hs
        simpa using this
      obtain ⟨hw, hl, hd⟩ := h.fresh y
      have hread : caseWord? (x ++ y).reverse (c :: s) = caseWord? y.reverse (c :: s) := by
        unfold caseWord?
        rw [hw]
      rw [casesFrom, casesFrom, hread, hl, hd]
      split
      · exact hstep depth start start' hs
      split
      · exact hstep depth start start' hs
      split
      · refine hstep _ _ _ (Or.inr ?_)
        by_cases h0 : depth = 0
        · simp [h0, Nat.add_comm]
        · rw [if_neg h0, if_neg h0]
          exact hs.resolve_left h0
      · rw [hstep (depth - 1) start start' (hs.imp_left fun h0 => by omega)]
        by_cases h1 : depth = 1
        · obtain rfl := hs.resolve_left (by omega)
          have htext : ((x ++ y).reverse.take ((x ++ y).reverse.length - (x.length + start'))).reverse =
              (y.reverse.take (y.reverse.length - start')).reverse := by
            rw [reverse_take_reverse, reverse_take_reverse, List.drop_append]
            simp
          simp only [htext]
        · simp [h1]
  have := from_here rest [] 0 start 0 (Or.inl rfl)
  simpa [labelledCases] using this
/-! ## Nested expressions -/

/-- Text between two keywords of an expression. -/
structure Stretch (t : Text) : Prop extends Counting t where
  ne_nil : t ≠ []
  quiet : Quiet t
  starts : startsInWord t = false

theorem stretch_iff : Stretch t ↔ Counting t ∧ t ≠ [] ∧ Quiet t ∧ startsInWord t = false :=
  ⟨fun h => ⟨h.toCounting, h.ne_nil, h.quiet, h.starts⟩, fun h => ⟨h.1, h.2.1, h.2.2.1, h.2.2.2⟩⟩

instance (t : Text) : Decidable (Stretch t) := decidable_of_iff' _ stretch_iff

/-- What stands between a CASE and its END: text, and whole expressions with text between them. -/
inductive Nested : Text → Prop
  | text {t : Text} : Stretch t → Nested t
  | case {t k b e r : Text} : Stretch t → sameAscii "CASE".toList k = true → Nested b →
      Closes e → Nested r → Nested (t ++ (k ++ (b ++ (e ++ r))))

/-- A CASE expression, from its CASE through its END. -/
def IsCase (e : Text) : Prop :=
  ∃ k b n, sameAscii "CASE".toList k = true ∧ Nested b ∧ Closes n ∧ e = k ++ (b ++ n)

theorem IsCaseWord.paired {k : Text} (h : IsCaseWord k) : inLiteral k.reverse = false := paired_of_not_mem h.quote_not_mem

theorem startsInWord_append_of_ne_nil {y : Text} (h0 : t ≠ []) (h : startsInWord t = false) : startsInWord (t ++ y) = false := by
  cases t with
  | nil => exact absurd rfl h0
  | cons c t => exact h

theorem Stretch.behind (h : Stretch t) (hx : inLiteral x.reverse = false) : Counting (x ++ t) :=
  h.toCounting.append (fun h0 => absurd h0 h.ne_nil) hx

theorem Nested.starts {b : Text} (h : Nested b) (y : Text) : startsInWord (b ++ y) = false := by
  cases h with
  | text ht => exact startsInWord_append_of_ne_nil ht.ne_nil ht.starts
  | case ht =>
    rw [List.append_assoc]
    exact startsInWord_append_of_ne_nil ht.ne_nil ht.starts

/-- Behind what stands between CASE and END, the END counts. -/
theorem Nested.behind {b : Text} (h : Nested b) (hx : inLiteral x.reverse = false) : Counting (x ++ b) := by
  induction h generalizing x with
  | text ht => exact ht.behind hx
  | @case t k b e r ht hk _ he _ ihb ihr =>
    have hxk := paired_append (ht.behind hx).paired (isCaseWord_case hk).paired
    have hxe := paired_append (ihb hxk).paired he.1.paired
    have := ihr hxe
    simpa using this

/-- Within an open expression, an inner one is passed over when what it holds is. -/
theorem casesFrom_inner {k b e : Text} (ht : Stretch t) (hk : sameAscii "CASE".toList k = true) (hb : Nested b) (he : Closes e)
    (hr : startsInWord rest = false) (hx : inLiteral x.reverse = false)
    (scan : ∀ rest, casesFrom (depth + 1 + 1) start (x ++ t ++ k).reverse (b ++ rest) =
      casesFrom (depth + 1 + 1) start (x ++ t ++ k ++ b).reverse rest) :
    casesFrom (depth + 1) start x.reverse (t ++ (k ++ (b ++ (e ++ rest)))) =
      casesFrom (depth + 1) start (x ++ t ++ k ++ b ++ e).reverse rest := by
  have hxt := ht.behind hx
  have hxb := hb.behind (paired_append hxt.paired (isCaseWord_case hk).paired)
  calc casesFrom (depth + 1) start x.reverse (t ++ (k ++ (b ++ (e ++ rest))))
      = casesFrom (depth + 1) start (x ++ t).reverse (k ++ (b ++ (e ++ rest))) :=
        casesFrom_quiet ht.quiet hx (Or.inl ht.apart)
    _ = casesFrom (depth + 1 + 1) start (x ++ t ++ k).reverse (b ++ (e ++ rest)) := by
        rw [casesFrom_case hxt hk (hb.starts _)]; simp
    _ = casesFrom (depth + 1 + 1) start (x ++ t ++ k ++ b).reverse (e ++ rest) := scan _
    _ = casesFrom (depth + 1) start (x ++ t ++ k ++ b ++ e).reverse rest := by
        rw [casesFrom_end hxb he hr]; simp

/-- What stands between CASE and END is passed over while the expression is open. -/
theorem Nested.scan {b : Text} (h : Nested b) (hx : inLiteral x.reverse = false) :
    casesFrom (depth + 1) start x.reverse (b ++ rest) = casesFrom (depth + 1) start (x ++ b).reverse rest := by
  induction h generalizing depth x rest with
  | text ht => exact casesFrom_quiet ht.quiet hx (Or.inl ht.apart)
  | @case t k b e r ht hk hb he hr ihb ihr =>
    have hxk := paired_append (ht.behind hx).paired (isCaseWord_case hk).paired
    have hxe := paired_append (hb.behind hxk).paired he.1.paired
    calc casesFrom (depth + 1) start x.reverse (t ++ (k ++ (b ++ (e ++ r))) ++ rest)
        = casesFrom (depth + 1) start x.reverse (t ++ (k ++ (b ++ (e ++ (r ++ rest))))) := by simp
      _ = casesFrom (depth + 1) start (x ++ t ++ k ++ b ++ e).reverse (r ++ rest) :=
          casesFrom_inner ht hk hb he (hr.starts _) hx fun _ => ihb hxk
      _ = casesFrom (depth + 1) start (x ++ t ++ k ++ b ++ e ++ r).reverse rest := ihr hxe
      _ = casesFrom (depth + 1) start (x ++ (t ++ (k ++ (b ++ (e ++ r))))).reverse rest := by simp

theorem IsCase.starts {e : Text} (h : IsCase e) : startsInWord (e ++ rest) = true := by
  obtain ⟨k, b, n, hk, -, -, rfl⟩ := h
  obtain ⟨c, t, rfl, hc⟩ := (isCaseWord_case hk).starts
  exact hc

theorem IsCase.paired {e : Text} (h : IsCase e) : inLiteral e.reverse = false := by
  obtain ⟨k, b, n, hk, hb, hn, rfl⟩ := h
  rw [← List.append_assoc]
  exact paired_append (hb.behind (isCaseWord_case hk).paired).paired hn.1.paired

/-- An expression behind which no other one is open is passed over, and taken when a label follows. -/
theorem IsCase.scan {e : Text} (h : IsCase e) (hx : Counting x) (hr : startsInWord rest = false) :
    casesFrom 0 start x.reverse (e ++ rest) =
      ((label? rest).toList.map fun p => (p.1, e)) ++ casesFrom 0 x.length (x ++ e).reverse rest := by
  obtain ⟨k, b, n, hk, hb, hn, rfl⟩ := h
  have hxk := paired_append hx.paired (isCaseWord_case hk).paired
  have hxb := hb.behind hxk
  have htext : (x ++ k ++ b).drop x.length ++ n = k ++ (b ++ n) := by simp
  calc casesFrom 0 start x.reverse (k ++ (b ++ n) ++ rest)
      = casesFrom 0 start x.reverse (k ++ (b ++ (n ++ rest))) := by simp
    _ = casesFrom 1 x.length (x ++ k).reverse (b ++ (n ++ rest)) := by
        rw [casesFrom_case hx hk (hb.starts _)]; simp
    _ = casesFrom 1 x.length (x ++ k ++ b).reverse (n ++ rest) := hb.scan hxk
    _ = ((label? rest).toList.map fun p => (p.1, k ++ (b ++ n))) ++ casesFrom 0 x.length (x ++ k ++ b ++ n).reverse rest := by
        rw [casesFrom_end hxb hn hr, htext]; simp
    _ = ((label? rest).toList.map fun p => (p.1, k ++ (b ++ n))) ++ casesFrom 0 x.length (x ++ (k ++ (b ++ n))).reverse rest := by
        simp

/-! ## Lists of projections -/

/-- The text starts with the label `l`: AS between blanks, and `l` in double quotes. -/
def Labelled (s l : Text) : Prop := ∃ t r, IsAs t ∧ l ≠ [] ∧ '"' ∉ l ∧ s = t ++ '"' :: (l ++ '"' :: r)

theorem labelled_iff {s l : Text} : Labelled s l ↔ (label? s).map (·.1) = some l := by
  rw [Option.map_eq_some_iff]
  constructor
  · intro h
    obtain ⟨t, r, h⟩ := h
    exact ⟨(l, r), label?_eq_some_iff.mpr ⟨t, h⟩, rfl⟩
  · intro h
    obtain ⟨⟨_, r⟩, h, rfl⟩ := h
    obtain ⟨t, h⟩ := label?_eq_some_iff.mp h
    exact ⟨t, r, h⟩

theorem Labelled.starts {s l : Text} (h : Labelled s l) : startsInWord s = false := by
  obtain ⟨t, r, ht, -, -, rfl⟩ := h
  exact ht.starts _

theorem not_labelled_iff {s : Text} : (∀ l, ¬ Labelled s l) ↔ label? s = none := by
  rw [← Option.map_eq_none_iff (f := (·.1)), Option.eq_none_iff_forall_ne_some]
  exact forall_congr' fun l => not_congr labelled_iff

/-- From `s` up to `rest`, CASE expressions stand between texts that open no expression, which may
    hold labels of other projections and calls that wrap an expression. `found` are the expressions
    with a label directly behind them, in order. -/
inductive Projections : Text → Text → List (Text × Text) → Prop
  | done {t rest : Text} : Harmless t → Seam t rest → Projections (t ++ rest) rest []
  | labelled {t e s l rest : Text} {found : List (Text × Text)} : Idle t → Counting t → IsCase e → Labelled s l →
      Projections s rest found → Projections (t ++ (e ++ s)) rest ((l, e) :: found)
  | unlabelled {t e s rest : Text} {found : List (Text × Text)} : Idle t → Counting t → IsCase e → (∀ l, ¬ Labelled s l) →
      startsInWord s = false → Projections s rest found → Projections (t ++ (e ++ s)) rest found

/-- Text ahead of an expression lets its CASE count. -/
theorem Counting.lead {e s : Text} (ht : Counting t) (he : IsCase e) (hx : inLiteral x.reverse = false)
    (hs : startsInWord (t ++ (e ++ s)) = true → Counting x) : Counting (x ++ t) :=
  ht.append (fun h0 => hs (by rw [h0]; exact he.starts)) hx

/-- Going over projections finds their labelled expressions and leaves none open. -/
theorem Projections.scan (start : Nat) {s : Text} {found : List (Text × Text)} (h : Projections s rest found)
    (hx : inLiteral x.reverse = false) (hs : startsInWord s = true → Counting x) :
    ∃ y start', x ++ s = y ++ rest ∧ inLiteral y.reverse = false ∧
      casesFrom 0 start x.reverse s = found ++ casesFrom 0 start' y.reverse rest := by
  induction h generalizing x start with
  | @done t rest ht hseam =>
    exact ⟨x ++ t, start, by simp, paired_append hx ht.paired, casesFrom_idle ht.idle hx hseam⟩
  | @labelled t e s l rest found hq ht he hl _ ih =>
    have hxt := ht.lead he hx hs
    have hpe := paired_append hxt.paired he.paired
    obtain ⟨y, start', hy, hpy, hscan⟩ := ih (x ++ t).length hpe
      fun hw => absurd hl.starts (by simp [hw])
    refine ⟨y, start', by rw [← hy]; simp, hpy, ?_⟩
    obtain ⟨⟨_, r⟩, hlabel, rfl⟩ := Option.map_eq_some_iff.mp (labelled_iff.mp hl)
    rw [casesFrom_idle hq hx (Or.inl ht.apart), he.scan hxt hl.starts, hlabel, hscan]
    simp
  | @unlabelled t e s rest found hq ht he hl hsw _ ih =>
    have hxt := ht.lead he hx hs
    have hpe := paired_append hxt.paired he.paired
    obtain ⟨y, start', hy, hpy, hscan⟩ := ih (x ++ t).length hpe
      fun hw => absurd hsw (by simp [hw])
    refine ⟨y, start', by rw [← hy]; simp, hpy, ?_⟩
    rw [casesFrom_idle hq hx (Or.inl ht.apart), he.scan hxt hsw, not_labelled_iff.mp hl, hscan]
    simp

/-- The labelled CASE expressions of a list of projections are those with a label directly behind
    them, whole and in order. -/
theorem labelledCases_eq {s : Text} {found : List (Text × Text)} (h : Projections s [] found) : labelledCases s = found := by
  obtain ⟨y, start', -, -, hscan⟩ := h.scan (x := []) 0 rfl fun _ => Counting.nil
  rw [labelledCases]
  simpa [casesFrom] using hscan

/-- An expression wrapped in a call that carries a label, one with another one inside, and one
    without a label. -/
theorem labelledCases_eq_mixed :
    let both := "CASE WHEN t.end = 'END' THEN ".toList ++ ("case u.b WHEN 1 THEN 2 end".toList ++ " ELSE 3 END".toList)
    let s := "SELECT u.id AS \"ID\", SUM(".toList ++ ("CASE WHEN u.a = 1 THEN 1 END".toList ++
      (") AS \"Sum\",\n".toList ++ (both ++ (" AS \"Both\", ".toList ++ ("CASE u.c WHEN 1 THEN 2 END".toList ++
        ("\n-- FROM clause\nFROM users u".toList ++ []))))))
    Projections s [] [("Both".toList, both)] ∧ labelledCases s = [("Both".toList, both)] := by
  have simple : ∀ t, Stretch t → IsCase ("CASE".toList ++ (t ++ "END".toList)) := fun t ht =>
    ⟨_, _, _, by decide, Nested.text ht, closes_of_end (by decide), rfl⟩
  have hboth :
      IsCase ("CASE WHEN t.end = 'END' THEN ".toList ++ ("case u.b WHEN 1 THEN 2 end".toList ++ " ELSE 3 END".toList)) := by
    refine ⟨"CASE".toList, " WHEN t.end = 'END' THEN ".toList ++ ("case".toList ++ (" u.b WHEN 1 THEN 2 ".toList ++
      ("end".toList ++ " ELSE 3 ".toList))), "END".toList, by decide, ?_, closes_of_end (by decide), by decide⟩
    exact Nested.case (by decide +kernel) (by decide) (Nested.text (by decide +kernel)) (closes_of_end (by decide))
      (Nested.text (by decide +kernel))
  have hs := Projections.unlabelled (t := "SELECT u.id AS \"ID\", SUM(".toList) (Quiet.idle (by decide +kernel))
    (by decide +kernel) (simple " WHEN u.a = 1 THEN 1 ".toList (by decide +kernel)) (not_labelled_iff.mpr (by decide +kernel))
    (by decide +kernel)
    (Projections.labelled (t := ") AS \"Sum\",\n".toList) (l := "Both".toList) (Quiet.idle (by decide +kernel))
      (by decide +kernel) hboth (labelled_iff.mpr (by decide +kernel))
      (Projections.unlabelled (t := " AS \"Both\", ".toList) (Quiet.idle (by decide +kernel)) (by decide +kernel)
        (simple " u.c WHEN 1 THEN 2 ".toList (by decide +kernel)) (not_labelled_iff.mpr (by decide +kernel)) (by decide +kernel)
        (Projections.done (t := "\n-- FROM clause\nFROM users u".toList) ⟨Quiet.idle (by decide +kernel), by decide +kernel⟩
          (Seam.nil _))))
  exact ⟨hs, labelledCases_eq hs⟩

end ExportQuery.Sql
