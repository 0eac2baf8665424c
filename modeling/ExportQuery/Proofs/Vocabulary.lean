/-
  ExportQuery.Proofs.Vocabulary — the period conditions, as a grammar.

  A condition is a word, two sides of a wave, a number of days or a date. The endings of a range
  come off from the right, the longest first; since it is made of the other two, they come off as
  well when it is read as one of them, and no date ends in any of them.

  - `Writes`: the texts of a condition, without blanks around them.
  - `rangeEnd?_eq_some_iff`: the end of a range is a date with endings behind it.
  - `ofText?_eq_some_iff`: a text is read as a condition exactly when it writes it.
-/

import Mathlib.Data.List.TakeWhile
import ExportQuery.Period.Expr
import ExportQuery.Proofs.Placement
import ExportQuery.Proofs.WrittenDate

namespace ExportQuery.Period

open ExportQuery.Text ExportQuery.Calendar ExportQuery.Sql

/-! ## The grammar -/

/-- No wave stands in the text. -/
def Waveless (s : Text) : Prop := ∀ c ∈ s, isWave c = false

/-- The text `e` behind blanks, or nothing. -/
def Optionally (e s : Text) : Prop := s = [] ∨ ∃ w, allBlank w = true ∧ s = w ++ e

/-- The end of a range that starts in `year`: a date, which may leave out that year, and the
    endings of a range, each of which may be left out. -/
inductive WritesEnd (year : Int) (date : Date) : Text → Prop where
  | intro {d e₁ e₂ e₃ : Text} (dated : FullDate date d ∨ MonthDay year date d) (through : Optionally "まで".toList e₁)
      (period : Optionally "の期間".toList e₂) (both : Optionally "までの期間".toList e₃) :
      WritesEnd year date (d ++ (e₁ ++ (e₂ ++ e₃)))

/-- The texts of a condition. What stands before a wave is free of waves: the first one counts. -/
inductive Writes : Expr → Text → Prop where
  | today : Writes .today "当日".toList
  | yesterday : Writes .yesterday "前日".toList
  | throughYesterday : Writes .throughYesterday "前日まで累積".toList
  | throughToday : Writes .throughToday "当日まで累積".toList
  | sinceThroughYesterday {start stop : Text} {wave : Char} {date : Date} (waveless : Waveless start)
      (divides : isWave wave = true) (starts : FullDate date (trim start)) (ends : trim stop = "前日まで累積".toList) :
      Writes (.sinceThroughYesterday date) (start ++ wave :: stop)
  | sinceThroughToday {start stop : Text} {wave : Char} {date : Date} (waveless : Waveless start)
      (divides : isWave wave = true) (starts : FullDate date (trim start)) (ends : trim stop = "当日まで累積".toList) :
      Writes (.sinceThroughToday date) (start ++ wave :: stop)
  | range {start stop : Text} {wave : Char} {first last : Date} (waveless : Waveless start) (divides : isWave wave = true)
      (bounded : ¬ "累積".toList <:+: start ++ wave :: stop) (starts : FullDate first (trim start))
      (ends : WritesEnd first.year last (trim stop)) : Writes (.range first last) (start ++ wave :: stop)
  | daysAgo {digits : Text} (counted : ∀ c ∈ digits, c.isDigit = true) (given : digits ≠ [])
      (held : digitsValue digits ≤ 4294967295) (waveless : Waveless (digits ++ "日前時点を1日分".toList)) :
      Writes (.daysAgo (digitsValue digits)) (digits ++ "日前時点を1日分".toList)
  | onDate {date : Date} {s : Text} (waveless : Waveless s) (dated : JapaneseDate date s) : Writes (.onDate date) s

/-! ## Waves -/

section

variable {s a b : Text}

theorem splitAtWave?_eq_some_iff : splitAtWave? s = some (a, b) ↔ Waveless a ∧ ∃ w, isWave w = true ∧ s = a ++ w :: b := by
  constructor
  · intro h
    have hjoin := List.takeWhile_append_dropWhile (p := (!isWave ·)) (l := s)
    unfold splitAtWave? at h
    split at h
    · cases h
    · rename_i w after hd
      simp only [Option.some.injEq, Prod.mk.injEq] at h
      obtain ⟨rfl, rfl⟩ := h
      have hw := List.head?_dropWhile_not (!isWave ·) s
      rw [hd] at hw hjoin
      refine ⟨fun c hc => ?_, w, by simpa using hw, hjoin.symm⟩
      have := List.all_eq_true.mp List.all_takeWhile c hc
      simpa using this
  · intro ⟨ha, w, hw, e⟩
    have hp : ∀ c ∈ a, (!isWave c) = true := by
      intro c hc
      simp [ha c hc]
    rw [e, splitAtWave?, List.takeWhile_append_of_pos hp, List.dropWhile_append_of_pos hp]
    simp [hw]

theorem splitAtWave?_eq_none_iff : splitAtWave? s = none ↔ Waveless s := by
  unfold splitAtWave?
  split
  · rename_i hd
    rw [List.dropWhile_eq_nil_iff] at hd
    simpa [Waveless] using hd
  · rename_i w after hd
    constructor
    · intro h; cases h
    · intro h
      have hw := List.head?_dropWhile_not (!isWave ·) s
      rw [hd] at hw
      have hmem : w ∈ s := (List.dropWhile_suffix (!isWave ·)).subset (by simp [hd])
      simp [h w hmem] at hw

theorem waveless_of_all (h : s.all (!isWave ·) = true) : Waveless s := by
  intro c hc
  simpa using List.all_eq_true.mp h c hc

end

/-! ## Endings of ranges -/

/-- Takes one ending off, if it is there, with the blanks ahead of it. -/
def withoutEnding (e s : Text) : Text := trimEnd ((dropEnding? e s).getD s)

theorem withoutRangeEndings_eq (s : Text) : withoutRangeEndings s =
    withoutEnding "まで".toList (withoutEnding "の期間".toList (withoutEnding "までの期間".toList (trim s))) := by
  simp only [withoutRangeEndings, rangeEndings, List.foldl_cons, List.foldl_nil, withoutEnding]

theorem trimEnd_withoutEnding (e s : Text) : trimEnd (withoutEnding e s) = withoutEnding e s := trimEnd_trimEnd _

section

variable {e s d x w : Text}

theorem withoutEnding_blank (hx : EndsInInk x) (hw : allBlank w = true) : withoutEnding e (x ++ (w ++ e)) = x := by
  rw [withoutEnding, ← List.append_assoc, dropEnding?_append, Option.getD_some, trimEnd_append_blanks hw, hx.trimEnd]

theorem withoutEnding_absent (hx : EndsInInk x) (h : ¬ e <:+ x) : withoutEnding e x = x := by
  rw [withoutEnding, dropEnding?_eq_none h, Option.getD_none, hx.trimEnd]

/-- What was taken off is the ending behind blanks, or nothing. -/
theorem exists_of_withoutEnding (e : Text) (h : trimEnd s = s) : ∃ o, Optionally e o ∧ s = withoutEnding e s ++ o := by
  by_cases he : e <:+ s
  · obtain ⟨t, rfl⟩ := he
    obtain ⟨w, hw, hb⟩ := trimEnd_joins t
    refine ⟨w ++ e, Or.inr ⟨w, hb, rfl⟩, ?_⟩
    rw [withoutEnding, dropEnding?_append, Option.getD_some, ← List.append_assoc, ← hw]
  · refine ⟨[], Or.inl rfl, ?_⟩
    rw [withoutEnding, dropEnding?_eq_none he, Option.getD_none, h, List.append_nil]

theorem withoutEnding_optionally {o : Text} (hx : EndsInInk x) (h : ¬ e <:+ x) (ho : Optionally e o) :
    withoutEnding e (x ++ o) = x := by
  rcases ho with rfl | ⟨w, hw, rfl⟩
  · rw [List.append_nil]
    exact withoutEnding_absent hx h
  · exact withoutEnding_blank hx hw

theorem Optionally.endsInInk {o : Text} (ho : Optionally e o) (he : EndsInInk e) (hx : EndsInInk x) : EndsInInk (x ++ o) := by
  rcases ho with rfl | ⟨w, -, rfl⟩
  · rwa [List.append_nil]
  · rw [← List.append_assoc]
    exact he.append _

end

section

variable {d e₁ e₂ e₃ : Text}

theorem endsInInk_of_dateChar (h : ∀ c ∈ d, isDateChar c = true) (h0 : d ≠ []) : EndsInInk d := (trimmed_of_dateChar h h0).ends

/-- The last character of a date is in no ending. -/
theorem not_suffix_date (h : ∀ c ∈ d, isDateChar c = true) (h0 : d ≠ []) {e : Text} {c : Char} (he : e.getLast? = some c)
    (hc : isDateChar c = false) : ¬ e <:+ d := by
  refine not_suffix_of_getLast he (List.getLast?_eq_some_getLast h0) ?_
  intro hd
  rw [hd, h _ (List.getLast_mem h0)] at hc
  cases hc

/-- Behind a date, with まで or without, the ending の期間 is missing. -/
theorem not_suffix_through (h : ∀ c ∈ d, isDateChar c = true) (h0 : d ≠ []) (h₁ : Optionally "まで".toList e₁) {e : Text}
    (he : e.getLast? = some '間') : ¬ e <:+ d ++ e₁ := by
  rcases h₁ with rfl | ⟨w, -, rfl⟩
  · rw [List.append_nil]
    exact not_suffix_date h h0 he (by decide)
  · have hlast : (d ++ (w ++ "まで".toList)).getLast? = some 'で' := by simp [List.getLast?_append]
    exact not_suffix_of_getLast he hlast (by decide)

/-- Where まで and の期間 stand side by side behind the date they are taken for the third ending. -/
theorem without_both (h : ∀ c ∈ d, isDateChar c = true) (h0 : d ≠ []) (h₁ : Optionally "まで".toList e₁)
    (h₂ : Optionally "の期間".toList e₂) :
    withoutEnding "までの期間".toList (d ++ (e₁ ++ e₂)) = d ++ (e₁ ++ e₂) ∨ withoutEnding "までの期間".toList (d ++ (e₁ ++ e₂)) = d := by
  have hd := endsInInk_of_dateChar h h0
  have h12 : EndsInInk (d ++ (e₁ ++ e₂)) := by
    rw [← List.append_assoc]
    exact h₂.endsInInk ⟨'間', by decide, by decide⟩ (h₁.endsInInk ⟨'で', by decide, by decide⟩ hd)
  by_cases hs : "までの期間".toList <:+ d ++ (e₁ ++ e₂)
  · right
    rcases h₂ with rfl | ⟨w₂, hw₂, rfl⟩
    · rw [List.append_nil] at hs
      exact absurd hs (not_suffix_through h h0 h₁ (by decide))
    · -- まで stands right before の期間, and ends the text before it
      have e : "までの期間".toList = "まで".toList ++ "の期間".toList := by decide
      have hs' : "まで".toList <:+ d ++ e₁ ++ w₂ := by
        rw [e, show d ++ (e₁ ++ (w₂ ++ "の期間".toList)) = (d ++ e₁ ++ w₂) ++ "の期間".toList by simp] at hs
        obtain ⟨t, ht⟩ := hs
        rw [← List.append_assoc] at ht
        exact ⟨t, List.append_cancel_right ht⟩
      have hw0 : w₂ = [] := by
        obtain ⟨t, ht⟩ := hs'
        have hink : EndsInInk (d ++ e₁ ++ w₂) := by
          rw [← ht]
          exact EndsInInk.append ⟨'で', by decide, by decide⟩ t
        exact hink.not_blank hw₂
      rw [hw0, List.append_nil] at hs'
      rcases h₁ with rfl | ⟨w₁, hw₁, rfl⟩
      · rw [List.append_nil] at hs'
        exact absurd hs' (not_suffix_date h h0 (c := 'で') (by decide) (by decide))
      · have := withoutEnding_blank (e := "までの期間".toList) hd hw₁
        rw [e] at this ⊢
        rw [hw0]
        simpa using this
  · left
    exact withoutEnding_absent h12 hs

/-- All endings come off, and the date stays. -/
theorem without_endings (h : ∀ c ∈ d, isDateChar c = true) (h0 : d ≠ []) (h₁ : Optionally "まで".toList e₁)
    (h₂ : Optionally "の期間".toList e₂) (h₃ : Optionally "までの期間".toList e₃) :
    withoutEnding "まで".toList (withoutEnding "の期間".toList (withoutEnding "までの期間".toList (d ++ (e₁ ++ (e₂ ++ e₃))))) = d := by
  have hd := endsInInk_of_dateChar h h0
  have hd₁ := h₁.endsInInk ⟨'で', by decide, by decide⟩ hd
  have hd₂ := h₂.endsInInk ⟨'間', by decide, by decide⟩ hd₁
  have hlast : ¬ "まで".toList <:+ d := not_suffix_date h h0 (c := 'で') (by decide) (by decide)
  -- the first ending taken off leaves the other two, or the date
  have hfirst : withoutEnding "までの期間".toList (d ++ (e₁ ++ (e₂ ++ e₃))) = d ++ (e₁ ++ e₂) ∨
      withoutEnding "までの期間".toList (d ++ (e₁ ++ (e₂ ++ e₃))) = d := by
    rcases h₃ with rfl | ⟨w, hw, rfl⟩
    · rw [List.append_nil]
      exact without_both h h0 h₁ h₂
    · left
      have := withoutEnding_blank (e := "までの期間".toList) hd₂ hw
      simpa using this
  rcases hfirst with e | e
  · rw [e, ← List.append_assoc, withoutEnding_optionally hd₁ (not_suffix_through h h0 h₁ (by decide)) h₂,
      withoutEnding_optionally hd hlast h₁]
  · rw [e, withoutEnding_absent hd (not_suffix_date h h0 (c := '間') (by decide) (by decide)), withoutEnding_absent hd hlast]

end

section

variable {year : Int} {date : Date} {s : Text}

/-- What the three endings leave of a text, and the endings that were there. -/
theorem exists_endings (s : Text) :
    ∃ e₁ e₂ e₃, Optionally "まで".toList e₁ ∧ Optionally "の期間".toList e₂ ∧ Optionally "までの期間".toList e₃ ∧
      trim s = withoutRangeEndings s ++ (e₁ ++ (e₂ ++ e₃)) := by
  obtain ⟨e₃, h₃, hs₁⟩ := exists_of_withoutEnding "までの期間".toList (trimEnd_trimEnd (trimStart s))
  obtain ⟨e₂, h₂, hs₂⟩ := exists_of_withoutEnding "の期間".toList (trimEnd_withoutEnding "までの期間".toList (trim s))
  obtain ⟨e₁, h₁, hs₃⟩ := exists_of_withoutEnding "まで".toList
    (trimEnd_withoutEnding "の期間".toList (withoutEnding "までの期間".toList (trim s)))
  rw [← withoutRangeEndings_eq] at hs₃
  refine ⟨e₁, e₂, e₃, h₁, h₂, h₃, ?_⟩
  rw [← List.append_assoc, ← List.append_assoc, ← hs₃, ← hs₂]
  exact hs₁

theorem trim_withoutRangeEndings (s : Text) : trim (withoutRangeEndings s) = withoutRangeEndings s := by
  obtain ⟨e₁, e₂, e₃, -, -, -, e⟩ := exists_endings s
  have hstart : trimStart (withoutRangeEndings s) = withoutRangeEndings s := trimStart_prefix_eq (trimStart_trim s) ⟨_, e.symm⟩
  rw [trim, hstart, withoutRangeEndings_eq]
  exact trimEnd_withoutEnding _ _

/-- What stands before the endings is read as a full date, and as a month and a day when it is none. -/
theorem rangeEnd?_iff_dated {d : Text} (hd : withoutRangeEndings s = d) (ht : trim d = d) :
    rangeEnd? year s = some date ↔ FullDate date d ∨ MonthDay year date d := by
  rw [rangeEnd?, hd, Option.or_eq_some_iff, readDate?_eq_some_iff, ht, monthDay?_eq_some_iff]
  constructor
  · rintro (h | ⟨-, h⟩)
    · exact Or.inl h
    · exact Or.inr h
  · rintro (h | h)
    · exact Or.inl h
    · right
      refine ⟨?_, h⟩
      cases hread : readDate? d with
      | none => rfl
      | some date' =>
        rw [readDate?_eq_some_iff, ht] at hread
        exact absurd hread h.not_full

/-- The end of a range is a date with endings behind it. -/
theorem rangeEnd?_eq_some_iff : rangeEnd? year s = some date ↔ WritesEnd year date (trim s) := by
  constructor
  · intro h
    obtain ⟨e₁, e₂, e₃, h₁, h₂, h₃, e⟩ := exists_endings s
    rw [e]
    exact .intro ((rangeEnd?_iff_dated rfl (trim_withoutRangeEndings s)).mp h) h₁ h₂ h₃
  · intro h
    generalize ht : trim s = t at h
    cases h with
    | @intro d e₁ e₂ e₃ dated h₁ h₂ h₃ =>
      have hchars : ∀ c ∈ d, isDateChar c = true := by
        rcases dated with h | h
        · exact h.dateChar
        · exact h.dateChar
      have h0 : d ≠ [] := by
        rcases dated with h | h
        · exact h.ne_nil
        · exact h.ne_nil
      have hdate : withoutRangeEndings s = d := by
        rw [withoutRangeEndings_eq, ht]
        exact without_endings hchars h0 h₁ h₂ h₃
      exact (rangeEnd?_iff_dated hdate (trimmed_of_dateChar hchars h0).trim).mpr dated

end

/-! ## Reading conditions -/

theorem occurs_eq_false_iff {pat s : Text} : occurs pat s = false ↔ ¬ pat <:+: s := by
  rw [occurs, ← cut?_isSome_iff]
  simp

section

variable {s start stop : Text} {wave : Char} {e : Expr}

theorem not_waveless (hw : isWave wave = true) (start stop : Text) : ¬ Waveless (start ++ wave :: stop) := by
  intro h
  rw [h wave (by simp)] at hw
  cases hw

/-- Neither of the two words that end a range goes without 累積. -/
theorem cumulative_of_trim {word : Text} (hword : "累積".toList <:+: word) (h : trim stop = word) (start : Text) (wave : Char) :
    "累積".toList <:+: start ++ wave :: stop := by
  have hin : word <:+: stop := by
    rw [← h]
    exact (prefix_trimEnd (trimStart stop)).isInfix.trans (List.dropWhile_suffix isBlank).isInfix
  have hstop : stop <:+: start ++ wave :: stop := ⟨start ++ [wave], [], by simp⟩
  exact (hword.trans hin).trans hstop

/-- What is read from the two sides of the first wave is a condition that the text writes. -/
theorem writes_of_rangeOf? (hs : Waveless start) (hw : isWave wave = true)
    (h : rangeOf? (start ++ wave :: stop) start stop = some e) : Writes e (start ++ wave :: stop) := by
  unfold rangeOf? at h
  split at h
  · rename_i hstop
    obtain ⟨date, hdate, rfl⟩ := Option.map_eq_some_iff.mp h
    exact .sinceThroughYesterday hs hw (readDate?_eq_some_iff.mp hdate) hstop
  split at h
  · rename_i hstop
    obtain ⟨date, hdate, rfl⟩ := Option.map_eq_some_iff.mp h
    exact .sinceThroughToday hs hw (readDate?_eq_some_iff.mp hdate) hstop
  split at h
  · cases h
  · rename_i hcum
    have hcum : ¬ cumulativeWord <:+: start ++ wave :: stop := by
      rw [← occurs_eq_false_iff]
      exact Bool.eq_false_iff.mpr hcum
    obtain ⟨first, hfirst, h⟩ := Option.bind_eq_some_iff.mp h
    obtain ⟨last, hlast, rfl⟩ := Option.map_eq_some_iff.mp h
    exact .range hs hw hcum (readDate?_eq_some_iff.mp hfirst) (rangeEnd?_eq_some_iff.mp hlast)

theorem daysAgo?_eq_some_iff {n : Nat} : daysAgo? s = some n ↔ ∃ ds, (∀ c ∈ ds, c.isDigit = true) ∧ ds ≠ [] ∧
    digitsValue ds ≤ 4294967295 ∧ n = digitsValue ds ∧ s = ds ++ "日前時点を1日分".toList := by
  have hbound : ∀ k, maxDays < k ↔ ¬ k ≤ 4294967295 := by
    intro k
    unfold maxDays
    omega
  constructor
  · intro h
    have hjoin := List.takeWhile_append_dropWhile (p := Char.isDigit) (l := s)
    simp only [daysAgo?] at h
    split at h
    · cases h
    rename_i hn
    simp only [Bool.or_eq_true, not_or, decide_eq_true_eq, hbound, not_not] at hn
    simp only [Option.some.injEq] at h
    obtain ⟨⟨hne, hrest⟩, hlt⟩ := hn
    rw [hrest] at hjoin
    exact ⟨s.takeWhile Char.isDigit, List.all_eq_true.mp List.all_takeWhile, by simpa using hne, hlt, h.symm, hjoin.symm⟩
  · intro ⟨ds, hds, h0, hlt, hn, hs⟩
    have hpast : PastDigits daysAgoWord := pastDigits_cons (show Char.isDigit '日' = false by decide) "前時点を1日分".toList
    obtain ⟨htake, hdrop⟩ := span_append hds hpast
    have hne : ds.isEmpty = false := by simpa using h0
    have hmax : ¬ maxDays < digitsValue ds := by
      rw [hbound]
      simpa using hlt
    rw [hs, show "日前時点を1日分".toList = daysAgoWord from rfl]
    simp [daysAgo?, htake, hdrop, hne, hmax, hn]

/-- The conditions that are one word. -/
def fixedWords : List Text := [todayWord, yesterdayWord, throughYesterdayWord, throughTodayWord]

theorem ofTrimmed?_of_not_fixed (h : s ∉ fixedWords) : Expr.ofTrimmed? s =
    match splitAtWave? s with
    | some (start, stop) => rangeOf? s start stop
    | none => ((daysAgo? s).map .daysAgo).or ((japaneseDate? s).map .onDate) := by
  simp only [fixedWords, List.mem_cons, List.not_mem_nil, or_false, not_or] at h
  exact (if_neg h.1).trans ((if_neg h.2.1).trans ((if_neg h.2.2.1).trans (if_neg h.2.2.2)))

/-- A text with a wave is none of the words, and is read from the two sides of the wave. -/
theorem ofTrimmed?_wave (hs : Waveless start) (hw : isWave wave = true) :
    Expr.ofTrimmed? (start ++ wave :: stop) = rangeOf? (start ++ wave :: stop) start stop := by
  have hwords : fixedWords.all (fun word => word.all (!isWave ·)) = true := by decide
  have hfixed : start ++ wave :: stop ∉ fixedWords := by
    intro hmem
    exact not_waveless hw start stop (waveless_of_all (List.all_eq_true.mp hwords _ hmem))
  have hsplit : splitAtWave? (start ++ wave :: stop) = some (start, stop) := splitAtWave?_eq_some_iff.mpr ⟨hs, wave, hw, rfl⟩
  rw [ofTrimmed?_of_not_fixed hfixed, hsplit]

/-- A text that starts with a digit is none of the words. -/
theorem ofTrimmed?_waveless (hs : Waveless s) (hd : ∃ c, s.head? = some c ∧ c.isDigit = true) :
    Expr.ofTrimmed? s = ((daysAgo? s).map .daysAgo).or ((japaneseDate? s).map .onDate) := by
  obtain ⟨c, hc, hdigit⟩ := hd
  have hwords : fixedWords.all (fun word => word.head?.all (!Char.isDigit ·)) = true := by decide
  have hfixed : s ∉ fixedWords := by
    intro hmem
    have := List.all_eq_true.mp hwords s hmem
    simp [hc, hdigit] at this
  rw [ofTrimmed?_of_not_fixed hfixed, splitAtWave?_eq_none_iff.mpr hs]

theorem writes_of_ofTrimmed? (h : Expr.ofTrimmed? s = some e) : Writes e s := by
  unfold Expr.ofTrimmed? at h
  split at h
  · rename_i hs
    cases h
    rw [hs]
    exact .today
  split at h
  · rename_i hs
    cases h
    rw [hs]
    exact .yesterday
  split at h
  · rename_i hs
    cases h
    rw [hs]
    exact .throughYesterday
  split at h
  · rename_i hs
    cases h
    rw [hs]
    exact .throughToday
  split at h
  · rename_i start stop hsplit
    obtain ⟨hs, w, hw, rfl⟩ := splitAtWave?_eq_some_iff.mp hsplit
    exact writes_of_rangeOf? hs hw h
  · rename_i hsplit
    have hs := splitAtWave?_eq_none_iff.mp hsplit
    rcases Option.or_eq_some_iff.mp h with h | ⟨-, h⟩
    · obtain ⟨n, hn, rfl⟩ := Option.map_eq_some_iff.mp h
      obtain ⟨ds, hds, h0, hlt, rfl, rfl⟩ := daysAgo?_eq_some_iff.mp hn
      exact .daysAgo hds h0 hlt hs
    · obtain ⟨date, hdate, rfl⟩ := Option.map_eq_some_iff.mp h
      exact .onDate hs (japaneseDate?_eq_some_iff.mp hdate)

theorem daysAgo?_date {date : Date} (h : JapaneseDate date s) : daysAgo? s = none := by
  cases hn : daysAgo? s with
  | none => rfl
  | some n =>
    obtain ⟨ds, -, -, -, -, rfl⟩ := daysAgo?_eq_some_iff.mp hn
    have hlast := h.getLast?
    rw [List.getLast?_append, show "日前時点を1日分".toList.getLast? = some '分' by decide, Option.some_or] at hlast
    exact absurd hlast (by decide)

theorem ofTrimmed?_of_writes (h : Writes e s) : Expr.ofTrimmed? s = some e := by
  cases h with
  | today => decide
  | yesterday => decide
  | throughYesterday => decide
  | throughToday => decide
  | @sinceThroughYesterday start stop wave date hs hw starts ends =>
    rw [ofTrimmed?_wave hs hw, rangeOf?, if_pos (show trim stop = throughYesterdayWord from ends),
      readDate?_eq_some_iff.mpr starts]
    rfl
  | @sinceThroughToday start stop wave date hs hw starts ends =>
    have hne : trim stop ≠ throughYesterdayWord := by
      rw [ends]
      decide
    rw [ofTrimmed?_wave hs hw, rangeOf?, if_neg hne, if_pos (show trim stop = throughTodayWord from ends),
      readDate?_eq_some_iff.mpr starts]
    rfl
  | @range start stop wave first last hs hw bounded starts ends =>
    have hy : trim stop ≠ throughYesterdayWord := fun h => bounded (cumulative_of_trim (by decide) h start wave)
    have ht : trim stop ≠ throughTodayWord := fun h => bounded (cumulative_of_trim (by decide) h start wave)
    have hcum : occurs cumulativeWord (start ++ wave :: stop) = false := occurs_eq_false_iff.mpr bounded
    rw [ofTrimmed?_wave hs hw, rangeOf?, if_neg hy, if_neg ht, hcum, readDate?_eq_some_iff.mpr starts, Option.bind_some,
      rangeEnd?_eq_some_iff.mpr ends]
    rfl
  | @daysAgo digits counted given held waveless =>
    have hhead : ∃ c, (digits ++ "日前時点を1日分".toList).head? = some c ∧ c.isDigit = true := by
      cases digits with
      | nil => exact absurd rfl given
      | cons c digits => exact ⟨c, rfl, counted c (by simp)⟩
    rw [ofTrimmed?_waveless waveless hhead, daysAgo?_eq_some_iff.mpr ⟨digits, counted, given, held, rfl, rfl⟩]
    rfl
  | onDate waveless dated =>
    rw [ofTrimmed?_waveless waveless dated.head?, daysAgo?_date dated, japaneseDate?_eq_some_iff.mpr dated]
    rfl

/-- A text is read as a condition exactly when, without the blanks around it, it writes that
    condition. -/
theorem ofText?_eq_some_iff (s : Text) (e : Expr) : Expr.ofText? s = some e ↔ Writes e (trim s) :=
  ⟨writes_of_ofTrimmed?, ofTrimmed?_of_writes⟩

-- the leap year of the start is that of the end, and two endings stand for the third
example : Expr.ofText? " 2024/2-1 ~ 2月29日 までの期間\n".toList =
    some (.range ⟨2024, 2, 1, by decide⟩ ⟨2024, 2, 29, by decide⟩) := by decide +kernel

end

end ExportQuery.Period
