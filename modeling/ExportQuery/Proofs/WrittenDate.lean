/-
  ExportQuery.Proofs.WrittenDate — the texts that dates are read from.

  A reader takes all the digits at a place and then asks for a character that is none. So a text
  is read in one way only, and a date is read exactly from the forms that write it.

  - `Numeral`: a number in a run of digits, of limited length.
  - `Dated`: year, month and day with characters between them; `FullDate` and `MonthDay` are the
    forms in catalogs.
  - `readDate?_eq_some_iff`, `monthDay?_eq_some_iff`: a date is read exactly from its forms.
-/

import ExportQuery.Calendar.Reading
import ExportQuery.Proofs.Edit

namespace ExportQuery.Calendar

open ExportQuery.Text ExportQuery.Sql

/-! ## Numbers -/

/-- The number `n` in a run of `low` to `high` digits, leading zeros allowed. -/
structure Numeral (low high n : Nat) (s : Text) : Prop where
  digits : ∀ c ∈ s, c.isDigit = true
  atLeast : low ≤ s.length
  atMost : s.length ≤ high
  value : digitsValue s = n

/-- No digit stands at the start of the text. -/
def PastDigits (s : Text) : Prop := ∀ c, s.head? = some c → c.isDigit = false

section

variable {low high n : Nat} {s rest : Text}

theorem pastDigits_cons {c : Char} (h : c.isDigit = false) (s : Text) : PastDigits (c :: s) := by
  intro d hd
  obtain rfl : c = d := by simpa using hd
  exact h

theorem number?_append (h : Numeral low high n s) (hr : PastDigits rest) : number? low high (s ++ rest) = some (n, rest) := by
  obtain ⟨htake, hdrop⟩ := span_append h.digits hr
  simp [number?, htake, hdrop, h.atLeast, h.atMost, h.value]

theorem exists_of_number? (h : number? low high s = some (n, rest)) : ∃ ds, Numeral low high n ds ∧ s = ds ++ rest := by
  simp only [number?] at h
  split at h
  · rename_i hl
    simp only [Bool.and_eq_true, decide_eq_true_eq] at hl
    simp only [Option.some.injEq, Prod.mk.injEq] at h
    obtain ⟨rfl, rfl⟩ := h
    refine ⟨s.takeWhile Char.isDigit, ⟨?_, hl.1, hl.2, rfl⟩, List.takeWhile_append_dropWhile.symm⟩
    exact List.all_eq_true.mp List.all_takeWhile
  · cases h

theorem dropIf?_eq_some_iff {p : Char → Bool} : dropIf? p s = some rest ↔ ∃ c, p c = true ∧ s = c :: rest := by
  cases s with
  | nil => simp [dropIf?]
  | cons c s =>
    by_cases hc : p c = true
    · simp [dropIf?, hc]
    · simp only [dropIf?, hc]
      constructor
      · intro h; cases h
      · intro h
        obtain ⟨d, hd, e⟩ := h
        obtain rfl : c = d := (List.cons.inj e).1
        exact absurd hd hc

end

/-! ## Year, month and day -/

theorem ymd?_eq_some_iff {p q : Char → Bool} {e s : Text} {year month day : Nat} (hp : ∀ c, p c = true → c.isDigit = false)
    (hq : ∀ c, q c = true → c.isDigit = false) (he : PastDigits e) :
    ymd? p q e s = some (year, month, day) ↔ ∃ a b y m d, p a = true ∧ q b = true ∧ Numeral 4 4 year y ∧
      Numeral 1 2 month m ∧ Numeral 1 2 day d ∧ s = y ++ a :: (m ++ b :: (d ++ e)) := by
  constructor
  · intro h
    simp only [ymd?, Option.bind_eq_bind, Option.bind_eq_some_iff, Prod.exists] at h
    obtain ⟨y', s₁, h₁, s₂, h₂, m', s₃, h₃, s₄, h₄, d', s₅, h₅, hend⟩ := h
    obtain ⟨y, hy, e₁⟩ := exists_of_number? h₁
    obtain ⟨a, ha, e₂⟩ := dropIf?_eq_some_iff.mp h₂
    obtain ⟨m, hm, e₃⟩ := exists_of_number? h₃
    obtain ⟨b, hb, e₄⟩ := dropIf?_eq_some_iff.mp h₄
    obtain ⟨d, hd, e₅⟩ := exists_of_number? h₅
    split at hend
    · rename_i e₆
      simp only [Option.some.injEq, Prod.mk.injEq] at hend
      obtain ⟨rfl, rfl, rfl⟩ := hend
      exact ⟨a, b, y, m, d, ha, hb, hy, hm, hd, by rw [e₁, e₂, e₃, e₄, e₅, e₆]⟩
    · cases hend
  · intro ⟨a, b, y, m, d, ha, hb, hy, hm, hd, e'⟩
    have h₁ := number?_append hy (pastDigits_cons (hp a ha) (m ++ b :: (d ++ e)))
    have h₂ := number?_append hm (pastDigits_cons (hq b hb) (d ++ e))
    have h₃ := number?_append hd he
    simp [ymd?, e', h₁, h₂, h₃, dropIf?, ha, hb]

/-- Year, month and day of a date, with `a`, `b` and `e` behind them. -/
inductive Dated (date : Date) (a b : Char) (e : Text) : Text → Prop where
  | intro {year : Nat} {y m d : Text} (held : date.year = year) (year : Numeral 4 4 year y) (month : Numeral 1 2 date.month m)
      (day : Numeral 1 2 date.day d) : Dated date a b e (y ++ a :: (m ++ b :: (d ++ e)))

/-- `2025年6月1日`. -/
def JapaneseDate (date : Date) (s : Text) : Prop := Dated date '年' '月' ['日'] s

/-- `2025/6/1`, `2025-6-1`, or one separator of each. -/
def NumericDate (date : Date) (s : Text) : Prop := ∃ a ∈ ['/', '-'], ∃ b ∈ ['/', '-'], Dated date a b [] s

/-- The forms of a date that name its year. -/
def FullDate (date : Date) (s : Text) : Prop := JapaneseDate date s ∨ NumericDate date s

/-- `6月1日`, of a date in `year`. -/
inductive MonthDay (year : Int) (date : Date) : Text → Prop where
  | intro {m d : Text} (held : date.year = year) (month : Numeral 1 2 date.month m) (day : Numeral 1 2 date.day d) :
      MonthDay year date (m ++ '月' :: (d ++ ['日']))

section

variable {date : Date} {s : Text} {year : Int}

/-- A date is built from the numbers read exactly when the text is one of its forms. -/
theorem ymd?_bind_eq_some_iff {p q : Char → Bool} {e : Text} (hp : ∀ c, p c = true → c.isDigit = false)
    (hq : ∀ c, q c = true → c.isDigit = false) (he : PastDigits e) :
    ((ymd? p q e s).bind fun (y, m, d) => Date.ofYmd? y m d) = some date ↔
      ∃ a b, p a = true ∧ q b = true ∧ Dated date a b e s := by
  simp only [Option.bind_eq_some_iff, Prod.exists, ymd?_eq_some_iff hp hq he, Date.ofYmd?_eq_some_iff]
  constructor
  · intro h
    obtain ⟨year, month, day, ⟨a, b, y, m, d, ha, hb, hy, hm, hd, e'⟩, held, rfl, rfl⟩ := h
    rw [e']
    exact ⟨a, b, ha, hb, .intro held hy hm hd⟩
  · intro ⟨a, b, ha, hb, h⟩
    cases h with
    | @intro year y m d held hy hm hd =>
      exact ⟨year, date.month, date.day, ⟨a, b, y, m, d, ha, hb, hy, hm, hd, rfl⟩, held, rfl, rfl⟩

theorem japaneseDate?_eq_some_iff : japaneseDate? s = some date ↔ JapaneseDate date s := by
  have hp : ∀ c, (c == '年') = true → c.isDigit = false := by
    intro c hc
    rw [beq_iff_eq.mp hc]; decide
  have hq : ∀ c, (c == '月') = true → c.isDigit = false := by
    intro c hc
    rw [beq_iff_eq.mp hc]; decide
  unfold japaneseDate?
  rw [ymd?_bind_eq_some_iff hp hq (pastDigits_cons (by decide) [])]
  simp only [beq_iff_eq]
  constructor
  · intro ⟨a, b, ha, hb, h⟩
    rwa [ha, hb] at h
  · intro h
    exact ⟨'年', '月', rfl, rfl, h⟩

theorem isDateSeparator_iff {c : Char} : isDateSeparator c = true ↔ c ∈ ['/', '-'] := by simp [isDateSeparator]

theorem not_isDigit_separator {c : Char} (h : isDateSeparator c = true) : c.isDigit = false := by
  rcases List.mem_pair.mp (isDateSeparator_iff.mp h) with rfl | rfl
  · decide
  · decide

theorem numericDate?_eq_some_iff : numericDate? s = some date ↔ NumericDate date s := by
  have he : PastDigits [] := by
    intro c hc; cases hc
  unfold numericDate?
  rw [ymd?_bind_eq_some_iff (fun _ => not_isDigit_separator) (fun _ => not_isDigit_separator) he]
  simp only [isDateSeparator_iff]
  constructor
  · intro ⟨a, b, ha, hb, h⟩
    exact ⟨a, ha, b, hb, h⟩
  · intro ⟨a, ha, b, hb, h⟩
    exact ⟨a, b, ha, hb, h⟩

/-! ## Characters of dates -/

def isDateChar (c : Char) : Bool := c.isDigit || c == '年' || c == '月' || c == '日' || isDateSeparator c

theorem not_isBlank_dateChar {c : Char} (h : isDateChar c = true) : isBlank c = false := by
  simp only [isDateChar, isDateSeparator, Bool.or_eq_true, beq_iff_eq] at h
  rcases h with (((h | rfl) | rfl) | rfl) | rfl | rfl
  · exact not_isBlank_of_isWord (isWord_of_isDigit h)
  all_goals decide

theorem Numeral.dateChar {low high n : Nat} (h : Numeral low high n s) : ∀ c ∈ s, isDateChar c = true := by
  intro c hc
  simp [isDateChar, h.digits c hc]

theorem Numeral.getLast? {low high n : Nat} (h : Numeral (low + 1) high n s) : ∃ c, s.getLast? = some c ∧ c.isDigit = true := by
  have h0 : s ≠ [] := by
    intro h0
    have := h.atLeast
    simp [h0] at this
  exact ⟨s.getLast h0, List.getLast?_eq_some_getLast h0, h.digits _ (List.getLast_mem h0)⟩

theorem Dated.dateChar {a b : Char} {e : Text} (h : Dated date a b e s) (ha : isDateChar a = true) (hb : isDateChar b = true)
    (he : ∀ c ∈ e, isDateChar c = true) : ∀ c ∈ s, isDateChar c = true := by
  cases h with
  | intro held hy hm hd =>
    intro c hc
    simp only [List.mem_append, List.mem_cons] at hc
    rcases hc with hc | rfl | hc | rfl | hc | hc
    · exact hy.dateChar c hc
    · exact ha
    · exact hm.dateChar c hc
    · exact hb
    · exact hd.dateChar c hc
    · exact he c hc

theorem Dated.head? {a b : Char} {e : Text} (h : Dated date a b e s) : ∃ c, s.head? = some c ∧ c.isDigit = true := by
  cases h with
  | @intro year y m d held hy hm hd =>
    cases y with
    | nil => exact absurd hy.atLeast (by decide)
    | cons c y => exact ⟨c, rfl, hy.digits c (by simp)⟩

theorem JapaneseDate.getLast? (h : JapaneseDate date s) : s.getLast? = some '日' := by
  cases h with
  | intro held hy hm hd => simp [List.getLast?_append, List.getLast?_cons]

theorem NumericDate.getLast? (h : NumericDate date s) : ∃ c, s.getLast? = some c ∧ c.isDigit = true := by
  obtain ⟨a, -, b, -, h⟩ := h
  cases h with
  | @intro year y m d held hy hm hd =>
    obtain ⟨c, hc, hdigit⟩ := hd.getLast?
    exact ⟨c, by simp [List.getLast?_append, List.getLast?_cons, hc], hdigit⟩

theorem FullDate.dateChar (h : FullDate date s) : ∀ c ∈ s, isDateChar c = true := by
  have separator : ∀ a ∈ ['/', '-'], isDateChar a = true := List.all_eq_true.mp (by decide)
  rcases h with h | ⟨a, ha, b, hb, h⟩
  · exact Dated.dateChar h (by decide) (by decide) (List.all_eq_true.mp (by decide))
  · exact Dated.dateChar h (separator a ha) (separator b hb) (by simp)

theorem FullDate.ne_nil (h : FullDate date s) : s ≠ [] := by
  intro h0
  rcases h with h | h
  · have := h.getLast?
    rw [h0] at this; cases this
  · obtain ⟨c, hc, -⟩ := h.getLast?
    rw [h0] at hc; cases hc

theorem MonthDay.dateChar (h : MonthDay year date s) : ∀ c ∈ s, isDateChar c = true := by
  cases h with
  | intro held hm hd =>
    intro c hc
    simp only [List.mem_append, List.mem_cons, List.not_mem_nil, or_false] at hc
    rcases hc with hc | rfl | hc | rfl
    · exact hm.dateChar c hc
    · decide
    · exact hd.dateChar c hc
    · decide

theorem MonthDay.ne_nil (h : MonthDay year date s) : s ≠ [] := by
  cases h with
  | intro held hm hd => simp

/-- A text of the characters of dates has ink at both ends. -/
theorem trimmed_of_dateChar (h : ∀ c ∈ s, isDateChar c = true) (h0 : s ≠ []) : Trimmed s := by
  refine ⟨?_, s.getLast h0, List.getLast?_eq_some_getLast h0, not_isBlank_dateChar (h _ (List.getLast_mem h0))⟩
  cases s with
  | nil => exact absurd rfl h0
  | cons c s => exact ⟨c, s, rfl, not_isBlank_dateChar (h c (by simp))⟩

/-! ## Reading dates -/

/-- No text is of both forms: one ends in `日`, the other in a digit. -/
theorem JapaneseDate.not_numeric {date' : Date} (h : JapaneseDate date s) : ¬ NumericDate date' s := by
  intro h'
  obtain ⟨c, hc, hdigit⟩ := h'.getLast?
  rw [h.getLast?] at hc
  cases hc
  exact absurd hdigit (by decide)

/-- No form that names the year is one that leaves it out. -/
theorem MonthDay.not_full {date' : Date} (h : MonthDay year date s) : ¬ FullDate date' s := by
  intro h'
  cases h with
  | @intro m d held hm hd =>
    rcases h' with h' | h'
    · have hmem : '年' ∈ m ++ '月' :: (d ++ ['日']) := by
        generalize m ++ '月' :: (d ++ ['日']) = t at h'
        cases h' with
        | intro held hy hm hd => simp
      simp only [List.mem_append, List.mem_cons, List.not_mem_nil, or_false] at hmem
      rcases hmem with hc | hc | hc | hc
      · exact absurd (hm.digits _ hc) (by decide)
      · exact absurd hc (by decide)
      · exact absurd (hd.digits _ hc) (by decide)
      · exact absurd hc (by decide)
    · obtain ⟨c, hc, hdigit⟩ := h'.getLast?
      obtain rfl : '日' = c := by simpa [List.getLast?_append, List.getLast?_cons] using hc
      exact absurd hdigit (by decide)

theorem readDate?_eq_some_iff : readDate? s = some date ↔ FullDate date (trim s) := by
  unfold readDate? FullDate
  rw [Option.or_eq_some_iff, japaneseDate?_eq_some_iff, numericDate?_eq_some_iff]
  constructor
  · intro h
    rcases h with h | ⟨-, h⟩
    · exact Or.inl h
    · exact Or.inr h
  · intro h
    rcases h with h | h
    · exact Or.inl h
    · right
      refine ⟨?_, h⟩
      cases hj : japaneseDate? (trim s) with
      | none => rfl
      | some d => exact absurd h (japaneseDate?_eq_some_iff.mp hj).not_numeric

theorem monthDay?_eq_some_iff : monthDay? year s = some date ↔ MonthDay year date s := by
  constructor
  · intro h
    simp only [monthDay?, Option.bind_eq_bind, Option.bind_eq_some_iff, Prod.exists] at h
    obtain ⟨m', s₁, h₁, s₂, h₂, d', s₃, h₃, hend⟩ := h
    obtain ⟨m, hm, e₁⟩ := exists_of_number? h₁
    obtain ⟨b, hb, e₂⟩ := dropIf?_eq_some_iff.mp h₂
    obtain ⟨d, hd, e₃⟩ := exists_of_number? h₃
    split at hend
    · rename_i e₄
      obtain ⟨held, rfl, rfl⟩ := Date.ofYmd?_eq_some_iff.mp hend
      rw [e₁, e₂, e₃, e₄, beq_iff_eq.mp hb]
      exact .intro held hm hd
    · cases hend
  · intro h
    cases h with
    | @intro m d held hm hd =>
      have h₁ := number?_append hm (pastDigits_cons (show Char.isDigit '月' = false by decide) (d ++ ['日']))
      have h₂ := number?_append hd (pastDigits_cons (show Char.isDigit '日' = false by decide) [])
      have hdate : Date.ofYmd? year date.month date.day = some date := Date.ofYmd?_eq_some_iff.mpr ⟨held, rfl, rfl⟩
      simp [monthDay?, h₁, h₂, dropIf?, hdate]

end

end ExportQuery.Calendar
