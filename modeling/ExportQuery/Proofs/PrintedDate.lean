/-
  ExportQuery.Proofs.PrintedDate — printed dates are read back and keep their order.

  A number in a fixed count of digits has the value it was printed from, and of two such
  numbers the smaller one comes first as text. A printed date is three of them with dashes
  between, the year in front, so dates sort as texts the way they follow each other. What is
  read from a text is written in it: its numbers are year, month and day.

  - `numeral_padded`, `numeral_decimal`: printed numbers, with and without zeros in front.
  - `padded_lt_padded_iff`: the order of numbers is that of their digits.
  - `numbers`: the numbers written in a text; `numbers_of_readDate?`: those of a date read.
  - `readDate?_printed`: reading back, order, and what is read, for all dates in years of four
    digits.
-/

import Mathlib.Algebra.Group.Nat.Defs
import ExportQuery.Proofs.Merge
import ExportQuery.Proofs.Predicate
import ExportQuery.Proofs.WrittenDate

namespace ExportQuery.Calendar

open ExportQuery.Text ExportQuery.Sql ExportQuery.Period

/-! ## Values of digits -/

theorem digitsValue_cons (c : Char) (s : Text) : digitsValue (c :: s) = 10 ^ s.length * digitValue c + digitsValue s := by
  have e : digitsValue (c :: s) = Nat.ofDigitChars 10 s (digitValue c) := by
    simp [digitsValue, Nat.ofDigitChars_eq_foldl, digitValue]
  rw [e, Nat.ofDigitChars_eq_ofDigitChars_zero]
  rfl

theorem digitValue_le {c : Char} (h : c.isDigit = true) : c.toNat = 48 + digitValue c ∧ digitValue c ≤ 9 := by
  have := List.mem_range'_1.mp (toNat_of_isDigit h)
  have e : digitValue c = c.toNat - 48 := rfl
  omega

theorem digitsValue_lt {s : Text} (h : ∀ c ∈ s, c.isDigit = true) : digitsValue s < 10 ^ s.length := by
  induction s with
  | nil => decide
  | cons c s ih =>
    have hs := ih fun d hd => h d (by simp [hd])
    have hc := (digitValue_le (h c (by simp))).2
    have hm : 10 ^ s.length * digitValue c ≤ 10 ^ s.length * 9 := Nat.mul_le_mul_left _ hc
    rw [digitsValue_cons, List.length_cons, Nat.pow_succ]
    omega

/-- Zeros in front do not count. -/
theorem digitsValue_zeros (k : Nat) (s : Text) : digitsValue (List.replicate k '0' ++ s) = digitsValue s := by
  induction k with
  | zero => rfl
  | succ k ih =>
    rw [List.replicate_succ, List.cons_append, digitsValue_cons, ih]
    simp [digitValue]

/-! ## Printed numbers -/

section

variable {w m n : Nat}

theorem length_decimal_le (hw : 0 < w) (h : n < 10 ^ w) : (decimal n).length ≤ w :=
  (Nat.length_toDigits_le_iff (by decide) hw).mpr h

theorem length_padded (hw : 0 < w) (h : n < 10 ^ w) : (padded w n).length = w := by
  have hl := length_decimal_le hw h
  simp only [padded, List.length_append, List.length_replicate]
  omega

theorem numeral_padded (hw : 0 < w) (h : n < 10 ^ w) : Numeral w w n (padded w n) := by
  have hl := length_padded hw h
  refine ⟨fun _ => isDigit_padded, hl.ge, hl.le, ?_⟩
  rw [padded, digitsValue_zeros, digitsValue_decimal]

theorem numeral_decimal (hw : 0 < w) (h : n < 10 ^ w) : Numeral 1 w n (decimal n) :=
  ⟨isDigit_decimal n, List.length_pos_iff.mpr (decimal_ne_nil n), length_decimal_le hw h, digitsValue_decimal n⟩

/-- A number below 100, with or without a zero in front. -/
theorem numeral_of_mem {s : Text} (h : n < 100) (hs : s ∈ [decimal n, padded 2 n]) : Numeral 1 2 n s := by
  rcases List.mem_pair.mp hs with rfl | rfl
  · exact numeral_decimal (by decide) h
  · have hp := numeral_padded (w := 2) (by decide) h
    exact ⟨hp.digits, Nat.le_of_succ_le hp.atLeast, hp.atMost, hp.value⟩

/-! ## Order -/

theorem append_lt_append_iff {x y u v : Text} (h : x.length = y.length) : x ++ u < y ++ v ↔ x < y ∨ x = y ∧ u < v := by
  induction x generalizing y with
  | nil =>
    obtain rfl : y = [] := List.length_eq_zero_iff.mp h.symm
    simp
  | cons c x ih =>
    cases y with
    | nil => simp at h
    | cons d y =>
      have h := ih (y := y) (by simpa using h)
      simp only [List.cons_append, List.cons_lt_cons_iff, h, List.cons.injEq]
      tauto

/-- A digit in front outweighs what stands behind it. -/
theorem place_lt {p u v a : Nat} (h : u < v) (ha : a < p) (b : Nat) : p * u + a < p * v + b := by
  have := Nat.mul_le_mul_left p (Nat.succ_le_of_lt h)
  rw [Nat.mul_succ] at this
  omega

/-- Equally many digits are ordered as their values. -/
theorem lt_iff_digitsValue_lt {x y : Text} (hx : ∀ c ∈ x, c.isDigit = true) (hy : ∀ c ∈ y, c.isDigit = true)
    (h : x.length = y.length) : x < y ↔ digitsValue x < digitsValue y := by
  induction x generalizing y with
  | nil =>
    obtain rfl : y = [] := List.length_eq_zero_iff.mp h.symm
    simp
  | cons c x ih =>
    cases y with
    | nil => simp at h
    | cons d y =>
      have hl : x.length = y.length := by simpa using h
      have hx' : ∀ a ∈ x, a.isDigit = true := fun a ha => hx a (by simp [ha])
      have hy' : ∀ a ∈ y, a.isDigit = true := fun a ha => hy a (by simp [ha])
      have ih := ih hx' hy' hl
      have hc := digitValue_le (hx c (by simp))
      have hd := digitValue_le (hy d (by simp))
      have bound := digitsValue_lt hx'
      have bound' := digitsValue_lt hy'
      have char_lt : c < d ↔ digitValue c < digitValue d := by
        rw [show c < d ↔ c.toNat < d.toNat from Iff.rfl]
        omega
      have char_eq : c = d ↔ digitValue c = digitValue d := by
        rw [← Char.toNat_inj]
        omega
      rw [List.cons_lt_cons_iff, digitsValue_cons, digitsValue_cons, ih, char_lt, char_eq, ← hl]
      rw [← hl] at bound'
      rcases Nat.lt_trichotomy (digitValue c) (digitValue d) with hlt | heq | hgt
      · have := place_lt hlt bound (digitsValue y)
        omega
      · rw [heq]
        omega
      · have := place_lt hgt bound' (digitsValue x)
        omega

theorem padded_lt_padded_iff (hw : 0 < w) (hm : m < 10 ^ w) (hn : n < 10 ^ w) : padded w m < padded w n ↔ m < n := by
  have pm := numeral_padded hw hm
  have pn := numeral_padded hw hn
  have hl : (padded w m).length = (padded w n).length := by rw [length_padded hw hm, length_padded hw hn]
  rw [lt_iff_digitsValue_lt pm.digits pn.digits hl, pm.value, pn.value]

theorem padded_inj (hw : 0 < w) (hm : m < 10 ^ w) (hn : n < 10 ^ w) : padded w m = padded w n ↔ m = n := by
  constructor
  · intro h
    rw [← (numeral_padded hw hm).value, h, (numeral_padded hw hn).value]
  · rintro rfl
    rfl

/-- What stands behind a number decides only behind the same number. -/
theorem padded_append_lt_iff (hw : 0 < w) (hm : m < 10 ^ w) (hn : n < 10 ^ w) {u v : Text} :
    padded w m ++ u < padded w n ++ v ↔ m < n ∨ m = n ∧ u < v := by
  have hl : (padded w m).length = (padded w n).length := by rw [length_padded hw hm, length_padded hw hn]
  rw [append_lt_append_iff hl, padded_lt_padded_iff hw hm hn, padded_inj hw hm hn]

end

/-! ## Printed dates -/

/-- A year that is printed in four digits and no sign. -/
def Date.FourDigits (d : Date) : Prop := 0 ≤ d.year ∧ d.year ≤ 9999

instance (d : Date) : Decidable d.FourDigits := by unfold Date.FourDigits; exact inferInstance

section

variable {d d₁ d₂ : Date} {s w v : Text}

theorem year_lt (h : d.FourDigits) : (d.year.toNat : Int) = d.year ∧ d.year.toNat < 10 ^ 4 := by
  obtain ⟨h₀, h₁⟩ := h
  omega

theorem text_eq (h : d.FourDigits) :
    d.text = padded 4 d.year.toNat ++ '-' :: (padded 2 d.month ++ '-' :: padded 2 d.day) := by
  have hy : 0 ≤ d.year ∧ d.year ≤ 9999 := h
  rw [Date.text, Date.yearText, if_pos hy]
  simp

theorem month_lt (d : Date) : d.month < 10 ^ 2 := by
  have := d.month_le
  omega

theorem day_lt (d : Date) : d.day < 10 ^ 2 := by
  have := d.day_le
  omega

/-- A date written with a year of four digits, and any number of zeros in front of the others. -/
theorem dated_of_mem (h : d.FourDigits) {m n : Text} (hm : m ∈ [decimal d.month, padded 2 d.month])
    (hn : n ∈ [decimal d.day, padded 2 d.day]) (a b : Char) (e : Text) :
    Dated d a b e (padded 4 d.year.toNat ++ a :: (m ++ b :: (n ++ e))) :=
  .intro (year_lt h).1.symm (numeral_padded (by decide) (year_lt h).2) (numeral_of_mem (month_lt d) hm)
    (numeral_of_mem (day_lt d) hn)

theorem numericDate_text (h : d.FourDigits) : NumericDate d d.text := by
  have hd := dated_of_mem h (List.mem_pair.mpr (Or.inr rfl)) (List.mem_pair.mpr (Or.inr rfl)) '-' '-' []
  rw [List.append_nil, ← text_eq h] at hd
  exact ⟨'-', by decide, '-', by decide, hd⟩

/-- A form of a date is read back between blanks. -/
theorem readDate?_between (h : FullDate d s) (hw : allBlank w = true) (hv : allBlank v = true) :
    readDate? (w ++ s ++ v) = some d := by
  rw [readDate?_eq_some_iff, trim_padded hw hv, (trimmed_of_dateChar h.dateChar h.ne_nil).trim]
  exact h

theorem text_lt_text_iff (h₁ : d₁.FourDigits) (h₂ : d₂.FourDigits) : d₁.text < d₂.text ↔ d₁.Before d₂ := by
  have hy := year_lt h₁
  have hy' := year_lt h₂
  rw [text_eq h₁, text_eq h₂, padded_append_lt_iff (by decide) hy.2 hy'.2, List.cons_lt_cons_iff,
    padded_append_lt_iff (by decide) (month_lt d₁) (month_lt d₂), List.cons_lt_cons_iff,
    padded_lt_padded_iff (by decide) (day_lt d₁) (day_lt d₂)]
  unfold Date.Before
  have : ¬ '-' < '-' := by decide
  simp only [this, false_or, true_and]
  omega

end

/-! ## What is read -/

/-- The numbers written in a text: its runs of digits, each at full length. -/
def numbers (s : Text) : List Nat := ((s.splitOnP fun c => !c.isDigit).filter (· ≠ [])).map digitsValue

section

variable {low high n : Nat} {s w v : Text}

theorem numbers_append_cons {c : Char} (h : c.isDigit = false) (x y : Text) : numbers (x ++ c :: y) = numbers x ++ numbers y := by
  have hc : (!c.isDigit) = true := by rw [h]; rfl
  rw [numbers, List.splitOnP_append_cons (p := fun c => !c.isDigit) x y hc, List.filter_append, List.map_append]
  rfl

theorem numbers_cons {c : Char} (h : c.isDigit = false) (s : Text) : numbers (c :: s) = numbers s :=
  numbers_append_cons h [] s

theorem numbers_numeral (h : Numeral (low + 1) high n s) : numbers s = [n] := by
  have h0 : s ≠ [] := by
    rintro rfl
    exact absurd h.atLeast (by simp)
  have hsplit : s.splitOnP (fun c => !c.isDigit) = [s] :=
    List.splitOnP_eq_singleton fun c hc => by simp [h.digits c hc]
  simp [numbers, hsplit, h0, h.value]

theorem numbers_numeral_cons (h : Numeral (low + 1) high n s) {c : Char} (hc : c.isDigit = false) (x : Text) :
    numbers (s ++ c :: x) = n :: numbers x := by
  rw [numbers_append_cons hc, numbers_numeral h]
  rfl

theorem not_isDigit_of_isBlank {c : Char} (h : isBlank c = true) : c.isDigit = false := by
  by_contra hd
  have := not_isBlank_of_isWord (isWord_of_isDigit (by simpa using hd))
  rw [h] at this; cases this

theorem numbers_blank_append (hw : allBlank w = true) (s : Text) : numbers (w ++ s) = numbers s := by
  induction w with
  | nil => rfl
  | cons c w ih =>
    simp only [allBlank, List.all_cons, Bool.and_eq_true] at hw
    rw [List.cons_append, numbers_cons (not_isDigit_of_isBlank hw.1), ih hw.2]

theorem numbers_blank (hw : allBlank w = true) : numbers w = [] := by
  have h := numbers_blank_append hw []
  rw [List.append_nil] at h
  exact h

theorem numbers_between (hw : allBlank w = true) (hv : allBlank v = true) : numbers (w ++ s ++ v) = numbers s := by
  rw [List.append_assoc, numbers_blank_append hw]
  cases v with
  | nil => rw [List.append_nil]
  | cons c v =>
    simp only [allBlank, List.all_cons, Bool.and_eq_true] at hv
    rw [numbers_append_cons (not_isDigit_of_isBlank hv.1), numbers_blank hv.2, List.append_nil]

theorem numbers_dated {d : Date} {a b : Char} {e : Text} (h : Dated d a b e s) (ha : a.isDigit = false)
    (hb : b.isDigit = false) (he : ∀ c ∈ e, c.isDigit = false) (hl : e.length ≤ 1) :
    ∃ y : Nat, y ≤ 9999 ∧ d.year = y ∧ numbers s = [y, d.month, d.day] := by
  cases h with
  | @intro y ys m n held hy hm hd =>
    have hlast : numbers (n ++ e) = [d.day] := by
      match e with
      | [] => rw [List.append_nil, numbers_numeral hd]
      | [c] => rw [numbers_numeral_cons hd (he c (by simp))]; rfl
      | _ :: _ :: _ => simp at hl
    refine ⟨y, ?_, held, ?_⟩
    · have hlen : ys.length = 4 := Nat.le_antisymm hy.atMost hy.atLeast
      have := digitsValue_lt hy.digits
      rw [hy.value, hlen] at this
      omega
    · rw [numbers_numeral_cons hy ha, numbers_numeral_cons hm hb, hlast]

/-- The numbers of a date read are those written in the text. -/
theorem numbers_of_readDate? {d : Date} (h : readDate? s = some d) :
    ∃ y : Nat, y ≤ 9999 ∧ d.year = y ∧ numbers s = [y, d.month, d.day] := by
  obtain ⟨w, v, e, hw, hv⟩ := trim_joins s
  rw [e, numbers_between hw hv]
  rcases readDate?_eq_some_iff.mp h with h | ⟨a, ha, b, hb, h⟩
  · have no_digit : ∀ c ∈ ['日'], c.isDigit = false := by
      intro c hc
      obtain rfl := List.mem_singleton.mp hc
      decide
    exact numbers_dated h (by decide) (by decide) no_digit (by simp)
  · exact numbers_dated h (not_isDigit_separator (isDateSeparator_iff.mpr ha))
      (not_isDigit_separator (isDateSeparator_iff.mpr hb)) (by simp) (by simp)

end

/-! ## Reading what is printed -/

theorem readDate?_printed {d₁ d₂ : Date} (h₁ : d₁.FourDigits) (h₂ : d₂.FourDigits) :
    (∀ w v, allBlank w = true → allBlank v = true →
      readDate? (w ++ d₁.text ++ v) = some d₁ ∧
      ∀ m ∈ [decimal d₁.month, padded 2 d₁.month], ∀ n ∈ [decimal d₁.day, padded 2 d₁.day],
        readDate? (w ++ (padded 4 d₁.year.toNat ++ '年' :: (m ++ '月' :: (n ++ ['日']))) ++ v) = some d₁ ∧
        readDate? (w ++ (padded 4 d₁.year.toNat ++ '/' :: (m ++ '/' :: n)) ++ v) = some d₁) ∧
    (d₁.Before d₂ ↔ d₁.text < d₂.text) ∧
    ∀ s d, readDate? s = some d → ∃ y : Nat, y ≤ 9999 ∧ d.year = y ∧ numbers s = [y, d.month, d.day] := by
  refine ⟨?_, (text_lt_text_iff h₁ h₂).symm, fun s d => numbers_of_readDate?⟩
  intro w v hw hv
  refine ⟨readDate?_between (Or.inr (numericDate_text h₁)) hw hv, ?_⟩
  intro m hm n hn
  constructor
  · exact readDate?_between (Or.inl (dated_of_mem h₁ hm hn '年' '月' ['日'])) hw hv
  · have hd := dated_of_mem h₁ hm hn '/' '/' []
    rw [List.append_nil] at hd
    exact readDate?_between (Or.inr ⟨'/', by decide, '/', by decide, hd⟩) hw hv

/-- A leap day and a day in the month before, in a year with zeros in front. -/
theorem readDate?_printed_leap :
    let leap : Date := ⟨4, 2, 29, by decide⟩
    let before : Date := ⟨4, 1, 31, by decide⟩
    readDate? " 0004年2月29日　".toList = some leap ∧ before.text < leap.text := by
  have hl : (⟨4, 2, 29, by decide⟩ : Date).FourDigits := by decide
  have hb : (⟨4, 1, 31, by decide⟩ : Date).FourDigits := by decide
  have h := readDate?_printed hl hb
  have h' := readDate?_printed hb hl
  refine ⟨?_, h'.2.1.mp (by decide)⟩
  exact ((h.1 [' '] ['　'] (by decide) (by decide)).2 ['2'] (by decide +kernel) ['2', '9'] (by decide +kernel)).1

end ExportQuery.Calendar
