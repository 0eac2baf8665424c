/-
  ExportQuery.Proofs.DaysBack — the day before a date, and days back.

  Days back are reached month by month, so that no count of days is needed. That is the same as
  taking the day before, once for each day. Only the first date has no day before, so going back
  fails exactly when it comes by that date with days left to go.

  - `pred?_eq_none_iff`: only the first date has no day before.
  - `back?_succ`: days back are taken one by one.
  - `back?_eq_none_iff`: when they lead before the first date.
-/

import ExportQuery.Calendar.Date

namespace ExportQuery.Calendar.Date

/-- The first date there is. -/
def IsFirst (d : Date) : Prop := d.year = firstYear ∧ d.month = 1 ∧ d.day = 1

/-! ## The day before -/

theorem monthBefore?_eq_none_iff {d : Date} : d.monthBefore? = none ↔ d.year = firstYear ∧ d.month = 1 := by
  obtain ⟨hfirst, hlast, -, -⟩ := isDate_iff.mp d.valid
  obtain ⟨hm, hm'⟩ := d.month_le
  unfold monthBefore?
  split
  · rename_i h1
    rw [ofYmd?_eq_none_iff, Bool.eq_false_iff, Ne, isDate_iff, monthLength]
    omega
  · rename_i h1
    have hlen : 1 ≤ monthLength d.year (d.month - 1) := monthLength_pos_iff.mpr (by omega)
    have held : isDate d.year (d.month - 1) (monthLength d.year (d.month - 1)) = true :=
      isDate_iff.mpr ⟨hfirst, hlast, hlen, Nat.le_refl _⟩
    simp [ofYmd?_eq_none_iff, held, h1]

/-- Only the first date has no day before. -/
theorem pred?_eq_none_iff {d : Date} : d.pred? = none ↔ d.IsFirst := by
  obtain ⟨hfirst, hlast, hpos, hle⟩ := isDate_iff.mp d.valid
  unfold pred?
  split
  · rename_i h
    have held : isDate d.year d.month (d.day - 1) = true := isDate_iff.mpr ⟨hfirst, hlast, by omega, by omega⟩
    rw [ofYmd?_eq_none_iff, held]
    constructor
    · intro h0; cases h0
    · intro ⟨_, _, h0⟩; omega
  · rw [monthBefore?_eq_none_iff, IsFirst]
    constructor
    · intro ⟨hy, hm⟩
      exact ⟨hy, hm, by omega⟩
    · intro ⟨hy, hm, _⟩
      exact ⟨hy, hm⟩

theorem monthBefore?_congr {d e : Date} (hy : e.year = d.year) (hm : e.month = d.month) : e.monthBefore? = d.monthBefore? := by
  unfold monthBefore?
  rw [hy, hm]

/-! ## Days back -/

/-- Within the month of `d`. -/
theorem back?_of_lt {n : Nat} {d : Date} (h : n < d.day) :
    ∃ e, back? n d = some e ∧ e.year = d.year ∧ e.month = d.month ∧ e.day = d.day - n := by
  obtain ⟨hfirst, hlast, hpos, hle⟩ := isDate_iff.mp d.valid
  have held : isDate d.year d.month (d.day - n) = true := isDate_iff.mpr ⟨hfirst, hlast, by omega, by omega⟩
  refine ⟨⟨d.year, d.month, d.day - n, held⟩, ?_, rfl, rfl, rfl⟩
  rw [back?, if_pos h]
  exact ofYmd?_eq_some_iff.mpr ⟨rfl, rfl, rfl⟩

theorem back?_of_le {n : Nat} {d : Date} (h : d.day ≤ n) : back? n d = d.monthBefore?.bind (back? (n - d.day)) := by
  rw [back?, if_neg (by omega)]
  cases d.monthBefore? <;> rfl

/-- Days back are taken one by one. -/
theorem back?_succ (n : Nat) (d : Date) : back? (n + 1) d = (back? n d).bind pred? := by
  induction n, d using back?.induct with
  | case1 n d h =>
    obtain ⟨e, he, hy, hm, hd⟩ := back?_of_lt h
    rw [he, Option.bind_some, pred?]
    by_cases h' : n + 1 < d.day
    · rw [back?, if_pos h', if_pos (by omega), hy, hm, hd]
      rfl
    · have h0 : n + 1 - d.day = 0 := by omega
      rw [back?_of_le (by omega), h0, if_neg (by omega), monthBefore?_congr hy hm]
      cases d.monthBefore? with
      | none => rfl
      | some b => exact back?_zero b
  | case2 n d h hm =>
    rw [back?_of_le (by omega), back?_of_le (by omega), hm]
    rfl
  | case3 n d h e hm ih =>
    have hs : n + 1 - d.day = n - d.day + 1 := by omega
    rw [back?_of_le (by omega), back?_of_le (by omega), hm, Option.bind_some, Option.bind_some, hs, ih]

/-- Going back fails exactly when fewer days back lead to the first date. -/
theorem back?_eq_none_iff {n : Nat} {d : Date} : back? n d = none ↔ ∃ k e, k < n ∧ back? k d = some e ∧ e.IsFirst := by
  simp only [← pred?_eq_none_iff]
  induction n with
  | zero => simp [back?_zero]
  | succ n ih =>
    rw [back?_succ, Option.bind_eq_none_iff]
    cases hn : back? n d with
    | none =>
      obtain ⟨k, e, hk, he, hp⟩ := ih.mp hn
      constructor
      · intro _
        exact ⟨k, e, by omega, he, hp⟩
      · intro _ e' h
        cases h
    | some e =>
      constructor
      · intro h
        exact ⟨n, e, by omega, hn, h e rfl⟩
      · intro ⟨k, e', hk, he, hp⟩
        have hkn : k = n := by
          by_cases hlt : k < n
          · rw [ih.mpr ⟨k, e', hlt, he, hp⟩] at hn
            cases hn
          · omega
        rw [hkn, hn] at he
        intro e'' h
        cases h
        cases he
        exact hp

end ExportQuery.Calendar.Date
