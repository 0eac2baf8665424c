/-
  ExportQuery.Proofs.DailyWindows — exports of single days tile the calendar.

  The day after is the day before the other way round, so no date lies between two days that
  follow each other: what is before the second is the first, or before it. All else is counting
  by ones. What was exported through the day before a date, and then day by day on the dates
  after it, is what an export through the day before the last of them holds, each day once. And
  a date comes by as many days before it as there are dates before it.

  - `Date.next?_eq_some_iff`: the day after and the day before are inverse.
  - `Date.before_of_pred`: nothing lies between the two.
  - `Date.before_ahead` / `Date.encard_earlier`: the same of a run of days, ahead and back.
  - `DailyRun`: a run of days, with its windows; `DailyRun.tiles`: what they are and that they tile.
  - `daily_windows_tile`: these, and the two other ways to name a day from another date.
-/

import Mathlib.Data.Set.Card
import Mathlib.Order.CompletePartialOrder
import ExportQuery.Period.Window
import ExportQuery.Proofs.DaysBack

namespace ExportQuery.Calendar.Date

variable {d e x last : Date}

/-! ## The order of dates -/

theorem eq_iff {a b : Date} : a = b ↔ a.year = b.year ∧ a.month = b.month ∧ a.day = b.day := by
  cases a
  cases b
  simp

theorem before_irrefl (d : Date) : ¬ d.Before d := by
  unfold Before
  omega

theorem not_before_iff {a b : Date} : ¬ a.Before b ↔ b.Before a ∨ b = a := by
  rw [eq_iff]
  unfold Before
  omega

/-- No date lies between a date and the day before it. -/
theorem before_of_pred (h : e.pred? = some d) (x : Date) : x.Before e ↔ x.Before d ∨ x = d := by
  obtain ⟨-, -, hpos, hle⟩ := isDate_iff.mp x.valid
  obtain ⟨hm, hm'⟩ := x.month_le
  have hlen := monthLength_le x.year x.month
  rw [eq_iff]
  unfold Before
  unfold pred? at h
  split at h
  · -- in the same month
    obtain ⟨hy, hmonth, hday⟩ := ofYmd?_eq_some_iff.mp h
    omega
  unfold monthBefore? at h
  split at h
  · obtain ⟨hy, hmonth, hday⟩ := ofYmd?_eq_some_iff.mp h
    omega
  · obtain ⟨hy, hmonth, hday⟩ := ofYmd?_eq_some_iff.mp h
    by_cases hsame : x.year = e.year ∧ x.month = e.month - 1
    · rw [hsame.1, hsame.2, ← hday] at hle
      omega
    · omega

/-! ## Days ahead -/

/-- The first day after the month of `d`. -/
def monthAfter? (d : Date) : Option Date :=
  if d.month = 12 then ofYmd? (d.year + 1) 1 1 else ofYmd? d.year (d.month + 1) 1

/-- The day after. -/
def next? (d : Date) : Option Date :=
  if d.day < monthLength d.year d.month then ofYmd? d.year d.month (d.day + 1) else d.monthAfter?

/-- The day `k` days after. -/
def ahead? : Nat → Date → Option Date
  | 0, d => some d
  | k + 1, d => (ahead? k d).bind next?

theorem pred_of_next (h : d.next? = some e) : e.pred? = some d := by
  obtain ⟨-, -, hpos, hle⟩ := isDate_iff.mp d.valid
  obtain ⟨hm, hm'⟩ := d.month_le
  have hlen := monthLength_le d.year d.month
  unfold next? at h
  unfold pred?
  split at h
  · obtain ⟨hy, hmonth, hday⟩ := ofYmd?_eq_some_iff.mp h
    rw [if_pos (by omega), ofYmd?_eq_some_iff]
    omega
  unfold monthAfter? at h
  unfold monthBefore?
  split at h
  · rename_i hlast h12
    obtain ⟨hy, hmonth, hday⟩ := ofYmd?_eq_some_iff.mp h
    have h31 : monthLength d.year d.month = 31 := by rw [h12]; rfl
    rw [if_neg (by omega), if_pos hmonth, ofYmd?_eq_some_iff]
    omega
  · obtain ⟨hy, hmonth, hday⟩ := ofYmd?_eq_some_iff.mp h
    have hback : e.month - 1 = d.month := by omega
    rw [if_neg (by omega), if_neg (by omega), ofYmd?_eq_some_iff, hy, hback]
    omega

theorem next_of_pred (h : e.pred? = some d) : d.next? = some e := by
  obtain ⟨-, -, hpos, hle⟩ := isDate_iff.mp e.valid
  obtain ⟨hm, hm'⟩ := e.month_le
  unfold pred? at h
  unfold next?
  split at h
  · obtain ⟨hy, hmonth, hday⟩ := ofYmd?_eq_some_iff.mp h
    rw [hy, hmonth, if_pos (by omega), ofYmd?_eq_some_iff]
    omega
  unfold monthBefore? at h
  unfold monthAfter?
  split at h
  · obtain ⟨hy, hmonth, hday⟩ := ofYmd?_eq_some_iff.mp h
    have h31 : monthLength d.year d.month = 31 := by rw [hmonth]; rfl
    rw [if_neg (by omega), if_pos hmonth, ofYmd?_eq_some_iff]
    omega
  · obtain ⟨hy, hmonth, hday⟩ := ofYmd?_eq_some_iff.mp h
    rw [hy, hmonth, ← hday, if_neg (by omega), if_neg (by omega), ofYmd?_eq_some_iff]
    omega

/-- The day after and the day before are inverse. -/
theorem next?_eq_some_iff : d.next? = some e ↔ e.pred? = some d := ⟨pred_of_next, next_of_pred⟩

theorem exists_of_ahead_succ {k : Nat} (h : d.ahead? (k + 1) = some e) : ∃ b, d.ahead? k = some b ∧ e.pred? = some b := by
  obtain ⟨b, hb, he⟩ := Option.bind_eq_some_iff.mp h
  exact ⟨b, hb, next?_eq_some_iff.mp he⟩

/-- A run of days passes through every number of days ahead. -/
theorem exists_of_ahead {k i : Nat} (h : d.ahead? k = some last) (hi : i ≤ k) : ∃ e, d.ahead? i = some e := by
  induction k generalizing last with
  | zero =>
    obtain rfl : i = 0 := by omega
    exact ⟨d, rfl⟩
  | succ k ih =>
    by_cases hk : i = k + 1
    · exact ⟨last, hk ▸ h⟩
    · obtain ⟨b, hb, -⟩ := exists_of_ahead_succ h
      exact ih hb (by omega)

/-- What is before the last day of a run is before the first one, or in the run. -/
theorem before_ahead {k : Nat} (h : d.ahead? k = some last) (x : Date) :
    x.Before last ↔ x.Before d ∨ ∃ i < k, d.ahead? i = some x := by
  induction k generalizing last with
  | zero =>
    obtain rfl : d = last := Option.some.inj h
    simp
  | succ k ih =>
    obtain ⟨b, hb, hpred⟩ := exists_of_ahead_succ h
    have hlast : d.ahead? k = some x ↔ x = b := by
      rw [hb, Option.some.injEq, eq_comm]
    rw [before_of_pred hpred, ih hb, Nat.exists_lt_succ_right, hlast, or_assoc]

/-- The days of a run follow each other. -/
theorem before_of_ahead {i j : Nat} (hi : d.ahead? i = some e) (hj : d.ahead? j = some last) (hij : i < j) : e.Before last :=
  (before_ahead hj e).mpr (Or.inr ⟨i, hij, hi⟩)

theorem ahead_inj {i j : Nat} (hi : d.ahead? i = some e) (hj : d.ahead? j = some e) : i = j := by
  rcases Nat.lt_trichotomy i j with hlt | heq | hlt
  · exact absurd (before_of_ahead hi hj hlt) (before_irrefl e)
  · exact heq
  · exact absurd (before_of_ahead hj hi hlt) (before_irrefl e)

theorem not_before_of_ahead {i : Nat} (hi : d.ahead? i = some e) : ¬ e.Before d := by
  rw [not_before_iff]
  by_cases h0 : i = 0
  · subst h0
    exact Or.inr (Option.some.inj hi)
  · exact Or.inl (before_of_ahead (i := 0) rfl hi (Nat.pos_of_ne_zero h0))

theorem exists_pred (h : ¬ d.IsFirst) : ∃ e, d.pred? = some e := by
  rw [← pred?_eq_none_iff] at h
  exact Option.ne_none_iff_exists'.mp h

/-- A day ahead of one that has a day before has one too. -/
theorem exists_pred_of_ahead {k : Nat} (h : ¬ d.IsFirst) (hlast : d.ahead? k = some last) : ∃ e, last.pred? = some e := by
  cases k with
  | zero =>
    obtain rfl : d = last := Option.some.inj hlast
    exact exists_pred h
  | succ k =>
    obtain ⟨b, -, hb⟩ := exists_of_ahead_succ hlast
    exact ⟨b, hb⟩

/-! ## Days back -/

/-- The `n`-th of the days before, one by one. -/
def nthPred? : Nat → Date → Option Date
  | 0, d => some d
  | n + 1, d => (nthPred? n d).bind pred?

theorem back?_eq_nthPred? (n : Nat) (d : Date) : d.back? n = d.nthPred? n := by
  induction n with
  | zero => exact back?_zero d
  | succ n ih => rw [back?_succ, ih, nthPred?]

/-- The dates before `d`. -/
def earlier (d : Date) : Set Date := {x | x.Before d}

theorem earlier_first (h : d.IsFirst) : d.earlier = ∅ := by
  obtain ⟨hy, hm, hd⟩ := h
  refine Set.eq_empty_of_forall_notMem fun x hx => ?_
  obtain ⟨hfirst, -, hpos, -⟩ := isDate_iff.mp x.valid
  have hmonth := x.month_le
  have hx : x.Before d := hx
  unfold Before at hx
  omega

/-- The day before is one more date. -/
theorem earlier_of_pred (h : e.pred? = some d) : e.earlier = insert d d.earlier := by
  ext x
  exact (before_of_pred h x).trans or_comm

/-- Going back by `n` days leaves `n` dates less. -/
theorem encard_earlier {n : Nat} (h : d.nthPred? n = some e) : d.earlier.encard = e.earlier.encard + n := by
  induction n generalizing e with
  | zero =>
    obtain rfl : d = e := Option.some.inj h
    simp
  | succ n ih =>
    obtain ⟨b, hb, he⟩ := Option.bind_eq_some_iff.mp h
    have hnew : e ∉ e.earlier := before_irrefl e
    rw [ih hb, earlier_of_pred he, Set.encard_insert_of_notMem hnew, Nat.cast_succ, add_assoc, add_comm 1]

/-- Going back fails exactly when there are fewer dates before. -/
theorem nthPred?_eq_none_iff {n : Nat} : d.nthPred? n = none ↔ d.earlier.encard < n := by
  constructor
  · intro h
    rw [← back?_eq_nthPred?] at h
    obtain ⟨k, first, hk, hback, hfirst⟩ := back?_eq_none_iff.mp h
    rw [back?_eq_nthPred?] at hback
    rw [encard_earlier hback, earlier_first hfirst, Set.encard_empty, zero_add]
    exact_mod_cast hk
  · intro h
    rw [Option.eq_none_iff_forall_ne_some]
    intro e he
    rw [encard_earlier he] at h
    exact absurd h (not_lt.mpr le_add_self)

end ExportQuery.Calendar.Date

namespace ExportQuery.Period

open ExportQuery.Calendar

/-! ## Windows of single days -/

/-- The dates of the window. -/
def Window.days (w : Window) : Set Date := {x | w.Holds x}

/-- A run of `k` days from `d` on, with the days before it and before the date `last` after it. -/
structure DailyRun (d last : Date) (k : Nat) where
  before : Date
  day : Fin k → Date
  final : Date
  pred_before : d.pred? = some before
  ahead_day : ∀ i : Fin k, d.ahead? i = some (day i)
  ahead_last : d.ahead? k = some last
  pred_final : last.pred? = some final

namespace DailyRun

variable {d last : Date} {k : Nat} (r : DailyRun d last k)

/-- All days before the run. -/
def base : Window := .through r.before

/-- One day of the run. -/
def daily (i : Fin k) : Window := .on (r.day i)

/-- All days through the run. -/
def whole : Window := .through r.final

/-- The windows are those of the days before `d` and before `last`, and of the day before each date
    after `d`; they hold these days; and the first and those of single days take the second apart. -/
structure Tiles : Prop where
  resolves_base : Expr.window? d .throughYesterday = some r.base
  resolves_whole : Expr.window? last .throughYesterday = some r.whole
  resolves_daily : ∀ i : Fin k, (d.ahead? (i + 1)).bind (Expr.window? · .yesterday) = some (r.daily i)
  days_base : r.base.days = d.earlier
  days_whole : r.whole.days = last.earlier
  days_daily : ∀ i, (r.daily i).days = {r.day i}
  apart : Pairwise (Function.onFun Disjoint fun i => (r.daily i).days)
  beside : ∀ i, Disjoint r.base.days (r.daily i).days
  union : r.whole.days = r.base.days ∪ ⋃ i, (r.daily i).days

end DailyRun

section

variable {d e last : Date}

/-- Through the day before `d` are all dates before `d`. -/
theorem days_throughYesterday (h : d.pred? = some e) : (Window.through e).days = d.earlier := by
  ext x
  exact Date.not_before_iff.trans (Date.before_of_pred h x).symm

theorem exists_dailyRun {k : Nat} (h : ¬ d.IsFirst) (hlast : d.ahead? k = some last) : Nonempty (DailyRun d last k) := by
  obtain ⟨before, hbefore⟩ := Date.exists_pred h
  obtain ⟨final, hfinal⟩ := Date.exists_pred_of_ahead h hlast
  choose day hday using fun i : Fin k => Date.exists_of_ahead hlast i.is_lt.le
  exact ⟨⟨before, day, final, hbefore, hday, hlast, hfinal⟩⟩

/-- The days of a run, exported one by one on the days that follow. -/
theorem DailyRun.tiles {k : Nat} (r : DailyRun d last k) : r.Tiles where
  resolves_base := by rw [Expr.window?, r.pred_before, Option.bind_some]; rfl
  resolves_whole := by rw [Expr.window?, r.pred_final, Option.bind_some]; rfl
  resolves_daily := by
    intro i
    obtain ⟨e, he⟩ := Date.exists_of_ahead r.ahead_last i.is_lt
    obtain ⟨b, hb, hpred⟩ := Date.exists_of_ahead_succ he
    obtain rfl : r.day i = b := Option.some.inj ((r.ahead_day i).symm.trans hb)
    rw [he, Option.bind_some, Expr.window?, hpred, Option.bind_some]
    rfl
  days_base := days_throughYesterday r.pred_before
  days_whole := days_throughYesterday r.pred_final
  days_daily _ := rfl
  apart := by
    intro i j hij
    have hne : r.day i ≠ r.day j := fun e => hij (Fin.ext (Date.ahead_inj (r.ahead_day i) (by rw [e]; exact r.ahead_day j)))
    exact Set.disjoint_singleton.mpr hne
  beside := by
    intro i
    rw [base, days_throughYesterday r.pred_before]
    exact Set.disjoint_singleton_right.mpr (Date.not_before_of_ahead (r.ahead_day i))
  union := by
    rw [base, whole, days_throughYesterday r.pred_before, days_throughYesterday r.pred_final]
    ext x
    rw [Set.mem_union, Set.mem_iUnion]
    refine (Date.before_ahead r.ahead_last x).trans (or_congr_right ?_)
    constructor
    · intro hx
      obtain ⟨i, hi, hx⟩ := hx
      exact ⟨⟨i, hi⟩, Option.some.inj (hx.symm.trans (r.ahead_day ⟨i, hi⟩))⟩
    · intro hx
      obtain ⟨i, hx⟩ := hx
      obtain rfl : x = r.day i := hx
      exact ⟨i, i.is_lt, r.ahead_day i⟩

/-- Exports day by day tile the calendar.

    Of a run of days that starts at `d`, the window of each, together with all that is through the
    day before `d`, makes up all that is through the day before the last. From a date through the
    day before is, a day later, from that date through the day itself. And `n` days ago is the
    `n`-th day back, which is there unless fewer dates are. -/
theorem daily_windows_tile (h : ¬ d.IsFirst) :
    (∀ k last, d.ahead? k = some last → ∃ r : DailyRun d last k, r.Tiles) ∧
    (∀ next start, d.next? = some next → Expr.window? next (.sinceThroughYesterday start) = some (.between start d) ∧
      Expr.window? d (.sinceThroughToday start) = some (.between start d)) ∧
    ∀ n, Expr.window? d (.daysAgo n) = (d.nthPred? n).map .on ∧
      (Expr.window? d (.daysAgo n) = none ↔ d.earlier.encard < n) := by
  obtain ⟨first, hfirst⟩ := Date.exists_pred h
  refine ⟨fun k last hlast => ?_, fun next start hnext => ?_, fun n => ?_⟩
  · obtain ⟨r⟩ := exists_dailyRun h hlast
    exact ⟨r, r.tiles⟩
  · rw [Expr.window?, Expr.window?, hfirst, Date.next?_eq_some_iff.mp hnext, Option.bind_some, Option.bind_some]
    exact ⟨rfl, rfl⟩
  · have hback : Expr.window? d (.daysAgo n) = (d.nthPred? n).map .on := by
      rw [Expr.window?, hfirst, Option.bind_some, ← Date.back?_eq_nthPred?]
    rw [hback, Option.map_eq_none_iff, Date.nthPred?_eq_none_iff]
    exact ⟨rfl, Iff.rfl⟩

end

/-- Across the last day of February in a leap year; and back across the first date there is. -/
theorem daily_windows_tile_leap :
    let d : Date := ⟨2024, 2, 28, by decide⟩
    let last : Date := ⟨2024, 3, 2, by decide⟩
    let second : Date := ⟨Calendar.firstYear, 1, 2, by decide⟩
    ¬ d.IsFirst ∧ d.ahead? 3 = some last ∧ (∃ r : DailyRun d last 3, r.Tiles ∧ r.base = .through ⟨2024, 2, 27, by decide⟩ ∧
        r.daily 1 = .on ⟨2024, 2, 29, by decide⟩ ∧ r.whole = .through ⟨2024, 3, 1, by decide⟩) ∧
      ¬ second.IsFirst ∧ Expr.window? second (.daysAgo 1) = some (.on ⟨Calendar.firstYear, 1, 1, by decide⟩) ∧
      second.earlier.encard < 2 := by
  intro d last second
  have h : ¬ d.IsFirst := by unfold Date.IsFirst; decide
  have h' : ¬ second.IsFirst := by unfold Date.IsFirst; decide
  have hlast : d.ahead? 3 = some last := by decide +kernel
  obtain ⟨r, hr⟩ := (daily_windows_tile h).1 3 last hlast
  have hback := (daily_windows_tile h').2.2
  refine ⟨h, hlast, ⟨r, hr, ?_, ?_, ?_⟩, h', ?_, (hback 2).2.mp ?_⟩
  · exact Option.some.inj (hr.resolves_base.symm.trans (by decide +kernel))
  · exact Option.some.inj ((hr.resolves_daily 1).symm.trans (by decide +kernel))
  · exact Option.some.inj (hr.resolves_whole.symm.trans (by decide +kernel))
  · rw [(hback 1).1]
    decide +kernel
  · rw [(hback 2).1]
    decide +kernel

end ExportQuery.Period
