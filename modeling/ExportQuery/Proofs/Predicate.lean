/-
  ExportQuery.Proofs.Predicate — the texts of built-in conditions, as readers of SQL see them.

  A period condition is built from DATE calls on a qualified column and dates in quotes, the
  exclusion of deleted rows from a name and keywords. The quotes are balanced and close before
  the end; no line comment opens; no blank follows a letter that ends GROUP or FROM, nor a dash.
  So no keyword and no marker is read off them.

  - `Mild`: such texts; `Mild.append` puts them one behind the other.
  - `predicate_sql`: the condition of a window is one.
  - `predicate_periodSql`: so is what the period pass merges.
-/

import ExportQuery.Assembly
import ExportQuery.Proofs.Comment
import ExportQuery.Proofs.Edit

namespace ExportQuery.Sql

open ExportQuery.Text

/-! ## Blanks behind letters -/

/-- A character that ends GROUP or FROM, or stands in markers. -/
def loud (c : Char) : Bool := sameLetter 'P' c || sameLetter 'M' c || c == '-'

/-- No blank follows a loud character. -/
def calm : Text → Bool
  | c :: d :: s => !(loud c && isBlank d) && calm (d :: s)
  | _ => true

theorem calm_cons {c : Char} {s : Text} (h : calm (c :: s) = true) : calm s = true := by
  cases s with
  | nil => rfl
  | cons d s =>
    simp only [calm, Bool.and_eq_true] at h
    exact h.2

theorem calm_right {x y : Text} (h : calm (x ++ y) = true) : calm y = true := by
  induction x with
  | nil => exact h
  | cons c x ih => exact ih (calm_cons h)

theorem not_loud_of_calm {x s : Text} {c d : Char} (h : calm (x ++ c :: d :: s) = true) (hd : isBlank d = true) :
    loud c = false := by
  have h := calm_right h
  simp only [calm, Bool.and_eq_true, hd, Bool.and_true, Bool.not_eq_true'] at h
  exact h.1

theorem calm_append {x y : Text} (hx : calm x = true) (hy : calm y = true)
    (h : (∃ c, x.getLast? = some c ∧ loud c = false) ∨ ∃ d, y.head? = some d ∧ isBlank d = false) :
    calm (x ++ y) = true := by
  induction x with
  | nil => exact hy
  | cons c x ih =>
    cases x with
    | nil =>
      cases y with
      | nil => rfl
      | cons d y =>
        have : (loud c && isBlank d) = false := by
          rcases h with ⟨c', hc, hl⟩ | ⟨d', hd, hb⟩
          · obtain rfl : c = c' := by simpa using hc
            rw [hl]; rfl
          · obtain rfl : d = d' := by simpa using hd
            rw [hb, Bool.and_false]
        simp only [List.singleton_append, calm, this, hy]; rfl
    | cons e x =>
      have ih := ih (calm_cons hx) (by simpa using h)
      simp only [List.cons_append, calm, Bool.and_eq_true] at hx ih ⊢
      exact ⟨hx.1, ih⟩

theorem calm_of_ink {s : Text} (h : ∀ c ∈ s, isBlank c = false) : calm s = true := by
  induction s with
  | nil => rfl
  | cons c s ih =>
    cases s with
    | nil => rfl
    | cons d s =>
      have hd := h d (by simp)
      have ih := ih fun c hc => h c (by simp only [List.mem_cons] at hc ⊢; exact Or.inr hc)
      simp only [calm, hd, Bool.and_false, ih]; rfl

/-- No word that ends in a loud character, a blank behind it, starts in a calm text that ends in
    no such character. -/
theorem no_word_of_calm {ins u v y k w r : Text} (hc : calm ins = true) (hs : Seam ins y)
    (hq : ∀ c, ins.getLast? = some c → loud c = false) (hins : ins = u ++ v) (hv : v ≠ []) (hk : ∀ c ∈ k, isWord c = true)
    (hl : ∃ s c, k = s ++ [c] ∧ loud c = true) (hw : allBlank w = true) (h0 : w ≠ []) : v ++ y ≠ k ++ (w ++ r) := by
  intro e
  obtain ⟨s, c, hsc, hloud⟩ := hl
  -- the text does not end with the word
  have hne : v ≠ k := by
    rintro rfl
    rw [hq c (by rw [hins, hsc, ← List.append_assoc]; exact List.getLast?_concat)] at hloud; cases hloud
  rcases List.append_eq_append_iff.mp e with ⟨t, rfl, ht⟩ | ⟨t, rfl, ht⟩
  · have ht0 : t ≠ [] := fun h => hne (by rw [h, List.append_nil])
    exact hs.not_across hv ht0 ⟨u, hins.symm⟩ ⟨w ++ r, ht.symm⟩ hk
  · cases t with
    | nil => exact hne (List.append_nil k)
    | cons d t =>
      have hd : isBlank d = true := by
        cases w with
        | nil => exact absurd rfl h0
        | cons b w =>
          simp only [List.cons_append, List.cons.injEq] at ht
          rw [← ht.1]
          exact List.all_eq_true.mp hw b (by simp)
      have e : ins = (u ++ s) ++ c :: d :: t := by rw [hins, hsc]; simp
      rw [e] at hc
      rw [not_loud_of_calm hc hd] at hloud; cases hloud

/-! ## Mild texts -/

/-- A text of which no reader sees more than its characters. -/
structure Mild (s : Text) : Prop where
  calm : calm s = true
  outside : Outside s
  unquoted : '"' ∉ s

theorem Mild.append {x y : Text} (hx : Mild x) (hy : Mild y)
    (h : (∃ c, x.getLast? = some c ∧ loud c = false) ∨ ∃ d, y.head? = some d ∧ isBlank d = false ∧ d ≠ '-') :
    Mild (x ++ y) := by
  refine ⟨calm_append hx.calm hy.calm (h.imp_right fun ⟨d, hd, hb, _⟩ => ⟨d, hd, hb⟩), hx.outside.append hy.outside ?_, ?_⟩
  · rcases h with ⟨c, hc, hl⟩ | ⟨d, hd, -, hn⟩
    · left
      rw [hc]
      rintro ⟨rfl⟩
      exact absurd hl (by decide)
    · right
      rw [hd]
      simpa using hn
  · rw [List.mem_append]
    rintro (hm | hm)
    · exact hx.unquoted hm
    · exact hy.unquoted hm

/-- A mild text with ink at both ends, the last character of which is not loud. -/
structure Predicate (s : Text) : Prop extends Mild s, Trimmed s where
  quiet : ∀ c, s.getLast? = some c → loud c = false

theorem Predicate.last {s : Text} (h : Predicate s) (x : Text) :
    ∃ c, (x ++ s).getLast? = some c ∧ isBlank c = false ∧ loud c = false := by
  obtain ⟨c, hc, hi⟩ := h.ends
  exact ⟨c, by rw [List.getLast?_append, hc]; rfl, hi, h.quiet c hc⟩

/-- Two predicates with a connective between them. -/
theorem Predicate.connect {p q op : Text} (hp : Predicate p) (hq : Predicate q) (ho : Mild op)
    (hl : ∃ c, op.getLast? = some c ∧ loud c = false) : Predicate (p ++ op ++ q) := by
  obtain ⟨c, hc, -, hc'⟩ := hp.last []
  have h := (hp.toMild.append ho (Or.inl ⟨c, hc, hc'⟩)).append hq.toMild (Or.inl ?_)
  · refine ⟨h, hp.toTrimmed.append hq.toTrimmed op, fun d hd => ?_⟩
    obtain ⟨d', hd', -, hl'⟩ := hq.last (p ++ op)
    rw [hd', Option.some.injEq] at hd
    rw [← hd]; exact hl'
  · obtain ⟨d, hd, hd'⟩ := hl
    exact ⟨d, by rw [List.getLast?_append, hd]; rfl, hd'⟩

/-! ## Names and literals -/

theorem isNameChar_iff {c : Char} : isNameChar c = true ↔ isWord c = true ∨ c = '.' := by
  simp [isNameChar]

theorem isBlank_of_isNameChar {c : Char} (h : isNameChar c = true) : isBlank c = false := by
  rcases isNameChar_iff.mp h with h | rfl
  · exact not_isBlank_of_isWord h
  · decide

theorem mild_name {s : Text} (h : ∀ c ∈ s, isNameChar c = true) : Mild s := by
  have absent : ∀ c, isNameChar c = false → c ∉ s := fun c hc hm => by
    rw [h c hm] at hc; cases hc
  exact ⟨calm_of_ink fun c hc => isBlank_of_isNameChar (h c hc),
    outside_of_not_mem (absent '-' (by decide)) (absent '\'' (by decide)), absent '"' (by decide)⟩

theorem mild_words {s : Text} (h : (Sql.calm s && !inComment s.reverse && !inLiteral s.reverse && !s.contains '"') = true) :
    Mild s := by
  simp only [Bool.and_eq_true, Bool.not_eq_true', List.contains_eq_mem, decide_eq_false_iff_not] at h
  exact ⟨h.1.1.1, ⟨h.1.1.2, h.1.2⟩, h.2⟩

theorem outside_literal {s : Text} (hq : '\'' ∉ s) (hn : '\n' ∉ s) : Outside ('\'' :: s ++ ['\'']) := by
  have hline : lineSoFar ('\'' :: s ++ ['\'']).reverse = '\'' :: s ++ ['\''] := by
    have h := lineSoFar_append [] ('\'' :: s ++ ['\''])
    rwa [List.nil_append, if_neg (by simp [hn])] at h
  have quoted : ∀ s : Text, '\'' ∉ s → opensComment true (s ++ ['\'']) = false := by
    intro s hs
    induction s with
    | nil => rfl
    | cons c s ih =>
      have hc : c ≠ '\'' := fun e => hs (by simp [e])
      rw [List.cons_append, opensComment_other hc (Or.inl rfl)]
      exact ih fun hm => hs (List.mem_cons_of_mem c hm)
  constructor
  · rw [inComment, hline, List.cons_append, opensComment_quote]
    exact quoted s hq
  · rw [inLiteral_reverse, hline]
    simp [oddQuotes, List.count_append, List.count_eq_zero.mpr hq]

end ExportQuery.Sql

namespace ExportQuery.Period

open ExportQuery.Text ExportQuery.Calendar ExportQuery.Sql

/-! ## Dates -/

theorem isDigit_padded {width n : Nat} {c : Char} (h : c ∈ padded width n) : c.isDigit = true := by
  rcases List.mem_append.mp h with h | h
  · rw [List.eq_of_mem_replicate h]; decide
  · exact isDigit_decimal n c h

theorem mem_date {d : Date} {c : Char} (h : c ∈ d.text) : c.isDigit = true ∨ c = '-' ∨ c = '+' := by
  have year : c ∈ Date.yearText d.year → c.isDigit = true ∨ c = '-' ∨ c = '+' := by
    unfold Date.yearText
    split
    · exact fun hc => Or.inl (isDigit_padded hc)
    · intro hc
      rcases List.mem_cons.mp hc with rfl | hc
      · split
        · exact Or.inr (Or.inl rfl)
        · exact Or.inr (Or.inr rfl)
      · exact Or.inl (isDigit_padded hc)
  simp only [Date.text, List.mem_append, List.mem_cons] at h
  rcases h with (h | rfl | h) | rfl | h
  · exact year h
  · exact Or.inr (Or.inl rfl)
  · exact Or.inl (isDigit_padded h)
  · exact Or.inr (Or.inl rfl)
  · exact Or.inl (isDigit_padded h)

theorem mild_date (d : Date) : Mild (Filter.literal d.text) := by
  have absent : ∀ c : Char, c.isDigit = false → c ≠ '-' → c ≠ '+' → c ∉ d.text := by
    intro c h₁ h₂ h₃ hm
    rcases mem_date hm with h | h | h
    · rw [h₁] at h; cases h
    · exact h₂ h
    · exact h₃ h
  refine ⟨calm_of_ink ?_, outside_literal (absent '\'' rfl (by decide) (by decide)) (absent '\n' rfl (by decide) (by decide)), ?_⟩
  · intro c hc
    simp only [Filter.literal, List.mem_append, List.mem_cons, List.not_mem_nil, or_false] at hc
    rcases hc with (rfl | hc) | rfl
    · decide
    · rcases mem_date hc with h | rfl | rfl
      · exact not_isBlank_of_isWord (isWord_of_isDigit h)
      · decide
      · decide
    · decide
  · simp only [Filter.literal, List.mem_append, List.mem_cons, List.not_mem_nil, or_false, not_or]
    exact ⟨⟨by decide, absent '"' rfl (by decide) (by decide)⟩, by decide⟩

/-! ## Windows -/

/-- A DATE call on a name, compared with quoted dates. -/
theorem predicate_call {column tail : Text} (hc : ∀ c ∈ column, isNameChar c = true) (ht : Mild (')' :: tail))
    (he : tail.getLast? = some '\'') : Predicate ("DATE(".toList ++ column ++ ')' :: tail) := by
  have hopen : Mild "DATE(".toList := mild_words (by decide)
  have hcall : Mild ("DATE(".toList ++ column) := hopen.append (mild_name hc) (Or.inl ⟨'(', by decide, by decide⟩)
  have hlast : ("DATE(".toList ++ column ++ ')' :: tail).getLast? = some '\'' := by
    rw [List.getLast?_append, List.getLast?_cons, he]; rfl
  refine ⟨hcall.append ht (Or.inr ⟨')', rfl, by decide, by decide⟩), ⟨?_, '\'', hlast, by decide⟩, fun c h => ?_⟩
  · exact ⟨'D', "ATE(".toList ++ column ++ ')' :: tail, rfl, by decide⟩
  · rw [hlast, Option.some.injEq] at h
    rw [← h]; decide

theorem getLast?_literal (x s : Text) : (x ++ Filter.literal s).getLast? = some '\'' := by
  rw [Filter.literal, ← List.append_assoc, List.getLast?_append]; rfl

theorem Window.predicate_sql {column : Text} (hc : ∀ c ∈ column, isNameChar c = true) (w : Window) :
    Predicate (w.sql column) := by
  have compared : ∀ (op : Text) (d : Date), Mild op → (∃ c, op.getLast? = some c ∧ loud c = false) →
      Mild (op ++ Filter.literal d.text) := fun op d ho hl => ho.append (mild_date d) (Or.inl hl)
  cases w with
  | on date =>
    have ht := compared (')' :: " = ".toList) date (mild_words (by decide)) ⟨' ', by decide, by decide⟩
    have h := predicate_call hc ht (getLast?_literal " = ".toList date.text)
    have e : (Window.on date).sql column = "DATE(".toList ++ column ++ ')' :: (" = ".toList ++ Filter.literal date.text) := by
      have hop : ") = '".toList = ')' :: (" = ".toList ++ ['\'']) := by decide
      unfold Window.sql Filter.literal
      rw [hop]
      simp only [List.append_assoc, List.cons_append, List.nil_append]
    rw [e]; exact h
  | through date =>
    have ht := compared (')' :: " <= ".toList) date (mild_words (by decide)) ⟨' ', by decide, by decide⟩
    have h := predicate_call hc ht (getLast?_literal " <= ".toList date.text)
    have e : (Window.through date).sql column =
        "DATE(".toList ++ column ++ ')' :: (" <= ".toList ++ Filter.literal date.text) := by
      have hop : ") <= '".toList = ')' :: (" <= ".toList ++ ['\'']) := by decide
      unfold Window.sql Filter.literal
      rw [hop]
      simp only [List.append_assoc, List.cons_append, List.nil_append]
    rw [e]; exact h
  | between first last =>
    have h₁ := compared (')' :: " BETWEEN ".toList) first (mild_words (by decide)) ⟨' ', by decide, by decide⟩
    have h₂ := compared " AND ".toList last (mild_words (by decide)) ⟨' ', by decide, by decide⟩
    have ht := h₁.append h₂ (Or.inl ⟨'\'', getLast?_literal _ _, by decide⟩)
    rw [List.append_assoc, List.cons_append] at ht
    have h := predicate_call hc ht (by rw [← List.append_assoc, ← List.append_assoc]; exact getLast?_literal _ _)
    have e : (Window.between first last).sql column = "DATE(".toList ++ column ++
        ')' :: (" BETWEEN ".toList ++ (Filter.literal first.text ++ (" AND ".toList ++ Filter.literal last.text))) := by
      have hop : ") BETWEEN '".toList = ')' :: (" BETWEEN ".toList ++ ['\'']) := by decide
      have hand : "' AND '".toList = '\'' :: (" AND ".toList ++ ['\'']) := by decide
      unfold Window.sql Filter.literal
      rw [hop, hand]
      simp only [List.append_assoc, List.cons_append, List.nil_append]
    rw [e]; exact h

/-- Two predicates in parentheses, one of which is to hold. -/
theorem predicate_either {p q : Text} (hp : Predicate p) (hq : Predicate q) :
    Predicate ('(' :: p ++ " OR ".toList ++ q ++ [')']) := by
  have hor : Mild " OR ".toList := mild_words (by decide)
  have h := (hp.connect hq hor ⟨' ', by decide, by decide⟩).toMild
  have h₁ : Mild (['('] ++ (p ++ " OR ".toList ++ q)) :=
    (mild_words (s := ['(']) (by decide)).append h (Or.inl ⟨'(', rfl, by decide⟩)
  have h₂ := h₁.append (mild_words (s := [')']) (by decide)) (Or.inr ⟨')', rfl, by decide, by decide⟩)
  have hlast : ('(' :: p ++ " OR ".toList ++ q ++ [')']).getLast? = some ')' := List.getLast?_concat
  refine ⟨by simpa using h₂, ⟨⟨'(', p ++ " OR ".toList ++ q ++ [')'], rfl, by decide⟩, ')', hlast, by decide⟩, fun c h => ?_⟩
  rw [hlast, Option.some.injEq] at h
  rw [← h]; decide

theorem isNameChar_qualified {table column : Text} (ht : ∀ c ∈ table, isNameChar c = true)
    (hc : ∀ c ∈ column, isNameChar c = true) : ∀ c ∈ qualified table column, isNameChar c = true := by
  intro c hm
  simp only [qualified, List.mem_append, List.mem_cons] at hm
  rcases hm with hm | rfl | hm
  · exact ht c hm
  · decide
  · exact hc c hm

theorem Criterion.isNameChar_column (k : Criterion) : ∀ c ∈ k.column, isNameChar c = true := by
  have all : k.column.all isNameChar = true := by cases k <;> decide
  exact List.all_eq_true.mp all

/-- The condition on one column, when there is one. -/
theorem predicate_columnCondition {today : Date} {condition column table : Text}
    (ht : ∀ c ∈ table, isNameChar c = true) (hc : ∀ c ∈ column, isNameChar c = true) :
    columnCondition today condition column table = [] ∨
      ∃ p, columnCondition today condition column table = ' ' :: p ∧ Predicate p := by
  unfold columnCondition
  split
  · rename_i w _
    exact Or.inr ⟨_, rfl, w.predicate_sql (isNameChar_qualified ht hc)⟩
  · exact Or.inl rfl

theorem predicate_loginCondition {today : Date} {condition table : Text} (ht : ∀ c ∈ table, isNameChar c = true) :
    loginCondition today condition table = [] ∨
      ∃ p, loginCondition today condition table = ' ' :: p ∧ Predicate p := by
  have updated : ∀ c ∈ "updated_at".toList, isNameChar c = true := List.all_eq_true.mp (by decide)
  have login : ∀ c ∈ "last_login_at".toList, isNameChar c = true := List.all_eq_true.mp (by decide)
  unfold loginCondition
  split
  · rename_i w _
    exact Or.inr ⟨_, rfl, predicate_either (w.predicate_sql (isNameChar_qualified ht updated))
      (w.predicate_sql (isNameChar_qualified ht login))⟩
  · exact Or.inl rfl

end ExportQuery.Period

namespace ExportQuery.Filter

open ExportQuery.Text ExportQuery.Sql

/-! ## Exclusion of deleted rows -/

theorem predicate_exclusion {table : Text} (ht : ∀ c ∈ table, isNameChar c = true) :
    Predicate (table ++ ".deleted_at IS NULL".toList) := by
  have hlast : (table ++ ".deleted_at IS NULL".toList).getLast? = some 'L' := by
    rw [List.getLast?_append]; rfl
  refine ⟨(mild_name ht).append (mild_words (by decide)) (Or.inr ⟨'.', rfl, by decide, by decide⟩), ⟨?_, 'L', hlast, by decide⟩,
    fun c h => ?_⟩
  · cases table with
    | nil => exact ⟨'.', "deleted_at IS NULL".toList, rfl, by decide⟩
    | cons c r => exact ⟨c, r ++ ".deleted_at IS NULL".toList, rfl, isBlank_of_isNameChar (ht c (by simp))⟩
  · rw [hlast, Option.some.injEq] at h
    rw [← h]; decide

theorem eq_ok_of_toOption {ε α : Type} {x : Except ε α} {y : α} (h : x.toOption = some y) : x = .ok y := by
  cases x with
  | error e => cases h
  | ok z => simpa [Except.toOption] using h

theorem exists_of_map {α β ε : Type} {f : α → β} {x : Except ε α} {y : β} (h : x.map f = .ok y) : ∃ z, x = .ok z ∧ f z = y := by
  cases x with
  | error e => cases h
  | ok z => exact ⟨z, rfl, Except.ok.inj h⟩

theorem map_eq_error_iff {α β ε : Type} {f : α → β} {x : Except ε α} {e : ε} : x.map f = .error e ↔ x = .error e := by
  cases x with
  | error e' => simp [Except.map]
  | ok z => exact iff_of_false nofun nofun

/-- The conditions of an input: those of its values, and the exclusion or nothing. -/
theorem conditions_eq (columns : List (Text × Text)) (input : Input) (flag : Text) (skip : Bool) (alias? : Option Text) :
    conditions columns input flag skip alias? =
      ((input.values.mapM (memberConditions columns input)).map List.flatten).bind fun cs =>
        (if !skip && isTrue flag then exclusion alias? else .ok []).map (cs ++ ·) := by
  unfold conditions
  generalize input.values.mapM (memberConditions columns input) = fields
  cases fields with
  | error e => rfl
  | ok fields =>
    by_cases hd : (!skip && isTrue flag) = true
    · rw [hd]
      cases exclusion alias? <;> rfl
    · rw [Bool.eq_false_iff.mpr hd]
      rfl

theorem conditions_eq_ok {columns : List (Text × Text)} {input : Input} {flag : Text} {skip : Bool} {alias? : Option Text}
    {F : List Text} (h : conditions columns input flag skip alias? = .ok F) :
    ∃ fields deletion, input.values.mapM (memberConditions columns input) = .ok fields ∧ F = fields.flatten ++ deletion ∧
      (if !skip && isTrue flag then exclusion alias? else .ok []) = .ok deletion := by
  rw [conditions_eq] at h
  cases hm : input.values.mapM (memberConditions columns input) with
  | error e =>
    rw [hm] at h
    cases h
  | ok fields =>
    rw [hm] at h
    obtain ⟨deletion, hd, rfl⟩ := exists_of_map h
    exact ⟨fields, deletion, rfl, rfl, hd⟩

theorem exclusion_eq_ok {alias? : Option Text} {F : List Text} (h : exclusion alias? = .ok F) :
    ∃ table, alias? = some table ∧ F = [table ++ ".deleted_at IS NULL".toList] := by
  cases alias? with
  | none => cases h
  | some table => exact ⟨table, rfl, (Except.ok.inj h).symm⟩

/-- Without values, the exclusion is the only condition there can be. -/
theorem predicate_conditions {columns : List (Text × Text)} {input : Input} {flag : Text} {skip : Bool} {alias? : Option Text}
    {F : List Text} (hv : input.values = []) (ha : ∀ a, alias? = some a → ∀ c ∈ a, isNameChar c = true)
    (h : conditions columns input flag skip alias? = .ok F) : ∀ c ∈ F, Predicate c := by
  obtain ⟨fields, deletion, hf, rfl, hd⟩ := conditions_eq_ok h
  rw [hv] at hf
  cases hf
  split at hd
  · obtain ⟨table, ht, rfl⟩ := exclusion_eq_ok hd
    intro c hc
    obtain rfl : c = table ++ ".deleted_at IS NULL".toList := by simpa using hc
    exact predicate_exclusion (ha table ht)
  · cases hd
    intro c hc
    cases hc

end ExportQuery.Filter

namespace ExportQuery.Sql

open ExportQuery.Text

/-! ## Names read off a query -/

theorem isWord_of_word? {s w : Text} (h : word? s = some w) : ∀ c ∈ w, isWord c = true := by
  unfold word? at h
  split at h
  · simp only [Option.some.injEq] at h
    rw [← h]
    exact takeWord_word s
  · cases h

theorem isWord_of_aliasAfter? {s w : Text} (h : aliasAfter? s = some w) : ∀ c ∈ w, isWord c = true := by
  obtain ⟨r, -, h⟩ := Option.bind_eq_some_iff.mp h
  rcases Option.or_eq_some_iff.mp h with h | ⟨-, h⟩
  · obtain ⟨r', -, h⟩ := Option.bind_eq_some_iff.mp h
    exact isWord_of_word? h
  · exact isWord_of_word? h

theorem isNameChar_of_tableAt? {read left table after : Text} (h : tableAt? read left = some (table, after)) :
    ∀ c ∈ table, isNameChar c = true := by
  unfold tableAt? at h
  split at h
  · cases h
  obtain ⟨s, -, h⟩ := Option.bind_eq_some_iff.mp h
  split at h
  · cases h
  simp only [Option.some.injEq, Prod.mk.injEq] at h
  rw [← h.1]
  exact List.all_eq_true.mp List.all_takeWhile

theorem isNameChar_of_outerAlias? {s a : Text} (h : outerAlias? s = some a) : ∀ c ∈ a, isNameChar c = true := by
  obtain ⟨⟨table, after⟩, ht, rfl⟩ := Option.map_eq_some_iff.mp h
  obtain ⟨⟨_, rest⟩, -, ht⟩ := Option.bind_eq_some_iff.mp ht
  obtain ⟨_, _, ht⟩ := exists_of_seekSome ht
  intro c hc
  cases hal : (aliasAfter? after).filter (!isNonAlias ·) with
  | none =>
    simp only [hal] at hc
    exact isNameChar_of_tableAt? ht c hc
  | some w =>
    simp only [hal] at hc
    have hw := (Option.filter_eq_some_iff.mp hal).1
    exact isNameChar_iff.mpr (Or.inl (isWord_of_aliasAfter? hw c hc))

theorem isWord_of_submissionAlias? {s a : Text} (h : submissionAlias? s = some a) : ∀ c ∈ a, isWord c = true := by
  rcases Option.or_eq_some_iff.mp h with h | ⟨-, h⟩
  · obtain ⟨u, v, h⟩ := exists_of_seekSome h
    unfold submissionTableAt? at h
    split at h
    · cases h
    obtain ⟨_, -, h⟩ := Option.bind_eq_some_iff.mp (Option.filter_eq_some_iff.mp h).1
    exact isWord_of_aliasAfter? h
  · obtain ⟨u, v, h⟩ := exists_of_seekSome h
    unfold submissionColumnAt? at h
    split at h
    · cases h
    obtain ⟨w, hw, h⟩ := Option.bind_eq_some_iff.mp h
    obtain ⟨_, -, rfl⟩ := Option.map_eq_some_iff.mp h
    exact isWord_of_word? hw

end ExportQuery.Sql

namespace ExportQuery.Assembler

open ExportQuery.Text ExportQuery.Sql ExportQuery.Period

/-- A condition is written with the alias of the outer table, or with that of the submissions. -/
theorem periodSql_cases {a : Assembler} {s condition sql : Text} {outer : Outer} {criterion : Criterion}
    (h : a.periodSql s outer condition criterion = .ok sql) :
    ∃ table,
      (sql = Period.loginCondition a.today condition table ∨
        sql = columnCondition a.today condition criterion.column table) ∧
      (criterion.aliasSource = .outerTable ∧ outerAlias? outer.head = some table ∨
        criterion.aliasSource = .submissions ∧ table = (submissionAlias? s).getD a.options.submissionFallback) := by
  unfold periodSql at h
  split at h
  · rename_i hsource
    split at h
    · cases h
    rename_i table ht
    refine ⟨table, ?_, Or.inl ⟨hsource, ht⟩⟩
    cases h
    split
    · exact Or.inl rfl
    · exact Or.inr rfl
  · rename_i hsource
    cases h
    exact ⟨_, Or.inr rfl, Or.inr ⟨hsource, rfl⟩⟩

/-- What the period pass merges, when it merges something. -/
theorem predicate_periodSql {a : Assembler} {s condition sql : Text} {outer : Outer} {criterion : Criterion}
    (hf : ∀ c ∈ a.options.submissionFallback, isWord c = true) (h : a.periodSql s outer condition criterion = .ok sql) :
    sql = [] ∨ ∃ p, sql = ' ' :: p ∧ Predicate p := by
  obtain ⟨table, hsql, hfrom⟩ := periodSql_cases h
  have htable : ∀ c ∈ table, isNameChar c = true := by
    rcases hfrom with ⟨-, ht⟩ | ⟨-, rfl⟩
    · exact isNameChar_of_outerAlias? ht
    · intro c hc
      apply isNameChar_iff.mpr
      cases hs : submissionAlias? s with
      | none =>
        rw [hs] at hc
        exact Or.inl (hf c hc)
      | some w =>
        rw [hs] at hc
        exact Or.inl (isWord_of_submissionAlias? hs c hc)
  rcases hsql with rfl | rfl
  · exact predicate_loginCondition htable
  · exact predicate_columnCondition htable criterion.isNameChar_column

end ExportQuery.Assembler
