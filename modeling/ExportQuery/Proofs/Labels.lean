/-
  ExportQuery.Proofs.Labels — labels do not depend on text without double quotes behind them.

  Each of the three shapes of a labelled projection ends with the double quote that closes its
  label. What was read off a text up to there is read off any other text that goes on otherwise
  behind the quote, and where no quote follows nothing more is read. CASE and END need one
  character more than they have, to end; the FROM marker has enough of them.

  - `label?_eq_some_iff`: what a label looks like.
  - `plainAt?_eq_some_iff` / `dateAt?_eq_some_iff`: what a labelled column and a labelled date
    look like.
  - `Quoted`: matchers that see no more than the text through a double quote.
  - `columns_congr`: the labels of a query are those of its text through the FROM marker.
-/

import ExportQuery.Proofs.Edit
import ExportQuery.Proofs.Reading
import ExportQuery.Sql.Projection
import ExportQuery.Sql.Where

namespace ExportQuery.Sql

open ExportQuery.Text

/-! ## Pieces of projections -/

theorem trimStart_blank_append {w y : Text} (hw : allBlank w = true) (hy : trimStart y = y) : trimStart (w ++ y) = y :=
  (trimStart_blanks_append hw y).trans hy

theorem untilQuote?_eq_some_iff {q : Char} {s a r : Text} :
    untilQuote? q s = some (a, r) ↔ s = a ++ q :: r ∧ q ∉ a := by
  have hsplit := List.takeWhile_append_dropWhile (p := fun c => decide (c ≠ q)) (l := s)
  unfold untilQuote?
  constructor
  · intro h
    split at h
    · rename_i c rest hd
      simp only [Option.some.injEq, Prod.mk.injEq] at h
      obtain ⟨rfl, rfl⟩ := h
      have hc : c = q := by
        have := List.head?_dropWhile_not (fun c => decide (c ≠ q)) s
        rw [hd] at this
        simpa using this
      rw [hd, hc] at hsplit
      refine ⟨hsplit.symm, fun hm => ?_⟩
      have := List.all_eq_true.mp (List.all_takeWhile (p := fun c => decide (c ≠ q)) (l := s)) q hm
      simp at this
    · cases h
  · rintro ⟨rfl, hq⟩
    have ha : ∀ c ∈ a, decide (c ≠ q) = true := by
      intro c hc
      simp only [decide_eq_true_eq]
      rintro rfl
      exact hq hc
    rw [List.dropWhile_append_of_pos ha, List.takeWhile_append_of_pos ha]
    simp

theorem not_isWord_quote : isWord '\'' = false := by decide

theorem not_isWord_doubleQuote : isWord '"' = false := by decide

theorem not_isWord_dot : isWord '.' = false := by decide

/-- A spelling starts in a case of the first letter. -/
theorem Spells.head {k : Text} (u : Char) (word : Text) (h : Spells (u :: word) k) :
    ∃ c t, k = c :: t ∧ sameLetter u c = true := by
  cases h with
  | @cons _ c _ t hc _ => exact ⟨c, t, rfl, hc⟩

/-- AS between blanks. -/
def IsAs (t : Text) : Prop :=
  ∃ w k v, w ≠ [] ∧ allBlank w = true ∧ Spells "AS".toList k ∧ v ≠ [] ∧ allBlank v = true ∧ t = w ++ (k ++ v)

theorem IsAs.starts {t : Text} (h : IsAs t) (y : Text) : startsInWord (t ++ y) = false := by
  obtain ⟨w, k, v, h0, hw, -, -, -, rfl⟩ := h
  rw [List.append_assoc]
  exact startsInWord_blank hw h0 _

/-- A label: AS between blanks, and a text in double quotes. -/
theorem label?_eq_some_iff {s l r : Text} :
    label? s = some (l, r) ↔ ∃ t, IsAs t ∧ l ≠ [] ∧ '"' ∉ l ∧ s = t ++ '"' :: (l ++ '"' :: r) := by
  constructor
  · intro h
    unfold label? at h
    obtain ⟨s₄, h, hl⟩ := Option.bind_eq_some_iff.mp h
    obtain ⟨s₃, h, h₄⟩ := Option.bind_eq_some_iff.mp h
    obtain ⟨s₂, h, h₃⟩ := Option.bind_eq_some_iff.mp h
    obtain ⟨s₁, h₁, h₂⟩ := Option.bind_eq_some_iff.mp h
    obtain ⟨w, hw0, hw, rfl, -⟩ := dropBlanks?_eq_some_iff.mp h₁
    obtain ⟨k, hk, rfl⟩ := dropWord?_eq_some_iff.mp h₂
    obtain ⟨v, hv0, hv, rfl, -⟩ := dropBlanks?_eq_some_iff.mp h₃
    obtain rfl := eq_of_dropStart? h₄
    obtain ⟨hq, hne⟩ := Option.filter_eq_some_iff.mp hl
    obtain ⟨rfl, hm⟩ := untilQuote?_eq_some_iff.mp hq
    exact ⟨w ++ (k ++ v), ⟨w, k, v, hw0, hw, hk, hv0, hv, rfl⟩, by simpa using hne, hm, by simp⟩
  · intro h
    obtain ⟨_, ⟨w, k, v, hw0, hw, hk, hv0, hv, rfl⟩, hl0, hl, rfl⟩ := h
    rw [List.append_assoc, List.append_assoc]
    unfold label?
    refine Option.bind_eq_some_iff.mpr ⟨l ++ '"' :: r, ?_, ?_⟩
    · refine Option.bind_eq_some_iff.mpr ⟨'"' :: (l ++ '"' :: r), ?_, dropStart?_append ['"'] _⟩
      refine Option.bind_eq_some_iff.mpr ⟨v ++ '"' :: (l ++ '"' :: r), ?_, ?_⟩
      · refine Option.bind_eq_some_iff.mpr ⟨k ++ (v ++ '"' :: (l ++ '"' :: r)), ?_, dropWord?_eq_some_iff.mpr ⟨k, hk, rfl⟩⟩
        exact dropBlanks?_eq_some_iff.mpr ⟨w, hw0, hw, rfl, trimStart_of_starts (hk.starts asWord) _⟩
      · exact dropBlanks?_eq_some_iff.mpr ⟨v, hv0, hv, rfl, trimStart_cons_ink _ '"' (by decide)⟩
    · exact Option.filter_eq_some_iff.mpr ⟨untilQuote?_eq_some_iff.mpr ⟨rfl, hl⟩, by simpa using hl0⟩

/-- A label ends with a double quote, and nothing behind it counts. -/
theorem label?_local {s l r : Text} (h : label? s = some (l, r)) :
    ∃ c, s = c ++ '"' :: r ∧ ∀ t, label? (c ++ '"' :: t) = some (l, t) := by
  obtain ⟨t, ht, hl0, hl, rfl⟩ := label?_eq_some_iff.mp h
  exact ⟨t ++ '"' :: l, by simp, fun r' => label?_eq_some_iff.mpr ⟨t, ht, hl0, hl, by simp⟩⟩

theorem word?_eq_some_iff {s a r : Text} :
    (word? s = some a ∧ (takeWord s).2 = r) ↔ s = a ++ r ∧ a ≠ [] ∧ (∀ c ∈ a, isWord c = true) ∧ startsInWord r = false := by
  constructor
  · rintro ⟨h, rfl⟩
    unfold word? at h
    split at h
    · rename_i hs
      simp only [Option.some.injEq] at h
      subst h
      refine ⟨(takeWord_append s).symm, ?_, takeWord_word s, takeWord_rest s⟩
      cases s with
      | nil => cases hs
      | cons c s =>
        have hc : isWord c = true := hs
        simp [takeWord, hc]
    · cases h
  · rintro ⟨rfl, h0, ha, hr⟩
    obtain ⟨h₁, h₂⟩ := span_append ha (startsInWord_eq_false_iff.mp hr)
    cases a with
    | nil => exact absurd rfl h0
    | cons c a =>
      have hs : startsInWord (c :: a ++ r) = true := ha c (by simp)
      exact ⟨by rw [word?, if_pos hs, takeWord, h₁], h₂⟩

/-- Two words with a dot between them. -/
def IsColumn (c : Text) : Prop :=
  ∃ a b, c = a ++ '.' :: b ∧ a ≠ [] ∧ b ≠ [] ∧ (∀ d ∈ a, isWord d = true) ∧ ∀ d ∈ b, isWord d = true

theorem IsColumn.starts {c : Text} (h : IsColumn c) : ∃ d t, c = d :: t ∧ isWord d = true := by
  obtain ⟨a, b, rfl, ha0, -, ha, -⟩ := h
  cases a with
  | nil => exact absurd rfl ha0
  | cons d a => exact ⟨d, a ++ '.' :: b, rfl, ha d (by simp)⟩

/-- A qualified column ends where its word does. -/
theorem column?_eq_some_iff {s column r : Text} :
    column? s = some (column, r) ↔ IsColumn column ∧ s = column ++ r ∧ startsInWord r = false := by
  constructor
  · intro h
    obtain ⟨a, ha, h⟩ := Option.bind_eq_some_iff.mp h
    obtain ⟨s₁, h₁, h⟩ := Option.bind_eq_some_iff.mp h
    obtain ⟨b, hb, h⟩ := Option.map_eq_some_iff.mp h
    simp only [Prod.mk.injEq] at h
    obtain ⟨rfl, hr⟩ := h
    obtain ⟨rfl, ha0, haw, -⟩ := word?_eq_some_iff.mp ⟨ha, eq_of_dropStart? h₁⟩
    obtain ⟨rfl, hb0, hbw, hr⟩ := word?_eq_some_iff.mp ⟨hb, hr⟩
    exact ⟨⟨a, b, rfl, ha0, hb0, haw, hbw⟩, by simp, hr⟩
  · intro h
    obtain ⟨⟨a, b, rfl, ha0, hb0, ha, hb⟩, rfl, hr⟩ := h
    obtain ⟨h₁, h₂⟩ := word?_eq_some_iff.mpr ⟨rfl, hb0, hb, hr⟩
    obtain ⟨h₃, h₄⟩ := word?_eq_some_iff.mpr ⟨show a ++ '.' :: b ++ r = a ++ ('.' :: (b ++ r)) by simp, ha0, ha, rfl⟩
    unfold column?
    have hdot : dropStart? ['.'] ('.' :: (b ++ r)) = some (b ++ r) := dropStart?_append ['.'] (b ++ r)
    rw [h₃]
    simp only [Option.bind_some, h₄, hdot, h₁, h₂, Option.map_some]

/-- A text in single or double quotes. -/
def IsFormat (f : Text) : Prop := ∃ q g, (q = '\'' ∨ q = '"') ∧ q ∉ g ∧ f = q :: (g ++ [q])

theorem dropFormat?_eq_some_iff {s r : Text} : dropFormat? s = some r ↔ ∃ f, IsFormat f ∧ s = f ++ r := by
  have quoted : ∀ (q : Char) (s : Text), (untilQuote? q s).map (·.2) = some r ↔ ∃ g, q ∉ g ∧ s = g ++ q :: r := by
    intro q s
    rw [Option.map_eq_some_iff]
    constructor
    · intro h
      obtain ⟨⟨g, _⟩, h, rfl⟩ := h
      obtain ⟨e, hq⟩ := untilQuote?_eq_some_iff.mp h
      exact ⟨g, hq, e⟩
    · intro h
      obtain ⟨g, hq, e⟩ := h
      exact ⟨(g, r), untilQuote?_eq_some_iff.mpr ⟨e, hq⟩, rfl⟩
  constructor
  · intro h
    unfold dropFormat? at h
    split at h
    · obtain ⟨g, hq, rfl⟩ := (quoted _ _).mp h
      exact ⟨'\'' :: (g ++ ['\'']), ⟨'\'', g, Or.inl rfl, hq, rfl⟩, by simp⟩
    · obtain ⟨g, hq, rfl⟩ := (quoted _ _).mp h
      exact ⟨'"' :: (g ++ ['"']), ⟨'"', g, Or.inr rfl, hq, rfl⟩, by simp⟩
    · cases h
  · intro h
    obtain ⟨_, ⟨q, g, rfl | rfl, hq, rfl⟩, rfl⟩ := h
    · exact (quoted _ _).mpr ⟨g, hq, by simp⟩
    · exact (quoted _ _).mpr ⟨g, hq, by simp⟩

theorem IsFormat.trimStart {f : Text} (h : IsFormat f) (r : Text) : trimStart (f ++ r) = f ++ r := by
  obtain ⟨q, g, hq, -, rfl⟩ := h
  have hb : isBlank q = false := by
    rcases hq with rfl | rfl
    · decide
    · decide
  exact trimStart_cons_ink _ q hb

/-- A call that formats the date in column `c`. -/
def IsDate (d c : Text) : Prop :=
  ∃ k b₁ b₂ b₃ f b₄, Spells "DATE_FORMAT(".toList k ∧ allBlank b₁ = true ∧ IsColumn c ∧ allBlank b₂ = true ∧
    allBlank b₃ = true ∧ IsFormat f ∧ allBlank b₄ = true ∧
      d = k ++ (b₁ ++ (c ++ (b₂ ++ ',' :: (b₃ ++ (f ++ (b₄ ++ [')']))))))

/-! ## Columns and dates -/

theorem plainAt?_eq_some_iff {x left l c r : Text} :
    plainAt? x.reverse left = some ((l, c), r) ↔ EndsApart x ∧ IsColumn c ∧
      ∃ t, IsAs t ∧ l ≠ [] ∧ '"' ∉ l ∧ left = c ++ (t ++ '"' :: (l ++ '"' :: r)) := by
  unfold plainAt?
  constructor
  · intro h
    split at h
    · cases h
    rename_i hx
    obtain ⟨⟨column, s⟩, hc, h⟩ := Option.bind_eq_some_iff.mp h
    obtain ⟨⟨label, s'⟩, hl, h⟩ := Option.map_eq_some_iff.mp h
    simp only [Prod.mk.injEq] at h
    obtain ⟨⟨rfl, rfl⟩, rfl⟩ := h
    obtain ⟨hcol, rfl, -⟩ := column?_eq_some_iff.mp hc
    obtain ⟨t, ht, hl0, hq, rfl⟩ := label?_eq_some_iff.mp hl
    exact ⟨startsInWord_reverse.mp (by simpa using hx), hcol, t, ht, hl0, hq, rfl⟩
  · intro h
    obtain ⟨hx, hcol, t, ht, hl0, hl, rfl⟩ := h
    rw [startsInWord_reverse.mpr hx, column?_eq_some_iff.mpr ⟨hcol, rfl, ht.starts _⟩]
    simp [label?_eq_some_iff.mpr ⟨t, ht, hl0, hl, rfl⟩]

theorem dateAt?_eq_some_iff {x left l c r : Text} :
    dateAt? x.reverse left = some ((l, c), r) ↔ EndsApart x ∧
      ∃ d, IsDate d c ∧ ∃ t, IsAs t ∧ l ≠ [] ∧ '"' ∉ l ∧ left = d ++ (t ++ '"' :: (l ++ '"' :: r)) := by
  unfold dateAt?
  constructor
  · intro h
    split at h
    · cases h
    rename_i hx
    obtain ⟨s₁, h₁, h⟩ := Option.bind_eq_some_iff.mp h
    obtain ⟨⟨column, s₂⟩, hc, h⟩ := Option.bind_eq_some_iff.mp h
    obtain ⟨s₄, h₄, h⟩ := Option.bind_eq_some_iff.mp h
    obtain ⟨s₃, h₃, hf⟩ := Option.bind_eq_some_iff.mp h₄
    obtain ⟨⟨label, s₆⟩, h₆, h⟩ := Option.map_eq_some_iff.mp h
    obtain ⟨s₅, h₅, hl⟩ := Option.bind_eq_some_iff.mp h₆
    simp only [Prod.mk.injEq] at h
    obtain ⟨⟨rfl, rfl⟩, rfl⟩ := h
    -- what each reader takes, the blanks between them included
    obtain ⟨k, hk, rfl⟩ := dropWord?_eq_some_iff.mp h₁
    obtain ⟨b₁, e₁, hb₁⟩ := trimStart_joins s₁
    obtain ⟨hcol, ec, -⟩ := column?_eq_some_iff.mp hc
    obtain ⟨b₂, e₂, hb₂⟩ := trimStart_joins s₂
    have e₃ := eq_of_dropStart? h₃
    obtain ⟨b₃, e₄, hb₃⟩ := trimStart_joins s₃
    obtain ⟨f, hform, ef⟩ := dropFormat?_eq_some_iff.mp hf
    obtain ⟨b₄, e₅, hb₄⟩ := trimStart_joins s₄
    have e₆ := eq_of_dropStart? h₅
    obtain ⟨t, ht, hl0, hq, rfl⟩ := label?_eq_some_iff.mp hl
    refine ⟨startsInWord_reverse.mp (by simpa using hx), _, ⟨k, b₁, b₂, b₃, f, b₄, hk, hb₁, hcol, hb₂, hb₃, hform, hb₄, rfl⟩,
      t, ht, hl0, hq, ?_⟩
    rw [e₁, ec, e₂, e₃, e₄, ef, e₅, e₆]
    simp
  · intro h
    obtain ⟨hx, _, ⟨k, b₁, b₂, b₃, f, b₄, hk, hb₁, hcol, hb₂, hb₃, hform, hb₄, rfl⟩, t, ht, hl0, hl, rfl⟩ := h
    have e : ∀ y, k ++ (b₁ ++ (c ++ (b₂ ++ ',' :: (b₃ ++ (f ++ (b₄ ++ [')'])))))) ++ y =
        k ++ (b₁ ++ (c ++ (b₂ ++ ([','] ++ (b₃ ++ (f ++ (b₄ ++ ([')'] ++ y)))))))) := fun y => by simp
    have hcomma : ∀ y, trimStart ([','] ++ y) = [','] ++ y := fun y => trimStart_cons_ink y ',' (by decide)
    have hparen : ∀ y, trimStart ([')'] ++ y) = [')'] ++ y := fun y => trimStart_cons_ink y ')' (by decide)
    have hstart : ∀ y, startsInWord (b₂ ++ ([','] ++ y)) = false := by
      intro y
      cases b₂ with
      | nil => rfl
      | cons d b₂ => exact startsInWord_blank hb₂ (by simp) _
    rw [startsInWord_reverse.mpr hx, e, dropWord?_eq_some_iff.mpr ⟨k, hk, rfl⟩]
    simp only [Bool.false_eq_true, if_false, Option.bind_some, trimStart_blank_append hb₁ (trimStart_of_starts hcol.starts _),
      column?_eq_some_iff.mpr ⟨hcol, rfl, hstart _⟩, trimStart_blank_append hb₂ (hcomma _), dropStart?_append,
      trimStart_blank_append hb₃ (hform.trimStart _), dropFormat?_eq_some_iff.mpr ⟨f, hform, rfl⟩,
      trimStart_blank_append hb₄ (hparen _), label?_eq_some_iff.mpr ⟨t, ht, hl0, hl, rfl⟩, Option.map_some]

/-! ## Matchers that end with a double quote -/

/-- What the matcher finds ends with a double quote, and nothing behind it counts. -/
def Quoted {α : Type} (m : Text → Text → Option (α × Text)) : Prop :=
  ∀ read left a r, m read left = some (a, r) → ∃ c, left = c ++ '"' :: r ∧ ∀ t, m read (c ++ '"' :: t) = some (a, t)

theorem quoted_plainAt? : Quoted plainAt? := by
  intro read left x r h
  rw [← List.reverse_reverse read] at h ⊢
  obtain ⟨hx, hcol, t, ht, hl0, hl, rfl⟩ := plainAt?_eq_some_iff.mp h
  exact ⟨x.2 ++ (t ++ '"' :: x.1), by simp, fun r' =>
    plainAt?_eq_some_iff.mpr ⟨hx, hcol, t, ht, hl0, hl, by simp⟩⟩

theorem quoted_dateAt? : Quoted dateAt? := by
  intro read left x r h
  rw [← List.reverse_reverse read] at h ⊢
  obtain ⟨hx, d, hd, t, ht, hl0, hl, rfl⟩ := dateAt?_eq_some_iff.mp h
  exact ⟨d ++ (t ++ '"' :: x.1), by simp, fun r' =>
    dateAt?_eq_some_iff.mpr ⟨hx, d, hd, t, ht, hl0, hl, by simp⟩⟩

section

variable {x y : Text}

/-- A double quote before the end of a text stands in the part that has one. -/
theorem quote_left {c r u : Text} (hx : '"' ∉ x) (e : c ++ '"' :: r = u ++ x) :
    ∃ v, u = c ++ '"' :: v ∧ r = v ++ x := by
  rcases List.append_eq_append_iff.mp e with ⟨v, rfl, hv⟩ | ⟨v, -, hv⟩
  · cases v with
    | nil => exact absurd (by rw [List.nil_append] at hv; rw [← hv]; simp) hx
    | cons d v =>
      simp only [List.cons_append, List.cons.injEq] at hv
      exact ⟨v, by rw [hv.1], hv.2⟩
  · exact absurd (by rw [hv]; simp) hx

/-- What is found in a text does not depend on text without double quotes behind it. -/
theorem Quoted.transfer {α : Type} {m : Text → Text → Option (α × Text)} (hm : Quoted m) (hx : '"' ∉ x) (read : Text)
    {u r : Text} {a : α} (h : m read (u ++ x) = some (a, r)) :
    ∃ v, v.length < u.length ∧ r = v ++ x ∧ ∀ y, m read (u ++ y) = some (a, v ++ y) := by
  obtain ⟨c, e, ht⟩ := hm _ _ _ _ h
  obtain ⟨v, rfl, rfl⟩ := quote_left hx e.symm
  refine ⟨v, by simp only [List.length_append, List.length_cons]; omega, rfl, fun y => ?_⟩
  have := ht (v ++ y)
  simpa using this

theorem Quoted.scan_nil {α : Type} {m : Text → Text → Option (α × Text)} (hm : Quoted m) (hx : '"' ∉ x) (read : Text) :
    scan m 0 read x = [] := by
  induction x generalizing read with
  | nil => rfl
  | cons c x ih =>
    have hn : m read (c :: x) = none := by
      cases h : m read (c :: x) with
      | none => rfl
      | some ar =>
        obtain ⟨v, hv, -⟩ := hm.transfer (u := []) hx read h
        cases hv
    simp only [scan, hn]
    exact ih (fun h => hx (by simp [h])) (c :: read)

theorem Quoted.scan_congr {α : Type} {m : Text → Text → Option (α × Text)} (hm : Quoted m) (hx : '"' ∉ x) (hy : '"' ∉ y)
    {u read : Text} {k : Nat} (hk : k ≤ u.length) : scan m k read (u ++ x) = scan m k read (u ++ y) := by
  induction u generalizing k read with
  | nil =>
    obtain rfl : k = 0 := by simpa using hk
    rw [List.nil_append, List.nil_append, hm.scan_nil hx, hm.scan_nil hy]
  | cons c u ih =>
    cases k with
    | succ k =>
      simp only [List.cons_append, scan]
      exact ih (by simpa using hk)
    | zero =>
      cases h : m read (c :: (u ++ x)) with
      | some ar =>
        obtain ⟨a, r⟩ := ar
        obtain ⟨v, hv, rfl, ht⟩ := hm.transfer (u := c :: u) hx read h
        have h' : m read (c :: (u ++ y)) = some (a, v ++ y) := ht y
        simp only [List.cons_append, scan, h, h', List.length_append, Nat.add_sub_add_right]
        rw [ih (by omega)]
      | none =>
        have h' : m read (c :: (u ++ y)) = none := by
          cases h' : m read (c :: (u ++ y)) with
          | none => rfl
          | some ar =>
            obtain ⟨v, -, -, ht⟩ := hm.transfer (u := c :: u) hy read h'
            have := ht x
            rw [List.cons_append, h] at this; cases this
        simp only [List.cons_append, scan, h, h']
        exact ih (Nat.zero_le _)

/-! ## CASE expressions -/

theorem label?_congr (hx : '"' ∉ x) (hy : '"' ∉ y) (u : Text) :
    (label? (u ++ x)).map (·.1) = (label? (u ++ y)).map (·.1) := by
  have hm : Quoted fun _ s => label? s := fun _ _ _ _ h => label?_local h
  cases h : label? (u ++ x) with
  | some lr =>
    obtain ⟨v, -, -, ht⟩ := hm.transfer hx [] h
    rw [ht y]; rfl
  | none =>
    cases h' : label? (u ++ y) with
    | none => rfl
    | some lr =>
      obtain ⟨v, -, -, ht⟩ := hm.transfer hy [] h'
      rw [ht x] at h; cases h

theorem dropWord?_append {word s : Text} (hl : word.length ≤ s.length) (x : Text) :
    dropWord? word (s ++ x) = (dropWord? word s).map (· ++ x) := by
  induction word generalizing s with
  | nil => simp [dropWord?]
  | cons k word ih =>
    cases s with
    | nil => simp at hl
    | cons c s =>
      simp only [List.cons_append, dropWord?]
      split
      · exact ih (by simpa using hl)
      · rfl

/-- A keyword is read off a text that is longer, whatever follows. -/
theorem caseWord?_append {s : Text} (hl : 4 < s.length) (read x : Text) :
    caseWord? read (s ++ x) = (caseWord? read s).map fun (opening, rest) => (opening, rest ++ x) := by
  have hdrop : (dropWord? "CASE".toList (s ++ x)).or (dropWord? "END".toList (s ++ x)) =
      ((dropWord? "CASE".toList s).or (dropWord? "END".toList s)).map (· ++ x) := by
    rw [dropWord?_append (by simp; omega), dropWord?_append (by simp; omega)]
    cases dropWord? "CASE".toList s <;> rfl
  unfold caseWord?
  split
  · rfl
  rw [hdrop]
  cases h : (dropWord? "CASE".toList s).or (dropWord? "END".toList s) with
  | none => rfl
  | some rest =>
    have hcase : "CASE".toList.length = 4 := rfl
    have hend : "END".toList.length = 3 := rfl
    have hlen : rest.length < s.length ∧ 0 < rest.length := by
      rcases Option.or_eq_some_iff.mp h with h | ⟨-, h⟩
      · have := dropWord?_length h
        omega
      · have := dropWord?_length h
        omega
    have hs : startsInWord (rest ++ x) = startsInWord rest := by
      have := Division.startsInWord_append (List.length_pos_iff.mp hlen.2) x []
      rwa [List.append_nil] at this
    have htake : (s ++ x).take ((s ++ x).length - (rest ++ x).length) = s.take (s.length - rest.length) := by
      rw [List.length_append, List.length_append, Nat.add_sub_add_right, List.take_append_of_le_length (by omega)]
    simp only [Option.map_some]
    cases hr : startsInWord rest with
    | true => simp only [Option.filter, hs, hr, Bool.not_true, Bool.false_eq_true, if_false, Option.map_none]
    | false => simp only [Option.filter, hs, hr, Bool.not_false, if_true, Option.map_some, htake]

theorem caseWord?_suffix {read left rest : Text} {opening : Bool} (h : caseWord? read left = some (opening, rest)) :
    rest <:+ left := by
  unfold caseWord? at h
  split at h
  · cases h
  obtain ⟨r, hr, h⟩ := Option.map_eq_some_iff.mp h
  simp only [Prod.mk.injEq] at h
  obtain ⟨-, rfl⟩ := h
  rcases Option.or_eq_some_iff.mp (Option.filter_eq_some_iff.mp hr).1 with h | ⟨-, h⟩
  · obtain ⟨k, -, rfl⟩ := dropWord?_eq_some_iff.mp h
    exact ⟨k, rfl⟩
  · obtain ⟨k, -, rfl⟩ := dropWord?_eq_some_iff.mp h
    exact ⟨k, rfl⟩

theorem label?_eq_none (hx : '"' ∉ x) : label? x = none := by
  cases h : label? x with
  | none => rfl
  | some lr =>
    obtain ⟨c, e, -⟩ := label?_local h
    exact absurd (by rw [e]; simp) hx

theorem casesFrom_eq_nil (hx : '"' ∉ x) (depth start : Nat) (read : Text) : casesFrom depth start read x = [] := by
  induction x generalizing depth start read with
  | nil => rfl
  | cons c x ih =>
    have ih := fun depth start => ih (fun h => hx (by simp [h])) depth start (c :: read)
    unfold casesFrom
    split
    · exact ih depth start
    · rename_i opening rest hc
      have hn : label? rest = none := label?_eq_none fun h => hx ((caseWord?_suffix hc).subset h)
      simp only [ih, hn]
      simp

theorem casesFrom_step {read left : Text} {c : Char} (h : caseWord? read (c :: left) = none) (depth start : Nat) :
    casesFrom depth start read (c :: left) = casesFrom depth start (c :: read) left := by
  rw [casesFrom, h]

theorem caseWord?_other {c : Char} (hc : sameLetter 'C' c = false) (he : sameLetter 'E' c = false) (read left : Text) :
    caseWord? read (c :: left) = none := by
  have h₁ : dropWord? "CASE".toList (c :: left) = none := by
    show (if sameLetter 'C' c then _ else none) = none
    rw [hc]; rfl
  have h₂ : dropWord? "END".toList (c :: left) = none := by
    show (if sameLetter 'E' c then _ else none) = none
    rw [he]; rfl
  unfold caseWord?
  rw [h₁, h₂]
  split <;> rfl

/-- Neither keyword starts in the FROM marker. -/
theorem casesFrom_marker (hx : '"' ∉ x) (depth start : Nat) (read : Text) :
    casesFrom depth start read (fromMarker ++ x) = [] := by
  have hm : fromMarker = "-- FROM ".toList ++ 'c' :: 'l' :: ("aus".toList ++ ['e']) := by decide
  have other : ∀ (s left read : Text), (s.all fun c => !sameLetter 'C' c && !sameLetter 'E' c) = true →
      casesFrom depth start read (s ++ left) = casesFrom depth start (s.reverse ++ read) left := by
    intro s left read hs
    induction s generalizing read with
    | nil => rfl
    | cons c s ih =>
      simp only [List.all_cons, Bool.and_eq_true, Bool.not_eq_true'] at hs
      rw [List.cons_append, casesFrom_step (caseWord?_other hs.1.1 hs.1.2 _ _), ih _ (by simpa using hs.2)]
      simp
  have hclause : ∀ read left, caseWord? read ('c' :: 'l' :: left) = none := by
    intro read left
    unfold caseWord?
    split <;> rfl
  have hlast : ∀ read left, caseWord? ("aus".toList.reverse ++ read) ('e' :: left) = none := fun _ _ => rfl
  rw [hm, List.append_assoc, other _ _ _ (by decide), List.cons_append, List.cons_append, List.append_assoc]
  rw [casesFrom_step (hclause _ _), casesFrom_step (caseWord?_other rfl rfl _ _), other _ _ _ (by decide)]
  rw [List.singleton_append, casesFrom_step (hlast _ _)]
  exact casesFrom_eq_nil hx _ _ _

theorem toList_map_fst (o : Option (Text × Text)) (e : Text) :
    o.toList.map (fun p => (p.1, e)) = (o.map (·.1)).toList.map fun l => (l, e) := by
  cases o <;> rfl

theorem casesFrom_congr (hx : '"' ∉ x) (hy : '"' ∉ y) (u : Text) (depth start : Nat) (read : Text) :
    casesFrom depth start read (u ++ (fromMarker ++ x)) = casesFrom depth start read (u ++ (fromMarker ++ y)) := by
  induction u generalizing depth start read with
  | nil => rw [List.nil_append, List.nil_append, casesFrom_marker hx, casesFrom_marker hy]
  | cons c u ih =>
    have hlen : 4 < (c :: u ++ fromMarker).length := by
      have : fromMarker.length = 14 := by decide
      simp only [List.cons_append, List.length_cons, List.length_append]; omega
    have h := caseWord?_append hlen read
    simp only [List.append_assoc, List.cons_append] at h
    cases hc : caseWord? read (c :: (u ++ fromMarker)) with
    | none =>
      simp only [hc, Option.map_none] at h
      rw [List.cons_append, List.cons_append, casesFrom_step (h x), casesFrom_step (h y)]
      exact ih _ _ _
    | some found =>
      obtain ⟨opening, rest⟩ := found
      simp only [hc, Option.map_some] at h
      have hsuf := (caseWord?_suffix hc).length_le
      have htake : ∀ x : Text, (c :: (u ++ (fromMarker ++ x))).take ((u ++ (fromMarker ++ x)).length + 1 - (rest ++ x).length) =
          (c :: (u ++ fromMarker)).take ((u ++ fromMarker).length + 1 - rest.length) := by
        intro x
        have e : c :: (u ++ (fromMarker ++ x)) = c :: (u ++ fromMarker) ++ x := by simp
        have hl : (u ++ (fromMarker ++ x)).length + 1 - (rest ++ x).length = (u ++ fromMarker).length + 1 - rest.length := by
          simp only [List.length_append]; omega
        rw [e, hl, List.take_append_of_le_length (by simp only [List.length_cons]; omega)]
      have hfound : ∀ e : Text, (label? (rest ++ x)).toList.map (fun p => (p.1, e)) =
          (label? (rest ++ y)).toList.map (fun p => (p.1, e)) := by
        intro e
        rw [toList_map_fst, toList_map_fst, label?_congr hx hy]
      simp only [List.cons_append, casesFrom, h, htake, hfound, ih]

/-! ## Labels -/

/-- The labels are those of the text through the FROM marker, when no double quote follows. -/
theorem columns_congr {h : Text} (hh : fromMarker <:+ h) (hx : '"' ∉ x) (hy : '"' ∉ y) : columns (h ++ x) = columns (h ++ y) := by
  obtain ⟨u, rfl⟩ := hh
  have hc := casesFrom_congr hx hy u 0 0 []
  unfold columns labelledCases
  rw [quoted_plainAt?.scan_congr hx hy (Nat.zero_le _), quoted_dateAt?.scan_congr hx hy (Nat.zero_le _)]
  simp only [List.append_assoc] at hc ⊢
  rw [hc]

end

end ExportQuery.Sql
