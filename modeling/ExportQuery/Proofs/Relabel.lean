/-
  ExportQuery.Proofs.Relabel — the labels of a query when one of them is replaced.

  Labels are text like any other to the three searches, so a label can open an expression, close
  a literal, or be read as the beginning of a column. A label that does none of this is inert.
  Of two texts that differ in one inert label, a search finds the same, up to the label itself:
  by induction on the text ahead of the label, it finds the same there and is left with two
  texts that again differ in that label alone, or stands behind the label in both. The pairing
  of CASE and END meets the label with nothing open and goes on behind it as from the start.

  - `Inert`: labels that take part in no other projection.
  - `Swaps`: a search that reads the same with one inert label or with another one.
  - `Reader.scan_relabel`: what a search finds, with one label replaced.
  - `Projection.Proper`: projections that leave nothing open behind them.
  - `columns_relabel`: the other labels of a list of projections stand for what they stood for.
-/

import ExportQuery.Proofs.Pairing
import ExportQuery.Proofs.Search

namespace ExportQuery.Sql

open ExportQuery.Text

/-! ## Texts divided at a double quote -/

section

variable {x y w s l l' lab z v rest : Text}

/-- A label stands ahead of another one, ends where that one starts, or is that label. -/
theorem label_split (hx : '"' ∉ x) (hlab : '"' ∉ lab) (hl : '"' ∉ l)
    (e : x ++ '"' :: (lab ++ '"' :: z) = v ++ '"' :: (l ++ '"' :: rest)) :
    (∃ w, v = x ++ '"' :: (lab ++ '"' :: w) ∧ z = w ++ '"' :: (l ++ '"' :: rest)) ∨
      (v = x ++ '"' :: lab ∧ z = l ++ '"' :: rest) ∨ v = x ∧ lab = l ∧ z = rest := by
  obtain ⟨w, rfl, hw⟩ := mark_split hx e
  cases w with
  | nil =>
    simp only [List.nil_append, List.cons.injEq, true_and] at hw
    obtain ⟨h₁, h₂⟩ := mark_inj hlab hl hw
    exact Or.inr (Or.inr ⟨by simp, h₁, h₂⟩)
  | cons d w =>
    simp only [List.cons_append, List.cons.injEq] at hw
    obtain ⟨rfl, hw⟩ := hw
    obtain ⟨w', rfl, hw'⟩ := mark_split hlab hw
    cases w' with
    | nil =>
      simp only [List.nil_append, List.cons.injEq, true_and] at hw'
      exact Or.inr (Or.inl ⟨by simp, hw'⟩)
    | cons d w' =>
      simp only [List.cons_append, List.cons.injEq] at hw'
      obtain ⟨rfl, hw'⟩ := hw'
      exact Or.inl ⟨w', by simp, hw'⟩

/-- A date format stands ahead of a label, ends where it starts, or holds the label and would hold
    another one just as well. -/
theorem format_split {f : Text} (hf : IsFormat f) (hq : '\'' ∉ l) (hd : '"' ∉ l) (hq' : '\'' ∉ l') (hd' : '"' ∉ l')
    (e : f ++ y = v ++ '"' :: (l ++ '"' :: rest)) :
    (∃ w, v = f ++ w ∧ y = w ++ '"' :: (l ++ '"' :: rest)) ∨ y = l ++ '"' :: rest ∨
      ∃ g, rest = g ++ y ∧ IsFormat (v ++ '"' :: (l' ++ '"' :: g)) := by
  obtain ⟨q, b, rfl | rfl, hb, rfl⟩ := hf
  · -- a format in single quotes ends ahead of the label or behind it
    cases v with
    | nil => simp at e
    | cons d v =>
      simp only [List.cons_append, List.append_assoc, List.nil_append, List.cons.injEq] at e
      obtain ⟨rfl, e⟩ := e
      by_cases hv : '\'' ∈ v
      · obtain ⟨a, w, rfl, ha⟩ := List.eq_append_cons_of_mem hv
        rw [List.append_assoc, List.cons_append] at e
        obtain ⟨rfl, rfl⟩ := mark_inj hb ha e
        exact Or.inl ⟨w, by simp, rfl⟩
      · have hm : '\'' ∉ v ++ '"' :: (l ++ ['"']) := by simp [hv, hq]
        have e' : v ++ '"' :: (l ++ ['"']) ++ rest = b ++ '\'' :: y := by rw [e]; simp
        obtain ⟨g, rfl, rfl⟩ := mark_split hm e'
        have hg : '\'' ∉ g := fun h => hb (List.mem_append_right _ h)
        exact Or.inr (Or.inr ⟨g ++ ['\''], by simp, '\'', v ++ '"' :: (l' ++ '"' :: g), Or.inl rfl, by simp [hv, hq', hg],
          by simp⟩)
  · cases v with
    | nil =>
      simp only [List.cons_append, List.append_assoc, List.nil_append, List.cons.injEq, true_and] at e
      obtain ⟨rfl, rfl⟩ := mark_inj hb hd e
      exact Or.inr (Or.inr ⟨[], rfl, '"', l', Or.inr rfl, hd', by simp⟩)
    | cons d v =>
      simp only [List.cons_append, List.append_assoc, List.nil_append, List.cons.injEq] at e
      obtain ⟨rfl, e⟩ := e
      obtain ⟨w, rfl, hw⟩ := mark_split hb e
      cases w with
      | nil =>
        simp only [List.nil_append, List.cons.injEq, true_and] at hw
        exact Or.inr (Or.inl hw)
      | cons d w =>
        simp only [List.cons_append, List.cons.injEq] at hw
        obtain ⟨rfl, hw⟩ := hw
        exact Or.inl ⟨w, by simp, hw⟩

end

/-! ## Inert labels -/

/-- A label that takes part in no other projection: it opens no expression and no literal, it ends
    neither like a column up to its label nor like a date up to its format, and it does not go on
    like a date behind a format in double quotes. -/
structure Inert (l : Text) : Prop where
  ne_nil : l ≠ []
  noQuote : '\'' ∉ l
  noDoubleQuote : '"' ∉ l
  idle : Idle l
  column : ∀ a c t, l = a ++ (c ++ t) → EndsApart a → IsColumn c → ¬ IsAs t
  date : ∀ a h c, l = a ++ h → EndsApart a → ¬ OpensDate h c
  format : ∀ w t, l = w ++ ')' :: t → allBlank w = true → ¬ IsAs t

theorem IsColumn.dot_mem {c : Text} (h : IsColumn c) : '.' ∈ c := by
  obtain ⟨a, b, rfl, -⟩ := h
  simp

/-- A label without quotes, dots and parentheses is inert unless it holds the word CASE. -/
theorem Inert.of_not_mem {l : Text} (h0 : l ≠ []) (hq : '\'' ∉ l) (hd : '"' ∉ l) (hdot : '.' ∉ l) (hp : ')' ∉ l) (hi : Idle l) :
    Inert l where
  ne_nil := h0
  noQuote := hq
  noDoubleQuote := hd
  idle := hi
  column := by
    intro a c t e _ hc _
    exact hdot (by rw [e]; simp [hc.dot_mem])
  date := by
    intro a h c e _ hh
    obtain ⟨k, b₁, b₂, b₃, -, -, hc, -, -, rfl⟩ := hh
    exact hdot (by rw [e]; simp [hc.dot_mem])
  format := by
    intro w t e _ _
    exact hp (by rw [e]; simp)

/-! ## Searches -/

/-- What two searches find where one label is replaced by another: the same, up to that label. -/
def Renamed (l l' : Text) (p q : Text × Text) : Prop := p.2 = q.2 ∧ (p.1 = q.1 ∨ p.1 = l ∧ q.1 = l')

theorem Renamed.refl (l l' : Text) (p : Text × Text) : Renamed l l' p p := ⟨rfl, Or.inl rfl⟩

/-- What is left of two texts that differ in one label: the label is ahead, is next, or is behind. -/
inductive Left (l l' rest v : Text) : Text → Text → Prop
  | ahead {w : Text} : w.length < v.length → Left l l' rest v (w ++ '"' :: (l ++ '"' :: rest)) (w ++ '"' :: (l' ++ '"' :: rest))
  | next : Left l l' rest v (l ++ '"' :: rest) (l' ++ '"' :: rest)
  | behind {s : Text} : Left l l' rest v s s

/-- A search that reads the same with one inert label or with another one. -/
structure Swaps (m : Text → Text → Option ((Text × Text) × Text)) : Prop where
  /-- Nothing that starts in an inert label is found. -/
  inert : ∀ {l a b : Text}, Inert l → l = a ++ b → b ≠ [] → ∀ rest, m a.reverse (b ++ '"' :: rest) = none
  /-- What is found with one inert label is found with another one. -/
  swap : ∀ {l l' v rest r x : Text} {p : Text × Text}, Inert l → Inert l' →
    m x.reverse (v ++ '"' :: (l ++ '"' :: rest)) = some (p, r) →
      ∃ q r', m x.reverse (v ++ '"' :: (l' ++ '"' :: rest)) = some (q, r') ∧ Renamed l l' p q ∧ Left l l' rest v r r'

section

variable {l l' x y v rest r lab c : Text} {m : Text → Text → Option ((Text × Text) × Text)} {read : Text}

/-- What is read up to a label is read up to any label. -/
theorem swap_label (hl : Inert l) (hl' : Inert l') (hy : '"' ∉ y) (h0 : lab ≠ []) (hlab : '"' ∉ lab)
    (reads : ∀ lab r, lab ≠ [] → '"' ∉ lab → m read (x ++ (y ++ '"' :: (lab ++ '"' :: r))) = some ((lab, c), r))
    (e : y ++ '"' :: (lab ++ '"' :: r) = v ++ '"' :: (l ++ '"' :: rest)) :
    ∃ q r', m read (x ++ (v ++ '"' :: (l' ++ '"' :: rest))) = some (q, r') ∧ Renamed l l' (lab, c) q ∧
      Left l l' rest (x ++ v) r r' := by
  rcases label_split hy hlab hl.noDoubleQuote e with ⟨w, rfl, rfl⟩ | ⟨rfl, rfl⟩ | ⟨rfl, rfl, rfl⟩
  · have := reads lab (w ++ '"' :: (l' ++ '"' :: rest)) h0 hlab
    exact ⟨(lab, c), _, by simpa using this, Renamed.refl _ _ _, Left.ahead (by simp; omega)⟩
  · have := reads lab (l' ++ '"' :: rest) h0 hlab
    exact ⟨(lab, c), _, by simpa using this, Renamed.refl _ _ _, Left.next⟩
  · exact ⟨(l', c), r, reads l' r hl'.ne_nil hl'.noDoubleQuote, ⟨rfl, Or.inr ⟨rfl, rfl⟩⟩, Left.behind⟩

end

theorem swaps_plainAt? : Swaps plainAt? where
  inert := by
    intro l a b hl e hb rest
    rw [Option.eq_none_iff_forall_ne_some]
    intro ⟨⟨lab, c⟩, r⟩ h
    obtain ⟨ha, hc, t, ht, -, -, e'⟩ := plainAt?_eq_some_iff.mp h
    rw [← List.append_assoc] at e'
    have hb' : '"' ∉ b := fun hm => hl.noDoubleQuote (by rw [e]; simp [hm])
    obtain ⟨rfl, -⟩ := mark_inj hb' (noDoubleQuote_append hc ht) e'
    exact hl.column a c t e ha hc ht
  swap := by
    intro l l' v rest r x p hl hl' h
    obtain ⟨lab, c⟩ := p
    obtain ⟨hx, hc, t, ht, h0, hlab, e⟩ := plainAt?_eq_some_iff.mp h
    refine swap_label (x := []) hl hl' (noDoubleQuote_append hc ht) h0 hlab ?_ (by rw [e]; simp)
    intro lab r h0 hlab
    exact plainAt?_eq_some_iff.mpr ⟨hx, hc, t, ht, h0, hlab, by simp⟩

theorem swaps_dateAt? : Swaps dateAt? where
  inert := by
    intro l a b hl e hb rest
    rw [Option.eq_none_iff_forall_ne_some]
    intro ⟨⟨lab, c⟩, r⟩ hfound
    obtain ⟨ha, d, hd, t, ht, -, -, e'⟩ := dateAt?_eq_some_iff.mp hfound
    obtain ⟨h, f, w, hh, hf, hw, rfl⟩ := isDate_iff.mp hd
    rw [List.append_assoc] at e'
    -- the label ends ahead of the format, for the format starts with a quote
    obtain ⟨b', rfl, hb'⟩ := mark_split hh.not_mem e'.symm
    obtain ⟨q, g, hq, -, rfl⟩ := hf
    cases b' with
    | nil =>
      rw [List.append_nil] at e
      exact hl.date a h c e ha hh
    | cons d b' =>
      simp only [List.cons_append, List.cons.injEq] at hb'
      obtain ⟨rfl, -⟩ := hb'
      rcases hq with rfl | rfl
      · exact hl.noQuote (by rw [e]; simp)
      · exact hl.noDoubleQuote (by rw [e]; simp)
  swap := by
    intro l l' v rest r x p hl hl' hfound
    obtain ⟨lab, c⟩ := p
    obtain ⟨hx, d, hd, t, ht, h0, hlab, e⟩ := dateAt?_eq_some_iff.mp hfound
    obtain ⟨h, f, w, hh, hf, hw, rfl⟩ := isDate_iff.mp hd
    have hq : '"' ∉ w ++ ')' :: t := by
      have hb : isBlank '"' = false := by decide
      simp [not_mem_of_allBlank hw hb, ht.not_mem (by decide) hb]
    have hdate : ∀ f', IsFormat f' → IsDate (h ++ (f' ++ (w ++ [')']))) c := fun f' hf' =>
      isDate_iff.mpr ⟨h, f', w, hh, hf', hw, rfl⟩
    rw [List.append_assoc] at e
    obtain ⟨v', rfl, hv⟩ := mark_split hh.not_mem e.symm
    have e' : f ++ (w ++ ')' :: t ++ '"' :: (lab ++ '"' :: r)) = v' ++ '"' :: (l ++ '"' :: rest) := by rw [← hv]; simp
    rcases format_split hf hl.noQuote hl.noDoubleQuote hl'.noQuote hl'.noDoubleQuote e' with ⟨v, rfl, hy⟩ | hy | ⟨g, rfl, hg⟩
    · -- the format stands ahead of the label that is replaced
      have reads : ∀ lab r, lab ≠ [] → '"' ∉ lab →
          dateAt? x.reverse (h ++ f ++ (w ++ ')' :: t ++ '"' :: (lab ++ '"' :: r))) = some ((lab, c), r) := by
        intro lab r h0 hlab
        exact dateAt?_eq_some_iff.mpr ⟨hx, _, hdate f hf, t, ht, h0, hlab, by simp⟩
      simpa using swap_label hl hl' hq h0 hlab reads hy
    · -- the format ends where the label starts
      obtain ⟨rfl, -⟩ := mark_inj hq hl.noDoubleQuote hy
      exact absurd ht (hl.format w t rfl hw)
    · -- the label stands in the format
      exact ⟨(lab, c), r, dateAt?_eq_some_iff.mpr ⟨hx, _, hdate _ hg, t, ht, h0, hlab, by simp⟩, Renamed.refl _ _ _,
        Left.behind⟩

namespace Reader

variable {m : Text → Text → Option ((Text × Text) × Text)} {l l' : Text}

/-- In an inert label nothing is found. -/
theorem scan_inert (hm : Reader m) (hs : Swaps m) (hl : Inert l) (rest : Text) :
    scan m 0 [] (l ++ '"' :: rest) = scan m 0 [] rest := by
  have from_here : ∀ b a, l = a ++ b → scan m 0 a.reverse (b ++ '"' :: rest) = scan m 0 [] rest := by
    intro b
    induction b with
    | nil =>
      intro a _
      exact hm.scan_quote a.reverse rest
    | cons c b ih =>
      intro a e
      have hnone := hs.inert hl e (by simp) rest
      rw [List.cons_append] at hnone ⊢
      rw [scan_step hnone]
      have := ih (a ++ [c]) (by rw [e]; simp)
      simpa using this
  exact from_here l [] rfl

/-- With one inert label replaced by another one, a search finds the same, up to that label. -/
theorem scan_relabel (hm : Reader m) (hs : Swaps m) (hl : Inert l) (hl' : Inert l') (v rest x : Text) :
    List.Forall₂ (Renamed l l') (scan m 0 x.reverse (v ++ '"' :: (l ++ '"' :: rest)))
      (scan m 0 x.reverse (v ++ '"' :: (l' ++ '"' :: rest))) := by
  have same : ∀ found : List (Text × Text), List.Forall₂ (Renamed l l') found found := fun found =>
    List.forall₂_same.mpr fun p _ => Renamed.refl l l' p
  -- on the length of the text ahead of the label, for a search that finds something goes on behind it
  induction hn : v.length using Nat.strong_induction_on generalizing v x with
  | _ n ih =>
    cases h : m x.reverse (v ++ '"' :: (l ++ '"' :: rest)) with
    | some found =>
      obtain ⟨p, r⟩ := found
      obtain ⟨q, r', h', hpq, hleft⟩ := hs.swap hl hl' h
      rw [hm.scan_found h, hm.scan_found h']
      refine List.Forall₂.cons hpq ?_
      cases hleft with
      | @ahead w hw => exact ih w.length (by omega) w [] rfl
      | next =>
        rw [hm.scan_inert hs hl, hm.scan_inert hs hl']
        exact same _
      | behind => exact same _
    | none =>
      have h' : m x.reverse (v ++ '"' :: (l' ++ '"' :: rest)) = none := by
        rw [Option.eq_none_iff_forall_ne_some]
        intro ⟨q, r'⟩ h'
        obtain ⟨p, r, hp, -⟩ := hs.swap hl' hl h'
        rw [h] at hp; cases hp
      cases v with
      | nil =>
        rw [List.nil_append, List.nil_append, hm.scan_quote, hm.scan_quote, hm.scan_inert hs hl, hm.scan_inert hs hl']
        exact same _
      | cons c v =>
        rw [List.cons_append] at h h' ⊢
        rw [List.cons_append, scan_step h, scan_step h']
        have := ih v.length (by rw [← hn]; simp) v (x ++ [c]) rfl
        simpa using this

end Reader

/-! ## Expressions that leave nothing open -/

theorem harmless_of_allBlank {w : Text} (h : allBlank w = true) : Harmless w :=
  harmless_of_not_mem (not_mem_of_allBlank h (by decide)) (not_mem_of_allBlank h (by decide)) (not_mem_of_allBlank h (by decide))

theorem IsAs.harmless {t : Text} (h : IsAs t) : Harmless t :=
  harmless_of_not_mem (h.not_mem (by decide) (by decide)) (h.not_mem (by decide) (by decide)) (h.not_mem (by decide) (by decide))

section

variable {c d e : Text}

/-- The table of the column is not named CASE. -/
def TableNotCase (c : Text) : Prop := sameAscii "CASE".toList (takeWord c).1 = false

instance (c : Text) : Decidable (TableNotCase c) := inferInstanceAs (Decidable (_ = _))

theorem IsColumn.harmless (h : IsColumn c) (hc : TableNotCase c) : Harmless c := by
  obtain ⟨a, b, rfl, -, -, ha, hb⟩ := h
  have hquote : ∀ {w : Text}, (∀ d ∈ w, isWord d = true) → '\'' ∉ w := by
    intro w hw hm
    have := hw _ hm
    rw [not_isWord_quote] at this; cases this
  -- the column stands behind the dot
  have hdot : Idle ('.' :: b) := by
    intro u k v e hk hu _
    cases u with
    | nil =>
      obtain ⟨d, s, rfl, hd⟩ := (isCaseWord_case hk).starts
      simp only [List.nil_append, List.cons_append, List.cons.injEq] at e
      rw [← e.1, not_isWord_dot] at hd; cases hd
    | cons d u =>
      simp only [List.cons_append, List.cons.injEq] at e
      obtain ⟨rfl, rfl⟩ := e
      cases u using List.reverseRecOn with
      | nil => exact Or.inr rfl
      | append_singleton u d =>
        have := hu d (by rw [← List.cons_append, List.getLast?_concat])
        rw [hb d (by simp)] at this; cases this
  have ht : (takeWord (a ++ '.' :: b)).1 = a := by
    rw [takeWord, List.takeWhile_append_of_pos ha]
    simp [not_isWord_dot]
  rw [TableNotCase, ht] at hc
  have htable : Harmless a := ⟨idle_of_word ha hc, paired_of_not_mem (hquote ha)⟩
  have hcolumn : Harmless ('.' :: b) := ⟨hdot, paired_of_not_mem (by simp [hquote hb])⟩
  exact htable.append hcolumn (Or.inr not_isWord_dot)

/-- A format in single quotes on one line opens no expression: it is a literal. -/
theorem harmless_format {g : Text} (hq : '\'' ∉ g) (hn : '\n' ∉ g) : Harmless ('\'' :: (g ++ ['\''])) := by
  have hline : ∀ {a : Text}, '\n' ∉ a → lineSoFar ('\'' :: a).reverse = '\'' :: a := fun ha =>
    lineSoFar_of_not_mem (by simp [ha])
  constructor
  · intro a k b e hk _ _
    obtain ⟨c, s, rfl, hc⟩ := (isCaseWord_case hk).starts
    left
    cases a with
    | nil =>
      simp only [List.nil_append, List.cons_append, List.cons.injEq] at e
      rw [← e.1, not_isWord_quote] at hc; cases hc
    | cons d a =>
      simp only [List.cons_append, List.append_assoc, List.cons.injEq] at e
      obtain ⟨rfl, e⟩ := e
      -- the keyword starts ahead of the closing quote
      have ha : a <+: g := by
        rcases List.append_eq_append_iff.mp e with ⟨u, rfl, hu⟩ | ⟨u, rfl, -⟩
        · cases u with
          | nil => simp
          | cons d u => simp at hu
        · exact ⟨u, rfl⟩
      rw [inLiteral_reverse, hline fun hm => hn (ha.subset hm), oddQuotes, List.count_cons_self,
        List.count_eq_zero.mpr fun hm => hq (ha.subset hm)]
      rfl
  · rw [inLiteral_reverse, hline (by simp [hn]), oddQuotes, List.count_cons_self, List.count_append, List.count_eq_zero.mpr hq]
    rfl

/-- A date on one line opens no expression. -/
theorem IsDate.harmless (h : IsDate d c) (hc : TableNotCase c) (hd : '"' ∉ d) (hn : '\n' ∉ d) : Harmless d := by
  obtain ⟨k, b₁, b₂, b₃, f, b₄, hk, h₁, hcol, h₂, h₃, ⟨q, g, hq, hg, rfl⟩, h₄, rfl⟩ := h
  obtain rfl : q = '\'' := by
    rcases hq with rfl | rfl
    · rfl
    · exact absurd (by simp) hd
  have hng : '\n' ∉ g := by
    intro hm
    exact hn (by simp [hm])
  have comma : Harmless (',' :: b₃) :=
    (harmless_of_not_mem (t := [',']) (by simp) (by simp) (by simp)).append (harmless_of_allBlank h₃)
    (Or.inl (EndsApart.concat (by decide) []))
  have hk' : Harmless k := harmless_of_not_mem (hk.not_mem (by decide)) (hk.not_mem (by decide)) (hk.not_mem (by decide))
  have paren : Harmless (b₄ ++ [')']) := (harmless_of_allBlank h₄).append (harmless_of_not_mem (by simp) (by simp) (by simp))
    (Or.inr (by decide))
  -- from the last piece to the first, each ends apart or is followed by a blank or a mark
  have s₁ := (harmless_format hg hng).append paren (Or.inl (EndsApart.concat (by decide) ('\'' :: g)))
  have s₂ := comma.append s₁ (Or.inr not_isWord_quote)
  have hcomma : isWord ',' = false := by decide
  have s₃ := (harmless_of_allBlank h₂).append s₂ (Or.inr hcomma)
  have s₄ := (hcol.harmless hc).append s₃ (Or.inr (by
    by_cases h0 : b₂ = []
    · rw [h0]; exact hcomma
    · exact startsInWord_blank h₂ h0 _))
  have s₅ := (harmless_of_allBlank h₁).append s₄ (Or.inl (endsApart_of_allBlank h₁))
  have s₆ := hk'.append s₅ (Or.inl (by
    obtain ⟨s, e, rfl, he⟩ := hk.last (u := '(') (by decide)
    obtain rfl : e = '(' := by simpa [sameLetter] using he
    exact EndsApart.concat (by decide) s))
  simpa using s₆

/-- An expression behind which none is open: a column, a date on one line with its format in single
    quotes, a CASE expression, or other text that opens none. -/
inductive Closed : Text → Prop
  | column {c : Text} : IsColumn c → TableNotCase c → Closed c
  | date {d c : Text} : IsDate d c → TableNotCase c → '"' ∉ d → '\n' ∉ d → Closed d
  | case {e : Text} : IsCase e → Closed e
  | other {e : Text} : Harmless e → Closed e

theorem Closed.case_or_harmless (h : Closed e) : IsCase e ∨ Harmless e := by
  cases h with
  | column h hc => exact Or.inr (h.harmless hc)
  | date h hc hd hn => exact Or.inr (h.harmless hc hd hn)
  | case h => exact Or.inl h
  | other h => exact Or.inr h

end

/-! ## Lists of projections -/

/-- A projection: text ahead of it, its expression, AS, and its label. -/
structure Projection where
  lead : Text
  expr : Text
  link : Text
  label : Text

namespace Projection

def text (p : Projection) : Text := p.lead ++ (p.expr ++ labelText p.link p.label)

/-- The same projection with another label. -/
def relabel (p : Projection) (l : Text) : Projection := { p with label := l }

/-- Behind the projection no expression and no literal is open. -/
structure Proper (p : Projection) : Prop where
  lead_idle : Idle p.lead
  lead : Counting p.lead
  expr : Closed p.expr
  link : IsAs p.link
  label : Harmless p.label
  label_ne_nil : p.label ≠ []
  noDoubleQuote : '"' ∉ p.label

end Projection

theorem Inert.harmless {l : Text} (h : Inert l) : Harmless l := ⟨h.idle, paired_of_not_mem h.noQuote⟩

theorem labelText_harmless {t l : Text} (ht : IsAs t) (hl : Harmless l) : Harmless (labelText t l) := by
  have quote : Harmless ['"'] := harmless_of_not_mem (by simp) (by simp) (by simp)
  have hlabel := hl.append quote (Or.inr not_isWord_doubleQuote)
  exact ht.harmless.append (quote.append hlabel (Or.inl (EndsApart.concat not_isWord_doubleQuote [])))
    (Or.inr not_isWord_doubleQuote)

/-- A keyword counts behind a label when the quotes ahead are paired. -/
theorem counting_labelText {x t l : Text} (hx : inLiteral x.reverse = false) (ht : IsAs t) (hl : Harmless l) :
    Counting (x ++ labelText t l) := by
  have e : x ++ labelText t l = x ++ (t ++ '"' :: l) ++ ['"'] := by simp [labelText]
  refine ⟨?_, ?_, paired_append hx (labelText_harmless ht hl).paired⟩
  · rw [e]
    exact EndsApart.concat not_isWord_doubleQuote _
  · rw [e, List.getLast?_concat]
    decide

namespace Projection.Proper

variable {p : Projection} {rest : Text}

theorem relabel (hp : p.Proper) {l : Text} (hl : Inert l) : (p.relabel l).Proper :=
  ⟨hp.lead_idle, hp.lead, hp.expr, hp.link, hl.harmless, hl.ne_nil, hl.noDoubleQuote⟩

/-- The pairing goes over text ahead of an expression, and over a label. -/
theorem cases_lead (hp : p.Proper) (s : Text) : casesFrom 0 0 [] (p.lead ++ s) = casesFrom 0 0 p.lead.reverse s :=
  casesFrom_idle (x := []) hp.lead_idle rfl (Or.inl hp.lead.apart)

theorem cases_label (hp : p.Proper) {x : Text} (hx : inLiteral x.reverse = false) (start : Nat) :
    casesFrom 0 start x.reverse (labelText p.link p.label ++ rest) = labelledCases rest := by
  have hend : EndsApart (labelText p.link p.label) := (counting_labelText (x := []) rfl hp.link hp.label).apart
  rw [casesFrom_idle (labelText_harmless hp.link hp.label).idle hx (Or.inl hend)]
  exact casesFrom_fresh (counting_labelText hx hp.link hp.label)

theorem starts (hp : p.Proper) : startsInWord (labelText p.link p.label ++ rest) = false := by
  rw [labelText, List.append_assoc]
  exact hp.link.starts _

/-- A CASE expression stands for its label, and the pairing starts afresh behind it. -/
theorem labelledCases_case (hp : p.Proper) (he : IsCase p.expr) :
    labelledCases (p.text ++ rest) = (p.label, p.expr) :: labelledCases rest := by
  calc labelledCases (p.text ++ rest)
      = casesFrom 0 0 [] (p.lead ++ (p.expr ++ (labelText p.link p.label ++ rest))) := by
        rw [labelledCases, text]; simp
    _ = ((label? (labelText p.link p.label ++ rest)).toList.map fun q => (q.1, p.expr)) ++
          casesFrom 0 p.lead.length (p.lead ++ p.expr).reverse (labelText p.link p.label ++ rest) := by
        rw [hp.cases_lead, he.scan hp.lead hp.starts]
    _ = (p.label, p.expr) :: labelledCases rest := by
        rw [label?_labelText hp.link hp.label_ne_nil hp.noDoubleQuote, hp.cases_label (paired_append hp.lead.paired he.paired)]
        rfl

/-- Another projection leaves nothing, and the pairing starts afresh behind it. -/
theorem labelledCases_harmless (hp : p.Proper) (he : Harmless p.expr) : labelledCases (p.text ++ rest) = labelledCases rest := by
  calc labelledCases (p.text ++ rest)
      = casesFrom 0 0 [] (p.lead ++ (p.expr ++ (labelText p.link p.label ++ rest))) := by
        rw [labelledCases, text]; simp
    _ = casesFrom 0 0 (p.lead ++ p.expr).reverse (labelText p.link p.label ++ rest) := by
        rw [hp.cases_lead, casesFrom_idle he.idle hp.lead.paired (Or.inr hp.starts)]
    _ = labelledCases rest := hp.cases_label (paired_append hp.lead.paired he.paired) 0

end Projection.Proper

/-- Ahead of any text, a list of projections leaves the same expressions. -/
theorem labelledCases_flatMap {before : List Projection} (h : ∀ p ∈ before, p.Proper) :
    ∃ found, ∀ rest, labelledCases (before.flatMap Projection.text ++ rest) = found ++ labelledCases rest := by
  induction before with
  | nil => exact ⟨[], fun rest => rfl⟩
  | cons p before ih =>
    obtain ⟨found, hf⟩ := ih fun q hq => h q (by simp [hq])
    have hp := h p (by simp)
    rcases hp.expr.case_or_harmless with he | he
    · refine ⟨(p.label, p.expr) :: found, fun rest => ?_⟩
      rw [List.flatMap_cons, List.append_assoc, hp.labelledCases_case he, hf]; rfl
    · refine ⟨found, fun rest => ?_⟩
      rw [List.flatMap_cons, List.append_assoc, hp.labelledCases_harmless he, hf]

/-- With the label of a projection replaced, the same CASE expressions are found. -/
theorem labelledCases_relabel {p : Projection} {l : Text} (hp : p.Proper) (hl : Inert l) (rest : Text) :
    List.Forall₂ (Renamed p.label l) (labelledCases (p.text ++ rest)) (labelledCases ((p.relabel l).text ++ rest)) := by
  have same := List.forall₂_same.mpr fun q (_ : q ∈ labelledCases rest) => Renamed.refl p.label l q
  have hp' := hp.relabel hl
  rcases hp.expr.case_or_harmless with he | he
  · rw [hp.labelledCases_case he, hp'.labelledCases_case he]
    exact List.Forall₂.cons ⟨rfl, Or.inr ⟨rfl, rfl⟩⟩ same
  · rw [hp.labelledCases_harmless he, hp'.labelledCases_harmless he]
    exact same

/-! ## Columns -/

theorem get?_renamed {l l' m : Text} (hl : m ≠ l) (hl' : m ≠ l') {found found' : List (Text × Text)}
    (h : List.Forall₂ (Renamed l l') found found') : Json.get? m found = Json.get? m found' := by
  unfold Json.get?
  induction h with
  | nil => rfl
  | @cons p q found found' hpq _ ih =>
    obtain ⟨hv, hk | ⟨hp, hq⟩⟩ := hpq
    · rw [List.find?_cons, List.find?_cons, hk]
      split
      · simp [hv]
      · exact ih
    · have hp' : (p.1 == m) = false := by rw [hp, beq_eq_false_iff_ne]; exact Ne.symm hl
      have hq' : (q.1 == m) = false := by rw [hq, beq_eq_false_iff_ne]; exact Ne.symm hl'
      rw [List.find?_cons, List.find?_cons, hp', hq']
      exact ih

/-- When an inert label of a list of projections is replaced by another one, every other label stands
    for what it stood for. -/
theorem columns_relabel {before : List Projection} {p : Projection} {l m : Text} (hb : ∀ q ∈ before, q.Proper) (hp : p.Proper)
    (hl : Inert p.label) (hl' : Inert l) (hm : m ≠ p.label) (hm' : m ≠ l) (rest : Text) :
    Json.get? m (columns (before.flatMap Projection.text ++ ((p.relabel l).text ++ rest))) =
      Json.get? m (columns (before.flatMap Projection.text ++ (p.text ++ rest))) := by
  obtain ⟨found, hf⟩ := labelledCases_flatMap hb
  have hcases : List.Forall₂ (Renamed p.label l) (labelledCases (before.flatMap Projection.text ++ (p.text ++ rest)))
      (labelledCases (before.flatMap Projection.text ++ ((p.relabel l).text ++ rest))) := by
    rw [hf, hf]
    exact List.rel_append (List.forall₂_same.mpr fun q _ => Renamed.refl _ _ q) (labelledCases_relabel hp hl' rest)
  let v := before.flatMap Projection.text ++ (p.lead ++ (p.expr ++ p.link))
  have e : before.flatMap Projection.text ++ (p.text ++ rest) = v ++ '"' :: (p.label ++ '"' :: rest) := by
    simp [v, Projection.text, labelText]
  have e' : before.flatMap Projection.text ++ ((p.relabel l).text ++ rest) = v ++ '"' :: (l ++ '"' :: rest) := by
    simp [v, Projection.text, Projection.relabel, labelText]
  have hplain := reader_plainAt?.scan_relabel swaps_plainAt? hl hl' v rest []
  have hdate := reader_dateAt?.scan_relabel swaps_dateAt? hl hl' v rest []
  rw [e, e'] at hcases ⊢
  rw [get?_columns, get?_columns]
  exact (get?_renamed hm hm' (List.rel_append (List.rel_append hplain hdate) hcases)).symm

/-- A note that becomes a memo, between a date and a CASE expression. -/
theorem columns_relabel_memo :
    let before : List Projection :=
      [⟨"SELECT ".toList, "DATE_FORMAT(u.day, '%Y case')".toList, " AS ".toList, "Day".toList⟩,
        ⟨", ".toList, "CASE u.kind WHEN 1 THEN 2 END".toList, " AS ".toList, "Kind".toList⟩]
    let p : Projection := ⟨",\n".toList, "u.note".toList, " AS ".toList, "Note".toList⟩
    let rest := ", CASE WHEN u.b = 1 THEN 2 END AS \"x\"\n-- FROM clause\nFROM users u".toList
    Json.get? "x".toList (columns (before.flatMap Projection.text ++ ((p.relabel "Memo".toList).text ++ rest))) =
        Json.get? "x".toList (columns (before.flatMap Projection.text ++ (p.text ++ rest))) ∧
      Json.get? "x".toList (columns (before.flatMap Projection.text ++ (p.text ++ rest))) =
        some "CASE WHEN u.b = 1 THEN 2 END".toList := by
  have link : IsAs " AS ".toList := ⟨" ".toList, "AS".toList, " ".toList, by decide, by decide, by unfold Spells; decide,
    by decide, by decide, by decide⟩
  have proper : ∀ t e l, Quiet t → Counting t → Closed e → Quiet l → inLiteral l.reverse = false → l ≠ [] → '"' ∉ l →
      Projection.Proper ⟨t, e, " AS ".toList, l⟩ := fun t e l hq ht he hl hp h0 hd =>
    ⟨hq.idle, ht, he, link, ⟨hl.idle, hp⟩, h0, hd⟩
  have inert : ∀ l, l ≠ [] → '\'' ∉ l → '"' ∉ l → '.' ∉ l → ')' ∉ l → Quiet l → Inert l := fun l h0 h₁ h₂ h₃ h₄ hq =>
    Inert.of_not_mem h0 h₁ h₂ h₃ h₄ hq.idle
  have date : IsDate "DATE_FORMAT(u.day, '%Y case')".toList "u.day".toList :=
    ⟨"DATE_FORMAT(".toList, [], [], " ".toList, "'%Y case'".toList, [], by unfold Spells; decide, rfl,
      ⟨"u".toList, "day".toList, by decide, by decide, by decide,
        List.all_eq_true.mp (by decide +kernel), List.all_eq_true.mp (by decide +kernel)⟩, rfl, by decide,
      ⟨'\'', "%Y case".toList, by decide, by decide, by decide⟩, rfl, by decide⟩
  have note : IsColumn "u.note".toList :=
    ⟨"u".toList, "note".toList, by decide, by decide, by decide,
        List.all_eq_true.mp (by decide +kernel), List.all_eq_true.mp (by decide +kernel)⟩
  have kind : IsCase "CASE u.kind WHEN 1 THEN 2 END".toList :=
    ⟨"CASE".toList, " u.kind WHEN 1 THEN 2 ".toList, "END".toList, by decide, Nested.text (by decide +kernel),
      closes_of_end (by decide), by decide⟩
  refine ⟨columns_relabel ?_ ?_ ?_ ?_ (by decide) (by decide) _, by decide +kernel⟩
  · intro q hq
    rcases List.mem_cons.mp hq with rfl | hq
    · exact proper _ _ _ (by decide +kernel) (by decide +kernel) (Closed.date date (by decide +kernel) (by decide) (by decide))
        (by decide +kernel) (by decide) (by decide) (by decide)
    obtain rfl := List.mem_singleton.mp hq
    exact proper _ _ _ (by decide +kernel) (by decide +kernel) (Closed.case kind)
      (by decide +kernel) (by decide) (by decide) (by decide)
  · exact proper _ _ _ (by decide +kernel) (by decide +kernel) (Closed.column note (by decide +kernel))
      (by decide +kernel) (by decide) (by decide) (by decide)
  · exact inert _ (by decide) (by decide) (by decide) (by decide) (by decide) (by decide +kernel)
  · exact inert _ (by decide) (by decide) (by decide) (by decide) (by decide) (by decide +kernel)

/-- A label that is not inert is in the way: the word CASE in it opens an expression. -/
example : columns "SELECT t.a AS \"Case\", CASE WHEN t.b = 1 THEN 2 END AS \"x\"".toList = [("Case".toList, "t.a".toList)] := by
  decide +kernel

end ExportQuery.Sql
