/-
  ExportQuery.Proofs.Search — what a search for labelled columns and dates finds.

  Both searches are for a shape that starts with a word of its own and ends with the double quote
  that closes its label; of the text ahead only the last character counts. So what a search finds
  is read at some place, where something can be read it finds something, and behind what it found
  it goes on as if the text started there.

  - `mark_split` / `mark_inj`: texts divided at a quote.
  - `Reader`: what the two searches have in common.
  - `Reader.mem_scan` / `Reader.scan_ne_nil`: what is found is what can be read.
  - `Reader.scan_found`: behind what it found a search starts afresh.
  - `get?_columns`: a label stands for the first that is found with it.
-/

import ExportQuery.Json.Value
import ExportQuery.Proofs.Labels

namespace ExportQuery.Sql

open ExportQuery.Text

/-! ## Texts divided at a mark -/

section

variable {m : Char} {x y w s : Text}

/-- Text without the mark stands ahead of the first one. -/
theorem mark_split (hx : m ∉ x) (e : x ++ y = w ++ m :: s) : ∃ v, w = x ++ v ∧ y = v ++ m :: s := by
  rcases List.append_eq_append_iff.mp e with ⟨v, rfl, hy⟩ | ⟨v, rfl, hy⟩
  · exact ⟨v, rfl, hy⟩
  · cases v with
    | nil => exact ⟨[], by simp, by simpa using hy.symm⟩
    | cons d v =>
      simp only [List.cons_append, List.cons.injEq] at hy
      obtain ⟨rfl, -⟩ := hy
      exact absurd (by simp) hx

theorem mark_inj (hx : m ∉ x) (hw : m ∉ w) (e : x ++ m :: y = w ++ m :: s) : x = w ∧ y = s := by
  obtain ⟨v, rfl, hv⟩ := mark_split hx e
  cases v with
  | nil => exact ⟨by simp, by simpa using hv⟩
  | cons d v =>
    simp only [List.cons_append, List.cons.injEq] at hv
    obtain ⟨rfl, -⟩ := hv
    exact absurd (by simp) hw

end

/-! ## Characters of columns and dates -/

/-- A call that formats the date in column `c`, up to the format. -/
def OpensDate (h c : Text) : Prop :=
  ∃ k b₁ b₂ b₃, Spells "DATE_FORMAT(".toList k ∧ allBlank b₁ = true ∧ IsColumn c ∧ allBlank b₂ = true ∧ allBlank b₃ = true ∧
    h = k ++ (b₁ ++ (c ++ (b₂ ++ ',' :: b₃)))

theorem isDate_iff {d c : Text} :
    IsDate d c ↔ ∃ h f w, OpensDate h c ∧ IsFormat f ∧ allBlank w = true ∧ d = h ++ (f ++ (w ++ [')'])) := by
  constructor
  · intro h
    obtain ⟨k, b₁, b₂, b₃, f, b₄, hk, h₁, hc, h₂, h₃, hf, h₄, rfl⟩ := h
    exact ⟨_, f, b₄, ⟨k, b₁, b₂, b₃, hk, h₁, hc, h₂, h₃, rfl⟩, hf, h₄, by simp⟩
  · intro h
    obtain ⟨_, f, b₄, ⟨k, b₁, b₂, b₃, hk, h₁, hc, h₂, h₃, rfl⟩, hf, h₄, rfl⟩ := h
    exact ⟨k, b₁, b₂, b₃, f, b₄, hk, h₁, hc, h₂, h₃, hf, h₄, by simp⟩

theorem IsColumn.not_mem {c : Text} {q : Char} (h : IsColumn c) (hw : isWord q = false) (hd : q ≠ '.') : q ∉ c := by
  obtain ⟨a, b, rfl, -, -, ha, hb⟩ := h
  intro hm
  rcases List.mem_append.mp hm with hm | hm
  · rw [ha q hm] at hw; cases hw
  rcases List.mem_cons.mp hm with rfl | hm
  · exact hd rfl
  · rw [hb q hm] at hw; cases hw

theorem not_mem_of_allBlank {w : Text} {q : Char} (h : allBlank w = true) (hb : isBlank q = false) : q ∉ w := by
  intro hm
  rw [List.all_eq_true.mp h q hm] at hb; cases hb

theorem Spells.not_mem {word k : Text} {q : Char} (h : Spells word k) (hq : (word.all fun u => !sameLetter u q) = true) :
    q ∉ k := by
  intro hm
  obtain ⟨n, hn, rfl⟩ := List.getElem_of_mem hm
  have hn' : n < word.length := h.length_eq ▸ hn
  have := (List.forall₂_iff_get.mp h).2 n hn' hn
  simp only [List.get_eq_getElem] at this
  have hno := List.all_eq_true.mp hq _ (List.getElem_mem hn')
  rw [this] at hno; cases hno

theorem IsAs.not_mem {t : Text} {q : Char} (h : IsAs t) (hq : ("AS".toList.all fun u => !sameLetter u q) = true)
    (hb : isBlank q = false) :
    q ∉ t := by
  obtain ⟨w, k, v, -, hw, hk, -, hv, rfl⟩ := h
  simp [not_mem_of_allBlank hw hb, not_mem_of_allBlank hv hb, hk.not_mem hq]

theorem OpensDate.not_mem {h c : Text} (hh : OpensDate h c) : '"' ∉ h := by
  obtain ⟨k, b₁, b₂, b₃, hk, h₁, hc, h₂, h₃, rfl⟩ := hh
  have hk' := hk.not_mem (q := '"') (by decide)
  have hb : isBlank '"' = false := by decide
  simp [hk', not_mem_of_allBlank h₁ hb, not_mem_of_allBlank h₂ hb, not_mem_of_allBlank h₃ hb,
    hc.not_mem not_isWord_doubleQuote (by decide)]

theorem noDoubleQuote_append {c t : Text} (hc : IsColumn c) (ht : IsAs t) : '"' ∉ c ++ t := by
  rw [List.mem_append, not_or]
  exact ⟨hc.not_mem not_isWord_doubleQuote (by decide), ht.not_mem (by decide) (by decide)⟩

/-- AS and a label in quotes. -/
def labelText (t l : Text) : Text := t ++ '"' :: (l ++ ['"'])

theorem label?_labelText {t l : Text} (ht : IsAs t) (h0 : l ≠ []) (hd : '"' ∉ l) (rest : Text) :
    label? (labelText t l ++ rest) = some (l, rest) :=
  label?_eq_some_iff.mpr ⟨t, ht, h0, hd, by simp [labelText]⟩

/-! ## Readers -/

/-- A search for labels that sees of the text before only whether a word goes on. -/
structure Reader (m : Text → Text → Option ((Text × Text) × Text)) : Prop where
  quoted : Quoted m
  apart : ∀ {read read' : Text} (s : Text), startsInWord read = startsInWord read' → m read s = m read' s
  within : ∀ {read : Text} (s : Text), startsInWord read = true → m read s = none
  starts : ∀ {read s : Text} {c : Char}, isWord c = false → m read (c :: s) = none

theorem reader_plainAt? : Reader plainAt? where
  quoted := quoted_plainAt?
  apart := by
    intro read read' s h
    unfold plainAt?
    rw [h]
  within := by
    intro read s h
    rw [plainAt?, if_pos h]
  starts := by
    intro read s c hc
    have hcol : column? (c :: s) = none := by
      rw [Option.eq_none_iff_forall_ne_some]
      intro ⟨column, r⟩ h
      obtain ⟨hcol, e, -⟩ := column?_eq_some_iff.mp h
      obtain ⟨d, t, rfl, hd⟩ := hcol.starts
      simp only [List.cons_append, List.cons.injEq] at e
      rw [e.1, hd] at hc; cases hc
    unfold plainAt?
    rw [hcol]
    split
    · rfl
    · rfl

theorem reader_dateAt? : Reader dateAt? where
  quoted := quoted_dateAt?
  apart := by
    intro read read' s h
    unfold dateAt?
    rw [h]
  within := by
    intro read s h
    rw [dateAt?, if_pos h]
  starts := by
    intro read s c hc
    have hword : dropWord? "DATE_FORMAT(".toList (c :: s) = none := by
      rw [Option.eq_none_iff_forall_ne_some]
      intro r h
      obtain ⟨k, hk, e⟩ := dropWord?_eq_some_iff.mp h
      obtain ⟨d, t, rfl, hd⟩ := Spells.head 'D' "ATE_FORMAT(".toList hk
      simp only [List.cons_append, List.cons.injEq] at e
      rw [e.1, isWord_of_sameLetter (by decide) hd] at hc; cases hc
    unfold dateAt?
    rw [hword]
    split
    · rfl
    · rfl

namespace Reader

variable {m : Text → Text → Option ((Text × Text) × Text)} {p : Text × Text} {a b r s x : Text}

theorem scan_read (hm : Reader m) {read read' : Text} (s : Text) (k : Nat) (h : startsInWord read = startsInWord read') :
    scan m k read s = scan m k read' s := by
  induction s generalizing k read read' with
  | nil => cases k <;> rfl
  | cons c s ih =>
    have hc : startsInWord (c :: read) = startsInWord (c :: read') := rfl
    cases k with
    | succ k => exact ih k hc
    | zero =>
      simp only [scan, hm.apart (c :: s) h]
      split
      · rw [ih _ hc]
      · exact ih _ hc

theorem scan_skip (hm : Reader m) (c : Char) (s r : Text) (read : Text) :
    scan m (s.length + 1) read (s ++ c :: r) = scan m 0 [c] r := by
  induction s generalizing read with
  | nil => exact hm.scan_read r 0 rfl
  | cons d s ih => exact ih (d :: read)

/-- Behind a label that was found, a search starts afresh. -/
theorem scan_found (hm : Reader m) {read s r : Text} {p : Text × Text} (h : m read s = some (p, r)) :
    scan m 0 read s = p :: scan m 0 [] r := by
  obtain ⟨c, rfl, -⟩ := hm.quoted read s p r h
  cases c with
  | nil =>
    rw [List.nil_append, hm.starts not_isWord_doubleQuote] at h; cases h
  | cons d c =>
    rw [List.cons_append] at h ⊢
    have hlen : (c ++ '"' :: r).length - r.length = c.length + 1 := by
      simp only [List.length_append, List.length_cons]; omega
    rw [scan, h]
    simp only [hlen, hm.scan_skip]
    exact congrArg (p :: ·) (hm.scan_read r 0 not_isWord_doubleQuote)

theorem scan_step {read s : Text} {c : Char} (h : m read (c :: s) = none) : scan m 0 read (c :: s) = scan m 0 (c :: read) s := by
  simp only [scan, h]

theorem scan_quote (hm : Reader m) (read s : Text) : scan m 0 read ('"' :: s) = scan m 0 [] s := by
  rw [scan_step (hm.starts not_isWord_doubleQuote)]
  exact hm.scan_read s 0 not_isWord_doubleQuote

/-- What a search finds, it reads at some place. -/
theorem mem_scan {k : Nat} (h : p ∈ scan m k x.reverse s) : ∃ a b r, s = a ++ b ∧ m (x ++ a).reverse b = some (p, r) := by
  induction s generalizing k x with
  | nil => cases k <;> simp [scan] at h
  | cons d s ih =>
    have further : ∀ {k : Nat}, p ∈ scan m k (d :: x.reverse) s →
        ∃ a b r, d :: s = a ++ b ∧ m (x ++ a).reverse b = some (p, r) := by
      intro k h
      obtain ⟨a, b, r, rfl, hab⟩ := ih (x := x ++ [d]) (by simpa using h)
      exact ⟨d :: a, b, r, rfl, by simpa using hab⟩
    cases k with
    | succ k => exact further h
    | zero =>
      cases hd : m x.reverse (d :: s) with
      | none =>
        rw [scan_step hd] at h
        exact further h
      | some found =>
        obtain ⟨q, r⟩ := found
        rw [scan, hd] at h
        rcases List.mem_cons.mp h with rfl | h
        · exact ⟨[], d :: s, r, rfl, by simpa using hd⟩
        · exact further h

/-- Where something can be read, a search finds something. -/
theorem scan_ne_nil (hm : Reader m) (h : m (x ++ a).reverse b = some (p, r)) : scan m 0 x.reverse (a ++ b) ≠ [] := by
  induction a generalizing x with
  | nil =>
    rw [List.append_nil] at h
    rw [List.nil_append, hm.scan_found h]
    simp
  | cons d a ih =>
    rw [List.cons_append]
    cases hd : m x.reverse (d :: (a ++ b)) with
    | some found =>
      obtain ⟨q, r'⟩ := found
      rw [hm.scan_found hd]
      simp
    | none =>
      rw [scan_step hd]
      have := ih (x := x ++ [d]) (by simpa using h)
      simpa using this

theorem scan_in_word (hm : Reader m) {w read : Text} (hw : ∀ d ∈ w, isWord d = true) (hread : startsInWord read = true)
    (s : Text) :
    scan m 0 read (w ++ s) = scan m 0 (w.reverse ++ read) s := by
  induction w generalizing read with
  | nil => rfl
  | cons d w ih =>
    have hd : startsInWord (d :: read) = true := hw d (by simp)
    rw [List.cons_append, scan_step (hm.within _ hread), ih (fun d hd => hw d (by simp [hd])) hd]
    simp

end Reader

/-! ## The columns of a text -/

/-- All that the three searches find, in the order in which it counts. -/
def labelled (s : Text) : List (Text × Text) := scan plainAt? 0 [] s ++ scan dateAt? 0 [] s ++ labelledCases s

theorem get?_firstOf (key : Text) (found : List (Text × Text)) : Json.get? key (firstOf found) = Json.get? key found := by
  induction found with
  | nil => rfl
  | cons p found ih =>
    obtain ⟨k, v⟩ := p
    unfold Json.get? at ih ⊢
    rw [firstOf, List.find?_cons, List.find?_cons]
    by_cases h : k = key
    · simp [h]
    · have hk : (k == key) = false := by simpa using h
      simp only [hk, ← ih, List.find?_filter]
      congr 2
      funext q
      by_cases hq : q.1 = key
      · simp [hq, Ne.symm h]
      · simp [hq]

theorem get?_columns (key s : Text) : Json.get? key (columns s) = Json.get? key (labelled s) := get?_firstOf key (labelled s)

end ExportQuery.Sql
