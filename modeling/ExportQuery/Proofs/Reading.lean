/-
  ExportQuery.Proofs.Reading — what readers take from the front of a text.

  A reader that succeeds splits the text into what it took and what is left. What it took is a
  spelling of its keyword, a run of blanks, a word; so it takes the same from any other text
  that begins alike, and the place of a clause is told from the characters of its keyword and
  the one behind them.

  - `dropWord?_eq_some_iff`: a keyword is read off where it is spelt.
  - `sameLetter_other`: a character spells one letter alone.
  - `dropBlanks?_eq_some_iff`: blanks are read off as far as they go.
  - `opensClause_iff` / `KeywordAt`: a clause opens at a word of its own outside comments.
-/

import Mathlib.Data.List.Forall2
import ExportQuery.Proofs.Occurrence
import ExportQuery.Sql.Keyword

namespace ExportQuery.Sql

open ExportQuery.Text

/-! ## Spellings -/

/-- The characters `k` spell the upper-case `word` in some case. -/
def Spells (word k : Text) : Prop := List.Forall₂ (fun u c => sameLetter u c = true) word k

theorem Spells.length_eq {word k : Text} (h : Spells word k) : k.length = word.length := (List.Forall₂.length_eq h).symm

theorem dropWord?_eq_some_iff {word s r : Text} : dropWord? word s = some r ↔ ∃ k, Spells word k ∧ s = k ++ r := by
  induction word generalizing s with
  | nil =>
    constructor
    · intro h
      obtain rfl : s = r := by simpa [dropWord?] using h
      exact ⟨[], List.Forall₂.nil, rfl⟩
    · rintro ⟨k, hk, rfl⟩
      have : k = [] := List.eq_nil_of_length_eq_zero hk.length_eq
      simp [dropWord?, this]
  | cons u word ih =>
    cases s with
    | nil =>
      constructor
      · intro h; simp [dropWord?] at h
      · rintro ⟨k, hk, e⟩
        have := hk.length_eq
        rw [(List.append_eq_nil_iff.mp e.symm).1] at this
        simp at this
    | cons c s =>
      simp only [dropWord?]
      constructor
      · intro h
        split at h
        · obtain ⟨k, hk, rfl⟩ := ih.mp h
          exact ⟨c :: k, List.Forall₂.cons ‹_› hk, rfl⟩
        · cases h
      · rintro ⟨k, hk, e⟩
        cases hk with
        | @cons _ c' _ k hc hk =>
          simp only [List.cons_append, List.cons.injEq] at e
          obtain ⟨rfl, rfl⟩ := e
          rw [if_pos hc]
          exact ih.mpr ⟨k, hk, rfl⟩

/-- What holds of each of the letters holds of an upper-case one. -/
theorem forall_upper {M : Char → Prop} (all : ∀ n ∈ List.range' 65 26, M (Char.ofNat n)) {u : Char} (hu : u.isUpper = true) :
    M u := by
  obtain ⟨h₁, h₂⟩ : 'A'.val ≤ u.val ∧ u.val ≤ 'Z'.val := of_decide_eq_true hu
  have h₁ : 65 ≤ u.toNat := h₁
  have h₂ : u.toNat ≤ 90 := h₂
  have := all u.toNat (by simp only [List.mem_range'_1]; omega)
  rwa [Char.ofNat_toNat] at this

/-- The cases of a letter are word characters. -/
theorem isWord_of_sameLetter {u c : Char} (hu : u.isUpper = true) (h : sameLetter u c = true) : isWord c = true := by
  obtain ⟨ha, hb⟩ := forall_upper (M := fun u => isWord u = true ∧ isWord u.toLower = true) (by decide +kernel) hu
  simp only [sameLetter, Bool.or_eq_true, Bool.and_eq_true, beq_iff_eq] at h
  rcases h with ((rfl | rfl) | ⟨-, rfl⟩) | ⟨-, rfl⟩
  · exact ha
  · exact hb
  · decide +kernel
  · decide +kernel

/-- The letter that a character spells. -/
def letterOf (c : Char) : Char := if c = 'ſ' then 'S' else if c = '\u212A' then 'K' else c.toUpper

theorem letterOf_of_sameLetter {u c : Char} (hu : u.isUpper = true) (h : sameLetter u c = true) : letterOf c = u := by
  obtain ⟨ha, hb⟩ := forall_upper (M := fun u => letterOf u = u ∧ letterOf u.toLower = u) (by decide +kernel) hu
  simp only [sameLetter, Bool.or_eq_true, Bool.and_eq_true, beq_iff_eq] at h
  rcases h with ((rfl | rfl) | ⟨rfl, rfl⟩) | ⟨rfl, rfl⟩
  · exact ha
  · exact hb
  · rfl
  · rfl

/-- A character that spells one letter spells no other one. -/
theorem sameLetter_other {u v c : Char} (h : sameLetter u c = true) (hu : u.isUpper = true) (hv : v.isUpper = true)
    (hne : u ≠ v) :
    sameLetter v c = false := by
  by_contra h'
  have h' : sameLetter v c = true := by simpa using h'
  exact hne ((letterOf_of_sameLetter hu h).symm.trans (letterOf_of_sameLetter hv h'))

theorem not_isBlank_of_sameLetter {u c : Char} (hu : u.isUpper = true) (h : sameLetter u c = true) : isBlank c = false :=
  not_isBlank_of_isWord (isWord_of_sameLetter hu h)

/-! ## Blanks -/

theorem dropBlanks?_eq_some_iff {s r : Text} :
    dropBlanks? s = some r ↔ ∃ w, w ≠ [] ∧ allBlank w = true ∧ s = w ++ r ∧ trimStart r = r := by
  cases s with
  | nil =>
    constructor
    · intro h; cases h
    · rintro ⟨w, h0, -, e, -⟩
      exact absurd (List.append_eq_nil_iff.mp e.symm).1 h0
  | cons c s =>
    simp only [dropBlanks?]
    constructor
    · intro h
      split at h
      · rename_i hc
        obtain rfl : trimStart s = r := by simpa using h
        refine ⟨c :: s.takeWhile isBlank, by simp, ?_, ?_, trimStart_trimStart s⟩
        · simp [allBlank, hc]
        · rw [List.cons_append, trimStart, List.takeWhile_append_dropWhile]
      · cases h
    · rintro ⟨w, h0, hw, e, hr⟩
      cases w with
      | nil => exact absurd rfl h0
      | cons d w =>
        simp only [List.cons_append, List.cons.injEq] at e
        obtain ⟨rfl, rfl⟩ := e
        simp only [allBlank, List.all_cons, Bool.and_eq_true] at hw
        rw [if_pos hw.1, trimStart_blanks_append hw.2]
        exact congrArg some hr

/-! ## Keywords of clauses -/

/-- The characters `k` spell the words, blanks between them. -/
def SpellsPhrase : List Text → Text → Prop
  | [], k => k = []
  | [word], k => Spells word k
  | word :: more, k => ∃ u w v, k = u ++ w ++ v ∧ Spells word u ∧ w ≠ [] ∧ allBlank w = true ∧ SpellsPhrase more v

/-- Words of upper-case letters. -/
def Lettered (words : List Text) : Prop := ∀ word ∈ words, word ≠ [] ∧ ∀ u ∈ word, u.isUpper = true

theorem Clause.lettered (k : Clause) : Lettered k.words := by
  have all : ∀ k : Clause, ∀ word ∈ k.words, (!word.isEmpty && word.all Char.isUpper) = true := by
    intro k
    cases k <;> decide
  intro word h
  have := all k word h
  simp only [Bool.and_eq_true, Bool.not_eq_true', List.isEmpty_eq_false_iff] at this
  exact ⟨this.1, List.all_eq_true.mp this.2⟩

theorem Spells.word {word k : Text} (hw : ∀ u ∈ word, u.isUpper = true) (h : Spells word k) :
    ∀ c ∈ k, isWord c = true := by
  induction h with
  | nil => intro c hc; cases hc
  | cons hc _ ih =>
    intro c hm
    rcases List.mem_cons.mp hm with rfl | hm
    · exact isWord_of_sameLetter (hw _ (by simp)) hc
    · exact ih (fun u hu => hw u (by simp [hu])) c hm

theorem Spells.ink {word k : Text} (hw : ∀ u ∈ word, u.isUpper = true) (h : Spells word k) :
    ∀ c ∈ k, isBlank c = false := fun c hc => not_isBlank_of_isWord (h.word hw c hc)

theorem Spells.ne_nil {word k : Text} (h0 : word ≠ []) (h : Spells word k) : k ≠ [] := by
  have hl := h.length_eq
  have : 0 < word.length := List.length_pos_iff.mpr h0
  exact List.length_pos_iff.mp (by omega)

theorem Spells.starts {word k : Text} (hw : word ≠ [] ∧ ∀ u ∈ word, u.isUpper = true) (h : Spells word k) :
    ∃ c s, k = c :: s ∧ isWord c = true := by
  have hk := h.word hw.2
  have h0 := h.ne_nil hw.1
  cases k with
  | nil => exact absurd rfl h0
  | cons c s => exact ⟨c, s, rfl, hk c (by simp)⟩

/-- A spelling ends in a case of the last letter. -/
theorem Spells.last {word k : Text} {u : Char} (h : Spells word k) (hl : word.getLast? = some u) :
    ∃ s c, k = s ++ [c] ∧ sameLetter u c = true := by
  obtain ⟨word, rfl⟩ := List.getLast?_eq_some_iff.mp hl
  clear hl
  induction word generalizing k with
  | nil =>
    cases h with
    | @cons _ c _ _ hc h =>
      cases h
      exact ⟨[], c, rfl, hc⟩
  | cons _ word ih =>
    cases h with
    | @cons _ d _ k _ h =>
      obtain ⟨s, c, rfl, hc⟩ := ih h
      exact ⟨d :: s, c, rfl, hc⟩

theorem SpellsPhrase.starts {words : List Text} (hl : Lettered words) (h0 : words ≠ []) {k : Text}
    (h : SpellsPhrase words k) : ∃ c s, k = c :: s ∧ isWord c = true := by
  cases words with
  | nil => exact absurd rfl h0
  | cons word more =>
    have hu := hl word (by simp)
    cases more with
    | nil => exact Spells.starts hu h
    | cons word' more =>
      obtain ⟨k₁, w, v, rfl, hk, -, -, -⟩ := h
      obtain ⟨c, s, rfl, hc⟩ := Spells.starts hu hk
      exact ⟨c, s ++ w ++ v, by simp, hc⟩

theorem trimStart_of_starts {k : Text} (h : ∃ c s, k = c :: s ∧ isWord c = true) (r : Text) :
    trimStart (k ++ r) = k ++ r := by
  obtain ⟨c, s, rfl, hc⟩ := h
  exact trimStart_cons_ink _ c (not_isBlank_of_isWord hc)

theorem dropPhrase?_eq_some_iff {words : List Text} (hl : Lettered words) (h0 : words ≠ []) {s r : Text} :
    dropPhrase? words s = some r ↔ ∃ k, SpellsPhrase words k ∧ s = k ++ r ∧ startsInWord r = false := by
  induction words generalizing s with
  | nil => exact absurd rfl h0
  | cons word more ih =>
    cases more with
    | nil =>
      simp only [dropPhrase?, Option.filter_eq_some_iff, dropWord?_eq_some_iff, SpellsPhrase, Bool.not_eq_true']
      constructor
      · rintro ⟨⟨k, hk, e⟩, hr⟩; exact ⟨k, hk, e, hr⟩
      · rintro ⟨k, hk, e, hr⟩; exact ⟨⟨k, hk, e⟩, hr⟩
    | cons word' more =>
      have hl' : Lettered (word' :: more) := fun w hw => hl w (by simp [hw])
      have ih := @ih hl' (by simp)
      simp only [dropPhrase?, Option.bind_eq_some_iff, dropWord?_eq_some_iff, dropBlanks?_eq_some_iff]
      constructor
      · rintro ⟨r₁, ⟨k, hk, rfl⟩, r₂, ⟨w, h0, hw, rfl, -⟩, h⟩
        obtain ⟨v, hv, rfl, hr⟩ := ih.mp h
        exact ⟨k ++ w ++ v, ⟨k, w, v, rfl, hk, h0, hw, hv⟩, by simp, hr⟩
      · rintro ⟨_, ⟨k, w, v, rfl, hk, h0, hw, hv⟩, rfl, hr⟩
        refine ⟨w ++ v ++ r, ⟨k, hk, by simp⟩, v ++ r, ⟨w, h0, hw, by simp, ?_⟩, ih.mpr ⟨v, hv, rfl, hr⟩⟩
        exact trimStart_of_starts (hv.starts hl' (by simp)) r

theorem Clause.words_ne_nil (k : Clause) : k.words ≠ [] := by cases k <;> simp [Clause.words]

/-- A clause opens at a word of its own outside comments. -/
theorem opensClause_iff {ks : List Clause} {read left : Text} :
    opensClause ks read left = true ↔ startsInWord read = false ∧ inComment read = false ∧
      ∃ k ∈ ks, ∃ kw r, SpellsPhrase k.words kw ∧ left = kw ++ r ∧ startsInWord r = false := by
  simp only [opensClause, Bool.and_eq_true, List.any_eq_true, Bool.not_eq_true']
  constructor
  · rintro ⟨⟨k, hk, h⟩, hc⟩
    unfold Clause.after? at h
    split at h
    · cases h
    rename_i hr
    obtain ⟨r, h⟩ := Option.isSome_iff_exists.mp h
    obtain ⟨kw, h⟩ := (dropPhrase?_eq_some_iff k.lettered k.words_ne_nil).mp h
    exact ⟨by simpa using hr, hc, k, hk, kw, r, h⟩
  · rintro ⟨hr, hc, k, hk, kw, r, h⟩
    refine ⟨⟨k, hk, ?_⟩, hc⟩
    rw [Clause.after?, hr]
    exact Option.isSome_iff_exists.mpr ⟨r, (dropPhrase?_eq_some_iff k.lettered k.words_ne_nil).mpr ⟨kw, h⟩⟩

/-- Behind `x`, the text `y` starts with the keyword of one of the clauses, a word of its own
    outside comments. -/
def KeywordAt (ks : List Clause) (x y : Text) : Prop :=
  EndsApart x ∧ inComment x.reverse = false ∧
    ∃ k ∈ ks, ∃ kw r, SpellsPhrase k.words kw ∧ y = kw ++ r ∧ startsInWord r = false

theorem keywordAt_iff {ks : List Clause} {x y : Text} : KeywordAt ks x y ↔ opensClause ks x.reverse y = true := by
  rw [opensClause_iff, startsInWord_reverse]
  exact Iff.rfl

theorem not_keywordAt_iff {ks : List Clause} {x y : Text} : ¬ KeywordAt ks x y ↔ opensClause ks x.reverse y = false := by
  rw [keywordAt_iff, Bool.not_eq_true]

instance (ks : List Clause) (x y : Text) : Decidable (KeywordAt ks x y) := decidable_of_iff' _ keywordAt_iff

theorem whereWord : "WHERE".toList ≠ [] ∧ ∀ u ∈ "WHERE".toList, u.isUpper = true := ⟨by decide, List.all_eq_true.mp (by decide)⟩

theorem asWord : "AS".toList ≠ [] ∧ ∀ u ∈ "AS".toList, u.isUpper = true := ⟨by decide, List.all_eq_true.mp (by decide)⟩

theorem spells_where : Spells "WHERE".toList "WHERE".toList := by
  unfold Spells
  decide

/-- What opens with a clause starts in a word. -/
theorem starts_of_opensClause {ks : List Clause} {read left : Text} (h : opensClause ks read left = true) :
    ∃ c t, left = c :: t ∧ isWord c = true := by
  obtain ⟨-, -, k, -, kw, r, hk, rfl, -⟩ := opensClause_iff.mp h
  obtain ⟨c, s, rfl, hc⟩ := hk.starts k.lettered k.words_ne_nil
  exact ⟨c, s ++ r, rfl, hc⟩

theorem trimStart_of_opensClause {ks : List Clause} {read left : Text} (h : opensClause ks read left = true) :
    trimStart left = left := by
  obtain ⟨c, t, rfl, hc⟩ := starts_of_opensClause h
  exact trimStart_cons_ink t c (not_isBlank_of_isWord hc)

end ExportQuery.Sql
