/-
  ExportQuery.Proofs.Clauses — clauses open where they opened, after an edit between them.

  Whether a clause opens at a place depends on the character before, the line before and the
  keyword there. Text that takes the place of blanks leaves all three as they were: before it
  no keyword reaches into it, in it no keyword stands, behind it lines are read alike.

  - `bars_of_blank` / `bars_filter` / `bars_grouping`: texts that keywords do not reach into.
  - `opensClause_append_blank`: blanks at the end of the text make no difference.
  - `comments_behind_word` / `comments_ahead`: comments stay where they are.
  - `opensClause_of_bars`: a clause opens ahead of such a text as ahead of another.
  - `nowhere_edit` / `firstAt_edit`: no clause opens earlier than before.
-/

import ExportQuery.Proofs.Comment
import ExportQuery.Proofs.Edit

namespace ExportQuery.Sql

open ExportQuery.Text

/-! ## Keywords do not reach into an edit -/

/-- The text is empty or starts with a blank. -/
def StartsBlank (s : Text) : Prop := ∀ c t, s = c :: t → isBlank c = true

/-- No keyword that starts in `x` goes on into `s`. -/
def Bars (ks : List Clause) (x s : Text) : Prop :=
  ∀ k ∈ ks, ∀ v kw r, v <:+ x → SpellsPhrase k.words kw → v ++ s = kw ++ r → ∃ v', v = kw ++ v' ∧ r = v' ++ s

/-- One word does not reach into blanks. -/
theorem Spells.not_into {word kw v s r : Text} (hw : ∀ u ∈ word, u.isUpper = true) (hk : Spells word kw) (hs : StartsBlank s)
    (e : v ++ s = kw ++ r) : ∃ v', v = kw ++ v' ∧ r = v' ++ s := by
  rcases List.append_eq_append_iff.mp e with ⟨x, rfl, hx⟩ | ⟨v', rfl, hr⟩
  · cases x with
    | nil => exact ⟨[], by simp, by rw [hx]; rfl⟩
    | cons c x =>
      have hc := hk.ink hw c (by simp)
      rw [hs c (x ++ r) hx] at hc; cases hc
  · exact ⟨v', rfl, hr⟩

/-- Two words, the second a BY, reach into blanks only where the BY comes behind those. -/
theorem not_into_of_two {word u ws y v s r : Text} (hw : ∀ c ∈ word, c.isUpper = true) (hu : Spells word u)
    (hb : allBlank ws = true) (hy : Spells "BY".toList y) (hs : StartsBlank s)
    (hstop : ∀ v₁ x, v = u ++ v₁ → allBlank v₁ = true → allBlank x = true → s ≠ x ++ (y ++ r))
    (e : v ++ s = u ++ ws ++ y ++ r) : ∃ v', v = u ++ ws ++ y ++ v' ∧ r = v' ++ s := by
  have e : v ++ s = u ++ (ws ++ (y ++ r)) := by rw [e]; simp
  obtain ⟨v₁, rfl, hv⟩ := hu.not_into hw hs e
  rcases List.append_eq_append_iff.mp hv with ⟨v₂, rfl, hr⟩ | ⟨x, rfl, hx⟩
  · obtain ⟨v', rfl, hr'⟩ := hy.not_into (List.all_eq_true.mp (by decide)) hs hr.symm
    exact ⟨v', by simp, hr'⟩
  · simp only [allBlank, List.all_append, Bool.and_eq_true] at hb
    exact absurd hx (hstop v₁ x rfl hb.1 hb.2)

/-- A text bars keywords when it starts with a blank and BY comes behind the first word of none. -/
theorem bars_of_startsBlank {ks : List Clause} {x s : Text} (hs : StartsBlank s)
    (hstop : ∀ k ∈ ks, ∀ word u v₁ z y r, k.words = [word, "BY".toList] → Spells word u → u ++ v₁ <:+ x → allBlank v₁ = true →
      allBlank z = true → Spells "BY".toList y → s ≠ z ++ (y ++ r)) : Bars ks x s := by
  intro k hm v kw r hv hk e
  have hl := k.lettered
  have one : ∀ word, k.words = [word] → ∃ v', v = kw ++ v' ∧ r = v' ++ s := by
    intro word hword
    rw [hword] at hk hl
    exact Spells.not_into (hl word (by simp)).2 hk hs e
  have two : ∀ word, k.words = [word, "BY".toList] → ∃ v', v = kw ++ v' ∧ r = v' ++ s := by
    intro word hword
    rw [hword] at hk hl
    obtain ⟨u, ws, y, rfl, hu, -, hb, hy⟩ := hk
    refine not_into_of_two (hl word (by simp)).2 hu hb hy hs (fun v₁ z e₁ h₁ hz => ?_) e
    exact hstop k hm word u v₁ z y r hword hu (e₁ ▸ hv) h₁ hz hy
  cases k with
  | filter => exact one _ rfl
  | limit => exact one _ rfl
  | grouping => exact two _ rfl
  | ordering => exact two _ rfl

/-- Blanks do, where they end in no BY. -/
theorem bars_of_blank {c d : Char} {r : Text} (hc : isBlank c = true) (hd : isBlank d = false) (hB : sameLetter 'B' d = false)
    (ks : List Clause) (x : Text) : Bars ks x (c :: d :: r) := by
  refine bars_of_startsBlank (fun c' t e => ?_) fun k _ word u v₁ z y r' _ _ _ _ hz hy e => ?_
  · obtain ⟨rfl, -⟩ := List.cons.inj e
    exact hc
  · have hy : Spells ['B', 'Y'] y := hy
    cases hy with
    | @cons _ b _ y hb _ =>
      have hbi : isBlank b = false := not_isBlank_of_sameLetter (by decide) hb
      have h₁ : trimStart (c :: d :: r) = d :: r := by
        rw [trimStart, List.dropWhile_cons, if_pos hc]
        exact trimStart_cons_ink r d hd
      have h₂ : trimStart (z ++ (b :: y ++ r')) = b :: y ++ r' :=
        (trimStart_blanks_append hz _).trans (trimStart_cons_ink _ b hbi)
      rw [e, h₂] at h₁
      simp only [List.cons_append, List.cons.injEq] at h₁
      rw [← h₁.1, hb] at hB; cases hB

/-- A WHERE is one word; blanks bar it. -/
theorem bars_filter {s : Text} (hs : StartsBlank s) (x : Text) : Bars [.filter] x s :=
  bars_of_startsBlank hs fun k hk word _ _ _ _ _ hword => by
    obtain rfl : k = .filter := by simpa using hk
    simp [Clause.words] at hword

theorem Spells.endsInInk {word k : Text} (hw : word ≠ [] ∧ ∀ u ∈ word, u.isUpper = true) (h : Spells word k) : EndsInInk k :=
  ⟨_, List.getLast?_eq_some_getLast (h.ne_nil hw.1), h.ink hw.2 _ (List.getLast_mem _)⟩

/-- A text does not end in a WHERE and in a word that ends in another letter. -/
theorem not_where_of_last {a kw z k word : Text} {u : Char} (hkw : Spells "WHERE".toList kw) (hk : Spells word k)
    (hl : word.getLast? = some u) (hu : u.isUpper = true ∧ u ≠ 'E') : a ++ kw ≠ z ++ k := by
  intro e
  obtain ⟨s, c, rfl, hc⟩ := hkw.last (u := 'E') rfl
  obtain ⟨s', c', rfl, hc'⟩ := hk.last hl
  rw [← List.append_assoc, ← List.append_assoc] at e
  obtain ⟨-, e⟩ := List.append_inj' e rfl
  obtain rfl : c = c' := by simpa using e
  rw [sameLetter_other hc' hu.1 (by decide) hu.2] at hc; cases hc

/-- Behind a WHERE, no GROUP BY goes on into blanks. -/
theorem bars_grouping {z kw s : Text} (hs : StartsBlank s) (hkw : Spells "WHERE".toList kw) : Bars [.grouping] (z ++ kw) s := by
  refine bars_of_startsBlank hs fun k hk word u v₁ x y r hword hu hv hv₁ _ _ _ => ?_
  obtain rfl : k = .grouping := by simpa using hk
  obtain rfl : word = "GROUP".toList := (List.cons.inj hword).1.symm
  obtain ⟨t, ht⟩ := hv
  have hend : EndsInInk (t ++ u ++ v₁) := by
    rw [List.append_assoc, ht]
    exact (hkw.endsInInk whereWord).append z
  rw [hend.not_blank hv₁, List.append_nil] at ht
  exact not_where_of_last (u := 'P') hkw hu rfl (by decide) ht.symm

theorem SpellsPhrase.not_endsApart {words : List Text} (hl : Lettered words) (h0 : words ≠ []) {kw : Text}
    (hk : SpellsPhrase words kw) (x : Text) : ¬ EndsApart (x ++ kw) := by
  induction words generalizing kw x with
  | nil => exact absurd rfl h0
  | cons word more ih =>
    cases more with
    | nil =>
      obtain ⟨hw0, hw⟩ := hl word (by simp)
      have hk : Spells word kw := hk
      have hne := hk.ne_nil hw0
      intro h
      have := h _ (by rw [List.getLast?_append, List.getLast?_eq_some_getLast hne]; rfl)
      rw [hk.word hw _ (List.getLast_mem hne)] at this; cases this
    | cons word' more =>
      obtain ⟨u, ws, y, rfl, -, -, -, hy⟩ := hk
      rw [← List.append_assoc]
      exact ih (fun w hw => hl w (by simp [hw])) (by simp) hy (x ++ (u ++ ws))

theorem SpellsPhrase.endsInInk {words : List Text} (hl : Lettered words) (h0 : words ≠ []) {kw : Text}
    (hk : SpellsPhrase words kw) : EndsInInk kw := by
  by_contra hi
  refine hk.not_endsApart hl h0 [] fun c hc => ?_
  by_contra hw
  exact hi ⟨c, hc, not_isBlank_of_isWord (by simpa using hw)⟩

/-! ## Blanks at the end of the text -/

theorem startsInWord_append_blank {r w : Text} (hw : allBlank w = true) : startsInWord (r ++ w) = startsInWord r := by
  cases r with
  | nil =>
    by_cases h0 : w = []
    · rw [h0]; rfl
    · have := startsInWord_blank hw h0 []
      rwa [List.append_nil] at this
  | cons c r => rfl

/-- Blanks at the end of the text open and hide no clause. -/
theorem opensClause_append_blank (ks : List Clause) (read y : Text) {w : Text} (hw : allBlank w = true) :
    opensClause ks read (y ++ w) = opensClause ks read y := by
  rw [Bool.eq_iff_iff, opensClause_iff, opensClause_iff]
  constructor
  · rintro ⟨hr, hc, k, hm, kw, r, hk, e, hs⟩
    have hink := hk.endsInInk k.lettered k.words_ne_nil
    rcases List.append_eq_append_iff.mp e with ⟨t, rfl, rfl⟩ | ⟨r', rfl, rfl⟩
    · -- the keyword does not go on into the blanks
      simp only [allBlank, List.all_append, Bool.and_eq_true] at hw
      obtain rfl : t = [] := hink.not_blank hw.1
      exact ⟨hr, hc, k, hm, y, [], by simpa using hk, by simp, rfl⟩
    · rw [startsInWord_append_blank hw] at hs
      exact ⟨hr, hc, k, hm, kw, r', hk, rfl, hs⟩
  · rintro ⟨hr, hc, k, hm, kw, r, hk, rfl, hs⟩
    refine ⟨hr, hc, k, hm, kw, r ++ w, hk, List.append_assoc _ _ _, ?_⟩
    rw [startsInWord_append_blank hw]; exact hs

theorem firstAt_append_blank {ks : List Clause} {head a b w : Text} (hw : allBlank w = true) :
    FirstAt (opensClause ks) head a (b ++ w) ↔ FirstAt (opensClause ks) head a b := by
  constructor
  · intro h
    refine ⟨?_, fun u v e hv => ?_⟩
    · rw [← opensClause_append_blank ks _ b hw]; exact h.here
    · rw [← opensClause_append_blank ks _ _ hw, List.append_assoc]; exact h.before u v e hv
  · intro h
    refine ⟨?_, fun u v e hv => ?_⟩
    · rw [opensClause_append_blank ks _ b hw]; exact h.here
    · rw [← List.append_assoc, opensClause_append_blank ks _ _ hw]; exact h.before u v e hv

/-! ## Comments behind an edit -/

/-- Text behind a word that stands outside leaves comments where they are, when it ends outside. -/
theorem comments_behind_word {z t w ins : Text} (hz : Outside z) (h0 : t ≠ []) (ht : ∀ c ∈ t, isWord c = true)
    (hw : allBlank w = true) (hi : Outside ins) (hfirst : ins.head? ≠ some '-') (hlast : (z ++ t ++ ins).getLast? ≠ some '-')
    (u : Text) : inComment (z ++ t ++ ins ++ u).reverse = inComment (z ++ t ++ w ++ u).reverse := by
  have hdash : '-' ∉ t := not_mem_word (by decide) ht
  have hzt : Outside (z ++ t) := hz.skip hdash (not_mem_word (by decide) ht)
  have hdw := not_mem_blank (w := w) (c := '-') (by decide) hw
  have hztw : Outside (z ++ t ++ w) := hzt.skip hdw (not_mem_blank (by decide) hw)
  refine (hzt.append hi (Or.inr hfirst)).inComment_congr hztw hlast (Or.inl ?_)
  rw [List.append_assoc]
  exact getLast?_ne_dash (by simp [h0]) (by simp [hdash, hdw])

/-- So does text that ends a line, ahead of text that stands outside. -/
theorem comments_ahead {z w u : Text} (x : Text) (hz : Outside (z ++ w)) (hu : u.head? ≠ some '-') :
    inComment (z ++ (x ++ ['\n']) ++ u).reverse = inComment (z ++ w ++ u).reverse := by
  have feed : Outside (z ++ (x ++ ['\n'])) := by
    rw [← List.append_assoc]
    exact outside_feed _
  refine feed.inComment_congr hz ?_ (Or.inr hu)
  rw [← List.append_assoc]
  exact getLast?_ne_dash (by decide) (by decide)

/-! ## Other text behind a keyword -/

/-- A clause that opens ahead of text that bars keywords opens ahead of any other text there
    that divides no word. -/
theorem opensClause_of_bars {ks : List Clause} {read x v s s' : Text} (h : opensClause ks read (v ++ s) = true)
    (hs : Bars ks x s) (hx : v <:+ x) (hv : Seam v s') : opensClause ks read (v ++ s') = true := by
  obtain ⟨hr, hc, k, hm, kw, r, hk, e, hs'⟩ := opensClause_iff.mp h
  obtain ⟨v', rfl, rfl⟩ := hs k hm v kw r hx hk e
  refine opensClause_iff.mpr ⟨hr, hc, k, hm, kw, v' ++ s', hk, by simp, ?_⟩
  by_cases h0 : v' = []
  · subst h0
    rw [List.append_nil] at hv
    rcases hv with hv | hv
    · exact absurd hv (hk.not_endsApart k.lettered k.words_ne_nil [])
    · exact hv
  · cases v' with
    | nil => exact absurd rfl h0
    | cons c v' => exact hs'

/-! ## Clauses behind an edit -/

/-- An edit at a gap as clauses see it that open in the text through `y`. -/
structure Unseen (ks : List Clause) (x w ins y z : Text) : Prop where
  gap : Gap x w (y ++ z)
  filler : Filler ins (y ++ z)
  bars : Bars ks x (ins ++ (y ++ z))
  quiet : ∀ u v, ins = u ++ v → v ≠ [] → opensClause ks (x ++ u).reverse (v ++ (y ++ z)) = false
  lines : ∀ u v, y = u ++ v → startsInWord (v ++ z) = true →
    inComment (x ++ ins ++ u).reverse = inComment (x ++ w ++ u).reverse

section

variable {ks : List Clause} {head a w ins y z : Text}

theorem startsInWord_append_reverse {u : Text} (h : u ≠ []) (x x' : Text) :
    startsInWord (x ++ u).reverse = startsInWord (x' ++ u).reverse := by
  rw [List.reverse_append, List.reverse_append]
  cases hu : u.reverse with
  | nil => exact absurd (List.reverse_eq_nil_iff.mp hu) h
  | cons c t => rfl

theorem Unseen.startsInWord_behind {x : Text} (h : Unseen ks x w ins y z) {u v : Text} (e : y = u ++ v)
    (hv : startsInWord (v ++ z) = true) : startsInWord (x ++ ins ++ u).reverse = startsInWord (x ++ w ++ u).reverse := by
  by_cases h0 : u = []
  · subst h0
    rw [List.nil_append] at e
    subst e
    have h₁ : EndsApart (x ++ ins) := by
      rcases h.filler.right x with hs | hs
      · exact hs
      · rw [hv] at hs; cases hs
    have h₂ : EndsApart (x ++ w) := by
      rcases h.gap.right with hs | hs
      · exact hs
      · rw [hv] at hs; cases hs
    rw [List.append_nil, List.append_nil, startsInWord_reverse.mpr h₁, startsInWord_reverse.mpr h₂]
  · exact startsInWord_append_reverse h0 _ _

theorem Unseen.behind {x : Text} (h : Unseen ks x w ins y z) {u v : Text} (e : y = u ++ v) :
    opensClause ks (x ++ ins ++ u).reverse (v ++ z) = opensClause ks (x ++ w ++ u).reverse (v ++ z) := by
  have hsame : ∀ k ∈ ks, ∀ kw r, SpellsPhrase k.words kw → v ++ z = kw ++ r →
      startsInWord (x ++ ins ++ u).reverse = startsInWord (x ++ w ++ u).reverse ∧
        inComment (x ++ ins ++ u).reverse = inComment (x ++ w ++ u).reverse := by
    intro k _ kw r hk hv
    obtain ⟨c, t, rfl, hc⟩ := hk.starts k.lettered k.words_ne_nil
    have hw : startsInWord (v ++ z) = true := by rw [hv]; exact hc
    exact ⟨h.startsInWord_behind e hw, h.lines u v e hw⟩
  rw [Bool.eq_iff_iff, opensClause_iff, opensClause_iff]
  constructor
  · rintro ⟨hr, hc, k, hm, kw, r, hk, hv, hs⟩
    obtain ⟨h₁, h₂⟩ := hsame k hm kw r hk hv
    exact ⟨h₁ ▸ hr, h₂ ▸ hc, k, hm, kw, r, hk, hv, hs⟩
  · rintro ⟨hr, hc, k, hm, kw, r, hk, hv, hs⟩
    obtain ⟨h₁, h₂⟩ := hsame k hm kw r hk hv
    exact ⟨h₁ ▸ hr, h₂ ▸ hc, k, hm, kw, r, hk, hv, hs⟩

theorem Unseen.before (h : Unseen ks (head ++ a) w ins y z) {u v : Text} (e : a = u ++ v)
    (hn : opensClause ks (head ++ u).reverse (v ++ (w ++ (y ++ z))) = false) :
    opensClause ks (head ++ u).reverse (v ++ (ins ++ (y ++ z))) = false := by
  by_contra ho
  have ho : opensClause ks (head ++ u).reverse (v ++ (ins ++ (y ++ z))) = true := by simpa using ho
  have hs : Seam v (w ++ (y ++ z)) := h.gap.left.shrink ⟨head ++ u, by rw [e]; simp⟩
  rw [opensClause_of_bars ho h.bars ⟨head ++ u, by rw [e]; simp⟩ hs] at hn
  cases hn

/-- A place of the edited text is quiet, or opens no clause that a place as far from the end of
    the first text did not. -/
theorem Unseen.place (h : Unseen ks (head ++ a) w ins y z) {u v : Text} (e : a ++ ins ++ y = u ++ v) :
    opensClause ks (head ++ u).reverse (v ++ z) = false ∨
      ∃ u₀ v₀, a ++ w ++ y = u₀ ++ v₀ ∧ (v₀ = v ∨ v₀ ≠ []) ∧
        (opensClause ks (head ++ u₀).reverse (v₀ ++ z) = false → opensClause ks (head ++ u).reverse (v ++ z) = false) := by
  rw [List.append_assoc] at e
  rcases List.append_eq_append_iff.mp e with ⟨u', rfl, hu'⟩ | ⟨v', rfl, rfl⟩
  · rcases List.append_eq_append_iff.mp hu' with ⟨u, rfl, rfl⟩ | ⟨v', rfl, rfl⟩
    · -- behind the edit
      refine Or.inr ⟨a ++ w ++ u, v, by simp, Or.inl rfl, fun hn => ?_⟩
      have hb := h.behind (u := u) (v := v) rfl
      simp only [List.append_assoc] at hb hn ⊢
      rw [hb]; exact hn
    · by_cases h0 : v' = []
      · subst h0
        refine Or.inr ⟨a ++ w, y, rfl, Or.inl rfl, fun hn => ?_⟩
        have hb := h.behind (u := []) (v := y) rfl
        simp only [List.append_assoc, List.append_nil, List.nil_append] at hb hn ⊢
        rw [hb]; exact hn
      · -- in the text put in
        left
        have hq := h.quiet u' v' rfl h0
        simp only [List.append_assoc] at hq ⊢
        exact hq
  · by_cases h0 : v' = []
    · subst h0
      left
      have hq := h.quiet [] ins rfl h.filler.ne_nil
      simpa using hq
    · -- before the edit
      refine Or.inr ⟨u, v' ++ (w ++ y), by simp, Or.inr (by simp [h0]), fun hn => ?_⟩
      have hb := h.before (u := u) (v := v') rfl
      simp only [List.append_assoc] at hb hn ⊢
      exact hb hn

theorem nowhere_edit (h : Unseen ks (head ++ a) w ins y []) (hn : Nowhere (opensClause ks) head (a ++ w ++ y)) :
    Nowhere (opensClause ks) head (a ++ ins ++ y) := by
  intro u v e
  have hp := h.place e
  simp only [List.append_nil] at hp
  rcases hp with hp | ⟨u₀, v₀, e₀, -, hp⟩
  · exact hp
  · exact hp (hn u₀ v₀ e₀)

/-- A clause that opened behind the edit is still the first to open. -/
theorem firstAt_edit (h : Unseen ks (head ++ a) w ins y z) (hf : FirstAt (opensClause ks) head (a ++ w ++ y) z) :
    FirstAt (opensClause ks) head (a ++ ins ++ y) z := by
  constructor
  · have hb := h.behind (u := y) (v := []) (by simp)
    have hh := hf.here
    simp only [List.append_assoc, List.nil_append] at hb hh ⊢
    rw [hb]; exact hh
  · intro u v e hv
    rcases h.place e with hp | ⟨u₀, v₀, e₀, hv₀, hp⟩
    · exact hp
    · refine hp (hf.before u₀ v₀ e₀ ?_)
      rcases hv₀ with rfl | h0
      · exact hv
      · exact h0

end

end ExportQuery.Sql
