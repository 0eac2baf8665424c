/-
  ExportQuery.Proofs.Edit — other text in the place of a run of blanks.

  Conditions take the place of blanks at which no word is cut. Words then stand where they
  stood, on either side; so do tokens, and swapping regions back is as safe after the edit as
  it was before. What holds at a place of the view with tokens holds in the text with regions.

  - `Trimmed`: ink at both ends; a condition that is not blank has it once trimmed.
  - `Gap.infix_iff` / `Filler.infix_iff`: words beside the gap, before and after filling it.
  - `gap_text`: a gap of the view is a gap of the text.
  - `whole_edit` / `apart_edit`: filling a gap keeps tokens whole, and apart from regions.
-/

import ExportQuery.Proofs.Division

namespace ExportQuery.Sql

open ExportQuery.Text

/-! ## Ends of texts -/

section

variable {x y : Text}

theorem not_isBlank_of_trimStart {c : Char} {s : Text} (h : trimStart (c :: s) = c :: s) : isBlank c = false := by
  by_cases hc : isBlank c = true
  · have h₁ : trimStart s = c :: s := by rwa [trimStart, List.dropWhile_cons, if_pos hc] at h
    have h₂ : (s.dropWhile isBlank).length ≤ s.length := (List.dropWhile_suffix isBlank).length_le
    rw [trimStart] at h₁
    rw [h₁, List.length_cons] at h₂
    omega
  · simpa using hc

theorem trimStart_prefix_eq (h : trimStart x = x) (hp : y <+: x) : trimStart y = y := by
  cases y with
  | nil => rfl
  | cons c y =>
    obtain ⟨t, rfl⟩ := hp
    exact trimStart_cons_ink y c (not_isBlank_of_trimStart h)

theorem trimStart_append (h : trimStart x = x) (h0 : x ≠ []) (y : Text) : trimStart (x ++ y) = x ++ y := by
  cases x with
  | nil => exact absurd rfl h0
  | cons c x => exact trimStart_cons_ink (x ++ y) c (not_isBlank_of_trimStart h)

theorem prefix_trimEnd (s : Text) : trimEnd s <+: s := by
  rw [← List.reverse_suffix, trimEnd, List.reverse_reverse]
  exact List.dropWhile_suffix isBlank

theorem trimStart_trim (s : Text) : trimStart (trim s) = trim s :=
  trimStart_prefix_eq (trimStart_trimStart s) (prefix_trimEnd (trimStart s))

/-- The text ends in ink. -/
def EndsInInk (s : Text) : Prop := ∃ c, s.getLast? = some c ∧ isBlank c = false

theorem EndsInInk.right {x y : Text} (h : EndsInInk (x ++ y)) (h0 : y ≠ []) : EndsInInk y := by
  obtain ⟨c, hc, hi⟩ := h
  rw [List.getLast?_append, List.getLast?_eq_some_getLast h0, Option.some_or] at hc
  exact ⟨c, by rw [List.getLast?_eq_some_getLast h0]; exact hc, hi⟩

theorem EndsInInk.not_blank {x w : Text} (h : EndsInInk (x ++ w)) (hw : allBlank w = true) : w = [] := by
  by_contra h0
  obtain ⟨c, hc, hi⟩ := h.right h0
  rw [List.all_eq_true.mp hw c (List.mem_of_getLast? hc)] at hi; cases hi

theorem endsInInk_of_trimEnd {x : Text} (h : trimEnd x = x) (h0 : x ≠ []) : EndsInInk x := by
  refine ⟨x.getLast h0, List.getLast?_eq_some_getLast h0, ?_⟩
  by_contra hb
  have hb : isBlank (x.getLast h0) = true := by simpa using hb
  have e : x = x.dropLast ++ [x.getLast h0] := (List.dropLast_concat_getLast h0).symm
  rw [e, trimEnd_append_blank _ _ hb] at h
  have hl := congrArg List.length h
  have hle : (trimEnd x.dropLast).length ≤ x.dropLast.length := by
    rw [trimEnd, List.length_reverse]
    exact Nat.le_trans (List.dropWhile_suffix isBlank).length_le (by simp)
  simp only [List.length_append, List.length_singleton] at hl
  omega

theorem EndsInInk.append {x : Text} (h : EndsInInk x) (y : Text) : EndsInInk (y ++ x) := by
  obtain ⟨c, hc, hi⟩ := h
  exact ⟨c, by rw [List.getLast?_append, hc]; rfl, hi⟩

/-- Text moved behind another text ends in ink as it did. -/
theorem EndsInInk.swap_left {x y s : Text} (h : EndsInInk (x ++ s)) (hxy : EndsInInk x → EndsInInk y) : EndsInInk (y ++ s) := by
  by_cases hs : s = []
  · rw [hs, List.append_nil] at h ⊢; exact hxy h
  · exact (h.right hs).append y

theorem EndsInInk.trimEnd {x : Text} (h : EndsInInk x) : trimEnd x = x := by
  obtain ⟨c, hc, hi⟩ := h
  obtain ⟨r, rfl⟩ := List.getLast?_eq_some_iff.mp hc
  exact trimEnd_append_ink r c hi

theorem EndsInInk.ne_nil {x : Text} (h : EndsInInk x) : x ≠ [] := by
  rintro rfl
  obtain ⟨c, hc, -⟩ := h
  cases hc

/-- A text with ink at both ends. -/
structure Trimmed (s : Text) : Prop where
  starts : ∃ c r, s = c :: r ∧ isBlank c = false
  ends : EndsInInk s

theorem Trimmed.ne_nil {s : Text} (h : Trimmed s) : s ≠ [] := h.ends.ne_nil

theorem Trimmed.trimStart {s : Text} (h : Trimmed s) (t : Text) : trimStart (s ++ t) = s ++ t := by
  obtain ⟨c, r, rfl, hc⟩ := h.starts
  exact trimStart_cons_ink (r ++ t) c hc

theorem Trimmed.trim {s : Text} (h : Trimmed s) : trim s = s := by
  have hs := h.trimStart []
  rw [List.append_nil] at hs
  rw [Text.trim, hs, h.ends.trimEnd]

theorem Trimmed.append {s t : Text} (hs : Trimmed s) (ht : Trimmed t) (x : Text) : Trimmed (s ++ x ++ t) := by
  obtain ⟨c, r, rfl, hc⟩ := hs.starts
  exact ⟨⟨c, r ++ x ++ t, by simp, hc⟩, ht.ends.append _⟩

theorem trimmed_trim {s : Text} (h : trim s ≠ []) : Trimmed (trim s) := by
  refine ⟨?_, endsInInk_of_trimEnd (trimEnd_trimEnd _) h⟩
  have hs := trimStart_trim s
  cases ht : trim s with
  | nil => exact absurd ht h
  | cons c r =>
    rw [ht] at hs
    exact ⟨c, r, rfl, not_isBlank_of_trimStart hs⟩

end

/-! ## Gaps -/

/-- A run of blanks between two texts that no word reaches across. -/
structure Gap (x w y : Text) : Prop where
  blank : allBlank w = true
  seam : w = [] → Seam x y

/-- A text to put before `y`, no word of which reaches over its ends. -/
structure Filler (ins y : Text) : Prop where
  starts : startsInWord ins = false
  ne_nil : ins ≠ []
  seam : Seam ins y

section

variable {x w ins y pat : Text}

/-- The widest run of blanks holds every other at its start. -/
theorem blanks_before {b w' b' : Text} (hb : trimStart b = b) (hw' : allBlank w' = true) (e : w ++ b = w' ++ b') :
    ∃ v, w = w' ++ v ∧ b' = v ++ b := by
  rcases List.append_eq_append_iff.mp e with ⟨c, rfl, rfl⟩ | ⟨c, rfl, rfl⟩
  · cases c with
    | nil => exact ⟨[], by simp, by simp⟩
    | cons x c =>
      have hx : isBlank x = true := List.all_eq_true.mp hw' x (by simp)
      rw [List.cons_append] at hb
      rw [not_isBlank_of_trimStart hb] at hx; cases hx
  · exact ⟨c, rfl, rfl⟩

/-- The widest run of blanks holds every other at its end. -/
theorem blanks_after {a a' w' : Text} (ha : trimEnd a = a) (hw' : allBlank w' = true) (e : a ++ w = a' ++ w') :
    ∃ v, a' = a ++ v ∧ w = v ++ w' := by
  have ha : trimStart a.reverse = a.reverse := by
    rw [trimEnd] at ha
    have h := congrArg List.reverse ha
    rwa [List.reverse_reverse] at h
  have e : w.reverse ++ a.reverse = w'.reverse ++ a'.reverse := by
    rw [← List.reverse_append, e, List.reverse_append]
  obtain ⟨v, h₁, h₂⟩ := blanks_before ha (by simpa [allBlank] using hw') e
  refine ⟨v.reverse, ?_, ?_⟩
  · rw [← List.reverse_reverse a', h₂]; simp
  · rw [← List.reverse_reverse w, h₁]; simp

theorem startsInWord_blank (h : allBlank w = true) (h0 : w ≠ []) (y : Text) : startsInWord (w ++ y) = false := by
  cases w with
  | nil => exact absurd rfl h0
  | cons c w => exact isWord_of_isBlank (List.all_eq_true.mp h c (by simp))

theorem Gap.left (h : Gap x w y) : Seam x (w ++ y) := by
  by_cases h0 : w = []
  · rw [h0, List.nil_append]; exact h.seam h0
  · exact Or.inr (startsInWord_blank h.blank h0 y)

theorem Gap.right (h : Gap x w y) : Seam (x ++ w) y := by
  by_cases h0 : w = []
  · rw [h0, List.append_nil]; exact h.seam h0
  · exact Or.inl ((endsApart_of_allBlank h.blank).append h0 x)

theorem Gap.shrink {y' : Text} (h : Gap x w y) (hy : y' <+: y) : Gap x w y' :=
  ⟨h.blank, fun h0 => (h.seam h0).shrink_right hy⟩

theorem Filler.left (h : Filler ins y) (x : Text) : Seam x (ins ++ y) := by
  have h0 := h.ne_nil
  have hs := h.starts
  cases ins with
  | nil => exact absurd rfl h0
  | cons c ins => exact Or.inr hs

theorem Filler.right (h : Filler ins y) (x : Text) : Seam (x ++ ins) y := by
  rcases h.seam with he | hy
  · exact Or.inl (he.append h.ne_nil x)
  · exact Or.inr hy

theorem Filler.shrink {y' : Text} (h : Filler ins y) (hy : y' <+: y) : Filler ins y' :=
  ⟨h.starts, h.ne_nil, h.seam.shrink_right hy⟩

theorem not_mem_blank {c : Char} (hc : isBlank c = false) (hw : allBlank w = true) : c ∉ w := fun h => by
  rw [List.all_eq_true.mp hw c h] at hc; cases hc

theorem not_mem_word {t : Text} {c : Char} (hc : isWord c = false) (ht : ∀ d ∈ t, isWord d = true) : c ∉ t := fun h => by
  rw [ht c h] at hc; cases hc

theorem not_infix_blank (hw : ∀ c ∈ pat, isWord c = true) (h0 : pat ≠ []) (hb : allBlank w = true) :
    ¬ pat <:+: w := by
  intro h
  cases pat with
  | nil => exact h0 rfl
  | cons c pat =>
    have hc : isBlank c = true := List.all_eq_true.mp hb c (h.subset (by simp))
    have := hw c (by simp)
    rw [isWord_of_isBlank hc] at this; cases this

theorem Gap.infix_iff (h : Gap x w y) (hw : ∀ c ∈ pat, isWord c = true) (h0 : pat ≠ []) :
    pat <:+: x ++ w ++ y ↔ pat <:+: x ∨ pat <:+: y := by
  rw [h.right.infix_iff hw, (h.left.shrink_right ⟨y, rfl⟩).infix_iff hw]
  simp [not_infix_blank hw h0 h.blank]

theorem Filler.infix_iff (h : Filler ins y) (hw : ∀ c ∈ pat, isWord c = true) :
    pat <:+: x ++ ins ++ y ↔ pat <:+: x ∨ pat <:+: ins ∨ pat <:+: y := by
  rw [(h.right x).infix_iff hw, ((h.left x).shrink_right ⟨y, rfl⟩).infix_iff hw, or_assoc]

/-! ## Tokens beside a gap -/

theorem whole_edit (hg : Gap x w y) (hf : Filler ins y) (h : Whole (x ++ w ++ y)) (hi : Whole ins) :
    Whole (x ++ ins ++ y) := by
  have hx : Whole x := (show Whole (x ++ (w ++ y)) by rwa [← List.append_assoc]).left hg.left
  exact (hx.append hi ((hf.left x).shrink_right ⟨y, rfl⟩)).append h.right (hf.right x)

theorem tokenFree_edit (hg : Gap x w y) (hf : Filler ins y) :
    TokenFree (x ++ ins ++ y) ↔ TokenFree (x ++ w ++ y) ∧ TokenFree ins := by
  have hw : ∀ c ∈ tokenOpening, isWord c = true := fun _ hc => (opening_char hc).1
  unfold TokenFree
  rw [hf.infix_iff hw, hg.infix_iff hw tokenOpening_ne_nil, not_or, not_or, not_or]
  constructor
  · intro ⟨hx, hi, hy⟩
    exact ⟨⟨hx, hy⟩, hi⟩
  · intro ⟨⟨hx, hy⟩, hi⟩
    exact ⟨hx, hi, hy⟩

theorem tokenIndices_edit (hg : Gap x w y) (hf : Filler ins y) (hi : TokenFree ins) :
    tokenIndices (x ++ ins ++ y) = tokenIndices (x ++ w ++ y) := by
  have hw : TokenFree w := not_infix_blank (fun _ hc => (opening_char hc).1) tokenOpening_ne_nil hg.blank
  rw [tokenIndices_append (hf.right x), tokenIndices_append ((hf.left x).shrink_right ⟨y, rfl⟩), tokenIndices_append hg.right,
    tokenIndices_append (hg.left.shrink_right ⟨y, rfl⟩), tokenIndices_of_tokenFree hi, tokenIndices_of_tokenFree hw]

end

/-! ## Gaps of the view -/

namespace Division

variable {name : Nat → Text} {i j : Nat}

theorem Fenced.left {d e : Division} (h : (d ++ e).Fenced) : d.Fenced := fun b hb => h b (by simp [hb])

theorem Fenced.right {d e : Division} (h : (d ++ e).Fenced) : e.Fenced := fun b hb => h b (by simp [hb])

theorem outerAt_of_text_nil {d : Division} (hf : d.Fenced) (h : d.text = []) : d.outerAt name i = [] := by
  induction d with
  | plain s => simpa using h
  | cons p b d _ =>
    obtain ⟨t, rfl⟩ := hf b (by simp)
    rw [text_cons] at h
    simp at h

theorem startsInWord_append {a : Text} (h : a ≠ []) (x y : Text) : startsInWord (a ++ x) = startsInWord (a ++ y) := by
  cases a with
  | nil => exact absurd rfl h
  | cons c a => rfl

theorem startsInWord_text {d : Division} (hf : d.Fenced)
    (h : startsInWord (d.outerAt name i) = false) : startsInWord d.text = false := by
  induction d with
  | plain s => simpa using h
  | cons p b d _ =>
    rw [outerAt_cons, List.append_assoc] at h
    rw [text_cons, List.append_assoc]
    by_cases hp : p = []
    · obtain ⟨t, rfl⟩ := hf b (by simp)
      rw [hp]; exact not_isWord_dash
    · rw [startsInWord_append hp _ (name i ++ d.outerAt name (i + 1))]; exact h

theorem Wordy.endsInInk (hn : Wordy name) (x : Text) (i : Nat) : EndsInInk (x ++ name i) := by
  obtain ⟨h0, hw⟩ := hn i
  exact EndsInInk.append ⟨_, List.getLast?_eq_some_getLast h0, not_isBlank_of_isWord (hw _ (List.getLast_mem h0))⟩ x

theorem Wordy.not_endsApart (hn : Wordy name) (x : Text) (i : Nat) : ¬ EndsApart (x ++ name i) := fun h => by
  obtain ⟨h0, hw⟩ := hn i
  have := h _ (by rw [List.getLast?_append, List.getLast?_eq_some_getLast h0]; rfl)
  rw [hw _ (List.getLast_mem h0)] at this; cases this

/-- The text starts as the view does, or with a region. -/
theorem starts_text {d : Division} (hf : d.Fenced) {c : Char} {t : Text} (h : d.text = c :: t) :
    c = '-' ∨ ∃ t', d.outerAt name i = c :: t' := by
  induction d with
  | plain s => exact Or.inr ⟨t, by simpa using h⟩
  | cons p b d _ =>
    cases p with
    | nil =>
      obtain ⟨r, rfl⟩ := hf b (by simp)
      simp only [text_cons, List.nil_append, List.cons_append, List.cons.injEq] at h
      exact Or.inl h.1.symm
    | cons c' p =>
      simp only [text_cons, List.cons_append, List.cons.injEq] at h
      exact Or.inr ⟨p ++ name i ++ d.outerAt name (i + 1), by rw [← h.1]; simp⟩

/-- A text whose view has no blanks ahead has none. -/
theorem trimStart_text {d : Division} (hf : d.Fenced) (h : trimStart (d.outerAt name i) = d.outerAt name i) :
    trimStart d.text = d.text := by
  cases ht : d.text with
  | nil => rfl
  | cons c t =>
    refine trimStart_cons_ink t c ?_
    have hstart : c = '-' ∨ ∃ t', d.outerAt name i = c :: t' := starts_text hf ht
    rcases hstart with rfl | ⟨t', ht'⟩
    · decide
    · rw [ht'] at h
      exact not_isBlank_of_trimStart h

theorem endsApart_text (hn : Wordy name) {d : Division} {x y : Text} (hxy : EndsApart x → EndsApart y)
    (h : EndsApart (x ++ d.outerAt name i)) : EndsApart (y ++ d.text) := by
  induction d generalizing i x y with
  | plain s =>
    rw [outerAt_plain] at h
    rw [text_plain]
    by_cases hs : s = []
    · rw [hs, List.append_nil] at h ⊢; exact hxy h
    · exact h.suffix.append hs y
  | cons p b d ih =>
    rw [text_cons, ← List.append_assoc]
    refine ih (fun h => absurd h (hn.not_endsApart (x ++ p) i)) (i := i + 1) ?_
    simpa using h

theorem seam_text (hn : Wordy name) {x : Text} {d e : Division} (hf : e.Fenced)
    (h : Seam (x ++ d.outerAt name i) (e.outerAt name j)) : Seam (x ++ d.text) e.text := by
  rcases h with h | h
  · exact Or.inl (endsApart_text hn id h)
  · exact Or.inr (startsInWord_text hf h)

theorem plain_of_outerAt (hn : Wordy name) {d : Division} (h : allBlank (d.outerAt name i) = true) :
    d = plain (d.outerAt name i) := by
  induction d with
  | plain s => rfl
  | cons p b d _ =>
    obtain ⟨h0, hw⟩ := hn i
    refine absurd ⟨p, d.outerAt name (i + 1), ?_⟩ (not_infix_blank hw h0 h)
    simp

theorem outerAt_eq_nil_iff (hn : Wordy name) {d : Division} : d.outerAt name i = [] ↔ d = plain [] := by
  constructor
  · intro h
    have := plain_of_outerAt hn (d := d) (i := i) (by rw [h]; rfl)
    rwa [h] at this
  · rintro rfl; rfl

/-- Nothing is left of the view where nothing is left of the text. -/
theorem outerAt_eq_nil_iff_text (hn : Wordy name) {d : Division} (hf : d.Fenced) : d.outerAt name i = [] ↔ d.text = [] := by
  constructor
  · intro h
    rw [(outerAt_eq_nil_iff hn).mp h, text_plain]
  · exact outerAt_of_text_nil hf

/-- A gap of the view divides the division in three. -/
theorem exists_gap (hn : Wordy name) {d : Division} {a w b : Text} (h : d.outerAt name i = a ++ w ++ b)
    (hg : Gap a w b) :
    ∃ d₁ d₂, d = d₁ ++ plain w ++ d₂ ∧ d₁.outerAt name i = a ∧ d₂.outerAt name (i + d₁.count) = b := by
  obtain ⟨d₁, e, rfl, h₁, he⟩ := exists_append hn (h.trans (List.append_assoc a w b)) hg.left
  obtain ⟨f, d₂, rfl, hf, h₂⟩ := exists_append hn he (hg.right.shrink ⟨a, rfl⟩)
  have hp := plain_of_outerAt hn (hf ▸ hg.blank)
  rw [hf] at hp
  refine ⟨d₁, d₂, by rw [hp, append_assoc], h₁, ?_⟩
  rw [← h₂, hp]; simp

@[simp] theorem cons_inj {p b p' b' : Text} {d d' : Division} :
    cons p b d = cons p' b' d' ↔ p = p' ∧ b = b' ∧ d = d' := by
  obtain ⟨rs, s⟩ := d
  obtain ⟨rs', s'⟩ := d'
  simp [cons, and_assoc]

@[simp] theorem plain_inj {s t : Text} : plain s = plain t ↔ s = t := by simp [plain]

@[simp] theorem plain_ne_cons {s p b : Text} {d : Division} : plain s ≠ cons p b d := by simp [plain, cons]

theorem plain_append_cancel {s : Text} {e e' : Division} (h : plain s ++ e = plain s ++ e') : e = e' := by
  induction e with
  | plain t =>
    induction e' with
    | plain t' => simpa using h
    | cons p b e' _ => rw [plain_append_plain, plain_append_cons] at h; exact absurd h plain_ne_cons
  | cons p b e _ =>
    induction e' with
    | plain t' => rw [plain_append_plain, plain_append_cons] at h; exact absurd h.symm plain_ne_cons
    | cons p' b' e' _ => simpa using h

/-- A view cut inside the first piece is not the view of anything with the first region in it. -/
theorem plain_append_ne (hn : Wordy name) {s p b : Text} {e d : Division} (h : plain s ++ e = cons p b d) (x : Text) :
    s ≠ p ++ name i ++ x := by
  rintro rfl
  have h0 : 0 < (name i).length := List.length_pos_iff.mpr (hn i).1
  induction e with
  | plain t => rw [plain_append_plain] at h; exact absurd h plain_ne_cons
  | cons q c e _ =>
    rw [plain_append_cons, cons_inj] at h
    have := congrArg List.length h.1
    simp only [List.length_append] at this
    omega

/-- Where a division is cut depends on the view of the first part alone. -/
theorem append_inj (hn : Wordy name) {d₁ d₂ e₁ e₂ : Division} (h : d₁ ++ e₁ = d₂ ++ e₂)
    (ho : d₁.outerAt name i = d₂.outerAt name i) : d₁ = d₂ ∧ e₁ = e₂ := by
  induction d₁ generalizing i d₂ with
  | plain s =>
    induction d₂ with
    | plain t =>
      obtain rfl : s = t := by simpa using ho
      exact ⟨rfl, plain_append_cancel h⟩
    | cons p b d _ =>
      rw [cons_append] at h
      exact absurd (by simpa using ho) (plain_append_ne hn h (i := i) (d.outerAt name (i + 1)))
  | cons p b d ih =>
    induction d₂ with
    | plain t =>
      rw [cons_append] at h
      exact absurd (by simpa using ho.symm) (plain_append_ne hn h.symm (i := i) (d.outerAt name (i + 1)))
    | cons p' b' d' _ =>
      rw [cons_append, cons_append, cons_inj] at h
      obtain ⟨rfl, rfl, h⟩ := h
      obtain ⟨rfl, rfl⟩ := ih h (by simpa using ho)
      exact ⟨rfl, rfl⟩

/-- A gap of the view is a gap of the text. -/
theorem gap_text (hn : Wordy name) {x w : Text} {d e : Division} (hf : e.Fenced)
    (h : Gap (x ++ d.outerAt name i) w (e.outerAt name j)) : Gap (x ++ d.text) w e.text :=
  ⟨h.blank, fun h0 => seam_text hn hf (h.seam h0)⟩

theorem filler_text (hn : Wordy name) {ins : Text} {e : Division} (hf : e.Fenced) (h : Filler ins (e.outerAt name i)) :
    Filler ins e.text := by
  have hs : Seam (ins ++ (plain []).outerAt name i) (e.outerAt name i) := by simpa using h.seam
  refine ⟨h.starts, h.ne_nil, ?_⟩
  simpa using seam_text hn hf hs

/-! ## Names beside a gap -/

/-- Whether names stand in the text before their regions does not change with the text `x`
    before all regions, as long as the same names stand in it with a beginning of the rest. -/
theorem apart_congr {x y : Text} {d : Division}
    (h : ∀ k q, q <+: d.text → (name k <:+: x ++ q ↔ name k <:+: y ++ q)) :
    Apart name i x d.regions ↔ Apart name i y d.regions := by
  induction d generalizing i x y with
  | plain s => exact Iff.rfl
  | cons p b d ih =>
    have hp := h i p ⟨b ++ d.text, by simp⟩
    have ih := ih (i := i + 1) (x := x ++ p ++ b) (y := y ++ p ++ b) fun k q ⟨t, ht⟩ => by
      simpa using h k (p ++ b ++ q) ⟨t, by rw [text_cons, ← ht]; simp⟩
    simp only [regions_cons, Apart]
    rw [hp, ih]

theorem apart_append {x : Text} {d e : Division} :
    Apart name i x (d ++ e).regions ↔
      Apart name i x d.regions ∧ Apart name (i + d.count) (x ++ d.text) e.regions := by
  induction d generalizing i x with
  | plain s => induction e <;> simp [Apart]
  | cons p b d ih =>
    simp only [cons_append, regions_cons, Apart, ih, count_cons, text_cons, and_assoc]
    simp [Nat.add_assoc, Nat.add_comm 1]

/-- Filling a gap with text that holds no name keeps names apart from their regions. -/
theorem apart_edit (hn : Wordy name) {x w ins : Text} {d e : Division} (hg : Gap (x ++ d.text) w e.text)
    (hf : Filler ins e.text) (hi : ∀ k, ¬ name k <:+: ins) :
    Apart name i x (d ++ plain ins ++ e).regions ↔ Apart name i x (d ++ plain w ++ e).regions := by
  rw [apart_append, apart_append, apart_append, apart_append]
  have h : ∀ k q, q <+: e.text → (name k <:+: x ++ (d ++ plain ins).text ++ q ↔
      name k <:+: x ++ (d ++ plain w).text ++ q) := by
    intro k q hq
    have h₁ := (hf.shrink hq).infix_iff (x := x ++ d.text) (hn k).2
    have h₂ := (hg.shrink hq).infix_iff (hn k).2 (hn k).1
    simp only [text_append, text_plain, ← List.append_assoc]
    rw [h₁, h₂]
    simp [hi k]
  rw [apart_congr h]
  simp

end Division

end ExportQuery.Sql
