/-
  ExportQuery.Proofs.Layers — tokens of the whole text and tokens of a part name the same regions.

  Merging reads the view behind the FROM marker. Nothing it looks for is told from which tokens
  stand there: keywords hold no underscore, a token is a word on either side of a place, opens
  no comment and no parenthesis. So the same placement is found under any names, whether the
  regions before the marker are swapped for tokens or not, as long as the line of the marker
  starts with it. Swapping back then gives the same text.

  - `Alike`: texts behind which words and comments are told alike.
  - `opensClause_renamed`: clauses open at the same places of the division.
  - `placed_renamed`: conditions are placed alike.
  - `restoreRegions_mergeWhere`: both layers of tokens agree.
-/

import ExportQuery.Proofs.MergeTwice
import ExportQuery.Proofs.View

namespace ExportQuery.Sql

open ExportQuery.Text

/-! ## Texts read alike -/

/-- Texts behind which words and comments are told alike. -/
structure Alike (x y : Text) : Prop where
  apart : EndsApart x ↔ EndsApart y
  comment : ∀ q, inComment (x ++ q).reverse = inComment (y ++ q).reverse

section

variable {x y : Text}

theorem Alike.symm (h : Alike x y) : Alike y x := ⟨h.apart.symm, fun q => (h.comment q).symm⟩

theorem Alike.append (h : Alike x y) (p : Text) : Alike (x ++ p) (y ++ p) where
  apart := by
    by_cases h0 : p = []
    · rw [h0, List.append_nil, List.append_nil]; exact h.apart
    · exact ⟨fun ha => ha.suffix.append h0 y, fun ha => ha.suffix.append h0 x⟩
  comment q := by rw [List.append_assoc, List.append_assoc]; exact h.comment (p ++ q)

/-- Behind a word, comments are told from what stands before it and after it. -/
theorem inComment_word {t : Text} (h0 : t ≠ []) (ht : ∀ c ∈ t, isWord c = true) (x q : Text) :
    inComment (x ++ t ++ q).reverse =
      if '\n' ∈ q then inComment q.reverse
      else opensComment false (lineSoFar x.reverse) || opensComment (oddQuotes (lineSoFar x.reverse)) q := by
  have hfeed : '\n' ∉ t := not_mem_word (by decide) ht
  have hdash : '-' ∉ t := not_mem_word (by decide) ht
  have hquote : '\'' ∉ t := not_mem_word (by decide) ht
  unfold inComment
  rw [lineSoFar_append (x ++ t) q]
  split
  · rfl
  · have hline : lineSoFar (x ++ t).reverse = lineSoFar x.reverse ++ t := by rw [lineSoFar_append, if_neg hfeed]
    have hlast := getLast?_ne_dash (x := lineSoFar x.reverse) h0 hdash
    have hhead : t.head? ≠ some '-' := fun h => hdash (List.mem_of_head? h)
    rw [hline, opensComment_append (Or.inl hlast), opensComment_append (Or.inr hhead), opensComment_of_not_mem hdash,
      oddQuotes_append, oddQuotes_of_not_mem hquote]
    simp

/-- One word is as good as another. -/
theorem Alike.word {t u : Text} (h : Alike x y) (ht0 : t ≠ []) (ht : ∀ c ∈ t, isWord c = true) (hu0 : u ≠ [])
    (hu : ∀ c ∈ u, isWord c = true) : Alike (x ++ t) (y ++ u) where
  apart := by
    have inside : ∀ {z t : Text}, t ≠ [] → (∀ c ∈ t, isWord c = true) → ¬ EndsApart (z ++ t) := fun h0 ht h => by
      have := h.suffix _ (List.getLast?_eq_some_getLast h0)
      rw [ht _ (List.getLast_mem h0)] at this; cases this
    exact iff_of_false (inside ht0 ht) (inside hu0 hu)
  comment q := by
    rw [inComment_word ht0 ht, ← inComment_word hu0 hu, List.append_assoc, List.append_assoc]
    exact h.comment (u ++ q)

/-- Behind a FROM marker with nothing but blanks before it on the line, the line is a comment. -/
theorem inComment_marker (h : allBlank (lineSoFar x.reverse) = true) (q : Text) :
    inComment (x ++ fromMarker ++ q).reverse = if '\n' ∈ q then inComment q.reverse else true := by
  unfold inComment
  rw [lineSoFar_append (x ++ fromMarker) q]
  split
  · rfl
  · have hline : lineSoFar (x ++ fromMarker).reverse = lineSoFar x.reverse ++ fromMarker := by
      rw [lineSoFar_append, if_neg (by decide)]
    have hdash := not_mem_blank (w := lineSoFar x.reverse) (c := '-') (by decide) h
    have hquote := not_mem_blank (w := lineSoFar x.reverse) (c := '\'') (by decide) h
    obtain ⟨t, ht⟩ := Division.fromMarker_eq_cons
    have hlast : (lineSoFar x.reverse).getLast? ≠ some '-' := fun hl => hdash (List.mem_of_getLast? hl)
    rw [hline, List.append_assoc, opensComment_append (Or.inl hlast), oddQuotes_of_not_mem hquote, ht]
    simp [opensComment_dashes]

theorem alike_marker (hx : allBlank (lineSoFar x.reverse) = true) (hy : allBlank (lineSoFar y.reverse) = true) :
    Alike (x ++ fromMarker) (y ++ fromMarker) where
  apart := by
    have h0 : fromMarker ≠ [] := by decide
    exact ⟨fun h => h.suffix.append h0 y, fun h => h.suffix.append h0 x⟩
  comment q := by rw [inComment_marker hx, inComment_marker hy]

end

/-! ## Keywords hold no underscore -/

theorem sameLetter_underscore {u : Char} (hu : u.isUpper = true) : sameLetter u '_' = false :=
  forall_upper (M := fun u => sameLetter u '_' = false) (by decide +kernel) hu

theorem Spells.underscore_not_mem {word k : Text} (hw : ∀ u ∈ word, u.isUpper = true) (h : Spells word k) : '_' ∉ k := by
  induction h with
  | nil => simp
  | @cons u c _ _ hc _ ih =>
    rw [List.mem_cons, not_or]
    refine ⟨?_, ih fun v hv => hw v (by simp [hv])⟩
    rintro rfl
    rw [sameLetter_underscore (hw u (by simp))] at hc; cases hc

theorem SpellsPhrase.underscore_not_mem {words : List Text} (hl : Lettered words) {k : Text} (h : SpellsPhrase words k) :
    '_' ∉ k := by
  induction words generalizing k with
  | nil =>
    obtain rfl : k = [] := h
    simp
  | cons word more ih =>
    have hw := (hl word (by simp)).2
    cases more with
    | nil => exact Spells.underscore_not_mem hw h
    | cons word' more =>
      obtain ⟨u, w, v, rfl, hu, -, hb, hv⟩ := h
      have hw' : '_' ∉ w := not_mem_blank (by decide) hb
      have hv' := ih (fun w hw => hl w (by simp [hw])) hv
      simp [hu.underscore_not_mem hw, hw', hv']

namespace Division

variable {name name' : Nat → Text} {i j : Nat}

/-! ## Views read alike -/

theorem alike_outerAt (hn : Wordy name) (hn' : Wordy name') (d : Division) {x y : Text} (h : Alike x y) :
    Alike (x ++ d.outerAt name i) (y ++ d.outerAt name' j) := by
  induction d generalizing i j x y with
  | plain s => exact h.append s
  | cons p b d ih =>
    have h := (h.append p).word (hn i).1 (hn i).2 (hn' j).1 (hn' j).2
    have := ih (i := i + 1) (j := j + 1) h
    simpa using this

/-- Where the line of the text is blank so far, the line of the view is. -/
theorem blank_line_outerAt {d : Division} (hb : ∀ b ∈ d.bodies, EndsInInk b) {x y : Text}
    (hxy : allBlank (lineSoFar x.reverse) = true → allBlank (lineSoFar y.reverse) = true)
    (h : allBlank (lineSoFar (x ++ d.text).reverse) = true) :
    allBlank (lineSoFar (y ++ d.outerAt name i).reverse) = true := by
  induction d generalizing i x y with
  | plain s =>
    rw [text_plain, lineSoFar_append] at h
    rw [outerAt_plain, lineSoFar_append]
    split at h
    · rw [if_pos ‹_›]; exact h
    · rw [if_neg ‹_›]
      simp only [allBlank, List.all_append, Bool.and_eq_true] at h hxy ⊢
      exact ⟨hxy h.1, h.2⟩
  | cons p b d ih =>
    have hnot : ¬ allBlank (lineSoFar (x ++ p ++ b).reverse) = true := by
      intro hl
      obtain ⟨c, hc, hi⟩ := (hb b (by simp)).append (x ++ p)
      have hcn : c ≠ '\n' := by
        rintro rfl
        exact absurd hi (by decide)
      obtain ⟨r, hr⟩ := List.getLast?_eq_some_iff.mp hc
      have hm : c ∈ lineSoFar (x ++ p ++ b).reverse := by
        rw [hr]
        simp [lineSoFar, hcn]
      rw [List.all_eq_true.mp hl c hm] at hi; cases hi
    have := ih (fun b hb' => hb b (by simp [hb'])) (i := i + 1) (x := x ++ p ++ b) (y := y ++ p ++ name i)
      (fun hl => absurd hl hnot) (by simpa using h)
    simpa using this

theorem Proper.ends {d : Division} (h : d.Proper) : ∀ b ∈ d.bodies, EndsInInk b := by
  intro b hb
  obtain ⟨r, hr, rfl⟩ := List.mem_map.mp hb
  obtain ⟨t, ht, -⟩ := h.body r hr
  rw [ht]
  exact EndsInInk.append ⟨'d', by decide, by decide⟩ _

/-- Text without underscores that a view starts with, up to the end of a word, starts any view. -/
theorem starts_renamed (hn : Tokens name) (hn' : Tokens name') {d : Division} {kw r : Text} (hk : '_' ∉ kw)
    (h : d.outerAt name i = kw ++ r) (hr : startsInWord r = false) :
    ∃ r', d.outerAt name' j = kw ++ r' ∧ startsInWord r' = false := by
  induction d with
  | plain s => exact ⟨r, h, hr⟩
  | cons p b d _ =>
    obtain ⟨t, ht⟩ := hn.eq_concat i
    obtain ⟨t', ht'⟩ := hn'.eq_concat j
    have h : p ++ ('_' :: (t ++ '_' :: d.outerAt name (i + 1))) = kw ++ r := by
      rw [← h, outerAt_cons, ht]; simp
    have hword : startsInWord ('_' :: (t ++ '_' :: d.outerAt name (i + 1))) = true := by
      show isWord '_' = true
      decide
    rcases List.append_eq_append_iff.mp h with ⟨v, rfl, hv⟩ | ⟨v, rfl, rfl⟩
    · cases v with
      | nil =>
        rw [List.nil_append] at hv
        rw [← hv, hword] at hr; cases hr
      | cons c v =>
        obtain ⟨rfl, -⟩ := List.cons.inj hv
        exact absurd (by simp) hk
    · cases v with
      | nil =>
        rw [List.nil_append, hword] at hr; cases hr
      | cons c v => exact ⟨c :: v ++ (name' j ++ d.outerAt name' (j + 1)), by simp, hr⟩

theorem opensClause_imp {ks : List Clause} (hn : Tokens name) (hn' : Tokens name') {x y : Text} (h : Alike x y) {d : Division}
    (ho : opensClause ks x.reverse (d.outerAt name i) = true) : opensClause ks y.reverse (d.outerAt name' j) = true := by
  obtain ⟨hr, hc, k, hm, kw, r, hk, e, hs⟩ := opensClause_iff.mp ho
  obtain ⟨r', e', hs'⟩ := starts_renamed hn hn' (j := j) (hk.underscore_not_mem k.lettered) e hs
  have hc' := h.comment []
  rw [List.append_nil, List.append_nil, hc] at hc'
  rw [startsInWord_reverse] at hr
  exact opensClause_iff.mpr ⟨startsInWord_reverse.mpr (h.apart.mp hr), hc'.symm, k, hm, kw, r', hk, e', hs'⟩

/-- Clauses open at the same places of a division under any names. -/
theorem opensClause_renamed {ks : List Clause} (hn : Tokens name) (hn' : Tokens name') {x y : Text} (h : Alike x y)
    (d e : Division) (i j i' j' : Nat) :
    opensClause ks (x ++ d.outerAt name i).reverse (e.outerAt name i') =
      opensClause ks (y ++ d.outerAt name' j).reverse (e.outerAt name' j') := by
  have ha : Alike (x ++ d.outerAt name i) (y ++ d.outerAt name' j) := alike_outerAt hn.wordy hn'.wordy d h
  rw [Bool.eq_iff_iff]
  exact ⟨opensClause_imp hn hn' ha, opensClause_imp hn' hn ha.symm⟩

theorem depth_append (s t : Text) : depth (s ++ t) = depth s + depth t := by
  simp only [depth, List.count_append]
  omega

theorem depth_word {s : Text} (h : ∀ c ∈ s, isWord c = true) : depth s = 0 := by
  have hopen : '(' ∉ s := not_mem_word (by decide) h
  have hclose : ')' ∉ s := not_mem_word (by decide) h
  rw [depth, List.count_eq_zero.mpr hopen, List.count_eq_zero.mpr hclose]
  rfl

theorem depth_renamed (hn : Wordy name) (hn' : Wordy name') (d : Division) :
    depth (d.outerAt name i) = depth (d.outerAt name' j) := by
  induction d generalizing i j with
  | plain s => rfl
  | cons p b d ih =>
    simp only [outerAt_cons, depth_append, depth_word (hn i).2, depth_word (hn' j).2, ih (i := i + 1) (j := j + 1)]

theorem opensOuterClause_append (ks : List Clause) (head u v : Text) :
    opensOuterClause ks head (head ++ u).reverse v = (opensClause ks (head ++ u).reverse v && depth u == 0) := by
  have ht : (head ++ u).reverse.take ((head ++ u).reverse.length - head.length) = u.reverse := by
    rw [List.reverse_append, List.length_append, List.length_reverse, List.length_reverse, Nat.add_sub_cancel,
      ← @List.length_reverse _ u, List.take_left]
  rw [opensOuterClause, ht]
  simp [depth]

/-! ## First places -/

/-- Tests that accept the same places of every division, each under its own names and behind its
    own text, and none inside a word. -/
structure SameTest (p p' : Text → Text → Bool) (x y : Text) (name name' : Nat → Text) (i j : Nat) : Prop where
  same : ∀ d e : Division, p (x ++ d.outerAt name i).reverse (e.outerAt name (i + d.count)) =
    p' (y ++ d.outerAt name' j).reverse (e.outerAt name' (j + d.count))
  apart : ∀ u v, p' (y ++ u).reverse v = true → EndsApart u

section

variable {p p' : Text → Text → Bool} {x y : Text}

theorem firstAt_renamed (h : SameTest p p' x y name name' i j) (hn : Tokens name) (hn' : Wordy name') {d e : Division}
    (hf : FirstAt p x (d.outerAt name i) (e.outerAt name (i + d.count))) :
    FirstAt p' y (d.outerAt name' j) (e.outerAt name' (j + d.count)) := by
  constructor
  · rw [← h.same]; exact hf.here
  · intro u v he hv
    by_contra ho
    have ho : p' (y ++ u).reverse (v ++ e.outerAt name' (j + d.count)) = true := by simpa using ho
    obtain ⟨d₁, d₂, rfl, rfl, rfl⟩ := exists_append hn' he (Or.inl (h.apart u _ ho))
    have hd₂ : d₂.outerAt name (i + d₁.count) ≠ [] := fun h0 => hv (by rw [(outerAt_eq_nil_iff hn.wordy).mp h0]; rfl)
    have hb := hf.before (d₁.outerAt name i) (d₂.outerAt name (i + d₁.count)) (by simp) hd₂
    have hs := h.same d₁ (d₂ ++ e)
    simp only [outerAt_append, count_append, ← Nat.add_assoc] at hb hs ho
    rw [← hs, hb] at ho; cases ho

theorem nowhere_renamed (h : SameTest p p' x y name name' i j) (hn' : Wordy name') {d : Division}
    (hf : Nowhere p x (d.outerAt name i)) : Nowhere p' y (d.outerAt name' j) := by
  intro u v he
  by_contra ho
  have ho : p' (y ++ u).reverse v = true := by simpa using ho
  obtain ⟨d₁, d₂, rfl, rfl, rfl⟩ := exists_append hn' he (Or.inl (h.apart u _ ho))
  have hb := hf (d₁.outerAt name i) (d₂.outerAt name (i + d₁.count)) (by simp)
  rw [← h.same, hb] at ho; cases ho

theorem sameTest_clause (hn : Tokens name) (hn' : Tokens name') (h : Alike x y) (ks : List Clause) :
    SameTest (opensClause ks) (opensClause ks) x y name name' i j where
  same d e := opensClause_renamed hn hn' h d e i j _ _
  apart _ _ ho := (startsInWord_reverse.mp (opensClause_iff.mp ho).1).suffix

theorem sameTest_outerClause (hn : Tokens name) (hn' : Tokens name') (h : Alike x y) (ks : List Clause) :
    SameTest (opensOuterClause ks x) (opensOuterClause ks y) x y name name' i j where
  same d e := by
    rw [opensOuterClause_append, opensOuterClause_append, opensClause_renamed hn hn' h d e i j,
      depth_renamed hn.wordy hn'.wordy d]
  apart u v ho := by
    rw [opensOuterClause_append, Bool.and_eq_true] at ho
    exact (startsInWord_reverse.mp (opensClause_iff.mp ho.1).1).suffix

end

/-! ## Placements -/

section

variable {x y J w ins : Text} {d e : Division}

/-- Conditions are placed alike under any names. -/
theorem placed_renamed (hn : Tokens name) (hn' : Tokens name') (h : Alike x y)
    (hp : Placed x J (d.outerAt name i) w (e.outerAt name (i + d.count)) ins) :
    Placed y J (d.outerAt name' j) w (e.outerAt name' (j + d.count)) ins := by
  generalize ha : d.outerAt name i = a at hp
  generalize hb : e.outerAt name (i + d.count) = b at hp
  have hnil : b = [] ↔ e.outerAt name' (j + d.count) = [] := by
    rw [← hb, outerAt_eq_nil_iff hn.wordy, outerAt_eq_nil_iff hn'.wordy]
  have view : ∀ d : Division, (d ++ plain w ++ e).outerAt name i = d.outerAt name i ++ w ++ e.outerAt name (i + d.count) := by
    intro d; simp
  cases hp with
  | @extending a kw w b opens spelt =>
    have hopen := (opensClause_iff.mp opens.here).1
    obtain ⟨d₁, rfl, rfl⟩ := exists_word hn ha (startsInWord_reverse.mp hopen).suffix (spelt.underscore_not_mem whereWord.2)
    have hf : FirstAt (opensClause [.filter]) x (d₁.outerAt name i) ((plain kw ++ plain w ++ e).outerAt name (i + d₁.count)) := by
      rw [← hb] at opens
      simpa using opens
    have hf := firstAt_renamed (j := j) (sameTest_clause hn hn' h _) hn hn'.wordy hf
    have hp : Placed y J (d₁.outerAt name' j ++ kw) w (e.outerAt name' (j + (d₁ ++ plain kw).count))
        (' ' :: J ++ if e.outerAt name' (j + (d₁ ++ plain kw).count) = [] then [] else " AND ".toList) :=
      .extending (by simpa using hf) spelt
    simp only [hnil]
    simpa using hp
  | @preceding a w b none_opens closes =>
    have hnone : Nowhere (opensClause [.filter]) x ((d ++ plain w ++ e).outerAt name i) := by
      rw [view, ha, hb]; exact none_opens
    have hcl : FirstAt (opensOuterClause [.ordering, .limit] x) x ((d ++ plain w).outerAt name i)
        (e.outerAt name (i + (d ++ plain w).count)) := by
      simp only [outerAt_append, outerAt_plain, count_append, count_plain, Nat.add_zero, ha, hb]
      exact closes
    have hnone := nowhere_renamed (j := j) (sameTest_clause hn hn' h _) hn'.wordy hnone
    have hcl := firstAt_renamed (j := j) (sameTest_outerClause hn hn' h _) hn hn'.wordy hcl
    exact .preceding (by simpa using hnone) (by simpa using hcl)
  | @atEnd a w none_opens none_closes =>
    rw [hnil.mp rfl]
    have hd : ∀ {name : Nat → Text} {i : Nat}, (d ++ plain w).outerAt name i = d.outerAt name i ++ w := by
      intros; simp
    have hnone : Nowhere (opensClause [.filter]) x ((d ++ plain w).outerAt name i) := by rw [hd, ha]; exact none_opens
    have hcl : Nowhere (opensOuterClause [.ordering, .limit] x) x ((d ++ plain w).outerAt name i) := by
      rw [hd, ha]; exact none_closes
    have hnone := nowhere_renamed (j := j) (sameTest_clause hn hn' h _) hn'.wordy hnone
    have hcl := nowhere_renamed (j := j) (sameTest_outerClause hn hn' h _) hn'.wordy hcl
    rw [hd] at hnone hcl
    exact .atEnd hnone hcl

theorem endsInInk_renamed (hn' : Wordy name') {x y : Text} (hxy : EndsInInk x → EndsInInk y)
    (h : EndsInInk (x ++ d.outerAt name i)) : EndsInInk (y ++ d.outerAt name' j) := by
  induction d generalizing i j x y with
  | plain s => exact h.swap_left hxy
  | cons p b d ih =>
    have := ih (i := i + 1) (j := j + 1) (x := x ++ p ++ name i) (fun _ => hn'.endsInInk (y ++ p) j) (by simpa using h)
    simpa using this

theorem trimStart_renamed (hn' : Wordy name') (h : trimStart (d.outerAt name i) = d.outerAt name i) :
    trimStart (d.outerAt name' j) = d.outerAt name' j := by
  induction d with
  | plain s => exact h
  | cons p b d _ =>
    cases p with
    | nil =>
      obtain ⟨h0, hw⟩ := hn' j
      cases hj : name' j with
      | nil => exact absurd hj h0
      | cons c t =>
        rw [outerAt_cons, hj]
        exact trimStart_cons_ink _ c (not_isBlank_of_isWord (hw c (by rw [hj]; simp)))
    | cons c p =>
      rw [outerAt_cons] at h ⊢
      exact trimStart_cons_ink _ c (not_isBlank_of_trimStart h)

theorem widest_renamed (hn : Tokens name) (hn' : Tokens name')
    (hw : Widest (d.outerAt name i) w (e.outerAt name (i + d.count)) ins) :
    Widest (d.outerAt name' j) w (e.outerAt name' (j + d.count)) ins := by
  refine ⟨hw.blank, fun hl => ?_, trimStart_renamed hn'.wordy hw.after⟩
  by_cases h0 : d.outerAt name i = []
  · rw [(outerAt_eq_nil_iff hn.wordy).mp h0]; rfl
  · have := endsInInk_renamed hn'.wordy (j := j) (x := []) (y := []) id (endsInInk_of_trimEnd (hw.before hl) h0)
    exact this.trimEnd

end

theorem Proper.right {d e : Division} (h : (d ++ e).Proper) : e.Proper := by
  induction d with
  | plain s =>
    induction e with
    | plain t =>
      rw [plain_append_plain, proper_plain_iff] at h
      rw [proper_plain_iff]
      rintro a b c rfl
      exact h (s ++ a) b c (by simp)
    | cons p b e _ =>
      rw [plain_append_cons, proper_cons_iff] at h
      rw [proper_cons_iff]
      exact ⟨fun hp => h.1 (hp.trans (List.suffix_append s p).isInfix), h.2⟩
  | cons p b d ih =>
    rw [cons_append, proper_cons_iff] at h
    exact ih h.2.2

end Division

/-! ## Both layers -/

section

variable {s : Text} {d d₁ d₂ : Division} {conditions : List Text}

/-- Where the marker of a text stands outside the regions, it is the first one outside them. -/
theorem markedAt_of_fromClause? (hm : fromClause? s = some (d₁.text ++ fromMarker, d₂.text)) :
    (d₁ ++ Division.plain fromMarker ++ d₂).MarkedAt d₁ d₂ := by
  refine ⟨rfl, ?_⟩
  rintro e₁ e₂ rfl
  obtain ⟨⟨a, b⟩, hcut, hp⟩ := Option.map_eq_some_iff.mp hm
  simp only [Prod.mk.injEq] at hp
  rw [List.append_cancel_right hp.1] at hcut
  exact not_infix_of_cut? (by decide) hcut ⟨e₁.text, e₂.text, by simp⟩

/-- Merging into the view of a text puts a piece between regions behind the marker. -/
theorem exists_merge_view (hm : d.MarkedAt d₁ d₂) (hd : d.Proper) (hj : conjunction conditions ≠ []) :
    ∃ e₁ w e₂ ins, d₂ = e₁ ++ Division.plain w ++ e₂ ∧
      Placed (d₁.outerAt token 0 ++ fromMarker) (conjunction conditions) (e₁.outerAt token d₁.count) w
        (e₂.outerAt token (d₁.count + e₁.count)) ins ∧
      Widest (e₁.outerAt token d₁.count) w (e₂.outerAt token (d₁.count + e₁.count)) ins ∧
      merged (d.outerAt token 0) conditions =
        (d₁ ++ Division.plain fromMarker ++ (e₁ ++ Division.plain ins ++ e₂)).outerAt token 0 := by
  have hn := Division.tokens_token
  obtain ⟨rfl, -⟩ := id hm
  have hmark := (Division.fromClause?_outerAt_iff hn (i := 0)).mpr ⟨d₁, d₂, hm, rfl, rfl⟩
  rw [Nat.zero_add] at hmark
  obtain ⟨a, w, b, ins, e, hp, hw⟩ := exists_placed (trimEnd_head hmark) (conjunction conditions) (d₂.outerAt token d₁.count)
  have hg : Gap a w b := ⟨hw.blank, fun h0 => ((hp.gap hw.blank).seam h0).shrink ⟨_, rfl⟩⟩
  obtain ⟨e₁, e₂, rfl, rfl, rfl⟩ := Division.exists_gap hn.wordy e hg
  refine ⟨e₁, w, e₂, ins, rfl, hp, hw, ?_⟩
  have hview : (d₁ ++ Division.plain fromMarker ++ (e₁ ++ Division.plain w ++ e₂)).outerAt token 0 =
      d₁.outerAt token 0 ++ fromMarker ++ (e₁ ++ Division.plain w ++ e₂).outerAt token d₁.count := by simp
  have hplain := divide_view hn hd (x := (e₁ ++ Division.plain w ++ e₂).outerAt token d₁.count)
    ⟨d₁.outerAt token 0 ++ fromMarker, [], by rw [hview, List.append_nil]⟩
  rw [hview] at hmark ⊢
  rw [merged_placed hmark hplain hj hp hw e]
  simp

/-- Merging into the text puts the same piece between the same regions, and adds no token. -/
theorem merged_text {e₁ e₂ : Division} {w ins : Text} (hs : TokenFree s)
    (hm : fromClause? s = some (d₁.text ++ fromMarker, (e₁ ++ Division.plain w ++ e₂).text)) (hb : ∀ b ∈ d₁.bodies, EndsInInk b)
    (hd : (e₁ ++ Division.plain w ++ e₂).Proper) (hline : allBlank (lineSoFar d₁.text.reverse) = true)
    (hc : ∀ c ∈ conditions, TokenFree c) (hj : conjunction conditions ≠ [])
    (hp : Placed (d₁.outerAt token 0 ++ fromMarker) (conjunction conditions) (e₁.outerAt token d₁.count) w
      (e₂.outerAt token (d₁.count + e₁.count)) ins)
    (hw : Widest (e₁.outerAt token d₁.count) w (e₂.outerAt token (d₁.count + e₁.count)) ins) :
    merged s conditions = d₁.text ++ fromMarker ++ (e₁ ++ Division.plain ins ++ e₂).text ∧
      TokenFree (d₁.text ++ fromMarker ++ (e₁ ++ Division.plain ins ++ e₂).text) := by
  have hn := Division.tokens_token
  have hn' := Division.tokens_tokenFrom (indexAbove s)
  have halike : Alike (d₁.outerAt token 0 ++ fromMarker) (d₁.text ++ fromMarker) :=
    alike_marker (Division.blank_line_outerAt (x := []) (y := []) hb id hline) hline
  have hp' := Division.placed_renamed (j := 0) hn hn' halike hp
  have hw' := Division.widest_renamed (j := 0) hn hn' hw
  rw [Nat.zero_add] at hp' hw'
  let m : Merging (tokenFrom (indexAbove s)) (d₁.text ++ fromMarker) (conjunction conditions)
    (e₁ ++ Division.plain w ++ e₂) := ⟨e₁, w, e₂, ins, rfl, hw.blank, hp'⟩
  have hfree : TokenFree (d₁.text ++ fromMarker ++ (e₁ ++ Division.plain w ++ e₂).text) := (fromClause_joins hm).1 ▸ hs
  have hresult : d₁.text ++ fromMarker ++ m.edited.text = m.result := m.result_eq.symm
  have hmerge : merged s conditions = m.result :=
    m.merged_result hm (divide_text hd) hj hw' hs.clean hc
  exact ⟨hmerge.trans hresult.symm, hresult ▸ m.tokenFree hn'.wordy hd.fenced hfree (tokenFree_conjunction hc)⟩

end

/-- Swapping the regions of the whole text before merging, and back after it, gives what merging
    alone gives, where the first FROM marker stands outside the regions and starts its line. -/
theorem restoreRegions_merged {s : Text} {d₁ d₂ : Division} {conditions : List Text} (hs : TokenFree s)
    (hm : fromClause? s = some (d₁.text ++ fromMarker, d₂.text)) (hd : divide s = d₁ ++ Division.plain fromMarker ++ d₂)
    (hline : allBlank (lineSoFar d₁.text.reverse) = true) (hc : ∀ c ∈ conditions, TokenFree c) :
    restoreRegions (merged (extractRegions s).1 conditions) (extractRegions s).2 = merged s conditions := by
  have hn := Division.tokens_token
  have hproper := hd ▸ divide_proper s
  have htext : s = (d₁ ++ Division.plain fromMarker ++ d₂).text := by rw [← hd, divide_joins]
  have hout : extractRegions s = ((d₁ ++ Division.plain fromMarker ++ d₂).outerAt token 0,
      (d₁ ++ Division.plain fromMarker ++ d₂).bodies) := by
    rw [extractRegions, hd]; rfl
  rw [hout]
  by_cases hj : conjunction conditions = []
  · rw [merged_blank hj, merged_blank hj]
    exact (Division.restoreFrom_of_tokenFree hn hproper.fenced (htext ▸ hs)).trans htext.symm
  obtain ⟨e₁, w, e₂, ins, rfl, hp, hw, hview⟩ := exists_merge_view (markedAt_of_fromClause? hm) hproper hj
  have hbefore : ∀ b ∈ d₁.bodies, EndsInInk b := fun b hb => hproper.ends b (by simp [hb])
  obtain ⟨hmerge, hfree⟩ := merged_text hs hm hbefore hproper.right hline hc hj hp hw
  -- the piece holds no region, so the bodies of the text go back around it
  have hbodies : (d₁ ++ Division.plain fromMarker ++ (e₁ ++ Division.plain w ++ e₂)).bodies =
      (d₁ ++ Division.plain fromMarker ++ (e₁ ++ Division.plain ins ++ e₂)).bodies := by simp
  have hedited : (d₁ ++ Division.plain fromMarker ++ (e₁ ++ Division.plain ins ++ e₂)).text =
      d₁.text ++ fromMarker ++ (e₁ ++ Division.plain ins ++ e₂).text := by simp
  rw [hview, hmerge, hbodies, ← hedited]
  refine Division.restoreFrom_of_tokenFree hn (fun b hb => hproper.fenced b ?_) (hedited ▸ hfree)
  rwa [hbodies]

/-- Merging into the view of a text without tokens overflows only when there are as many regions
    as words. -/
theorem not_overflows_view {d : Division} {conditions : List Text} (hs : TokenFree d.text) (hd : d.Proper)
    (hcount : d.count < indexLimit) :
    ¬ Overflows (d.outerAt token 0) conditions := by
  intro ho
  obtain ⟨-, head, rest, hm, -⟩ := id ho
  have hplain := divide_view Division.tokens_token hd (x := rest) ⟨head, [], by rw [List.append_nil, ← (fromClause_joins hm).1]⟩
  rw [overflows_plain_iff hm hplain, ← mem_tokenIndices_iff] at ho
  have := Division.lt_of_mem_tokenIndices_view hs ho.2
  omega

end ExportQuery.Sql
