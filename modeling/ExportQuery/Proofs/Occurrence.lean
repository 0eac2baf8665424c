/-
  ExportQuery.Proofs.Occurrence — where a pattern first occurs, and what replacing it leaves.

  A cut is made at the first occurrence and nowhere else, so what stands behind an occurrence
  never moves it. An occurrence is the first when the text before it, continued by the pattern
  without its last character, is free of the pattern.

  - `cut?_eq_some_iff` / `cut?_eq_none_iff`: the cut, in terms of occurrences.
  - `cut?_first`: when an occurrence is the first.
  - `firstAt_cons_iff` / `nowhere_cons_iff`: one character more in front of the place.
  - `seek_firstAt_iff` / `seek_nowhere_iff`: the first place that a test accepts.
-/

import Mathlib.Tactic.Common
import ExportQuery.Text.Search

namespace ExportQuery.Text

/-! ## Occurrences -/

/-- An occurrence in `x ++ y` lies in `x`, in `y`, or starts in `x` and ends in `y`. -/
theorem infix_append_cases {pat x y : Text} (h : pat <:+: x ++ y) :
    pat <:+: x ∨ pat <:+: y ∨ ∃ u v, u ≠ [] ∧ v ≠ [] ∧ pat = u ++ v ∧ u <:+ x ∧ v <+: y := by
  obtain ⟨a, b, e⟩ := h
  rw [List.append_assoc] at e
  rcases List.append_eq_append_iff.mp e with ⟨c, hx, hp⟩ | ⟨c, -, hy⟩
  · rcases List.append_eq_append_iff.mp hp with ⟨d, rfl, -⟩ | ⟨d, hp, hy⟩
    · exact Or.inl ⟨a, d, by simp [hx]⟩
    · by_cases hc : c = []
      · exact Or.inr (Or.inl ⟨[], b, by simp [hp, hy, hc]⟩)
      by_cases hd : d = []
      · exact Or.inl ⟨a, [], by simp [hp, hx, hd]⟩
      exact Or.inr (Or.inr ⟨c, d, hc, hd, hp, ⟨a, hx.symm⟩, ⟨b, hy.symm⟩⟩)
  · exact Or.inr (Or.inl ⟨c, b, by simp [hy]⟩)

/-- The shorter of two beginnings of a text begins the longer one. -/
theorem eq_append_of_le {a b x y : Text} (h : a ++ x = b ++ y) (hl : a.length ≤ b.length) :
    ∃ t, b = a ++ t ∧ x = t ++ y := by
  rcases List.append_eq_append_iff.mp h with ⟨t, rfl, rfl⟩ | ⟨t, rfl, rfl⟩
  · exact ⟨t, rfl, rfl⟩
  · have : t = [] := List.eq_nil_of_length_eq_zero (by simp only [List.length_append] at hl; omega)
    exact ⟨[], by simp [this], by simp [this]⟩

/-- A pattern does not reach across a character it does not hold. -/
theorem infix_across {pat x y : Text} {c : Char} (hc : c ∉ pat) (h : pat <:+: x ++ c :: y) :
    pat <:+: x ∨ pat <:+: y := by
  rcases infix_append_cases h with h | h | ⟨u, v, -, hv, rfl, -, hy⟩
  · exact Or.inl h
  · obtain ⟨a, b, e⟩ := h
    cases a with
    | nil =>
      cases pat with
      | nil => exact Or.inl (List.nil_infix)
      | cons d pat =>
        simp only [List.nil_append, List.cons_append, List.cons.injEq] at e
        exact absurd (by simp [e.1]) hc
    | cons d a =>
      simp only [List.cons_append, List.cons.injEq] at e
      exact Or.inr ⟨a, b, e.2⟩
  · obtain ⟨t, ht⟩ := hy
    cases v with
    | nil => exact absurd rfl hv
    | cons d v =>
      simp only [List.cons_append, List.cons.injEq] at ht
      exact absurd (by simp [ht.1]) hc

theorem isPrefixOf_eq {pat s : Text} : pat.isPrefixOf s = true ↔ ∃ t, s = pat ++ t := by
  rw [List.isPrefixOf_iff_prefix]
  exact ⟨fun ⟨t, h⟩ => ⟨t, h.symm⟩, fun ⟨t, h⟩ => ⟨t, h.symm⟩⟩

/-- What is read of a text while `p` holds ends at the first character that fails it. -/
theorem span_append {p : Char → Bool} {a r : Text} (ha : ∀ c ∈ a, p c = true) (hr : ∀ c ∈ r.head?, p c = false) :
    (a ++ r).takeWhile p = a ∧ (a ++ r).dropWhile p = r := by
  rw [List.takeWhile_append_of_pos ha, List.dropWhile_append_of_pos ha]
  cases r with
  | nil => simp
  | cons c r => simp [hr c rfl]

/-! ## Seams -/

/-- The blank characters, by number. -/
theorem toNat_of_isBlank {c : Char} (h : isBlank c = true) :
    c.toNat ∈ List.range' 9 5 ++ [0x20, 0x85, 0xA0, 0x1680] ++ List.range' 0x2000 11 ++
      [0x2028, 0x2029, 0x202F, 0x205F, 0x3000] := by
  simp only [isBlank, Bool.or_eq_true, Bool.and_eq_true, decide_eq_true_eq, beq_iff_eq] at h
  simp only [List.mem_append, List.mem_range'_1, List.mem_cons, List.not_mem_nil, or_false]
  omega

/-- No blank is a word character. -/
theorem isWord_of_isBlank {c : Char} (h : isBlank c = true) : isWord c = false := by
  have all : ∀ n ∈ List.range' 9 5 ++ [0x20, 0x85, 0xA0, 0x1680] ++ List.range' 0x2000 11 ++
      [0x2028, 0x2029, 0x202F, 0x205F, 0x3000], inRanges n wordRanges = false := by decide +kernel
  exact all _ (toNat_of_isBlank h)

theorem not_isBlank_of_isWord {c : Char} (h : isWord c = true) : isBlank c = false := by
  by_cases hb : isBlank c = true
  · rw [isWord_of_isBlank hb] at h; cases h
  · simpa using hb

theorem startsInWord_eq_false_iff {s : Text} : startsInWord s = false ↔ ∀ c ∈ s.head?, isWord c = false := by
  cases s <;> simp [startsInWord]

/-- The text does not end inside a word. -/
def EndsApart (a : Text) : Prop := ∀ c, a.getLast? = some c → isWord c = false

/-- A place that divides no word. -/
def Seam (a b : Text) : Prop := EndsApart a ∨ startsInWord b = false

theorem EndsApart.append {a : Text} (h : EndsApart a) (h0 : a ≠ []) (x : Text) : EndsApart (x ++ a) := fun c hc =>
  h c (by rwa [List.getLast?_append, List.getLast?_eq_some_getLast h0, Option.some_or,
    ← List.getLast?_eq_some_getLast h0] at hc)

theorem EndsApart.suffix {a x : Text} (h : EndsApart (x ++ a)) : EndsApart a := fun c hc =>
  h c (by rw [List.getLast?_append, hc]; rfl)

theorem EndsApart.nil : EndsApart [] := fun _ h => by simp at h

theorem endsApart_of_allBlank {w : Text} (h : allBlank w = true) : EndsApart w := fun c hc =>
  isWord_of_isBlank (List.all_eq_true.mp h c (List.mem_of_getLast? hc))

theorem endsApart_of_getLast? {a : Text} {c : Char} (h : a.getLast? = some c) (hc : isWord c = false) : EndsApart a :=
  fun d hd => by
    obtain rfl : c = d := by simpa [h] using hd
    exact hc

theorem EndsApart.concat {c : Char} (hc : isWord c = false) (a : Text) : EndsApart (a ++ [c]) := fun d hd => by
  simp only [List.getLast?_append, List.getLast?_singleton, Option.some_or, Option.some.injEq] at hd
  rw [← hd]; exact hc

theorem startsInWord_reverse {a : Text} : startsInWord a.reverse = false ↔ EndsApart a := by
  unfold EndsApart
  rw [← List.head?_reverse]
  cases a.reverse with
  | nil => simp [startsInWord]
  | cons c t => simp [startsInWord]

/-- The texts beside a seam may be cut short on their far sides. -/
theorem Seam.shrink {a e b : Text} (h : Seam a b) (he : e <:+ a) : Seam e b := by
  obtain ⟨t, rfl⟩ := he
  rcases h with h | h
  · exact Or.inl h.suffix
  · exact Or.inr h

theorem Seam.shrink_right {a b e : Text} (h : Seam a b) (he : e <+: b) : Seam a e := by
  obtain ⟨t, rfl⟩ := he
  rcases h with h | h
  · exact Or.inl h
  · cases e with
    | nil => exact Or.inr rfl
    | cons c e => exact Or.inr h

theorem Seam.nil (a : Text) : Seam a [] := Or.inr rfl

/-- No word, and so no part of one, reaches across a seam. -/
theorem Seam.not_across {a b u v : Text} (h : Seam a b) (hu : u ≠ []) (hv : v ≠ []) (ha : u <:+ a) (hb : v <+: b)
    (hw : ∀ c ∈ u ++ v, isWord c = true) : False := by
  obtain ⟨s, rfl⟩ := ha
  obtain ⟨t, rfl⟩ := hb
  rcases h with h | h
  · have := h (u.getLast hu) (by simp [List.getLast?_append, List.getLast?_eq_some_getLast hu])
    rw [hw _ (List.mem_append_left _ (List.getLast_mem hu))] at this; cases this
  · cases v with
    | nil => exact hv rfl
    | cons d v =>
      simp only [startsInWord, List.cons_append] at h
      rw [hw d (by simp)] at h; cases h

/-- A word that stands in the text stands on one side of a seam. -/
theorem Seam.split {a b u v pat : Text} (hs : Seam a b) (hw : ∀ c ∈ pat, isWord c = true) (e : a ++ b = u ++ pat ++ v) :
    (∃ v', a = u ++ pat ++ v' ∧ v = v' ++ b) ∨ ∃ u', b = u' ++ pat ++ v ∧ u = a ++ u' := by
  rw [List.append_assoc] at e
  rcases List.append_eq_append_iff.mp e with ⟨u', rfl, hb⟩ | ⟨t, rfl, ht⟩
  · exact Or.inr ⟨u', by rw [hb, List.append_assoc], rfl⟩
  rcases List.append_eq_append_iff.mp ht with ⟨v', rfl, rfl⟩ | ⟨x, rfl, rfl⟩
  · exact Or.inl ⟨v', by simp, rfl⟩
  · by_cases ht0 : t = []
    · exact Or.inr ⟨[], by simp [ht0], by simp [ht0]⟩
    by_cases hx0 : x = []
    · exact Or.inl ⟨[], by simp [hx0], by simp [hx0]⟩
    exact (hs.not_across ht0 hx0 ⟨u, rfl⟩ ⟨v, rfl⟩ hw).elim

theorem Seam.infix_iff {a b pat : Text} (hs : Seam a b) (hw : ∀ c ∈ pat, isWord c = true) :
    pat <:+: a ++ b ↔ pat <:+: a ∨ pat <:+: b := by
  constructor
  · intro h
    rcases infix_append_cases h with h | h | ⟨u, v, hu, hv, rfl, ha, hb⟩
    · exact Or.inl h
    · exact Or.inr h
    · exact (hs.not_across hu hv ha hb hw).elim
  · rintro (h | h)
    · exact h.trans (List.prefix_append a b).isInfix
    · exact h.trans (List.suffix_append a b).isInfix

/-! ## Cuts -/

theorem cut?_isSome_iff {pat s : Text} : (cut? pat s).isSome = true ↔ pat <:+: s := by
  constructor
  · intro h
    obtain ⟨⟨a, b⟩, h⟩ := Option.isSome_iff_exists.mp h
    exact ⟨a, b, (eq_of_cut? h).symm⟩
  · rintro ⟨a, b, rfl⟩
    induction a with
    | nil =>
      cases pat with
      | nil => cases b <;> rfl
      | cons d pat =>
        have hp : (d :: pat).isPrefixOf ([] ++ (d :: pat) ++ b) = true := isPrefixOf_eq.mpr ⟨b, rfl⟩
        simp only [List.nil_append, List.cons_append] at hp ⊢
        simp [cut?, hp]
    | cons c a ih =>
      simp only [List.cons_append, cut?]
      split
      · rfl
      · simpa using ih

theorem cut?_eq_none_iff {pat s : Text} : cut? pat s = none ↔ ¬ pat <:+: s := by
  rw [← cut?_isSome_iff]; cases cut? pat s <;> simp

/-- No occurrence starts before the cut. -/
theorem cut?_le {pat s a b a' b' : Text} (h : cut? pat s = some (a, b)) (e : s = a' ++ pat ++ b') :
    a.length ≤ a'.length := by
  induction s generalizing a a' b with
  | nil =>
    have := congrArg List.length (eq_of_cut? h)
    simp only [List.length_nil, List.length_append] at this
    omega
  | cons c s ih =>
    simp only [cut?] at h
    split at h
    · simp only [Option.some.injEq, Prod.mk.injEq] at h
      simp [← h.1]
    · rename_i hp
      simp only [Option.map_eq_some_iff, Prod.exists, Prod.mk.injEq] at h
      obtain ⟨a₀, b₀, h, rfl, -⟩ := h
      cases a' with
      | nil => exact absurd (isPrefixOf_eq.mpr ⟨b', by simpa using e⟩) hp
      | cons d a' =>
        simp only [List.cons_append, List.cons.injEq] at e
        have := ih h e.2
        simp only [List.length_cons]; omega

/-- A cut is made where the pattern occurs and not before. -/
theorem cut?_eq_some_iff {pat s a b : Text} :
    cut? pat s = some (a, b) ↔ s = a ++ pat ++ b ∧ ∀ a' b', s = a' ++ pat ++ b' → a.length ≤ a'.length := by
  refine ⟨fun h => ⟨eq_of_cut? h, fun _ _ => cut?_le h⟩, ?_⟩
  rintro ⟨e, h⟩
  obtain ⟨⟨a', b'⟩, hc⟩ := Option.isSome_iff_exists.mp (cut?_isSome_iff.mpr ⟨a, b, e.symm⟩)
  have he := eq_of_cut? hc
  have hl : a.length = a'.length := Nat.le_antisymm (h a' b' he) (cut?_le hc e)
  rw [e, List.append_assoc, List.append_assoc] at he
  obtain ⟨rfl, hb⟩ := List.append_inj he hl
  rw [hc, List.append_cancel_left hb]

/-- Where the text before an occurrence, and the pattern short of its end, hold no occurrence,
    the cut is there. -/
theorem cut?_first {pat x : Text} (h : ¬ pat <:+: x ++ pat.dropLast) (y : Text) :
    cut? pat (x ++ pat ++ y) = some (x, y) := by
  refine cut?_eq_some_iff.mpr ⟨rfl, fun a b e => ?_⟩
  by_cases hl : x.length ≤ a.length
  · exact hl
  refine absurd ?_ h
  have hp : pat ≠ [] := fun e0 => h (by simp [e0])
  have hlen : (a ++ pat).length ≤ (x ++ pat.dropLast).length := by
    have : 0 < pat.length := List.length_pos_iff.mpr hp
    simp only [List.length_append, List.length_dropLast]; omega
  have e' : x ++ pat.dropLast ++ (pat.getLast hp :: y) = a ++ pat ++ b := by
    calc x ++ pat.dropLast ++ (pat.getLast hp :: y) = x ++ (pat.dropLast ++ [pat.getLast hp]) ++ y := by simp
      _ = a ++ pat ++ b := by rw [List.dropLast_concat_getLast hp, e]
  obtain ⟨t, ht⟩ := List.prefix_of_prefix_length_le ⟨b, rfl⟩ (e' ▸ List.prefix_append _ _) hlen
  exact ⟨a, t, ht⟩

/-! ## Replacing -/

theorem replaceFirst_of_cut {pat new s a b : Text} (h : cut? pat s = some (a, b)) :
    replaceFirst pat new s = a ++ new ++ b := by simp [replaceFirst, h]

theorem replaceFirst_of_absent {pat new s : Text} (h : ¬ pat <:+: s) : replaceFirst pat new s = s := by
  simp [replaceFirst, cut?_eq_none_iff.mpr h]

/-! ## First places -/

/-- Behind `head`, the text `a ++ b` is cut where `p` first accepts. -/
structure FirstAt (p : Text → Text → Bool) (head a b : Text) : Prop where
  here : p (head ++ a).reverse b = true
  before : ∀ u v, a = u ++ v → v ≠ [] → p (head ++ u).reverse (v ++ b) = false

/-- Behind `head`, `p` accepts no place of the text. -/
def Nowhere (p : Text → Text → Bool) (head rest : Text) : Prop :=
  ∀ u v, rest = u ++ v → p (head ++ u).reverse v = false

instance (p : Text → Text → Bool) (head a b : Text) : Decidable (FirstAt p head a b) :=
  decidable_of_iff (p (head ++ a).reverse b = true ∧ ∀ n < a.length, p (head ++ a.take n).reverse (a.drop n ++ b) = false) <| by
    constructor
    · rintro ⟨here, before⟩
      refine ⟨here, fun u v e hv => ?_⟩
      have := before u.length (by rw [e, List.length_append]; have := List.length_pos_iff.mpr hv; omega)
      simpa [e] using this
    · intro h
      refine ⟨h.here, fun n hn => h.before _ _ (List.take_append_drop n a).symm ?_⟩
      simpa using hn

/-- The place itself is the first one as soon as the test accepts it. -/
theorem firstAt_nil_iff {p : Text → Text → Bool} {head b : Text} : FirstAt p head [] b ↔ p head.reverse b = true := by
  constructor
  · intro h
    simpa using h.here
  · intro h
    exact ⟨by simpa using h, fun u v e hv => absurd (List.append_eq_nil_iff.mp e.symm).2 hv⟩

/-- A later place is the first one when this one is refused and it is the first from the next on. -/
theorem firstAt_cons_iff {p : Text → Text → Bool} {head a b : Text} {c : Char} :
    FirstAt p head (c :: a) b ↔ p head.reverse (c :: (a ++ b)) = false ∧ FirstAt p (head ++ [c]) a b := by
  constructor
  · intro h
    refine ⟨by simpa using h.before [] (c :: a) rfl (by simp), by simpa using h.here, fun u v e hv => ?_⟩
    simpa using h.before (c :: u) v (by simp [e]) hv
  · rintro ⟨hc, here, before⟩
    refine ⟨by simpa using here, fun u v e hv => ?_⟩
    cases u with
    | nil => rw [List.nil_append] at e; subst e; simpa using hc
    | cons x u =>
      simp only [List.cons_append, List.cons.injEq] at e
      obtain ⟨rfl, rfl⟩ := e
      simpa using before u v rfl hv

theorem nowhere_nil_iff {p : Text → Text → Bool} {head : Text} : Nowhere p head [] ↔ p head.reverse [] = false := by
  constructor
  · intro h
    simpa using h [] [] rfl
  · intro h u v e
    obtain ⟨rfl, rfl⟩ := List.append_eq_nil_iff.mp e.symm
    simpa using h

theorem nowhere_cons_iff {p : Text → Text → Bool} {head rest : Text} {c : Char} :
    Nowhere p head (c :: rest) ↔ p head.reverse (c :: rest) = false ∧ Nowhere p (head ++ [c]) rest := by
  constructor
  · intro h
    refine ⟨by simpa using h [] (c :: rest) rfl, fun u v e => ?_⟩
    simpa using h (c :: u) v (by simp [e])
  · rintro ⟨hc, h⟩ u v e
    cases u with
    | nil => rw [List.nil_append] at e; subst e; simpa using hc
    | cons x u =>
      simp only [List.cons_append, List.cons.injEq] at e
      obtain ⟨rfl, rfl⟩ := e
      simpa using h u v rfl

/-- A place is sought from the left: it is found where the test first accepts. -/
theorem seek_firstAt_iff {p : Text → Text → Bool} {head rest r l : Text} :
    seek p head.reverse rest = some (r, l) ↔ ∃ a, rest = a ++ l ∧ r = (head ++ a).reverse ∧ FirstAt p head a l := by
  induction rest generalizing head with
  | nil =>
    constructor
    · intro h
      simp only [seek, Option.ite_none_right_eq_some, Option.some.injEq, Prod.mk.injEq] at h
      obtain ⟨hp, rfl, rfl⟩ := h
      exact ⟨[], rfl, by simp, firstAt_nil_iff.mpr hp⟩
    · rintro ⟨a, e, rfl, hf⟩
      obtain ⟨rfl, rfl⟩ := List.append_eq_nil_iff.mp e.symm
      simp [seek, firstAt_nil_iff.mp hf]
  | cons c rest ih =>
    have next : c :: head.reverse = (head ++ [c]).reverse := by simp
    by_cases hc : p head.reverse (c :: rest) = true
    · rw [seek, if_pos hc]
      constructor
      · intro h
        simp only [Option.some.injEq, Prod.mk.injEq] at h
        obtain ⟨rfl, rfl⟩ := h
        exact ⟨[], rfl, by simp, firstAt_nil_iff.mpr hc⟩
      · rintro ⟨a, e, rfl, hf⟩
        cases a with
        | nil => simp [e]
        | cons x a =>
          obtain ⟨rfl, rfl⟩ := List.cons.inj e
          have refused := hc.symm.trans (firstAt_cons_iff.mp hf).1
          cases refused
    · rw [seek, if_neg hc, next, ih]
      constructor
      · rintro ⟨a, rfl, rfl, hf⟩
        exact ⟨c :: a, rfl, by simp, firstAt_cons_iff.mpr ⟨by simpa using hc, hf⟩⟩
      · rintro ⟨a, e, rfl, hf⟩
        cases a with
        | nil =>
          rw [List.nil_append] at e
          exact absurd (firstAt_nil_iff.mp hf) (e ▸ hc)
        | cons x a =>
          obtain ⟨rfl, rfl⟩ := List.cons.inj e
          exact ⟨a, rfl, by simp, (firstAt_cons_iff.mp hf).2⟩

theorem seek_nowhere_iff {p : Text → Text → Bool} {head rest : Text} :
    seek p head.reverse rest = none ↔ Nowhere p head rest := by
  induction rest generalizing head with
  | nil => simp [seek, nowhere_nil_iff]
  | cons c rest ih =>
    have next : c :: head.reverse = (head ++ [c]).reverse := by simp
    rw [nowhere_cons_iff, ← ih, ← next]
    by_cases hc : p head.reverse (c :: rest) = true
    · simp [seek, hc]
    · simp [seek, hc]

instance (p : Text → Text → Bool) (head rest : Text) : Decidable (Nowhere p head rest) :=
  decidable_of_iff (seek p head.reverse rest = none) seek_nowhere_iff

/-- The first value found is the value at the first place that has one. -/
theorem seekSome_eq {α : Type} (f : Text → Text → Option α) (read left : Text) :
    seekSome f read left = (seek (fun r l => (f r l).isSome) read left).bind fun (r, l) => f r l := by
  induction left generalizing read with
  | nil =>
    simp only [seekSome, seek]
    rcases Option.eq_none_or_eq_some (f read []) with h | ⟨a, h⟩
    · simp [h]
    · simp [h]
  | cons c left ih =>
    simp only [seekSome, seek]
    rcases Option.eq_none_or_eq_some (f read (c :: left)) with h | ⟨a, h⟩
    · simpa [h] using ih (c :: read)
    · simp [h]

/-- There is one first place. -/
theorem FirstAt.unique {p : Text → Text → Bool} {head a b a' b' : Text} (h : FirstAt p head a b)
    (h' : FirstAt p head a' b') (e : a ++ b = a' ++ b') : a = a' ∧ b = b' := by
  have h₁ := seek_firstAt_iff.mpr ⟨a, rfl, rfl, h⟩
  have h₂ := seek_firstAt_iff.mpr ⟨a', rfl, rfl, h'⟩
  rw [← e, h₁] at h₂
  simp only [Option.some.injEq, Prod.mk.injEq] at h₂
  rw [← h₂.2] at e
  exact ⟨List.append_cancel_right e, h₂.2⟩

theorem seekSome_firstAt_iff {α : Type} {f : Text → Text → Option α} {head rest : Text} {a : α} :
    seekSome f head.reverse rest = some a ↔
      ∃ u v, rest = u ++ v ∧ FirstAt (fun r l => (f r l).isSome) head u v ∧ f (head ++ u).reverse v = some a := by
  rw [seekSome_eq]
  constructor
  · intro h
    obtain ⟨⟨r, l⟩, hs, ha⟩ := Option.bind_eq_some_iff.mp h
    obtain ⟨u, e, rfl, hf⟩ := seek_firstAt_iff.mp hs
    exact ⟨u, l, e, hf, ha⟩
  · rintro ⟨u, v, e, hf, ha⟩
    exact Option.bind_eq_some_iff.mpr ⟨_, seek_firstAt_iff.mpr ⟨u, e, rfl, hf⟩, ha⟩

theorem seekSome_nowhere_iff {α : Type} {f : Text → Text → Option α} {head rest : Text} :
    seekSome f head.reverse rest = none ↔ Nowhere (fun r l => (f r l).isSome) head rest := by
  rw [seekSome_eq, ← seek_nowhere_iff]
  cases h : seek (fun r l => (f r l).isSome) head.reverse rest with
  | none => simp
  | some place =>
    -- a place found has a value
    have := seek_accepts h
    obtain ⟨a, ha⟩ := Option.isSome_iff_exists.mp this
    simp [ha]

/-- Behind nothing, the first value is that of the first place. -/
theorem seekSome_nil_iff {α : Type} {f : Text → Text → Option α} {rest : Text} {a : α} :
    seekSome f [] rest = some a ↔
      ∃ u v, rest = u ++ v ∧ FirstAt (fun r l => (f r l).isSome) [] u v ∧ f u.reverse v = some a :=
  @seekSome_firstAt_iff α f [] rest a

/-- A value found is the value at some place. -/
theorem exists_of_seekSome {α : Type} {f : Text → Text → Option α} {read left : Text} {a : α}
    (h : seekSome f read left = some a) : ∃ r l, f r l = some a := by
  rw [seekSome_eq] at h
  obtain ⟨⟨r, l⟩, -, ha⟩ := Option.bind_eq_some_iff.mp h
  exact ⟨r, l, ha⟩

theorem Nowhere.not_firstAt {p : Text → Text → Bool} {head rest a b : Text} (h : Nowhere p head rest)
    (e : rest = a ++ b) : ¬ FirstAt p head a b := by
  intro h'
  have := h'.here
  rw [h a b e] at this; cases this

end ExportQuery.Text
