/-
  ExportQuery.Proofs.Token — tokens in a text: which there are, and where one first occurs.

  A token is made of word characters and its opening holds no digit. So an occurrence that
  starts left of a token and reaches into it would need a digit of its own inside the opening
  of that token, and no token first occurs by overlapping another one from the left unless a
  whole token stands there already.

  - `token_inj`: tokens that start the same text have the same index.
  - `token_first`: in a text of whole tokens, a token absent from the text before a place
    first occurs at that place.
  - `tokenIndices_append`: the indices found on either side of a seam.
  - `Clean.mem_tokenIndices`: in a clean text, the indices found are those of its tokens.
  - `Clean.lt_indexAbove`: the index after the largest one found is above all of them.
-/

import Mathlib.Data.List.Infix
import ExportQuery.Sql.Region
import ExportQuery.Proofs.Occurrence

namespace ExportQuery.Sql

open ExportQuery.Text

/-! ## Characters of tokens -/

theorem opening_char {c : Char} (h : c ∈ tokenOpening) : isWord c = true ∧ c.isDigit = false := by
  have all : tokenOpening.all (fun c => isWord c && !c.isDigit) = true := by decide
  simpa using List.all_eq_true.mp all c h

theorem tokenOpening_ne_nil : tokenOpening ≠ [] := by decide

theorem closing_char {c : Char} (h : c ∈ tokenClosing) : c = '_' := by
  have all : tokenClosing.all (· == '_') = true := by decide
  simpa using List.all_eq_true.mp all c h

/-- The ASCII digits, by number. -/
theorem toNat_of_isDigit {c : Char} (h : c.isDigit = true) : c.toNat ∈ List.range' 48 10 := by
  simp only [Char.isDigit, Bool.and_eq_true, decide_eq_true_eq] at h
  have h₁ : 48 ≤ c.toNat := h.1
  have h₂ : c.toNat ≤ 57 := h.2
  simp only [List.mem_range'_1]
  omega

theorem isWord_of_isDigit {c : Char} (h : c.isDigit = true) : isWord c = true := by
  have all : ∀ n ∈ List.range' 48 10, inRanges n wordRanges = true := by decide
  exact all _ (toNat_of_isDigit h)

theorem isDecimalDigit_of_isDigit {c : Char} (h : c.isDigit = true) : isDecimalDigit c = true := by
  have all : ∀ n ∈ List.range' 48 10, inRanges n digitRanges = true := by decide
  exact all _ (toNat_of_isDigit h)

/-- Whether each of the first ranges lies in one of the others, both in ascending order. -/
def rangesWithin : List (Nat × Nat) → List (Nat × Nat) → Bool
  | [], _ => true
  | _ :: _, [] => false
  | (a, b) :: more, (lo, hi) :: ranges =>
    lo ≤ a && if hi < a then rangesWithin ((a, b) :: more) ranges else b ≤ hi && rangesWithin more ((lo, hi) :: ranges)
termination_by l ranges => l.length + ranges.length

theorem inRanges_of_rangesWithin {n : Nat} {l ranges : List (Nat × Nat)} (h : rangesWithin l ranges = true)
    (hn : inRanges n l = true) : inRanges n ranges = true := by
  fun_induction rangesWithin l ranges with
  | case1 => cases hn
  | case2 => cases h
  | case3 a b more lo hi ranges ih₁ ih₂ =>
    simp only [Bool.and_eq_true, decide_eq_true_eq] at h
    obtain ⟨hlo, h⟩ := h
    have ha : ¬ n < a := fun hlt => by
      rw [inRanges, if_pos hlt] at hn
      cases hn
    rw [inRanges, if_neg (by omega), Bool.or_eq_true, decide_eq_true_eq]
    split at h
    · exact Or.inr (ih₁ h hn)
    · rename_i hhi
      simp only [Bool.and_eq_true, decide_eq_true_eq] at h
      rw [inRanges, if_neg ha, Bool.or_eq_true, decide_eq_true_eq] at hn
      rcases hn with hn | hn
      · exact Or.inl (hn.trans h.1)
      · have := ih₂ h.2 hn
        rwa [inRanges, if_neg (by omega), Bool.or_eq_true, decide_eq_true_eq] at this

theorem isWord_of_isDecimalDigit {c : Char} (h : isDecimalDigit c = true) : isWord c = true :=
  inRanges_of_rangesWithin (by decide +kernel) h

theorem isWord_token {i : Nat} {c : Char} (h : c ∈ token i) : isWord c = true := by
  simp only [token, List.mem_append] at h
  rcases h with (h | h) | h
  · exact (opening_char h).1
  · exact isWord_of_isDigit (isDigit_decimal i c h)
  · rw [closing_char h]; decide

theorem not_isWord_dash : isWord '-' = false := by decide

theorem dash_not_mem_token (k : Nat) : '-' ∉ token k := fun h => by
  have := isWord_token h
  rw [not_isWord_dash] at this; cases this

theorem token_eq_cons (k : Nat) : ∃ t, token k = '_' :: t := ⟨_, rfl⟩

theorem decimal_eq_cons (n : Nat) : ∃ d ds, decimal n = d :: ds ∧ d.isDigit = true := by
  cases h : decimal n with
  | nil => exact absurd h (decimal_ne_nil n)
  | cons d ds => exact ⟨d, ds, rfl, isDigit_decimal n d (by simp [h])⟩

theorem token_ne_nil (i : Nat) : token i ≠ [] := by simp [token, decimal_ne_nil]

theorem opening_prefix_token (i : Nat) : tokenOpening <+: token i := by simp [token, List.append_assoc]

/-! ## Reading tokens back -/

theorem digitsValue_decimal (n : Nat) : digitsValue (decimal n) = n :=
  Nat.ofDigitChars_ten_toDigits (n := n)

/-- Digits before another character are as many as there are. -/
theorem takeWhile_decimal {p : Char → Bool} (hp : ∀ c, c.isDigit = true → p c = true) (hn : p '_' = false) (n : Nat)
    (x : Text) : (decimal n ++ tokenClosing ++ x).takeWhile p = decimal n ∧
      (decimal n ++ tokenClosing ++ x).dropWhile p = tokenClosing ++ x := by
  rw [List.append_assoc]
  refine span_append (fun c hc => hp c (isDigit_decimal n c hc)) fun c hc => ?_
  obtain rfl : '_' = c := Option.some.inj hc
  exact hn

theorem decimal_inj {i j : Nat} {x y : Text} (h : decimal i ++ tokenClosing ++ x = decimal j ++ tokenClosing ++ y) :
    i = j ∧ x = y := by
  have hi := takeWhile_decimal (p := Char.isDigit) (fun _ h => h) (by decide) i x
  have hj := takeWhile_decimal (p := Char.isDigit) (fun _ h => h) (by decide) j y
  rw [h] at hi
  have hd : decimal i = decimal j := hi.1.symm.trans hj.1
  refine ⟨?_, List.append_cancel_left (hi.2.symm.trans hj.2)⟩
  rw [← digitsValue_decimal i, hd, digitsValue_decimal]

theorem token_inj {i j : Nat} {x y : Text} (h : token i ++ x = token j ++ y) : i = j ∧ x = y := by
  simp only [token, List.append_assoc] at h
  exact decimal_inj (by simpa using List.append_cancel_left h)

theorem readDecimal?_decimal (n : Nat) : readDecimal? (decimal n) = some n := by
  have hall : (decimal n).all Char.isDigit = true := List.all_eq_true.mpr (isDigit_decimal n)
  simp [readDecimal?, decimal_ne_nil, hall, digitsValue_decimal]

theorem dropStart?_append (pat s : Text) : dropStart? pat (pat ++ s) = some s := by
  have : pat.isPrefixOf (pat ++ s) = true := isPrefixOf_eq.mpr ⟨s, rfl⟩
  simp [dropStart?, this]

theorem eq_of_dropStart? {pat s r : Text} (h : dropStart? pat s = some r) : s = pat ++ r := by
  simp only [dropStart?] at h
  split at h
  · obtain ⟨t, rfl⟩ := isPrefixOf_eq.mp ‹_›
    simp only [List.drop_left, Option.some.injEq] at h
    rw [h]
  · cases h

theorem tokenAt?_token {i : Nat} (h : i < indexLimit) (x : Text) : tokenAt? (token i ++ x) = some (some i, x) := by
  obtain ⟨ht, hd⟩ := takeWhile_decimal (p := isDecimalDigit) (fun _ => isDecimalDigit_of_isDigit) (by decide) i x
  have e : token i ++ x = tokenOpening ++ (decimal i ++ tokenClosing ++ x) := by simp [token]
  simp only [tokenAt?, e, dropStart?_append, ht, hd]
  simp [decimal_ne_nil, readDecimal?_decimal, h]

/-- A run of decimal digits, of whatever script. -/
def Digits (ds : Text) : Prop := ds ≠ [] ∧ ∀ c ∈ ds, isDecimalDigit c = true

theorem not_isDecimalDigit_underscore : isDecimalDigit '_' = false := by decide

/-- A token is a word, whatever digits it is written in. -/
theorem Digits.word {ds : Text} (h : Digits ds) : ∀ c ∈ tokenOpening ++ ds ++ tokenClosing, isWord c = true := by
  intro c hc
  simp only [List.mem_append] at hc
  rcases hc with (hc | hc) | hc
  · exact (opening_char hc).1
  · exact isWord_of_isDecimalDigit (h.2 c hc)
  · rw [closing_char hc]; decide

theorem tokenAt?_eq_some_iff {s r : Text} {o : Option Nat} :
    tokenAt? s = some (o, r) ↔
      ∃ ds, Digits ds ∧ s = tokenOpening ++ ds ++ tokenClosing ++ r ∧ o = (readDecimal? ds).filter (· < indexLimit) := by
  constructor
  · intro h
    simp only [tokenAt?] at h
    split at h
    · cases h
    rename_i u hu
    split at h
    · cases h
    rename_i h0
    obtain ⟨r', hr, e⟩ := Option.map_eq_some_iff.mp h
    simp only [Prod.mk.injEq] at e
    obtain ⟨ho, rfl⟩ := e
    refine ⟨u.takeWhile isDecimalDigit, ⟨by simpa using h0, List.all_eq_true.mp List.all_takeWhile⟩, ?_, ho.symm⟩
    rw [eq_of_dropStart? hu, List.append_assoc, List.append_assoc, ← eq_of_dropStart? hr, List.takeWhile_append_dropWhile]
  · rintro ⟨ds, ⟨h0, hd⟩, rfl, rfl⟩
    have hend : ∀ c ∈ (tokenClosing ++ r).head?, isDecimalDigit c = false := by
      intro c hc
      obtain rfl : '_' = c := Option.some.inj hc
      exact not_isDecimalDigit_underscore
    obtain ⟨ht, hw⟩ := span_append hd hend
    rw [List.append_assoc, List.append_assoc]
    simp [tokenAt?, dropStart?_append, ht, hw, h0]

/-! ## Whole tokens -/

/-- No token, and nothing that opens like one. -/
def TokenFree (s : Text) : Prop := ¬ tokenOpening <:+: s

instance (s : Text) : Decidable (TokenFree s) := by unfold TokenFree; exact inferInstance

/-- Every opening in the text starts a token. -/
def Whole (s : Text) : Prop := ∀ a u, s = a ++ tokenOpening ++ u → ∃ k v, u = decimal k ++ tokenClosing ++ v

theorem TokenFree.whole {s : Text} (h : TokenFree s) : Whole s := fun a u e => absurd ⟨a, u, e.symm⟩ h

theorem TokenFree.within {s t : Text} (h : TokenFree t) (hs : s <:+: t) : TokenFree s := fun ho => h (ho.trans hs)

theorem TokenFree.token {s : Text} (h : TokenFree s) (i : Nat) : ¬ token i <:+: s :=
  fun ht => h ((opening_prefix_token i).isInfix.trans ht)

theorem tokenFree_append_iff {x y : Text} (h : Seam x y) : TokenFree (x ++ y) ↔ TokenFree x ∧ TokenFree y := by
  unfold TokenFree
  rw [h.infix_iff fun _ hc => (opening_char hc).1, not_or]

/-- An occurrence of a token that starts left of another one has its opening, and more, to the
    left of it. -/
theorem opening_left {i j : Nat} {x y a b : Text} (h : x ++ (token j ++ y) = a ++ (token i ++ b))
    (hl : a.length < x.length) :
    ∃ u, u ≠ [] ∧ x = a ++ tokenOpening ++ u ∧ u ++ (token j ++ y) = decimal i ++ tokenClosing ++ b := by
  obtain ⟨d, ds, hd, hdig⟩ := decimal_eq_cons i
  have not_opening : ∀ u v w : Text, tokenOpening = u ++ v → v ≠ [] → decimal i ++ tokenClosing ++ b ≠ v ++ w := by
    intro u v w ho hv e
    cases v with
    | nil => exact hv rfl
    | cons c v =>
      simp only [hd, List.cons_append, List.cons.injEq] at e
      have := (opening_char (c := d) (by rw [ho, e.1]; simp)).2
      rw [hdig] at this; cases this
  rcases List.append_eq_append_iff.mp h with ⟨c, ha, -⟩ | ⟨c, hx, e⟩
  · rw [ha, List.length_append] at hl; omega
  have hc : c ≠ [] := by
    intro h0
    rw [hx, h0, List.append_nil] at hl
    omega
  have e' : tokenOpening ++ (decimal i ++ tokenClosing ++ b) = c ++ (token j ++ y) := by rw [← e]; simp [token]
  rcases List.append_eq_append_iff.mp e' with ⟨u, hu, e₂⟩ | ⟨f, ho, e₂⟩
  · refine ⟨u, ?_, by simp [hx, hu], e₂.symm⟩
    rintro rfl
    exact not_opening [] tokenOpening (decimal j ++ tokenClosing ++ y) rfl (by decide) (by rw [e₂]; simp [token])
  · -- the place's own opening would start inside this one
    have e₃ : f ++ (decimal i ++ tokenClosing ++ b) = tokenOpening ++ (decimal j ++ tokenClosing ++ y) := by
      rw [← e₂]; simp [token]
    rcases List.append_eq_append_iff.mp e₃ with ⟨g, hg, e₄⟩ | ⟨g, hg, e₄⟩
    · by_cases hg0 : g = []
      · rw [hg0, List.append_nil] at hg
        rw [hg] at ho
        exact absurd (List.self_eq_append_left.mp ho) hc
      · exact absurd e₄ (not_opening f g _ hg hg0)
    · have := congrArg List.length ho
      rw [hg] at this
      simp only [List.length_append] at this
      have : 0 < c.length := List.length_pos_iff.mpr hc
      omega

/-- In a text of whole tokens, a token that is not there yet first occurs where it is put. -/
theorem token_first {i : Nat} {x : Text} (hw : Whole x) (h : ¬ token i <:+: x) :
    ¬ token i <:+: x ++ (token i).dropLast := by
  rintro ⟨a, b, e⟩
  have hne := token_ne_nil i
  have e' : x ++ (token i ++ []) = a ++ (token i ++ (b ++ [(token i).getLast hne])) := by
    calc x ++ (token i ++ []) = x ++ (token i).dropLast ++ [(token i).getLast hne] := by
          rw [List.append_assoc, List.dropLast_concat_getLast hne, List.append_nil]
      _ = a ++ (token i ++ (b ++ [(token i).getLast hne])) := by rw [← e]; simp
  have hl : a.length < x.length := by
    have := congrArg List.length e'
    simp only [List.length_append, List.length_nil, List.length_cons] at this
    omega
  obtain ⟨u, hu, hx, hd⟩ := opening_left e' hl
  obtain ⟨k, v, hk⟩ := hw a u hx
  have : k = i := by
    rw [hk, List.append_assoc] at hd
    exact (decimal_inj hd).1
  exact h ⟨a, v, by rw [hx, hk, this]; simp [token]⟩

theorem Whole.right {x y : Text} (h : Whole (x ++ y)) : Whole y := by
  rintro a u rfl
  exact h (x ++ a) u (by simp)

/-- A text up to a seam is whole when all of it is. -/
theorem Whole.left {x y : Text} (h : Whole (x ++ y)) (hs : Seam x y) : Whole x := by
  rintro a u rfl
  obtain ⟨k, v, e⟩ := h a (u ++ y) (by simp)
  rcases List.append_eq_append_iff.mp e with ⟨w, hw, hv⟩ | ⟨w, hw, -⟩
  · by_cases h0 : w = []
    · exact ⟨k, [], by simp [hw, h0]⟩
    · have hword : ∀ c ∈ (tokenOpening ++ u) ++ w, isWord c = true := fun c hc =>
        isWord_token (i := k) (by rwa [List.append_assoc, ← hw, ← List.append_assoc] at hc)
      exact (hs.not_across (by simp [tokenOpening_ne_nil]) h0 ⟨a, by simp⟩ ⟨v, hv.symm⟩ hword).elim
  · exact ⟨k, w, hw⟩

/-- Whole texts make up a whole text when no word reaches from one into the other. -/
theorem Whole.append {x y : Text} (hx : Whole x) (hy : Whole y) (hs : Seam x y) : Whole (x ++ y) := by
  intro a u e
  rw [List.append_assoc] at e
  rcases List.append_eq_append_iff.mp e with ⟨c, ha, hy'⟩ | ⟨c, hx', hc⟩
  · obtain ⟨k, v, hk⟩ := hy c u (by rw [hy', List.append_assoc])
    exact ⟨k, v, hk⟩
  · rcases List.append_eq_append_iff.mp hc with ⟨w, hw, hu⟩ | ⟨w, hw, hu⟩
    · obtain ⟨k, v, hk⟩ := hx a w (by rw [hx', hw, List.append_assoc])
      exact ⟨k, v ++ y, by rw [hu, hk, List.append_assoc]⟩
    · by_cases hc0 : c = []
      · obtain ⟨k, v, hk⟩ := hy [] u (by rw [hu, show w = tokenOpening by simpa [hc0] using hw.symm]; rfl)
        exact ⟨k, v, hk⟩
      by_cases hw0 : w = []
      · obtain ⟨k, v, hk⟩ := hx a [] (by rw [hx', show c = tokenOpening by simpa [hw0] using hw.symm]; simp)
        exact absurd (congrArg List.length hk) (by simp [tokenClosing])
      · exact (hs.not_across hc0 hw0 ⟨a, hx'.symm⟩ ⟨u, hu.symm⟩ fun d hd => (opening_char (by rw [hw]; exact hd)).1).elim

/-! ## Clean texts -/

/-- Every opening starts a token that has an index below the last word, and no tokens overlap. -/
structure Clean (s : Text) : Prop where
  whole : ∀ a u, s = a ++ tokenOpening ++ u → ∃ k v, k + 1 < indexLimit ∧ u = decimal k ++ tokenClosing ++ v
  apart : ∀ a k b a' k' b', s = a ++ token k ++ b → s = a' ++ token k' ++ b' → a.length < a'.length →
    a.length + (token k).length ≤ a'.length

theorem Clean.toWhole {s : Text} (h : Clean s) : Whole s := fun a u e =>
  let ⟨k, v, _, hk⟩ := h.whole a u e
  ⟨k, v, hk⟩

theorem Clean.right {x y : Text} (h : Clean (x ++ y)) : Clean y where
  whole := by
    rintro a u rfl
    exact h.whole (x ++ a) u (by simp)
  apart := by
    intro a k b a' k' b' e e' hl
    have := h.apart (x ++ a) k b (x ++ a') k' b' (by simp [e]) (by simp [e']) (by simpa using hl)
    simp only [List.length_append] at this
    omega

theorem TokenFree.clean {s : Text} (h : TokenFree s) : Clean s where
  whole a u e := absurd ⟨a, u, e.symm⟩ h
  apart a k b _ _ _ e := absurd ⟨a, b, e.symm⟩ (h.token k)

/-- The index of a token that the text starts with. -/
def tokenValue (s : Text) : Nat := digitsValue ((s.drop tokenOpening.length).takeWhile Char.isDigit)

/-- An opening at the front of the text starts a token, and no other opening starts inside it. -/
def CleanFront (s : Text) : Prop :=
  tokenOpening <+: s → tokenValue s + 1 < indexLimit ∧ token (tokenValue s) <+: s ∧
    ∀ m < (token (tokenValue s)).length, 0 < m → ¬ tokenOpening <+: s.drop m

instance (s : Text) : Decidable (CleanFront s) := by unfold CleanFront; exact inferInstance

theorem tokenValue_token (k : Nat) (x : Text) : tokenValue (token k ++ x) = k := by
  have hd := (takeWhile_decimal (p := Char.isDigit) (fun _ h => h) (by decide) k x).1
  have e : (token k ++ x).drop tokenOpening.length = decimal k ++ tokenClosing ++ x := by simp [token]
  rw [tokenValue, e, hd, digitsValue_decimal]

theorem clean_iff {s : Text} : Clean s ↔ ∀ n < s.length + 1, CleanFront (s.drop n) := by
  constructor
  · rintro h n hn ⟨u, hu⟩
    have es : s = s.take n ++ (tokenOpening ++ u) := by rw [hu, List.take_append_drop]
    obtain ⟨k, v, hk, rfl⟩ := h.whole (s.take n) u (by rw [List.append_assoc]; exact es)
    have ed : s.drop n = token k ++ v := by rw [← hu]; simp [token]
    rw [ed, tokenValue_token]
    refine ⟨hk, ⟨v, rfl⟩, ?_⟩
    rintro m hm h0 ⟨u', hu'⟩
    have es' : s = (s.take n ++ (token k).take m) ++ (tokenOpening ++ u') := by
      rw [hu', List.append_assoc, List.drop_append_of_le_length (by omega), ← List.append_assoc ((token k).take m),
        List.take_append_drop, ← ed, List.take_append_drop]
    obtain ⟨k', v', -, rfl⟩ := h.whole _ u' (by rw [List.append_assoc]; exact es')
    have := h.apart (s.take n) k v (s.take n ++ (token k).take m) k' v' (by rw [List.append_assoc, ← ed, List.take_append_drop])
      (by rw [List.append_assoc]; simpa [token] using es') (by simp only [List.length_append, List.length_take]; omega)
    simp only [List.length_append, List.length_take] at this
    omega
  · intro h
    constructor
    · rintro a u rfl
      have hf := h a.length (by simp only [List.length_append]; omega)
      rw [List.append_assoc, List.drop_left] at hf
      obtain ⟨hk, ⟨v, hv⟩, -⟩ := hf ⟨u, rfl⟩
      exact ⟨_, v, hk, List.append_cancel_left (hv.symm.trans (by simp [token]))⟩
    · rintro a k b a' k' b' rfl e hl
      have hf := h a.length (by simp only [List.length_append]; omega)
      rw [List.append_assoc, List.drop_left, CleanFront, tokenValue_token] at hf
      obtain ⟨-, -, hm⟩ := hf ((opening_prefix_token k).trans ⟨b, rfl⟩)
      apply Nat.le_of_not_lt
      intro hlt
      apply hm (a'.length - a.length) (by omega) (by omega)
      have ed : (token k ++ b).drop (a'.length - a.length) = token k' ++ b' := by
        have h₁ : (a ++ (token k ++ b)).drop a'.length = token k' ++ b' := by
          rw [← List.append_assoc, e, List.append_assoc, List.drop_left]
        rwa [List.drop_append, List.drop_eq_nil_of_le (by omega), List.nil_append] at h₁
      rw [ed]
      exact (opening_prefix_token k').trans ⟨b', rfl⟩

instance (s : Text) : Decidable (Clean s) := decidable_of_iff' _ clean_iff

/-- In a clean text, what a place reads as a token is one. -/
theorem Clean.tokenAt? {s r : Text} {o : Option Nat} (h : Clean s) (ht : tokenAt? s = some (o, r)) :
    ∃ k, k + 1 < indexLimit ∧ o = some k ∧ s = token k ++ r := by
  cases hd : dropStart? tokenOpening s with
  | none => simp [Sql.tokenAt?, hd] at ht
  | some u =>
    obtain ⟨k, v, hk, hu⟩ := h.whole [] u (eq_of_dropStart? hd)
    have hs : s = token k ++ v := by rw [eq_of_dropStart? hd, hu]; simp [token]
    rw [hs, tokenAt?_token (by omega)] at ht
    simp only [Option.some.injEq, Prod.mk.injEq] at ht
    exact ⟨k, hk, ht.1.symm, by rw [hs, ht.2]⟩

/-- A matcher that does not look back scans the same after what it skips. -/
theorem scan_skip {α : Type} (f : Text → Option (α × Text)) (n : Nat) (read left : Text) :
    scan (fun _ => f) n read left = scan (fun _ => f) 0 [] (left.drop n) := by
  induction left generalizing n read with
  | nil => cases n <;> simp [scan]
  | cons c left ih =>
    cases n with
    | zero =>
      simp only [scan, List.drop_zero]
      cases f (c :: left) with
      | none => simp only; rw [ih 0 (c :: read), ih 0 [c]]
      | some x => simp only; rw [ih _ (c :: read), ih _ [c]]
    | succ n => simp only [scan, List.drop_succ_cons]; exact ih n (c :: read)

/-- Where no token starts, the search goes on behind the next character. -/
theorem tokenIndices_of_none {c : Char} {left : Text} (ht : tokenAt? (c :: left) = none) :
    tokenIndices (c :: left) = tokenIndices left := by
  simp only [tokenIndices, scan, ht]
  rw [scan_skip]; simp

/-- Where a token starts, the search goes on behind it. -/
theorem tokenIndices_of_some {s r : Text} {o : Option Nat} (ht : tokenAt? s = some (o, r)) :
    tokenIndices s = o.toList ++ tokenIndices r := by
  obtain ⟨ds, -, hs, -⟩ := tokenAt?_eq_some_iff.mp ht
  obtain ⟨t, ht'⟩ : ∃ t, tokenOpening = '_' :: t := ⟨_, rfl⟩
  have hc : s = '_' :: (t ++ ds ++ tokenClosing ++ r) := by rw [hs, ht']; simp
  have hdrop : (t ++ ds ++ tokenClosing ++ r).drop ((t ++ ds ++ tokenClosing ++ r).length - r.length) = r := by
    rw [List.length_append, Nat.add_sub_cancel, List.drop_left]
  rw [hc] at ht ⊢
  simp only [tokenIndices, scan, ht]
  rw [scan_skip, hdrop]
  cases o with
  | none => rfl
  | some i => rfl

/-- A place at which a token starts has its opening behind it. -/
theorem opening_prefix_of_tokenAt? {s r : Text} {o : Option Nat} (h : tokenAt? s = some (o, r)) : tokenOpening <+: s := by
  obtain ⟨ds, -, rfl, -⟩ := tokenAt?_eq_some_iff.mp h
  exact ⟨ds ++ tokenClosing ++ r, by simp⟩

theorem tokenIndices_of_tokenFree {s : Text} (h : TokenFree s) : tokenIndices s = [] := by
  induction s with
  | nil => rfl
  | cons c s ih =>
    have hnone : tokenAt? (c :: s) = none := by
      cases ht : tokenAt? (c :: s) with
      | none => rfl
      | some x => exact absurd (opening_prefix_of_tokenAt? ht).isInfix h
    rw [tokenIndices_of_none hnone]
    exact ih (h.within (List.suffix_cons c s).isInfix)

/-- Up to a seam, a place reads the same token whatever stands behind the seam. -/
theorem tokenAt?_append {x y : Text} (hs : Seam x y) (h0 : x ≠ []) :
    tokenAt? (x ++ y) = (tokenAt? x).map fun (o, r) => (o, r ++ y) := by
  cases hx : tokenAt? x with
  | some p =>
    obtain ⟨o, r⟩ := p
    obtain ⟨ds, hd, rfl, ho⟩ := tokenAt?_eq_some_iff.mp hx
    exact tokenAt?_eq_some_iff.mpr ⟨ds, hd, by rw [List.append_assoc], ho⟩
  | none =>
    cases hxy : tokenAt? (x ++ y) with
    | none => rfl
    | some p =>
      -- a token that starts in `x` ends there
      obtain ⟨o, r⟩ := p
      obtain ⟨ds, hd, e, ho⟩ := tokenAt?_eq_some_iff.mp hxy
      rcases hs.split hd.word (u := []) e with ⟨r', rfl, rfl⟩ | ⟨u, -, hu⟩
      · rw [List.nil_append, tokenAt?_eq_some_iff.mpr ⟨ds, hd, rfl, rfl⟩] at hx
        cases hx
      · exact absurd (List.append_eq_nil_iff.mp hu.symm).1 h0

/-- On either side of a seam the search finds what it finds there alone. -/
theorem tokenIndices_append {x y : Text} (hs : Seam x y) : tokenIndices (x ++ y) = tokenIndices x ++ tokenIndices y := by
  induction hn : x.length using Nat.strong_induction_on generalizing x with
  | _ n ih =>
  cases x with
  | nil => rfl
  | cons c x =>
    rw [List.length_cons] at hn
    have happ := tokenAt?_append hs (List.cons_ne_nil c x)
    cases hx : tokenAt? (c :: x) with
    | none =>
      rw [hx] at happ
      rw [List.cons_append] at happ ⊢
      rw [tokenIndices_of_none happ, tokenIndices_of_none hx]
      exact ih x.length (by omega) (hs.shrink (List.suffix_cons c x)) rfl
    | some p =>
      obtain ⟨o, r⟩ := p
      rw [hx] at happ
      obtain ⟨ds, -, e, -⟩ := tokenAt?_eq_some_iff.mp hx
      have hlen := congrArg List.length e
      simp only [List.length_append, List.length_cons, show tokenClosing.length = 2 from rfl] at hlen
      have hr : Seam r y := hs.shrink ⟨tokenOpening ++ ds ++ tokenClosing, e.symm⟩
      rw [tokenIndices_of_some happ, tokenIndices_of_some hx, ih r.length (by omega) hr rfl, List.append_assoc]

theorem lt_of_mem_tokenIndices {s : Text} {j : Nat} (h : j ∈ tokenIndices s) : j < indexLimit := by
  induction hn : s.length using Nat.strong_induction_on generalizing s with
  | _ n ih =>
  cases s with
  | nil => simp [tokenIndices, scan] at h
  | cons c s =>
    rw [List.length_cons] at hn
    cases ht : tokenAt? (c :: s) with
    | none =>
      rw [tokenIndices_of_none ht] at h
      exact ih s.length (by omega) h rfl
    | some p =>
      obtain ⟨o, r⟩ := p
      obtain ⟨ds, -, e, rfl⟩ := tokenAt?_eq_some_iff.mp ht
      have hlen := congrArg List.length e
      simp only [List.length_append, List.length_cons, show tokenClosing.length = 2 from rfl] at hlen
      rw [tokenIndices_of_some ht, List.mem_append] at h
      rcases h with h | h
      · have := (Option.filter_eq_some_iff.mp (Option.mem_toList.mp h)).2
        simpa using this
      · exact ih r.length (by omega) h rfl

/-- Where no token is read, none starts. -/
theorem Clean.infix_of_none {c : Char} {left : Text} (h : Clean (c :: left)) (ht : Sql.tokenAt? (c :: left) = none) {k : Nat} :
    token k <:+: c :: left ↔ token k <:+: left := by
  refine ⟨?_, fun hi => hi.trans (List.suffix_cons c left).isInfix⟩
  rintro ⟨a, b, e⟩
  cases a with
  | nil =>
    obtain ⟨j, v, hj, hu⟩ := h.whole [] (decimal k ++ tokenClosing ++ b) (by rw [← e]; simp [token])
    have hkj := (decimal_inj hu).1
    rw [← e, List.nil_append, tokenAt?_token (by omega)] at ht
    cases ht
  | cons d a =>
    simp only [List.cons_append, List.cons.injEq] at e
    exact ⟨a, b, e.2⟩

/-- Behind a token, the others stand clear of it. -/
theorem Clean.infix_of_token {j : Nat} {r : Text} (h : Clean (token j ++ r)) {k : Nat} :
    token k <:+: token j ++ r ↔ k = j ∨ token k <:+: r := by
  constructor
  · rintro ⟨a, b, e⟩
    by_cases ha : a = []
    · left
      exact (token_inj (x := b) (y := r) (by rw [← e, ha]; simp)).1
    · right
      have := h.apart [] j r a k b (by simp) e.symm (List.length_pos_iff.mpr ha)
      rw [List.length_nil, Nat.zero_add] at this
      obtain ⟨t, rfl, -⟩ := eq_append_of_le (show token j ++ r = a ++ (token k ++ b) by rw [← e]; simp) this
      exact ⟨t, b, by simpa using e⟩
  · rintro (rfl | hi)
    · exact (List.prefix_append _ _).isInfix
    · exact hi.trans (List.suffix_append _ _).isInfix

theorem Clean.mem_tokenIndices {s : Text} (h : Clean s) {k : Nat} :
    k ∈ tokenIndices s ↔ token k <:+: s := by
  suffices H : ∀ n (s : Text), s.length ≤ n → Clean s → (k ∈ tokenIndices s ↔ token k <:+: s) from H _ s (Nat.le_refl _) h
  intro n
  induction n with
  | zero =>
    intro s hn _
    obtain rfl : s = [] := List.eq_nil_of_length_eq_zero (by omega)
    simp [tokenIndices, scan, token_ne_nil]
  | succ n ih =>
    intro s hn h
    cases s with
    | nil => simp [tokenIndices, scan, token_ne_nil]
    | cons c left =>
      cases ht : Sql.tokenAt? (c :: left) with
      | none =>
        rw [tokenIndices_of_none ht, ih left (by simpa using hn) (h.right (x := [c]))]
        exact (h.infix_of_none ht).symm
      | some x =>
        obtain ⟨o, r⟩ := x
        obtain ⟨j, hj, rfl, hs⟩ := h.tokenAt? ht
        have hlen : (c :: left).length = (token j).length + r.length := by rw [hs, List.length_append]
        have hpos : 0 < (token j).length := List.length_pos_iff.mpr (token_ne_nil j)
        rw [tokenIndices_of_some ht, Option.toList_some, List.singleton_append, List.mem_cons,
          ih r (by simp only [List.length_cons] at hlen hn; omega) (hs ▸ h).right, hs]
        exact (hs ▸ h).infix_of_token.symm

theorem foldl_max_ge (l : List Nat) (i : Nat) : i ≤ l.foldl max i ∧ ∀ k ∈ l, k ≤ l.foldl max i := by
  induction l generalizing i with
  | nil => simp
  | cons x l ih =>
    obtain ⟨h₁, h₂⟩ := ih (max i x)
    simp only [List.foldl_cons, List.mem_cons, forall_eq_or_imp]
    exact ⟨by omega, by omega, h₂⟩

theorem foldl_max_mem (l : List Nat) (i : Nat) : l.foldl max i ∈ i :: l := by
  induction l generalizing i with
  | nil => simp
  | cons x l ih =>
    have := ih (max i x)
    simp only [List.foldl_cons, List.mem_cons] at this ⊢
    rcases this with h | h
    · rw [h]; rcases Nat.le_total i x with h | h
      · right; left; omega
      · left; omega
    · exact Or.inr (Or.inr h)

/-- The index after the largest one in the text, be it a word or not. -/
def indexAbove (s : Text) : Nat :=
  match tokenIndices s with
  | [] => 0
  | i :: more => more.foldl max i + 1

theorem indexAbove_congr {s t : Text} (h : tokenIndices s = tokenIndices t) : indexAbove s = indexAbove t := by
  simp only [indexAbove, h]

theorem lt_indexAbove_iff_mem {s : Text} {k : Nat} : k < indexAbove s ↔ ∃ j ∈ tokenIndices s, k ≤ j := by
  unfold indexAbove
  cases tokenIndices s with
  | nil => simp
  | cons i more =>
    constructor
    · intro h
      exact ⟨_, foldl_max_mem more i, Nat.le_of_lt_succ h⟩
    · rintro ⟨j, hj, hk⟩
      have := foldl_max_ge more i
      rcases List.mem_cons.mp hj with rfl | hj
      · exact Nat.lt_succ_of_le (hk.trans this.1)
      · exact Nat.lt_succ_of_le (hk.trans (this.2 j hj))

theorem Clean.lt_indexAbove {s : Text} (h : Clean s) {k : Nat} (hk : token k <:+: s) : k < indexAbove s :=
  lt_indexAbove_iff_mem.mpr ⟨k, h.mem_tokenIndices.mpr hk, Nat.le_refl k⟩

theorem indexAbove_of_tokenFree {s : Text} (h : TokenFree s) : indexAbove s = 0 := by
  rw [indexAbove, tokenIndices_of_tokenFree h]

end ExportQuery.Sql
