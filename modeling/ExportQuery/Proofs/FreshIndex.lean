/-
  ExportQuery.Proofs.FreshIndex — the index that the tokens of a part are counted from.

  The search for tokens goes from left to right, and on behind what it finds. A token that
  starts in the closing of another one shares its underscores with it, so it is not found when
  the other one is. That is the only way to be missed: a place inside a token is the start of
  one in no other way. The fresh index is above all indices found. When the largest word is one
  of them there is none, and asking for it overflows.

  - `Unclosed`: a token whose closing is still to come, in whole or in half.
  - `Open`: a place where a token is found.
  - `mem_tokenIndices_iff`: the indices found are those of the tokens at open places.
  - `Unshared`, `unshared_of_nowhere`: texts where no token starts so, and how to tell.
  - `freshIndex_eq_error_iff` / `freshIndex_eq_ok`: when there is a fresh index.
  - `freshIndex_above`: what the fresh index is above, and which tokens are missed.
-/

import ExportQuery.Proofs.Token

namespace ExportQuery.Sql

open ExportQuery.Text

/-! ## Open places -/

/-- `a` is `x` and a token without its closing, or with the first character of it only. -/
def Unclosed (x a : Text) : Prop := ∃ ds v, Digits ds ∧ (v = [] ∨ v = ['_']) ∧ a = x ++ tokenOpening ++ ds ++ v

theorem Unclosed.length_lt {x a : Text} (h : Unclosed x a) : x.length < a.length := by
  obtain ⟨ds, v, -, -, rfl⟩ := h
  have := List.length_pos_iff.mpr tokenOpening_ne_nil
  simp only [List.length_append]
  omega

/-- Whether a token behind `a` is found: unless it starts in the closing of one that is found. -/
def Open (a : Text) : Prop := ∀ x, Unclosed x a → ¬ Open x
termination_by a.length
decreasing_by exact Unclosed.length_lt ‹_›

/-- A token with the index `j`, in whatever digits, at an open place. -/
def Shown (j : Nat) (s : Text) : Prop :=
  ∃ a ds b, s = a ++ (tokenOpening ++ ds ++ tokenClosing) ++ b ∧ readDecimal? ds = some j ∧ j < indexLimit ∧ Open a

theorem open_iff {a : Text} : Open a ↔ ∀ x, Unclosed x a → ¬ Open x := by rw [Open]

theorem digits_of_readDecimal? {ds : Text} {j : Nat} (h : readDecimal? ds = some j) : Digits ds := by
  simp only [readDecimal?] at h
  split at h
  · cases h
  · rename_i h'
    simp only [Bool.or_eq_true, List.isEmpty_iff, Bool.not_eq_true', not_or, Bool.not_eq_false] at h'
    exact ⟨h'.1, fun c hc => isDecimalDigit_of_isDigit (List.all_eq_true.mp h'.2 c hc)⟩

theorem Digits.underscore_not_mem {ds : Text} (h : Digits ds) : '_' ∉ ds := by
  intro hm
  have := h.2 '_' hm
  rw [not_isDecimalDigit_underscore] at this; cases this

theorem open_nil : Open [] := by
  rw [open_iff]
  intro x h
  exact absurd h.length_lt (Nat.not_lt_zero _)

/-! ## Overlaps -/

/-- Digits end where the closing starts. -/
theorem digits_closing {ds es x y : Text} (hd : Digits ds) (he : Digits es)
    (h : ds ++ tokenClosing ++ x = es ++ '_' :: y) : ds = es ∧ '_' :: x = y := by
  have hend : ∀ z : Text, ∀ c ∈ ('_' :: z).head?, isDecimalDigit c = false := by
    intro z c hc
    obtain rfl : '_' = c := Option.some.inj hc
    exact not_isDecimalDigit_underscore
  rw [List.append_assoc] at h
  have h₁ := span_append hd.2 (hend ('_' :: x))
  have h₂ := span_append he.2 (hend y)
  have e : ds ++ '_' :: '_' :: x = es ++ '_' :: y := h
  rw [e] at h₁
  obtain rfl : ds = es := h₁.1.symm.trans h₂.1
  exact ⟨rfl, (List.cons.inj (List.append_cancel_left e)).2⟩

theorem tokenOpening_eq_cons : ∃ t, tokenOpening = '_' :: '_' :: t := ⟨_, rfl⟩

/-- The opening does not start inside itself, but for its last character. -/
theorem opening_inside {a c u x : Text} (ho : tokenOpening = a ++ c) (h0 : a ≠ []) (hc : c ≠ [])
    (e : tokenOpening ++ u = c ++ x) : x = '_' :: (tokenOpening.drop 2 ++ u) := by
  have inner : ∀ n < tokenOpening.length, 0 < n → n ≠ tokenOpening.length - 1 → ¬ tokenOpening.drop n <+: tokenOpening := by
    decide
  have hlen := congrArg List.length ho
  rw [List.length_append] at hlen
  have ha := List.length_pos_iff.mpr h0
  have hc' := List.length_pos_iff.mpr hc
  have hdrop : tokenOpening.drop a.length = c := by rw [ho, List.drop_left]
  have hp : c <+: tokenOpening := by
    obtain ⟨v, hv, -⟩ := eq_append_of_le e.symm (by omega)
    exact ⟨v, hv.symm⟩
  have hlast : c.length = 1 := by
    by_contra hne
    exact inner a.length (by omega) ha (by omega) (hdrop ▸ hp)
  obtain ⟨d, rfl⟩ := List.length_eq_one_iff.mp hlast
  exact (List.cons.inj e).2.symm

/-- An opening inside a token starts in its closing. -/
theorem unclosed_of_inside {ds a r u : Text} (hd : Digits ds) (h0 : a ≠ [])
    (hl : a.length < (tokenOpening ++ ds ++ tokenClosing).length)
    (e : tokenOpening ++ ds ++ tokenClosing ++ r = a ++ tokenOpening ++ u) : Unclosed [] a := by
  have no_underscore := hd.underscore_not_mem
  obtain ⟨d, more, hds⟩ := List.exists_cons_of_ne_nil hd.1
  have head_ne : ∀ {x y : Text}, ds ++ x ≠ '_' :: y := by
    intro x y e
    rw [hds] at e
    exact no_underscore (by rw [hds, (List.cons.inj e).1]; simp)
  have e' : tokenOpening ++ (ds ++ (tokenClosing ++ r)) = a ++ (tokenOpening ++ u) := by simpa using e
  rcases List.append_eq_append_iff.mp e' with ⟨c, rfl, hc⟩ | ⟨c, ho, hc⟩
  · rcases List.append_eq_append_iff.mp hc with ⟨v, rfl, hv⟩ | ⟨v, hm, hv⟩
    · -- in the closing
      refine ⟨ds, v, hd, ?_, by simp⟩
      match v with
      | [] => exact Or.inl rfl
      | [x] =>
        obtain rfl : '_' = x := (List.cons.inj hv).1
        exact Or.inr rfl
      | _ :: _ :: _ =>
        simp only [List.length_append, List.length_cons, show tokenClosing.length = 2 from rfl] at hl
        omega
    · -- in the digits
      cases v with
      | nil => exact ⟨ds, [], hd, Or.inl rfl, by simp [hm]⟩
      | cons x v =>
        obtain rfl : '_' = x := (List.cons.inj hv).1
        exact absurd (by rw [hm]; simp) no_underscore
  · -- in the opening
    by_cases hc0 : c = []
    · rw [hc0] at hc
      exact absurd hc.symm head_ne
    · exact absurd (opening_inside ho h0 hc0 hc) head_ne

/-- No place inside a token that is found is open. -/
theorem not_open_inside {ds a r : Text} (hd : Digits ds) (h0 : a ≠ [])
    (hl : a.length < (tokenOpening ++ ds ++ tokenClosing).length)
    (hp : a ++ tokenOpening <+: tokenOpening ++ ds ++ tokenClosing ++ r) : ¬ Open a := by
  obtain ⟨u, e⟩ := hp
  intro h
  exact open_iff.mp h [] (unclosed_of_inside hd h0 hl e.symm) open_nil

/-! ## Behind what is passed over -/

/-- A character where no token starts does not make a difference to the places behind it. -/
theorem open_cons_iff {c : Char} {a s : Text} (ht : tokenAt? s = none) (hp : c :: a ++ tokenOpening <+: s) :
    Open (c :: a) ↔ Open a := by
  induction hn : a.length using Nat.strong_induction_on generalizing a with
  | _ n ih =>
  have ih : ∀ x, Unclosed x a → (Open (c :: x) ↔ Open x) := by
    intro x hx
    refine ih x.length (hn ▸ hx.length_lt) ?_ rfl
    obtain ⟨ds, v, -, -, rfl⟩ := hx
    exact List.IsPrefix.trans ⟨ds ++ v ++ tokenOpening, by simp⟩ hp
  rw [open_iff, open_iff]
  constructor
  · intro h x hx ho
    refine h (c :: x) ?_ ((ih x hx).mpr ho)
    obtain ⟨ds, v, hd, hv, rfl⟩ := hx
    exact ⟨ds, v, hd, hv, rfl⟩
  · rintro h x ⟨ds, v, hd, hv, e⟩ ho
    cases x with
    | nil =>
      -- a token would start here
      obtain ⟨u, hu⟩ := hp
      obtain ⟨t, htail⟩ := tokenOpening_eq_cons
      rw [e] at hu
      have hclosed : ∃ r, s = tokenOpening ++ ds ++ tokenClosing ++ r := by
        rcases hv with rfl | rfl
        · exact ⟨t ++ u, by rw [← hu, htail]; simp [tokenClosing]⟩
        · exact ⟨'_' :: t ++ u, by rw [← hu, htail]; simp [tokenClosing]⟩
      obtain ⟨r, hr⟩ := hclosed
      have := tokenAt?_eq_some_iff.mpr ⟨ds, hd, hr, rfl⟩
      rw [ht] at this; cases this
    | cons d x =>
      obtain ⟨rfl, rfl⟩ := List.cons.inj e
      have hx : Unclosed x (x ++ tokenOpening ++ ds ++ v) := ⟨ds, v, hd, hv, rfl⟩
      exact h x hx ((ih x hx).mp ho)

/-- Behind a token that is found, the search starts anew. -/
theorem open_append_iff {ds a r : Text} (hd : Digits ds) (hp : a ++ tokenOpening <+: r) :
    Open (tokenOpening ++ ds ++ tokenClosing ++ a) ↔ Open a := by
  induction hn : a.length using Nat.strong_induction_on generalizing a with
  | _ n ih =>
  have ih : ∀ x, Unclosed x a → (Open (tokenOpening ++ ds ++ tokenClosing ++ x) ↔ Open x) := by
    intro x hx
    refine ih x.length (hn ▸ hx.length_lt) ?_ rfl
    obtain ⟨es, v, -, -, rfl⟩ := hx
    exact List.IsPrefix.trans ⟨es ++ v ++ tokenOpening, by simp⟩ hp
  rw [open_iff, open_iff]
  constructor
  · intro h x hx ho
    refine h (tokenOpening ++ ds ++ tokenClosing ++ x) ?_ ((ih x hx).mpr ho)
    obtain ⟨es, v, he, hv, rfl⟩ := hx
    exact ⟨es, v, he, hv, by simp⟩
  · rintro h x ⟨es, v, he, hv, e⟩ ho
    have e' : tokenOpening ++ ds ++ tokenClosing ++ a = x ++ (tokenOpening ++ es ++ v) := by rw [e]; simp
    by_cases hl : x.length < (tokenOpening ++ ds ++ tokenClosing).length
    · by_cases h0 : x = []
      · -- the same token again, and it is closed
        rw [h0] at e'
        have e₂ : ds ++ tokenClosing ++ a = es ++ v := by simpa using e'
        rcases hv with rfl | rfl
        · rw [List.append_nil] at e₂
          exact he.underscore_not_mem (by rw [← e₂]; simp [tokenClosing])
        · exact absurd (digits_closing hd he e₂).2 (List.cons_ne_nil _ _)
      · exact not_open_inside (r := a) hd h0 hl ⟨es ++ v, by rw [e]; simp⟩ ho
    · obtain ⟨x', rfl, e₂⟩ := eq_append_of_le e' (by omega)
      have hx : Unclosed x' a := ⟨es, v, he, hv, by rw [e₂]; simp⟩
      exact h x' hx ((ih x' hx).mp ho)

/-! ## The indices found -/

variable {s r : Text} {j k : Nat}

theorem shown_cons_iff {c : Char} (ht : tokenAt? (c :: s) = none) : Shown j (c :: s) ↔ Shown j s := by
  constructor
  · rintro ⟨a, ds, b, e, hj, hl, ho⟩
    cases a with
    | nil =>
      have := tokenAt?_eq_some_iff.mpr ⟨ds, digits_of_readDecimal? hj, e, rfl⟩
      rw [ht] at this; cases this
    | cons d a =>
      have hp : d :: a ++ tokenOpening <+: c :: s := ⟨ds ++ tokenClosing ++ b, by rw [e]; simp⟩
      obtain ⟨rfl, e'⟩ := List.cons.inj e
      exact ⟨a, ds, b, e', hj, hl, (open_cons_iff ht hp).mp ho⟩
  · rintro ⟨a, ds, b, e, hj, hl, ho⟩
    have hp : c :: a ++ tokenOpening <+: c :: s := ⟨ds ++ tokenClosing ++ b, by rw [e]; simp⟩
    exact ⟨c :: a, ds, b, by rw [e]; rfl, hj, hl, (open_cons_iff ht hp).mpr ho⟩

theorem shown_append_iff {ds : Text} (hd : Digits ds) :
    Shown j (tokenOpening ++ ds ++ tokenClosing ++ r) ↔ readDecimal? ds = some j ∧ j < indexLimit ∨ Shown j r := by
  constructor
  · rintro ⟨a, es, b, e, hj, hl, ho⟩
    have he := digits_of_readDecimal? hj
    have e' : tokenOpening ++ ds ++ tokenClosing ++ r = a ++ (tokenOpening ++ es ++ tokenClosing ++ b) := by rw [e]; simp
    by_cases hlt : a.length < (tokenOpening ++ ds ++ tokenClosing).length
    · by_cases h0 : a = []
      · left
        rw [h0] at e'
        have e₂ : ds ++ tokenClosing ++ r = es ++ '_' :: ('_' :: b) := by simpa [tokenClosing] using e'
        rw [(digits_closing hd he e₂).1]
        exact ⟨hj, hl⟩
      · exact absurd ho (not_open_inside (r := r) hd h0 hlt ⟨es ++ tokenClosing ++ b, by rw [e]; simp⟩)
    · right
      obtain ⟨a', rfl, e₂⟩ := eq_append_of_le e' (by omega)
      have hp : a' ++ tokenOpening <+: r := ⟨es ++ tokenClosing ++ b, by rw [e₂]; simp⟩
      exact ⟨a', es, b, by rw [e₂]; simp, hj, hl, (open_append_iff hd hp).mp ho⟩
  · rintro (⟨hj, hl⟩ | ⟨a, es, b, rfl, hj, hl, ho⟩)
    · exact ⟨[], ds, r, by simp, hj, hl, open_nil⟩
    · have hp : a ++ tokenOpening <+: a ++ (tokenOpening ++ es ++ tokenClosing) ++ b := ⟨es ++ tokenClosing ++ b, by simp⟩
      exact ⟨tokenOpening ++ ds ++ tokenClosing ++ a, es, b, by simp, hj, hl, (open_append_iff hd hp).mpr ho⟩

/-- The search finds the tokens at open places, and no others. -/
theorem mem_tokenIndices_iff : j ∈ tokenIndices s ↔ Shown j s := by
  induction hn : s.length using Nat.strong_induction_on generalizing s with
  | _ n ih =>
  cases s with
  | nil =>
    refine ⟨fun h => absurd h (by simp [tokenIndices, scan]), ?_⟩
    rintro ⟨a, ds, b, e, -⟩
    have := congrArg List.length e
    simp [tokenClosing] at this
  | cons c s =>
    rw [List.length_cons] at hn
    cases ht : tokenAt? (c :: s) with
    | none => rw [tokenIndices_of_none ht, shown_cons_iff ht, ih s.length (by omega) rfl]
    | some x =>
      obtain ⟨o, r⟩ := x
      obtain ⟨ds, hd, e, rfl⟩ := tokenAt?_eq_some_iff.mp ht
      have hlen := congrArg List.length e
      simp only [List.length_append, List.length_cons, show tokenClosing.length = 2 from rfl] at hlen
      rw [tokenIndices_of_some ht, e, shown_append_iff hd, List.mem_append, ih r.length (by omega) rfl]
      simp [Option.filter_eq_some_iff]

/-! ## The fresh index -/

instance (j : Nat) (s : Text) : Decidable (Shown j s) := decidable_of_iff _ mem_tokenIndices_iff

theorem Shown.lt (h : Shown j s) : j < indexLimit := by
  obtain ⟨a, ds, b, -, -, hl, -⟩ := h
  exact hl

theorem lt_indexAbove_iff : k < indexAbove s ↔ ∃ j, k ≤ j ∧ Shown j s := by
  simp only [lt_indexAbove_iff_mem, mem_tokenIndices_iff, and_comm]

/-- The index after the largest one is a word unless the largest word is found. -/
theorem indexAbove_lt_iff : indexAbove s < indexLimit ↔ ¬ Shown (indexLimit - 1) s := by
  constructor
  · intro h hs
    have := lt_indexAbove_iff.mpr ⟨_, Nat.le_refl _, hs⟩
    omega
  · intro h
    apply Nat.lt_of_not_le
    intro hle
    have hpos : 0 < indexLimit := by decide
    obtain ⟨j, hj, hs⟩ := lt_indexAbove_iff.mp (show indexLimit - 1 < indexAbove s by omega)
    have := hs.lt
    obtain rfl : j = indexLimit - 1 := by omega
    exact h hs

/-- The index above those of a clean text is a word. -/
theorem Clean.not_shown_last (h : Clean s) : ¬ Shown (indexLimit - 1) s := by
  intro hs
  obtain ⟨a, b, e⟩ := h.mem_tokenIndices.mp (mem_tokenIndices_iff.mpr hs)
  obtain ⟨k, v, hk, hu⟩ := h.whole a (decimal (indexLimit - 1) ++ tokenClosing ++ b) (by rw [← e]; simp [token])
  have := (decimal_inj hu).1
  omega

theorem freshIndex_eq_ok (h : ¬ Shown (indexLimit - 1) s) : freshIndex s = .ok (indexAbove s) := by
  have hlt := indexAbove_lt_iff.mpr h
  unfold freshIndex
  unfold indexAbove at hlt ⊢
  cases hi : tokenIndices s with
  | nil => rfl
  | cons i more =>
    rw [hi] at hlt
    exact addWords_eq_ok fun ⟨_, _, hle⟩ => Nat.not_lt.mpr hle hlt

theorem freshIndex_eq_error_iff : freshIndex s = .error .index ↔ Shown (indexLimit - 1) s := by
  constructor
  · intro h
    by_contra hs
    rw [freshIndex_eq_ok hs] at h
    cases h
  · intro hs
    have habove : indexLimit - 1 < indexAbove s := lt_indexAbove_iff.mpr ⟨_, Nat.le_refl _, hs⟩
    have hmem := mem_tokenIndices_iff.mpr hs
    unfold freshIndex
    unfold indexAbove at habove
    cases hi : tokenIndices s with
    | nil => rw [hi] at hmem; cases hmem
    | cons i more =>
      have habove : indexLimit - 1 < more.foldl max i + 1 := by rwa [hi] at habove
      have hlt := lt_of_mem_tokenIndices (hi ▸ foldl_max_mem more i)
      exact addWords_eq_error_iff.mpr ⟨hlt, by decide, by omega⟩

/-- A token is found unless it starts in the closing of one that is. -/
theorem shown_or_unclosed {a b : Text} (hk : k < indexLimit) (e : s = a ++ token k ++ b) :
    Shown k s ∨ ∃ x, Open x ∧ Unclosed x a := by
  by_cases h : Open a
  · exact Or.inl ⟨a, decimal k, b, e, readDecimal?_decimal k, hk, h⟩
  · rw [open_iff] at h
    push Not at h
    obtain ⟨x, hx, ho⟩ := h
    exact Or.inr ⟨x, ho, hx⟩

/-- No token starts in the closing of another one. -/
def Unshared (s : Text) : Prop := ∀ x a b, s = a ++ tokenOpening ++ b → ¬ Unclosed x a

theorem Unclosed.getLast? {x a : Text} (h : Unclosed x a) : ∃ c, a.getLast? = some c ∧ (c = '_' ∨ isDecimalDigit c = true) := by
  obtain ⟨ds, v, hd, hv, rfl⟩ := h
  rcases hv with rfl | rfl
  · refine ⟨ds.getLast hd.1, ?_, Or.inr (hd.2 _ (List.getLast_mem hd.1))⟩
    rw [List.append_nil, List.getLast?_append, List.getLast?_eq_some_getLast hd.1, Option.some_or]
  · exact ⟨'_', List.getLast?_concat, Or.inl rfl⟩

/-- Whether a token opens right behind a digit or an underscore. -/
def opensJoined (read left : Text) : Bool :=
  read.head?.any (fun c => c == '_' || isDecimalDigit c) && tokenOpening.isPrefixOf left

theorem unshared_of_nowhere (h : Nowhere opensJoined [] s) : Unshared s := by
  intro x a b e hx
  obtain ⟨c, hc, hkind⟩ := hx.getLast?
  have hn := h a (tokenOpening ++ b) (by rw [e, List.append_assoc])
  have hp : tokenOpening.isPrefixOf (tokenOpening ++ b) = true := List.isPrefixOf_iff_prefix.mpr (List.prefix_append _ _)
  rw [List.nil_append, opensJoined, List.head?_reverse, hc, hp, Bool.and_true, Option.any_some] at hn
  rcases hkind with rfl | hd
  · cases hn
  · rw [hd, Bool.or_true] at hn; cases hn

/-- There is no fresh index exactly when the largest word is found. Else it is above every index
    found and no other, and found are all tokens that start in the closing of none that is; so it
    is above all tokens of a text where none starts so. -/
theorem freshIndex_above (s : Text) :
    (freshIndex s = .error .index ↔ Shown (indexLimit - 1) s) ∧
    (∀ n, freshIndex s = .ok n → ∀ k, k < n ↔ ∃ j, k ≤ j ∧ Shown j s) ∧
    (∀ k < indexLimit, ∀ a b, s = a ++ token k ++ b → Shown k s ∨ ∃ x, Open x ∧ Unclosed x a) ∧
    (¬ Shown (indexLimit - 1) s → Unshared s → ∃ n, freshIndex s = .ok n ∧ ∀ k < indexLimit, token k <:+: s → k < n) := by
  refine ⟨freshIndex_eq_error_iff, fun n hn k => ?_, fun k hk a b => shown_or_unclosed hk, fun htop hu => ?_⟩
  · have htop : ¬ Shown (indexLimit - 1) s := by
      rw [← freshIndex_eq_error_iff, hn]
      exact nofun
    obtain rfl : indexAbove s = n := Except.ok.inj ((freshIndex_eq_ok htop).symm.trans hn)
    exact lt_indexAbove_iff
  · refine ⟨indexAbove s, freshIndex_eq_ok htop, ?_⟩
    rintro k hk ⟨a, b, e⟩
    rw [lt_indexAbove_iff]
    refine ⟨k, Nat.le_refl k, ?_⟩
    rcases shown_or_unclosed hk e.symm with h | ⟨x, -, hx⟩
    · exact h
    · have hs : s = a ++ tokenOpening ++ (decimal k ++ tokenClosing ++ b) := by rw [← e]; simp [token]
      exact absurd hx (hu x a _ hs)

/-- Zeros in front of an index do not count. -/
theorem freshIndex_above_zeros :
    let s := "__SUBQUERY_PLACEHOLDER_2__, __SUBQUERY_PLACEHOLDER_007__".toList
    freshIndex s = .ok 8 ∧ 7 < 8 ∧ ∀ k < indexLimit, token k <:+: s → k < 8 := by
  intro s
  have hs := freshIndex_above s
  have htop : ¬ Shown (indexLimit - 1) s := by decide +kernel
  have hok : freshIndex s = .ok 8 := by rfl
  have h7 : Shown 7 s := by decide +kernel
  obtain ⟨n, hn, habove⟩ := hs.2.2.2 htop (unshared_of_nowhere (by decide +kernel))
  obtain rfl : 8 = n := Except.ok.inj (hok.symm.trans hn)
  exact ⟨hok, (hs.2.1 8 hok 7).mpr ⟨7, Nat.le_refl 7, h7⟩, habove⟩

/-- The second token is missed, and its index given out again. -/
example : freshIndex "__SUBQUERY_PLACEHOLDER_0__SUBQUERY_PLACEHOLDER_1__".toList = .ok 1 := by decide +kernel

/-- There is no word above the largest. -/
example : freshIndex (token (indexLimit - 1)) = .error .index := by decide +kernel

end ExportQuery.Sql
