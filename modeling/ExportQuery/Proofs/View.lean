/-
  ExportQuery.Proofs.View — what stands in the view with tokens.

  A token starts and ends with an underscore and holds neither a dash nor a small letter. So
  text of the view without underscores stands in a piece, and the FROM marker does: the first
  one of the view is the first one outside the regions.

  - `lt_of_mem_tokenIndices_view`: a view has an index for each region, and no other.
  - `plain_of_not_mem`: text of the view that is text of the pieces.
  - `MarkedAt`: where the FROM marker first stands outside the regions.
  - `fromClause?_outerAt_iff`: there the view is cut.
-/

import ExportQuery.Proofs.Edit
import ExportQuery.Proofs.FreshIndex

namespace ExportQuery.Sql

open ExportQuery.Text

theorem token_eq_concat (k : Nat) : ∃ t, token k = '_' :: t ++ ['_'] := by
  have ho : tokenOpening = '_' :: tokenOpening.tail := by decide
  have hc : tokenClosing = ['_'] ++ ['_'] := by decide
  refine ⟨tokenOpening.tail ++ decimal k ++ ['_'], ?_⟩
  rw [token, hc]
  conv_lhs => rw [ho]
  simp

theorem not_mem_token_of_lower {c : Char} (hc : c.isLower = true) (k : Nat) : c ∉ token k := by
  have opening : tokenOpening.all (!·.isLower) = true := by decide
  have digits : ∀ n ∈ List.range' 48 10, (Char.ofNat n).isLower = false := by decide
  simp only [token, List.mem_append, not_or]
  refine ⟨⟨fun hm => ?_, fun hm => ?_⟩, fun hm => ?_⟩
  · have := List.all_eq_true.mp opening c hm
    rw [hc] at this; cases this
  · have := digits _ (toNat_of_isDigit (isDigit_decimal k c hm))
    rw [Char.ofNat_toNat, hc] at this; cases this
  · rw [closing_char hm] at hc
    exact absurd hc (by decide)

namespace Division

variable {name : Nat → Text} {i : Nat}

theorem Tokens.eq_concat (hn : Tokens name) (i : Nat) : ∃ t, name i = '_' :: t ++ ['_'] := by
  obtain ⟨k, hk⟩ := hn i
  rw [hk]; exact token_eq_concat k

/-- A part of the view without underscores is a part of one piece. -/
theorem plain_of_not_mem (hn : Tokens name) {d : Division} (h : '_' ∉ d.outerAt name i) : d = plain (d.outerAt name i) := by
  induction d with
  | plain s => rfl
  | cons p b d _ =>
    obtain ⟨t, ht⟩ := hn.eq_concat i
    exact absurd (by simp [ht]) h

/-- A word without underscores at the end of the view is the end of the last piece. -/
theorem exists_word (hn : Tokens name) {d : Division} {a kw : Text} (h : d.outerAt name i = a ++ kw) (ha : EndsApart a)
    (hk : '_' ∉ kw) : ∃ e, d = e ++ plain kw ∧ e.outerAt name i = a := by
  obtain ⟨e, k, rfl, he, hkw⟩ := exists_append hn.wordy h (Or.inl ha)
  have hp := plain_of_not_mem hn (d := k) (by rw [hkw]; exact hk)
  rw [hkw] at hp
  exact ⟨e, by rw [hp], he⟩

/-! ## Indices -/

/-- No token starts in a text without tokens, not even one that would end in the token behind it. -/
theorem tokenAt?_ahead {p : Text} (hp : TokenFree p) (h0 : p ≠ []) (i : Nat) (r : Text) :
    tokenAt? (p ++ (token i ++ r)) = none := by
  cases ht : tokenAt? (p ++ (token i ++ r)) with
  | none => rfl
  | some x =>
    obtain ⟨o, r'⟩ := x
    obtain ⟨ds, hd, e, -⟩ := tokenAt?_eq_some_iff.mp ht
    have e : p ++ (token i ++ r) = tokenOpening ++ (ds ++ (tokenClosing ++ r')) := by rw [e]; simp
    rcases List.append_eq_append_iff.mp e with ⟨c, ho, hc⟩ | ⟨c, rfl, -⟩
    · -- the opening reaches into the token, where an underscore stands for its first digit
      have hc0 : c ≠ [] := by
        rintro rfl
        rw [List.append_nil] at ho
        exact hp ⟨[], [], by simp [ho]⟩
      have e' : tokenOpening ++ (decimal i ++ tokenClosing ++ r) = c ++ (ds ++ (tokenClosing ++ r')) := by
        rw [← hc]; simp [token]
      obtain ⟨d, more, hds⟩ := List.exists_cons_of_ne_nil hd.1
      have hfirst := opening_inside ho h0 hc0 e'
      rw [hds, List.cons_append, List.cons.injEq] at hfirst
      exact absurd (by rw [hds, hfirst.1]; simp) hd.underscore_not_mem
    · exact absurd ⟨[], c, by simp⟩ hp

theorem tokenIndices_ahead {p : Text} (hp : TokenFree p) (i : Nat) (r : Text) :
    tokenIndices (p ++ (token i ++ r)) = tokenIndices (token i ++ r) := by
  induction p with
  | nil => rfl
  | cons c p ih =>
    have hnone := tokenAt?_ahead hp (List.cons_ne_nil c p) i r
    rw [List.cons_append] at hnone ⊢
    rw [tokenIndices_of_none hnone]
    exact ih (hp.within (List.suffix_cons c p).isInfix)

theorem lt_of_mem_tokenIndices_view {d : Division} (h : TokenFree d.text) {j : Nat} (hj : j ∈ tokenIndices (d.outerAt token i)) :
    j < i + d.count := by
  induction d generalizing i with
  | plain s =>
    rw [outerAt_plain, tokenIndices_of_tokenFree (by simpa using h)] at hj
    cases hj
  | cons p b d ih =>
    rw [text_cons] at h
    have hp : TokenFree p := h.within ⟨[], b ++ d.text, by simp⟩
    have hd : TokenFree d.text := h.within (List.suffix_append _ _).isInfix
    have hdigits : Digits (decimal i) := digits_of_readDecimal? (readDecimal?_decimal i)
    have hread : tokenAt? (token i ++ d.outerAt token (i + 1)) =
        some ((readDecimal? (decimal i)).filter (· < indexLimit), d.outerAt token (i + 1)) :=
      tokenAt?_eq_some_iff.mpr ⟨decimal i, hdigits, rfl, rfl⟩
    rw [outerAt_cons, List.append_assoc, tokenIndices_ahead hp, tokenIndices_of_some hread, List.mem_append] at hj
    rw [count_cons]
    rcases hj with hj | hj
    · have hi := (Option.filter_eq_some_iff.mp (Option.mem_toList.mp hj)).1
      rw [readDecimal?_decimal, Option.some.injEq] at hi
      omega
    · have := ih hd hj
      omega

/-! ## The FROM marker -/

theorem fromMarker_eq_cons : ∃ t, fromMarker = '-' :: '-' :: t := ⟨_, rfl⟩

/-- The FROM marker first stands outside the regions behind `d₁`. -/
structure MarkedAt (d d₁ d₂ : Division) : Prop where
  joins : d = d₁ ++ plain fromMarker ++ d₂
  first : ∀ e₁ e₂, d₁ ≠ e₁ ++ plain fromMarker ++ e₂

/-- A FROM marker of the view divides the division. -/
theorem exists_marker (hn : Tokens name) {d : Division} {a b : Text} (h : d.outerAt name i = a ++ fromMarker ++ b) :
    ∃ d₁ d₂, d = d₁ ++ plain fromMarker ++ d₂ ∧ d₁.outerAt name i = a ∧ d₂.outerAt name (i + d₁.count) = b := by
  obtain ⟨r, hr⟩ := fromMarker_eq_cons
  have hs : Seam a (fromMarker ++ b) := by
    rw [hr]; exact Or.inr not_isWord_dash
  obtain ⟨d₁, e, rfl, h₁, he⟩ := exists_append hn.wordy (h.trans (List.append_assoc _ _ _)) hs
  have hlast : ∀ i, 'e' ∉ name i := fun i => by
    obtain ⟨k, hk⟩ := hn i
    rw [hk]; exact not_mem_token_of_lower rfl k
  obtain ⟨m, d₂, rfl, hm, h₂⟩ := exists_between he (between_of_last hlast (by decide) b)
  have hp := plain_of_not_mem hn (d := m) (by rw [hm]; decide)
  rw [hm] at hp
  refine ⟨d₁, d₂, by rw [hp, append_assoc], h₁, ?_⟩
  rw [← h₂, hp]; simp

theorem not_infix_of_first (hn : Tokens name) {d : Division} (h : ∀ e₁ e₂, d ≠ e₁ ++ plain fromMarker ++ e₂) :
    ¬ fromMarker <:+: d.outerAt name i := by
  rintro ⟨a, b, e⟩
  obtain ⟨d₁, d₂, hd, -⟩ := exists_marker hn e.symm
  exact h d₁ d₂ hd

theorem fromMarker_first {x : Text} (h : ¬ fromMarker <:+: x) (y : Text) : cut? fromMarker (x ++ fromMarker ++ y) = some (x, y) :=
  cut?_first (not_infix_dropLast (by decide) (by decide) h) y

/-- The view is cut at the first FROM marker outside the regions. -/
theorem fromClause?_outerAt_iff (hn : Tokens name) {d : Division} {head rest : Text} :
    fromClause? (d.outerAt name i) = some (head, rest) ↔
      ∃ d₁ d₂, d.MarkedAt d₁ d₂ ∧ head = d₁.outerAt name i ++ fromMarker ∧ rest = d₂.outerAt name (i + d₁.count) := by
  simp only [fromClause?, Option.map_eq_some_iff, Prod.exists, Prod.mk.injEq]
  constructor
  · rintro ⟨a, b, hc, rfl, rfl⟩
    obtain ⟨d₁, d₂, hd, h₁, h₂⟩ := exists_marker hn (eq_of_cut? hc)
    refine ⟨d₁, d₂, ⟨hd, ?_⟩, by rw [h₁], h₂.symm⟩
    rintro e₁ e₂ rfl
    refine not_infix_of_cut? (by decide) hc ?_
    rw [← h₁]
    exact ⟨e₁.outerAt name i, e₂.outerAt name (i + e₁.count), by simp⟩
  · rintro ⟨d₁, d₂, ⟨rfl, hfirst⟩, rfl, rfl⟩
    refine ⟨d₁.outerAt name i, d₂.outerAt name (i + d₁.count), ?_, rfl, rfl⟩
    have := fromMarker_first (not_infix_of_first hn (i := i) hfirst) (d₂.outerAt name (i + d₁.count))
    simpa using this

theorem fromClause?_outerAt_none_iff (hn : Tokens name) {d : Division} :
    fromClause? (d.outerAt name i) = none ↔ ∀ d₁ d₂, d ≠ d₁ ++ plain fromMarker ++ d₂ := by
  rw [fromClause?, Option.map_eq_none_iff, cut?_eq_none_iff]
  constructor
  · rintro h d₁ d₂ rfl
    exact h ⟨d₁.outerAt name i, d₂.outerAt name (i + d₁.count), by simp⟩
  · exact not_infix_of_first hn

/-- Either no FROM marker stands outside the regions, or one stands there first. -/
theorem unmarked_or_exists_markedAt (d : Division) :
    (∀ d₁ d₂, d ≠ d₁ ++ plain fromMarker ++ d₂) ∨ ∃ d₁ d₂, d.MarkedAt d₁ d₂ := by
  cases h : fromClause? (d.outerAt token 0) with
  | none => exact Or.inl ((fromClause?_outerAt_none_iff tokens_token).mp h)
  | some p =>
    obtain ⟨d₁, d₂, hm, -⟩ := (fromClause?_outerAt_iff tokens_token).mp h
    exact Or.inr ⟨d₁, d₂, hm⟩

end Division

end ExportQuery.Sql
