/-
  ExportQuery.Proofs.MergeTwice — merging twice is merging once, in any text with tokens.

  What a merge writes holds the tokens and regions of the text it was given, so the next merge
  counts its local tokens from the same index and swaps the same regions, in the same order.
  The view it edits is the view that the first merge left, and there it finds the WHERE that
  the first conditions stand behind.

  - `Merging.proper` / `Merging.tokenIndices_result`: what an edit keeps.
  - `exists_merging`: a merge is one such edit.
  - `merged_merged`: two such edits are one.
  - `mergeWhere_mergeWhere`: merging twice is merging the second conditions, then the first.
-/

import ExportQuery.Proofs.Marker
import ExportQuery.Proofs.Remerge

namespace ExportQuery.Sql

open ExportQuery.Text

namespace Merging

open Division

variable {name : Nat → Text} {head J : Text} {d : Division} (m : Merging name head J d)

/-- An edited division is a division by regions when the condition holds no marker. -/
theorem proper (hd : d.Proper) (hJ : MarkerFree J) : m.edited.Proper := by
  have hu := m.placed.unmarked hJ (e := []) (Or.inl rfl)
  rw [List.append_nil] at hu
  rw [m.joins] at hd
  exact hd.edit (hu.shrink ((last_suffix_outerAt _).trans (List.suffix_append _ _)) (first_prefix_outerAt _))

theorem result_parts : m.result = (head ++ m.before.text) ++ m.filling ++ m.after.text := rfl

theorem text_parts : head ++ d.text = (head ++ m.before.text) ++ m.gap ++ m.after.text := by
  have h := congrArg Division.text m.joins
  rw [h]; simp

theorem tokenFree (hn : Wordy name) (hd : d.Fenced) (hs : TokenFree (head ++ d.text)) (hJ : TokenFree J) :
    TokenFree m.result := by
  rw [m.text_parts] at hs
  exact (tokenFree_edit (m.gap_text hn hd) (m.filler_text hn hd)).mpr ⟨hs, m.placed.tokenFree_filling.mpr hJ⟩

/-- An edit leaves and adds no token. -/
theorem tokenIndices_result (hn : Wordy name) (hd : d.Fenced) (hJ : TokenFree J) :
    tokenIndices m.result = tokenIndices (head ++ d.text) := by
  rw [m.text_parts, result_parts]
  exact tokenIndices_edit (m.gap_text hn hd) (m.filler_text hn hd) (m.placed.tokenFree_filling.mpr hJ)

theorem count_edited : m.edited.count = d.count := by
  have h := congrArg List.length m.bodies_edited
  rwa [bodies, bodies, List.length_map, List.length_map] at h

theorem view : d.outerAt name 0 = m.before.outerAt name 0 ++ m.gap ++ m.after.outerAt name m.before.count := by
  have h := congrArg (outerAt name 0) m.joins
  rw [h]; simp

theorem view_edited :
    m.edited.outerAt name 0 = m.before.outerAt name 0 ++ m.filling ++ m.after.outerAt name m.before.count := by
  simp [edited]

end Merging

theorem Merging.merged_result {s rest head : Text} {conditions : List Text} {d : Division}
    (m : Merging (tokenFrom (indexAbove s)) head (conjunction conditions) d) (hm : fromClause? s = some (head, rest))
    (hd : divide rest = d) (hj : conjunction conditions ≠ [])
    (hw : Sql.Widest (m.before.outerAt (tokenFrom (indexAbove s)) 0) m.gap
      (m.after.outerAt (tokenFrom (indexAbove s)) m.before.count) m.filling)
    (hs : Clean s) (hc : ∀ c ∈ conditions, TokenFree c) : merged s conditions = m.result := by
  subst hd
  have htext : s = head ++ (divide rest).text := by rw [divide_joins]; exact (fromClause_joins hm).1
  have hrestore := m.restore_edited (Division.tokens_tokenFrom _) (divide_proper rest).fenced (tokenFree_conjunction hc)
    (htext ▸ hs.toWhole) (apart_of_clean hs hm)
  rw [m.bodies_edited, m.view_edited] at hrestore
  rw [merged_view hm hj m.placed hw m.view, hrestore]

/-- A merge is an edit of the division behind the FROM marker. -/
theorem exists_merging {s rest head : Text} {conditions : List Text} (hm : fromClause? s = some (head, rest))
    (hj : conjunction conditions ≠ []) (hs : Clean s) (hc : ∀ c ∈ conditions, TokenFree c) :
    ∃ m : Merging (tokenFrom (indexAbove s)) head (conjunction conditions) (divide rest), merged s conditions = m.result := by
  obtain ⟨m, hwide, -⟩ := merged_eq hm hj
  exact ⟨m, m.merged_result hm rfl hj ⟨m.blank, hwide.1, hwide.2⟩ hs hc⟩

/-! ## Both merges -/

section

variable {s : Text} {first second : List Text}

/-- The text of the first merge keeps the marker, the tokens and as many regions. -/
theorem exists_marked_merge (second : List Text) {head rest : Text} (hs : Clean s) (hf : ∀ c ∈ first, TokenFree c)
    (hm : ∀ c ∈ first, MarkerFree c) (hmark : fromClause? s = some (head, rest)) (hj : conjunction first ≠ []) :
    ∃ rest', fromClause? (merged s first) = some (head, rest') ∧ tokenIndices (merged s first) = tokenIndices s ∧
      (divide rest').count = (divide rest).count ∧ merged (merged s first) second = merged s (second ++ first) := by
  have hn := (Division.tokens_tokenFrom (indexAbove s)).wordy
  have hproper := divide_proper rest
  have htext : s = head ++ (divide rest).text := by rw [divide_joins]; exact (fromClause_joins hmark).1
  obtain ⟨m, hwide, -⟩ := merged_eq hmark hj
  have hwide : Widest _ m.gap _ m.filling := ⟨m.blank, hwide.1, hwide.2⟩
  have hresult : merged s first = m.result := m.merged_result hmark rfl hj hwide hs hf
  have hindices : tokenIndices m.result = tokenIndices s := by
    rw [m.tokenIndices_result hn hproper.fenced (tokenFree_conjunction hf), ← htext]
  have hfresh := indexAbove_congr hindices
  have hdivide : divide m.edited.text = m.edited := divide_text (m.proper hproper (markerFree_conjunction hm))
  have hmark' : fromClause? m.result = some (head, m.edited.text) := by
    rw [m.result_eq]
    exact fromClause?_congr ((fromClause_joins hmark).1 ▸ hmark) _
  refine ⟨m.edited.text, by rw [hresult, hmark'], by rw [hresult, hindices], by rw [hdivide, m.count_edited], ?_⟩
  rw [hresult]
  refine merged_again hj hresult hmark hmark' m.view ?_ ?_ m.placed hwide
  · rw [hdivide, hfresh]
    exact m.view_edited
  · intro x
    rw [hdivide, hfresh, m.bodies_edited]

theorem merged_merged (hs : Clean s) (hf : ∀ c ∈ first, TokenFree c) (hm : ∀ c ∈ first, MarkerFree c) :
    merged (merged s first) second = merged s (second ++ first) := by
  by_cases hj : conjunction first = []
  · rw [merged_blank hj]
    exact merged_congr (conjunction_append_blank hj).symm
  cases hmark : fromClause? s with
  | none => rw [merged_of_none hmark, merged_of_none hmark, merged_of_none hmark]
  | some p =>
    obtain ⟨rest', -, -, -, h⟩ := exists_marked_merge second hs hf hm hmark hj
    exact h

/-- The second merge overflows when merging at once does and the first merge did not. -/
theorem overflows_merged_iff (hs : Clean s) (hf : ∀ c ∈ first, TokenFree c) (hm : ∀ c ∈ first, MarkerFree c)
    (hk : conjunction second ≠ []) : Overflows (merged s first) second ↔ Overflows s (second ++ first) := by
  by_cases hj : conjunction first = []
  · rw [merged_blank hj, Overflows, Overflows, conjunction_append_blank hj]
  have hboth := conjunction_append_ne_nil second hj
  cases hmark : fromClause? s with
  | none =>
    rw [merged_of_none hmark]
    exact ⟨fun h => absurd h (not_overflows_of_none hmark), fun h => absurd h (not_overflows_of_none hmark)⟩
  | some p =>
    obtain ⟨head, rest⟩ := p
    obtain ⟨rest', hmark', hindices, hcount, -⟩ := exists_marked_merge second hs hf hm hmark hj
    rw [overflows_iff hmark' hk, overflows_iff hmark hboth, hcount, exceeds_congr hindices]

end

end ExportQuery.Sql
