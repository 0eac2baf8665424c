/-
  ExportQuery.Proofs.Remerge — merging again where conditions were merged before.

  After conditions went in, the first WHERE is the one they stand behind: no keyword before it
  reaches into the blank ahead of them. So further conditions go right behind that WHERE and
  before the first ones, and both together are merged as one conjunction would be.

  - `merged_placed`: merging fills the gap of the widest placement.
  - `Placed.again`: the placement of further conditions.
  - `merged_again`: merging twice is merging once.
  - `Filled`: what a merge writes behind the marker.
-/

import ExportQuery.Proofs.Clauses
import ExportQuery.Proofs.Merge

namespace ExportQuery.Sql

open ExportQuery.Text

/-! ## The marker -/

/-- A cut is made whatever stands behind it. -/
theorem cut?_congr {pat a b : Text} (h : cut? pat (a ++ pat ++ b) = some (a, b)) (b' : Text) :
    cut? pat (a ++ pat ++ b') = some (a, b') := by
  refine cut?_eq_some_iff.mpr ⟨rfl, fun x y e => ?_⟩
  by_cases hl : a.length ≤ x.length
  · exact hl
  have hlen : (x ++ pat).length ≤ (a ++ pat).length := by
    simp only [List.length_append]; omega
  obtain ⟨t, ht, -⟩ := eq_append_of_le e.symm hlen
  exact cut?_le h (show a ++ pat ++ b = x ++ pat ++ (t ++ b) by rw [ht, List.append_assoc])

/-- The text through the first FROM marker is found whatever follows. -/
theorem fromClause?_congr {head rest : Text} (h : fromClause? (head ++ rest) = some (head, rest)) (t : Text) :
    fromClause? (head ++ t) = some (head, t) := by
  simp only [fromClause?, Option.map_eq_some_iff, Prod.exists, Prod.mk.injEq] at h ⊢
  obtain ⟨a, b, hc, rfl, rfl⟩ := h
  exact ⟨a, t, cut?_congr hc t, rfl, rfl⟩

/-! ## The widest placement -/

/-- All blanks in the gap make way. -/
structure Widest (a w b ins : Text) : Prop where
  blank : allBlank w = true
  before : (∃ t, ins = "\nWHERE ".toList ++ t) → trimEnd a = a
  after : trimStart b = b

section

variable {head J a w b ins : Text}

theorem blanks_eq {w w' b b' : Text} (hw : allBlank w = true) (hw' : allBlank w' = true) (hb : trimStart b = b)
    (hb' : trimStart b' = b') (e : w ++ b = w' ++ b') : w = w' ∧ b = b' := by
  obtain ⟨v, rfl, rfl⟩ := blanks_before hb hw' e
  obtain ⟨v', h, -⟩ := blanks_before hb' hw e.symm
  have : v = [] := by
    have := congrArg List.length h
    simp only [List.length_append] at this
    exact List.eq_nil_of_length_eq_zero (by omega)
  subst this
  simp

/-- There is one widest placement in a text. -/
theorem Placed.unique {a' w' b' ins' : Text} (h : Placed head J a w b ins) (h' : Placed head J a' w' b' ins')
    (hw : Widest a w b ins) (hw' : Widest a' w' b' ins') (e : a ++ w ++ b = a' ++ w' ++ b') :
    a ++ ins ++ b = a' ++ ins' ++ b' := by
  rcases h.compare h' e with ⟨rfl, hb, hi, hi'⟩ | ⟨ha, rfl, rfl, hl⟩
  · obtain ⟨-, rfl⟩ := blanks_eq hw.blank hw'.blank hw.after hw'.after hb
    rw [hi, hi']
  · obtain ⟨v, ha', hv⟩ := blanks_after (hw.before hl) hw'.blank ha
    obtain ⟨v', ha'', -⟩ := blanks_after (hw'.before hl) hw.blank ha.symm
    have hn : v = [] := by
      rw [ha'] at ha''
      have := congrArg List.length ha''
      simp only [List.length_append] at this
      exact List.eq_nil_of_length_eq_zero (by omega)
    rw [ha', hn, List.append_nil]

/-- Merging fills the gap of the widest placement in the view, and swaps regions back. -/
theorem merged_view {s rest : Text} {conditions : List Text} (hm : fromClause? s = some (head, rest))
    (hj : conjunction conditions ≠ []) (h : Placed head (conjunction conditions) a w b ins) (hw : Widest a w b ins)
    (e : (divide rest).outer (tokenFrom (indexAbove s)) = a ++ w ++ b) :
    merged s conditions = restoreFrom (tokenFrom (indexAbove s)) 0 (divide rest).bodies (head ++ (a ++ ins ++ b)) := by
  obtain ⟨a', w', b', ins', e', hb', hp, hi, ht, hb⟩ :=
    site_placed (trimEnd_head hm) (conjunction conditions) ((divide rest).outer (tokenFrom (indexAbove s)))
  have hsame := h.unique hp hw ⟨hb', ht, hb⟩ (e.symm.trans e')
  simp only [merged, if_neg hj, hm, hi]
  rw [hsame]
  simp only [List.append_assoc]

/-- It does so in a text without regions behind the marker. -/
theorem merged_placed {rest : Text} {conditions : List Text} (hm : fromClause? (head ++ rest) = some (head, rest))
    (hd : divide rest = Division.plain rest) (hj : conjunction conditions ≠ [])
    (h : Placed head (conjunction conditions) a w b ins) (hw : Widest a w b ins) (e : rest = a ++ w ++ b) :
    merged (head ++ rest) conditions = head ++ (a ++ ins ++ b) := by
  rw [merged_view hm hj h hw (by rw [hd]; exact e), hd]
  rfl

theorem exists_placed (hh : trimEnd head = head) (J rest : Text) :
    ∃ a w b ins, rest = a ++ w ++ b ∧ Placed head J a w b ins ∧ Widest a w b ins := by
  obtain ⟨a, w, b, ins, e, hw, hp, -, ht, hb⟩ := site_placed hh J rest
  exact ⟨a, w, b, ins, e, hp, hw, ht, hb⟩

/-! ## The placement of further conditions -/

/-- A WHERE is found whatever stands behind it. -/
theorem firstAt_where {kw y y' : Text} (hk : Spells "WHERE".toList kw) (h : FirstAt (opensClause [.filter]) head a (kw ++ y))
    (hy : StartsBlank y') (hs : startsInWord y' = false) : FirstAt (opensClause [.filter]) head a (kw ++ y') := by
  have hy0 := opensClause_filter h.here hk
  obtain ⟨hr, hc, -⟩ := opensClause_iff.mp h.here
  constructor
  · exact opensClause_iff.mpr ⟨hr, hc, .filter, by simp, kw, y', hk, rfl, hs⟩
  · intro u v e hv
    by_contra ho
    have ho : opensClause [.filter] (head ++ u).reverse (v ++ kw ++ y') = true := by
      rw [List.append_assoc]; simpa using ho
    have := opensClause_of_bars ho (bars_filter hy (v ++ kw)) (List.suffix_refl _) (Or.inr hy0 : Seam (v ++ kw) y)
    rw [List.append_assoc, h.before u v e hv] at this; cases this

/-- A WHERE put on a line of its own is the first one, where there was none. -/
theorem firstAt_own_where {t : Text} (hg : Gap (head ++ a) w b) (hn : Nowhere (opensClause [.filter]) head (a ++ w ++ b)) :
    FirstAt (opensClause [.filter]) head (a ++ ['\n']) ("WHERE".toList ++ ' ' :: t) := by
  have hbars : Bars [.filter] (head ++ a) ('\n' :: ("WHERE".toList ++ ' ' :: t)) :=
    bars_of_blank (d := 'W') (by decide) (by decide) (by decide) _ _
  constructor
  · rw [← List.append_assoc]
    exact opensClause_iff.mpr ⟨startsInWord_reverse.mpr (EndsApart.concat (by decide) _), (outside_feed (head ++ a)).comment,
      .filter, by simp, "WHERE".toList, ' ' :: t, spells_where, rfl, rfl⟩
  · intro u v e hv
    by_contra ho
    have ho : opensClause [.filter] (head ++ u).reverse (v ++ ("WHERE".toList ++ ' ' :: t)) = true := by simpa using ho
    rcases List.append_eq_append_iff.mp e.symm with ⟨v', rfl, rfl⟩ | ⟨x, hx, hv'⟩
    · have hs : Seam v' (w ++ b) := hg.left.shrink ⟨head ++ u, by simp⟩
      have ho : opensClause [.filter] (head ++ u).reverse (v' ++ '\n' :: ("WHERE".toList ++ ' ' :: t)) = true := by
        rw [List.append_assoc] at ho; exact ho
      have := opensClause_of_bars ho hbars ⟨head ++ u, by simp⟩ hs
      rw [hn u (v' ++ (w ++ b)) (by simp)] at this; cases this
    · -- at the line feed itself
      have hx0 : x = [] := by
        cases x with
        | nil => rfl
        | cons d x =>
          simp only [List.cons_append, List.cons.injEq] at hv'
          exact absurd (List.append_eq_nil_iff.mp hv'.2.symm).2 hv
      rw [hx0, List.nil_append] at hv'
      rw [← hv'] at ho
      obtain ⟨c, s, e, hc⟩ := starts_of_opensClause ho
      simp only [List.cons_append, List.nil_append, List.cons.injEq] at e
      rw [← e.1] at hc
      exact absurd hc (by decide)

theorem startsBlank_space (s : Text) : StartsBlank (' ' :: s) := fun c t e => by
  obtain ⟨rfl, -⟩ := List.cons.inj e
  decide

theorem not_line_of_space {s t : Text} : ¬ ∃ r, ' ' :: s ++ t = "\nWHERE ".toList ++ r := by
  rintro ⟨r, h⟩
  have := congrArg List.head? h
  simp at this

/-- Further conditions go behind the WHERE that the first ones stand behind. -/
theorem Placed.again (h : Placed head J a w b ins) (hw : Widest a w b ins) (hJ : Trimmed J) (K : Text) :
    ∃ a' b' ins' both, a ++ ins ++ b = a' ++ [' '] ++ b' ∧ Placed head K a' [' '] b' ins' ∧ Widest a' [' '] b' ins' ∧
      Placed head (K ++ " AND ".toList ++ J) a w b both ∧ Widest a w b both ∧ a' ++ ins' ++ b' = a ++ both ++ b := by
  have hg := h.gap hw.blank
  have widest : ∀ (a' t : Text), Widest a' [' '] (J ++ t) (' ' :: K ++ " AND ".toList) := fun a' t =>
    ⟨by decide, fun hl => absurd hl not_line_of_space, hJ.trimStart t⟩
  have hne : ∀ t, J ++ t ≠ [] := fun t => by simp [hJ.ne_nil]
  cases h with
  | @extending a kw w b opens spelt =>
    rw [List.append_assoc] at opens
    have hp : Placed head K (a ++ kw) [' '] (J ++ ((if b = [] then [] else " AND ".toList) ++ b))
        (' ' :: K ++ " AND ".toList) := by
      have hp := @Placed.extending head K a kw [' '] (J ++ ((if b = [] then [] else " AND ".toList) ++ b))
        (by simpa using firstAt_where spelt opens (startsBlank_space _) rfl) spelt
      rwa [if_neg (hne _)] at hp
    refine ⟨a ++ kw, _, _, _, by simp, hp, widest _ _, .extending (by rw [List.append_assoc]; exact opens) spelt, ?_, by simp⟩
    exact ⟨hw.blank, fun hl => absurd hl not_line_of_space, hw.after⟩
  | @preceding a w b none_opens closes =>
    have hf := firstAt_own_where (t := J ++ (['\n'] ++ b)) hg none_opens
    have hp : Placed head K (a ++ ['\n'] ++ "WHERE".toList) [' '] (J ++ (['\n'] ++ b)) (' ' :: K ++ " AND ".toList) := by
      have hp := @Placed.extending head K (a ++ ['\n']) "WHERE".toList [' '] (J ++ (['\n'] ++ b)) (by simpa using hf) spells_where
      rwa [if_neg (hne _)] at hp
    refine ⟨_, _, _, _, by simp, hp, widest _ _, .preceding none_opens closes, ?_, by simp⟩
    exact ⟨hw.blank, fun _ => hw.before ⟨_, List.append_assoc _ _ _⟩, hw.after⟩
  | @atEnd a w none_opens none_closes =>
    have hf := firstAt_own_where (t := J) (b := []) hg (by rw [List.append_nil]; exact none_opens)
    have hp : Placed head K (a ++ ['\n'] ++ "WHERE".toList) [' '] J (' ' :: K ++ " AND ".toList) := by
      have hp := @Placed.extending head K (a ++ ['\n']) "WHERE".toList [' '] J (by simpa using hf) spells_where
      rwa [if_neg hJ.ne_nil] at hp
    have hwide := widest (a ++ ['\n'] ++ "WHERE".toList) []
    rw [List.append_nil] at hwide
    refine ⟨_, _, _, _, by simp, hp, hwide, .atEnd none_opens none_closes, ?_, by simp⟩
    exact ⟨hw.blank, fun _ => hw.before ⟨_, rfl⟩, hw.after⟩

end

/-! ## Merging twice -/

theorem conjuncts_append (F P : List Text) : conjuncts (F ++ P) = conjuncts F ++ conjuncts P := by simp [conjuncts]

theorem join_append (sep : Text) {p q : List Text} (hp : p ≠ []) (hq : q ≠ []) :
    join sep (p ++ q) = join sep p ++ sep ++ join sep q := by
  induction p with
  | nil => exact absurd rfl hp
  | cons c p ih =>
    by_cases h0 : p = []
    · rw [h0, List.singleton_append, join_cons _ _ hq, join_singleton]
    · rw [List.cons_append, join_cons _ _ (by simp [h0]), ih h0, join_cons _ _ h0]
      simp

theorem conjunction_append {F P : List Text} (hP : conjunction P ≠ []) :
    conjunction (F ++ P) =
      if conjunction F = [] then conjunction P else conjunction F ++ " AND ".toList ++ conjunction P := by
  have hP' : conjuncts P ≠ [] := fun h => hP (conjunction_eq_nil_iff.mpr h)
  rw [conjunction_eq, conjuncts_append]
  split
  · rename_i hF
    rw [conjunction_eq_nil_iff.mp hF, List.nil_append, conjunction_eq]
  · rename_i hF
    exact join_append _ (fun h => hF (conjunction_eq_nil_iff.mpr h)) hP'

theorem conjunction_append_ne_nil (F : List Text) {P : List Text} (hP : conjunction P ≠ []) : conjunction (F ++ P) ≠ [] := by
  rw [conjunction_append hP]
  split
  · exact hP
  · simp

/-- Conditions merged besides do not keep a merge from overflowing. -/
theorem Overflows.append {s : Text} {F P : List Text} (h : Overflows s P) : Overflows s (F ++ P) :=
  ⟨conjunction_append_ne_nil F h.1, h.2⟩

theorem conjunction_append_blank {F P : List Text} (hP : conjunction P = []) : conjunction (F ++ P) = conjunction F := by
  rw [conjunction_eq, conjuncts_append, conjunction_eq_nil_iff.mp hP, List.append_nil, conjunction_eq]

/-- Conditions merged into what a merge wrote are merged with the first ones, as long as regions
    are swapped back alike. -/
theorem merged_again {s t head rest rest' a w b ins : Text} {F P : List Text} (hP : conjunction P ≠ [])
    (ht : merged s P = t) (hm : fromClause? s = some (head, rest)) (hm' : fromClause? t = some (head, rest'))
    (e : (divide rest).outer (tokenFrom (indexAbove s)) = a ++ w ++ b)
    (e' : (divide rest').outer (tokenFrom (indexAbove t)) = a ++ ins ++ b)
    (hr : ∀ x, restoreFrom (tokenFrom (indexAbove t)) 0 (divide rest').bodies x =
      restoreFrom (tokenFrom (indexAbove s)) 0 (divide rest).bodies x)
    (hp : Placed head (conjunction P) a w b ins) (hw : Widest a w b ins) :
    merged t F = merged s (F ++ P) := by
  have hj := conjunction_append (F := F) hP
  by_cases hF : conjunction F = []
  · rw [if_pos hF] at hj
    rw [merged_blank hF, ← ht]
    simp only [merged, hj]
  · rw [if_neg hF] at hj
    obtain ⟨a', b', ins', both, e'', hp', hw', hboth, hwb, hsame⟩ := hp.again hw (trimmed_conjunction hP) (conjunction F)
    rw [← hj] at hboth
    rw [merged_view hm' hF hp' hw' (e'.trans e''), merged_view hm (conjunction_append_ne_nil F hP) hboth hwb e, hr, hsame]

/-! ## Texts without regions behind the marker -/

/-- `rest'` is `rest` with the condition in the gap of its widest placement, or without a
    condition `rest` itself. -/
inductive Filled (head J : Text) : Text → Text → Prop
  | same {rest : Text} (blank : J = []) : Filled head J rest rest
  | placed {a w b ins : Text} (condition : J ≠ []) (placed : Placed head J a w b ins) (widest : Widest a w b ins) :
      Filled head J (a ++ w ++ b) (a ++ ins ++ b)

section

variable {head rest rest' : Text} {F P : List Text}

theorem exists_filled (hh : trimEnd head = head) (J rest : Text) : ∃ rest', Filled head J rest rest' := by
  by_cases hJ : J = []
  · exact ⟨rest, .same hJ⟩
  · obtain ⟨a, w, b, ins, rfl, hp, hw⟩ := exists_placed hh J rest
    exact ⟨_, .placed hJ hp hw⟩

theorem merged_filled (hm : fromClause? (head ++ rest) = some (head, rest)) (hd : divide rest = Division.plain rest)
    (h : Filled head (conjunction P) rest rest') : merged (head ++ rest) P = head ++ rest' := by
  cases h with
  | same blank => exact merged_blank blank
  | placed condition placed widest => exact merged_placed hm hd condition placed widest rfl

theorem merged_again_filled (hm : fromClause? (head ++ rest) = some (head, rest)) (hd : divide rest = Division.plain rest)
    (hd' : divide rest' = Division.plain rest') (h : Filled head (conjunction P) rest rest') (F : List Text) :
    merged (head ++ rest') F = merged (head ++ rest) (F ++ P) := by
  cases h with
  | same blank => simp only [merged, conjunction_append_blank blank]
  | placed condition placed widest =>
    refine merged_again condition (merged_placed hm hd condition placed widest rfl) hm (fromClause?_congr hm _)
      ?_ ?_ ?_ placed widest
    · rw [hd]; rfl
    · rw [hd']; rfl
    · intro x
      rw [hd, hd']; rfl

theorem tokenIndices_filled (hJ : TokenFree (conjunction P)) (h : Filled head (conjunction P) rest rest') :
    tokenIndices (head ++ rest') = tokenIndices (head ++ rest) := by
  cases h with
  | same => rfl
  | @placed a w b ins condition placed widest =>
    have hedit := tokenIndices_edit (placed.gap widest.blank) placed.filler (placed.tokenFree_filling.mpr hJ)
    simpa only [List.append_assoc] using hedit

/-- Merging again overflows when merging at once does, if the first merge did not. -/
theorem mergeWhere_again_filled (hm : fromClause? (head ++ rest) = some (head, rest)) (hd : divide rest = Division.plain rest)
    (hd' : divide rest' = Division.plain rest') (hJ : TokenFree (conjunction P)) (h : Filled head (conjunction P) rest rest')
    (ho : ¬ Overflows (head ++ rest) P) (F : List Text) :
    mergeWhere (head ++ rest') F = mergeWhere (head ++ rest) (F ++ P) := by
  by_cases hP : conjunction P = []
  · cases h with
    | same => exact mergeWhere_congr (conjunction_append_blank hP).symm
    | placed condition => exact absurd hP condition
  have hex : ¬ Exceeds (head ++ rest) 0 := by
    rwa [overflows_iff hm hP, hd] at ho
  have hboth : ¬ Overflows (head ++ rest) (F ++ P) := by
    rwa [overflows_iff hm (conjunction_append_ne_nil F hP), hd]
  have hagain : ¬ Overflows (head ++ rest') F := by
    rintro ⟨-, head', rest'', hm', hex'⟩
    rw [fromClause?_congr hm, Option.some.injEq, Prod.mk.injEq] at hm'
    rw [← hm'.2, hd', exceeds_congr (tokenIndices_filled hJ h)] at hex'
    exact hex hex'
  rw [mergeWhere_eq_ok hagain, mergeWhere_eq_ok hboth, merged_again_filled hm hd hd' h]

end

end ExportQuery.Sql
