/-
  ExportQuery.Proofs.Placement — where conditions are merged, and what merging keeps.

  Conditions fill a gap of the outer query: behind the first WHERE, else ahead of the first
  ORDER BY or LIMIT outside parentheses, else at the end. All blanks in the gap make way.

  - `Placed`: the three placements, told from first places of keywords.
  - `Placed.gap` / `Placed.filler`: conditions are merged in at a place that cuts no word.
  - `Placed.compare`: two cuts at the placement of one text differ in blanks alone.
  - `Placed.tokenFree_filling`: what fills the gap holds a token when the condition does.
  - `site_placed`: the site is one of the placements.
-/

import ExportQuery.Proofs.Edit
import ExportQuery.Proofs.Reading
import ExportQuery.Sql.Where

namespace ExportQuery.Sql

open ExportQuery.Text

/-! ## Placements -/

/-- A clause opens at a place, outside the parentheses opened behind `head`. -/
def opensOuterClause (ks : List Clause) (head read left : Text) : Bool :=
  opensClause ks read left && depth (read.take (read.length - head.length)) == 0

theorem opensClause_of_outer {ks : List Clause} {head read left : Text} (h : opensOuterClause ks head read left = true) :
    opensClause ks read left = true := by
  rw [opensOuterClause, Bool.and_eq_true] at h
  exact h.1

/-- Where a condition goes in `head ++ a ++ w ++ b`, and the text `ins` that takes the place of
    the blanks `w`. -/
inductive Placed (head condition : Text) : (a w b ins : Text) → Prop where
  /-- Behind the first WHERE. -/
  | extending {a kw w b : Text} (opens : FirstAt (opensClause [.filter]) head a (kw ++ w ++ b))
      (spelt : Spells "WHERE".toList kw) :
      Placed head condition (a ++ kw) w b (' ' :: condition ++ if b = [] then [] else " AND ".toList)
  /-- Without a WHERE, ahead of the first clause that closes the query. -/
  | preceding {a w b : Text} (none_opens : Nowhere (opensClause [.filter]) head (a ++ w ++ b))
      (closes : FirstAt (opensOuterClause [.ordering, .limit] head) head (a ++ w) b) :
      Placed head condition a w b ("\nWHERE ".toList ++ condition ++ ['\n'])
  /-- Without either, at the end. -/
  | atEnd {a w : Text} (none_opens : Nowhere (opensClause [.filter]) head (a ++ w))
      (none_closes : Nowhere (opensOuterClause [.ordering, .limit] head) head (a ++ w)) :
      Placed head condition a w [] ("\nWHERE ".toList ++ condition)

section

variable {head J a w b ins : Text}

/-- The placements, told from the text around the gap. -/
theorem Placed.inv (h : Placed head J a w b ins) :
    (∃ a₀ kw, a = a₀ ++ kw ∧ Spells "WHERE".toList kw ∧ FirstAt (opensClause [.filter]) head a₀ (kw ++ w ++ b) ∧
        ins = ' ' :: J ++ if b = [] then [] else " AND ".toList) ∨
      Nowhere (opensClause [.filter]) head (a ++ w ++ b) ∧
        (FirstAt (opensOuterClause [.ordering, .limit] head) head (a ++ w) b ∧ ins = "\nWHERE ".toList ++ J ++ ['\n'] ∨
          b = [] ∧ Nowhere (opensOuterClause [.ordering, .limit] head) head (a ++ w) ∧ ins = "\nWHERE ".toList ++ J) := by
  cases h with
  | @extending a kw w b opens spelt => exact Or.inl ⟨a, kw, rfl, spelt, opens, rfl⟩
  | preceding none_opens closes => exact Or.inr ⟨none_opens, Or.inl ⟨closes, rfl⟩⟩
  | atEnd none_opens none_closes =>
    exact Or.inr ⟨by rw [List.append_nil]; exact none_opens, Or.inr ⟨rfl, none_closes, rfl⟩⟩

/-- A WHERE is what it spells, and a word of its own. -/
theorem opensClause_filter {read left kw : Text} (h : opensClause [.filter] read (kw ++ left) = true)
    (hk : Spells "WHERE".toList kw) : startsInWord left = false := by
  obtain ⟨-, -, k, hm, kw', r, hk', e, hr⟩ := opensClause_iff.mp h
  obtain rfl : k = .filter := by simpa using hm
  have hl : kw.length = kw'.length := hk.length_eq.trans (Spells.length_eq hk').symm
  rwa [(List.append_inj e hl).2]

theorem Placed.gap (h : Placed head J a w b ins) (hw : allBlank w = true) : Gap (head ++ a) w b := by
  refine ⟨hw, fun h0 => ?_⟩
  cases h with
  | extending opens spelt =>
    have h := opens.here
    rw [h0, List.append_nil] at h
    exact Or.inr (opensClause_filter h spelt)
  | preceding _ closes =>
    have := (opensClause_iff.mp (opensClause_of_outer closes.here)).1
    rw [h0, List.append_nil, startsInWord_reverse] at this
    exact Or.inl this
  | atEnd => exact Seam.nil _

theorem Placed.filler (h : Placed head J a w b ins) : Filler ins b := by
  cases h with
  | extending opens spelt =>
    refine ⟨rfl, by simp, ?_⟩
    by_cases h0 : b = []
    · rw [h0]; exact Seam.nil _
    · left
      rw [if_neg h0]
      have e : ' ' :: J ++ " AND ".toList = (' ' :: J ++ " AND".toList) ++ [' '] := by simp
      exact e ▸ EndsApart.concat (by decide) _
  | preceding none_opens closes =>
    exact ⟨rfl, by simp, Or.inl (EndsApart.concat (by decide) _)⟩
  | atEnd none_opens none_closes => exact ⟨rfl, by simp, Seam.nil _⟩

theorem Placed.tokenFree_filling (h : Placed head J a w b ins) : TokenFree ins ↔ TokenFree J := by
  have space : TokenFree [' '] := by decide +kernel
  have line : TokenFree "\nWHERE ".toList := by decide +kernel
  have feed : TokenFree ['\n'] := by decide +kernel
  have and : TokenFree " AND ".toList := by decide +kernel
  have after_space : ∀ t, Seam [' '] t := fun t =>
    Or.inl (endsApart_of_getLast? (c := ' ') rfl (by decide))
  have after_line : ∀ t, Seam "\nWHERE ".toList t := fun t =>
    Or.inl (endsApart_of_getLast? (c := ' ') (by decide) (by decide))
  cases h with
  | extending opens spelt =>
    split
    · rw [List.append_nil]
      exact (tokenFree_append_iff (after_space J)).trans (by simp [space])
    · rw [tokenFree_append_iff (Or.inr rfl)]
      simp only [and, and_true]
      exact (tokenFree_append_iff (after_space J)).trans (by simp [space])
  | preceding none_opens closes =>
    rw [tokenFree_append_iff (Or.inr rfl), tokenFree_append_iff (after_line J)]
    simp only [line, feed, true_and, and_true]
  | atEnd none_opens none_closes =>
    rw [tokenFree_append_iff (after_line J)]
    simp only [line, true_and]

/-- Two cuts of the same text at a placement differ in the blanks they take. -/
theorem Placed.compare {a' w' b' ins' : Text} (h : Placed head J a w b ins) (h' : Placed head J a' w' b' ins')
    (e : a ++ w ++ b = a' ++ w' ++ b') :
    (a = a' ∧ w ++ b = w' ++ b' ∧ ins = ' ' :: J ++ (if b = [] then [] else " AND ".toList) ∧
        ins' = ' ' :: J ++ (if b' = [] then [] else " AND ".toList)) ∨
      (a ++ w = a' ++ w' ∧ b = b' ∧ ins = ins' ∧ ∃ t, ins = "\nWHERE ".toList ++ t) := by
  cases h with
  | @extending a kw w b opens spelt =>
    cases h' with
    | @extending a' kw' w' b' opens' spelt' =>
      left
      obtain ⟨rfl, h₂⟩ := opens.unique opens' (by simpa using e)
      rw [List.append_assoc, List.append_assoc] at h₂
      obtain ⟨rfl, h₃⟩ := List.append_inj h₂ (by rw [spelt.length_eq, spelt'.length_eq])
      exact ⟨rfl, h₃, rfl, rfl⟩
    | preceding none_opens => exact absurd opens (none_opens.not_firstAt (by rw [← e]; simp))
    | atEnd none_opens =>
      exact absurd opens (none_opens.not_firstAt (by rw [List.append_nil] at e; rw [← e]; simp))
  | preceding none_opens closes =>
    cases h' with
    | extending opens => exact absurd opens (none_opens.not_firstAt (by rw [e]; simp))
    | preceding _ closes' =>
      obtain ⟨h₁, h₂⟩ := closes.unique closes' e
      exact Or.inr ⟨h₁, h₂, rfl, _, List.append_assoc _ _ _⟩
    | atEnd _ none_closes =>
      exact absurd closes (none_closes.not_firstAt (by rw [e, List.append_nil]))
  | atEnd none_opens none_closes =>
    rw [List.append_nil] at e
    cases h' with
    | extending opens => exact absurd opens (none_opens.not_firstAt (by rw [e]; simp))
    | preceding _ closes => exact absurd closes (none_closes.not_firstAt e)
    | atEnd => exact Or.inr ⟨by simpa using e, rfl, rfl, _, rfl⟩

/-! ## The site -/

theorem trimEnd_append (hh : trimEnd head = head) (a : Text) : trimEnd (head ++ a) = head ++ trimEnd a := by
  simp only [trimEnd, List.reverse_append, List.dropWhile_append]
  split
  · rename_i h
    rw [List.isEmpty_iff.mp h, List.reverse_nil, List.append_nil]
    exact hh
  · simp

/-- The site of a condition is a placement, with as many blanks taken as there are. -/
theorem site_placed (hh : trimEnd head = head) (J rest : Text) :
    ∃ a w b ins, rest = a ++ w ++ b ∧ allBlank w = true ∧ Placed head J a w b ins ∧
      (site head rest).insert J = head ++ a ++ ins ++ b ∧
      ((∃ t, ins = "\nWHERE ".toList ++ t) → trimEnd a = a) ∧ trimStart b = b := by
  unfold site
  cases hw : findClause [.filter] head rest with
  | some p =>
    obtain ⟨read, left⟩ := p
    obtain ⟨a, rfl, rfl, hf⟩ := seek_firstAt_iff.mp hw
    obtain ⟨-, -, k, hk, kw, r, hs, rfl, hr⟩ := opensClause_iff.mp hf.here
    obtain rfl : k = .filter := by simpa using hk
    have hs : Spells "WHERE".toList kw := hs
    have hl : kw.length = 5 := hs.length_eq
    obtain ⟨w, e, hb⟩ := trimStart_joins r
    have e' : kw ++ r = kw ++ w ++ trimStart r := by rw [List.append_assoc, ← e]
    have ht : (kw ++ r).take 5 = kw := by rw [← hl]; simp
    have hd : (kw ++ r).drop 5 = r := by rw [← hl]; simp
    rw [e'] at hf
    refine ⟨a ++ kw, w, trimStart r, _, by rw [e']; simp, hb, .extending hf hs, ?_, ?_, trimStart_trimStart r⟩
    · simp only [ht, hd, List.reverse_reverse]
      cases trimStart r with
      | nil => simp [Site.insert]
      | cons c t => simp [Site.insert]
    · rintro ⟨t, ht⟩
      simp at ht
  | none =>
    have hn := seek_nowhere_iff.mp hw
    cases hc : findOuterClause [.ordering, .limit] head rest with
    | some p =>
      obtain ⟨read, left⟩ := p
      obtain ⟨a', rfl, rfl, hf⟩ := seek_firstAt_iff.mp hc
      obtain ⟨w, e, hb⟩ := trimEnd_joins a'
      have ho : opensClause [.ordering, .limit] (head ++ a').reverse left = true := by
        have := hf.here
        simp only [Bool.and_eq_true] at this
        exact this.1
      rw [e] at hn hf
      refine ⟨trimEnd a', w, left, _, by rw [← e], hb, .preceding hn hf, ?_, fun _ => trimEnd_trimEnd a',
        trimStart_of_opensClause ho⟩
      simp [Site.insert, trimEnd_append hh]
    | none =>
      have hn' := seek_nowhere_iff.mp hc
      obtain ⟨w, e, hb⟩ := trimEnd_joins rest
      rw [e] at hn hn'
      refine ⟨trimEnd rest, w, [], _, by rw [List.append_nil]; exact e, hb, .atEnd hn hn', ?_, fun _ => trimEnd_trimEnd rest, rfl⟩
      simp [Site.insert, trimEnd_append hh]

end

end ExportQuery.Sql
