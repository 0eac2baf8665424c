/-
  ExportQuery.Proofs.Query — a query as it is worked on, and edits that keep it one.

  Between passes a query holds no token and no blanks around it, and its regions divide it as
  its text does. Text merged into the view, or a line feed ahead of a GROUP BY clause, keeps
  all that: the edited view is the view of the text that swapping back gives.

  - `Sound.edit`: an edited view is the view of a query.
  - `Sound.extract` / `Sound.restore`: swapping, of a query.
-/

import ExportQuery.Proofs.FinalSemicolon
import ExportQuery.Proofs.Grouping
import ExportQuery.Proofs.Marker

namespace ExportQuery.Sql

open ExportQuery.Text

/-! ## Edges of divisions -/

namespace Division

variable {name : Nat → Text} {i : Nat}

/-- The view ends in ink where the text does: a token is ink. -/
theorem endsInInk_outerAt (hn : Wordy name) {d : Division} {x y : Text} (hxy : EndsInInk x → EndsInInk y)
    (h : EndsInInk (x ++ d.text)) : EndsInInk (y ++ d.outerAt name i) := by
  induction d generalizing i x y with
  | plain s => exact h.swap_left hxy
  | cons p b d ih =>
    have := ih (i := i + 1) (x := x ++ p ++ b) (fun _ => hn.endsInInk (y ++ p) i) (by simpa using h)
    simpa using this

end Division

/-! ## Sound divisions -/

/-- The division of a query as it is worked on. -/
structure Sound (d : Division) : Prop where
  proper : d.Proper
  free : TokenFree d.text
  starts : trimStart d.text = d.text
  ends : EndsInInk d.text

section

variable {d : Division} {a w b ins : Text}

theorem sound_divide {s : Text} (h : TokenFree s) (hs : trimStart s = s) (he : trimEnd s = s) (h0 : s ≠ []) :
    Sound (divide s) := by
  refine ⟨divide_proper s, ?_, ?_, ?_⟩
  · rw [divide_joins]; exact h
  · rw [divide_joins]; exact hs
  · rw [divide_joins]; exact endsInInk_of_trimEnd he h0

theorem Sound.extract (h : Sound d) : extractRegions d.text = (d.outerAt token 0, d.bodies) := by
  unfold extractRegions
  rw [divide_text h.proper]
  rfl

theorem Sound.restore (h : Sound d) : restoreRegions (d.outerAt token 0) d.bodies = d.text :=
  Division.restoreFrom_of_tokenFree Division.tokens_token h.proper.fenced h.free

theorem Sound.bare (h : Sound d) : Sql.bare (d.text ++ [';']) = d.text := bare_closed h.starts h.ends.trimEnd

theorem Sound.view_ends (h : Sound d) : EndsInInk (d.outerAt token 0) :=
  Division.endsInInk_outerAt Division.tokens_token.wordy (x := []) (y := []) id h.ends

/-- Filling a gap of the view with text that holds no token. -/
theorem exists_edit (hd : d.Fenced) (ht : TokenFree d.text) (e : d.outerAt token 0 = a ++ w ++ b) (hg : Gap a w b)
    (hf : Filler ins b) (hi : TokenFree ins) :
    ∃ d₁ d₂, d = d₁ ++ Division.plain w ++ d₂ ∧ d₁.outerAt token 0 = a ∧ d₂.outerAt token d₁.count = b ∧
      TokenFree (d₁ ++ Division.plain ins ++ d₂).text := by
  have hn : Division.Wordy token := Division.tokens_token.wordy
  obtain ⟨d₁, d₂, rfl, rfl, h₂⟩ := Division.exists_gap hn e hg
  rw [Nat.zero_add] at h₂
  subst h₂
  refine ⟨d₁, d₂, rfl, rfl, rfl, ?_⟩
  simp only [Division.text_append, Division.text_plain] at ht ⊢
  exact (tokenFree_edit (Division.gap_text hn (x := []) hd.right hg) (Division.filler_text hn hd.right hf)).mpr ⟨ht, hi⟩

/-- Filling a gap of the view behind some text with what no marker reaches into. -/
theorem Sound.edit (h : Sound d) (e : d.outerAt token 0 = a ++ w ++ b) (ha : a ≠ []) (hg : Gap a w b) (hf : Filler ins b)
    (hi : TokenFree ins) (hu : Unmarked a ins b) (hb : b = [] → EndsInInk ins) :
    ∃ d', Sound d' ∧ d'.bodies = d.bodies ∧ d'.outerAt token 0 = a ++ ins ++ b := by
  have hfence := h.proper.fenced
  obtain ⟨d₁, d₂, rfl, rfl, rfl, hfree⟩ := exists_edit hfence h.free e hg hf hi
  have hd₁ : d₁.text ≠ [] := fun h0 => ha (Division.outerAt_of_text_nil hfence.left.left h0)
  have hmark : Unmarked d₁.last ins d₂.first := hu.shrink (Division.last_suffix_outerAt d₁) (Division.first_prefix_outerAt d₂)
  refine ⟨d₁ ++ Division.plain ins ++ d₂, ⟨h.proper.edit hmark, hfree, ?_, ?_⟩, by simp, by simp⟩
  · have := h.starts
    simp only [Division.text_append, Division.text_plain, List.append_assoc] at this ⊢
    exact trimStart_append (trimStart_prefix_eq this (List.prefix_append _ _)) hd₁ _
  · have hend := h.ends
    simp only [Division.text_append, Division.text_plain] at hend ⊢
    by_cases h0 : d₂.text = []
    · rw [h0, List.append_nil]
      exact (hb (Division.outerAt_of_text_nil hfence.right h0)).append _
    · exact (hend.right h0).append _

/-- A query with its GROUP BY clause on a line of its own. -/
theorem Sound.regroup {head rest : Text} (h : Sound d)
    (hm : fromClause? (extractGroupBy (d.outerAt token 0)).1 = some (head, rest)) :
    ∃ d' clause, extractGroupBy (d.outerAt token 0) = (head ++ rest, clause) ∧ Sound d' ∧ d'.bodies = d.bodies ∧
      d'.outerAt token 0 = restoreGroupBy (head ++ rest) clause ∧ EndsInInk (head ++ rest) ∧ Grouped head rest clause := by
  obtain ⟨clause, hx, hi, hgr, e | ⟨g, e, hg, hc, e'⟩⟩ := extractGroupBy_feed h.view_ends hm
  · exact ⟨d, clause, hx, h, rfl, e, hi, hgr⟩
  · have hu : Unmarked (head ++ rest) ['\n'] clause := by
      refine unmarked_of ⟨'\n', [], rfl, Or.inl rfl⟩ (by decide) fun m u v hm hmu hu0 _ hu _ => ?_
      have hfeed : '\n' ∉ u := fun hc => hm.not_mem_feed (by rw [hmu]; simp [hc])
      exact hu0 (List.suffix_nil.mp (suffix_across (x := []) hfeed hu))
    obtain ⟨d', hs, hb, ho⟩ := h.edit e hi.ne_nil hg (filler_feed clause) (by decide +kernel) hu fun h1 => absurd h1 hc
    exact ⟨d', clause, hx, hs, hb, by rw [ho, e'], hi, hgr⟩

/-- A condition merged into a query makes another query. -/
theorem Sound.merge {head J clause : Text} (h : Sound d) (e : d.outerAt token 0 = restoreGroupBy (head ++ (a ++ w ++ b)) clause)
    (hi : EndsInInk (head ++ (a ++ w ++ b))) (hh : head ≠ []) (hp : Placed head J a w b ins) (hw : allBlank w = true)
    (hJ : Trimmed J) (hm : MarkerFree J) (hf : TokenFree J) :
    ∃ d', Sound d' ∧ d'.bodies = d.bodies ∧ d'.outerAt token 0 = restoreGroupBy (head ++ (a ++ ins ++ b)) clause := by
  obtain ⟨r, e₁, e₂, hg, hfill, hline⟩ := hp.regroup hw hJ hi clause
  obtain ⟨d', hs, hb, ho⟩ := h.edit (e.trans e₁) (by simp [hh]) hg hfill (hp.tokenFree_filling.mpr hf) (hp.unmarked hm hline)
    fun h0 => hp.ink hJ (List.append_eq_nil_iff.mp h0).1
  exact ⟨d', hs, hb, ho.trans e₂.symm⟩

end

/-- A predicate holds no marker: in those, a blank follows a dash. -/
theorem Predicate.markerFree {s : Text} (h : Predicate s) : MarkerFree s := by
  rw [markerFree_iff]
  rintro m hm ⟨x, y, e⟩
  obtain ⟨t, rfl⟩ := hm.eq_cons
  have hcalm := h.calm
  rw [← e, List.append_assoc] at hcalm
  have hcalm : calm ((x ++ ['-']) ++ '-' :: ' ' :: (t ++ y)) = true := by simpa using hcalm
  exact absurd (not_loud_of_calm hcalm (by decide)) (by decide)

end ExportQuery.Sql
