/-
  ExportQuery.Proofs.Merge — merging conditions into a text keeps everything else.

  The gap for the conditions is found in the view with tokens; the view divides there, and
  with it the text. What stands on either side is kept, regions included: local tokens are
  counted from above those in the text, so none of them stands in the text before its region.
  When they would be counted past the largest word, the merge overflows and writes nothing.

  - `merged`: the text that a merge writes unless it overflows.
  - `mergeWhere_eq_error_iff` / `mergeWhere_eq_ok`: when it does, and what it writes else.
  - `merged_eq`: merging swaps regions back into an edited division.
  - `mergeWhere_merged_iff`: merging loses nothing exactly when indices last.
-/

import ExportQuery.Proofs.FreshIndex
import ExportQuery.Proofs.Placement

namespace ExportQuery.Sql

open ExportQuery.Text

/-! ## Conjunctions -/

theorem join_cons (sep p : Text) {parts : List Text} (h : parts ≠ []) :
    join sep (p :: parts) = p ++ sep ++ join sep parts := by
  cases parts with
  | nil => exact absurd rfl h
  | cons q parts => simp [join, List.intercalate]

theorem join_singleton (sep p : Text) : join sep [p] = p := by simp [join, List.intercalate]

/-- The conditions that a conjunction joins. -/
def conjuncts (conditions : List Text) : List Text := (conditions.map trim).filter (!·.isEmpty)

theorem conjunction_eq (conditions : List Text) : conjunction conditions = join " AND ".toList (conjuncts conditions) := rfl

theorem conjunct_ne_nil {conditions : List Text} {p : Text} (h : p ∈ conjuncts conditions) : p ≠ [] := by
  simp only [conjuncts, List.mem_filter] at h
  simpa using h.2

theorem conjunction_eq_nil_iff {conditions : List Text} :
    conjunction conditions = [] ↔ conjuncts conditions = [] := by
  rw [conjunction_eq]
  cases h : conjuncts conditions with
  | nil => simp [join, List.intercalate]
  | cons p parts =>
    have hp : p ≠ [] := conjunct_ne_nil (by rw [h]; simp)
    by_cases h0 : parts = []
    · rw [h0, join_singleton]; simp [hp]
    · rw [join_cons _ _ h0]; simp [hp]

theorem conjunction_ne_nil {conditions : List Text} (h : ∃ c ∈ conditions, trim c ≠ []) :
    conjunction conditions ≠ [] := by
  obtain ⟨c, hc, h0⟩ := h
  intro he
  have hm : trim c ∈ conjuncts conditions := by
    simp only [conjuncts, List.mem_filter, List.mem_map]
    exact ⟨⟨c, hc, rfl⟩, by simpa using h0⟩
  rw [conjunction_eq_nil_iff.mp he] at hm
  cases hm

theorem trim_joins (s : Text) : ∃ w v, s = w ++ trim s ++ v ∧ allBlank w = true ∧ allBlank v = true := by
  obtain ⟨w, hw, hwb⟩ := trimStart_joins s
  obtain ⟨v, hv, hvb⟩ := trimEnd_joins (trimStart s)
  refine ⟨w, v, ?_, hwb, hvb⟩
  rw [List.append_assoc, trim, ← hv, ← hw]

theorem trim_within (s : Text) : trim s <:+: s := by
  obtain ⟨w, v, e, -⟩ := trim_joins s
  exact ⟨w, v, e.symm⟩

/-- What holds of conditions that are not blank, and of two texts joined by AND, holds of a
    conjunction. -/
theorem conjunction_induction {M : Text → Prop} {conditions : List Text} (h0 : conjunction conditions ≠ [])
    (each : ∀ c ∈ conditions, trim c ≠ [] → M (trim c))
    (joined : ∀ p q, M p → M q → M (p ++ " AND ".toList ++ q)) : M (conjunction conditions) := by
  have hparts : ∀ p ∈ conjuncts conditions, M p := by
    intro p hp
    have hp0 := conjunct_ne_nil hp
    simp only [conjuncts, List.mem_filter, List.mem_map] at hp
    obtain ⟨⟨c, hc, rfl⟩, -⟩ := hp
    exact each c hc hp0
  rw [Ne, conjunction_eq_nil_iff] at h0
  rw [conjunction_eq]
  generalize conjuncts conditions = parts at h0 hparts
  induction parts with
  | nil => exact absurd rfl h0
  | cons p parts ih =>
    have hp := hparts p (by simp)
    by_cases h1 : parts = []
    · rw [h1, join_singleton]; exact hp
    · rw [join_cons _ _ h1]
      exact joined _ _ hp (ih h1 fun q hq => hparts q (by simp [hq]))

/-- A conjunction has ink at both ends. -/
theorem trimmed_conjunction {conditions : List Text} (h : conjunction conditions ≠ []) : Trimmed (conjunction conditions) :=
  conjunction_induction h (fun _ _ => trimmed_trim) fun _ _ hp hq => hp.append hq _

theorem tokenFree_conjunction {conditions : List Text} (h : ∀ c ∈ conditions, TokenFree c) :
    TokenFree (conjunction conditions) := by
  by_cases h0 : conjunction conditions = []
  · rw [h0]; decide
  refine conjunction_induction h0 (fun c hc _ => (h c hc).within (trim_within c)) fun p q hp hq => ?_
  have hf : Filler " AND ".toList q := ⟨rfl, by simp, Or.inl (EndsApart.concat (c := ' ') (by decide) " AND".toList)⟩
  have hw : ∀ c ∈ tokenOpening, isWord c = true := fun _ hc => (opening_char hc).1
  unfold TokenFree
  rw [hf.infix_iff hw]
  rintro (h | h | h)
  · exact hp h
  · exact absurd h (by decide)
  · exact hq h

/-! ## Merging as an edit -/

theorem fromMarker_eq_concat : fromMarker = "-- FROM claus".toList ++ ['e'] := by decide

theorem trimEnd_head {s head rest : Text} (h : fromClause? s = some (head, rest)) : trimEnd head = head := by
  obtain ⟨-, t, rfl⟩ := fromClause_joins h
  rw [fromMarker_eq_concat, ← List.append_assoc]
  exact trimEnd_append_ink _ 'e' (by decide)

open Division in
/-- A way to merge a condition into `head` and a division behind it: where the division is cut,
    which blanks make way, and what takes their place. -/
structure Merging (name : Nat → Text) (head condition : Text) (d : Division) where
  before : Division
  gap : Text
  after : Division
  filling : Text
  joins : d = before ++ plain gap ++ after
  blank : allBlank gap = true
  placed : Placed head condition (before.outerAt name 0) gap (after.outerAt name before.count) filling

namespace Merging

open Division

variable {name : Nat → Text} {head J : Text} {d : Division} (m : Merging name head J d)

/-- The division with the gap filled. -/
def edited : Division := m.before ++ plain m.filling ++ m.after

/-- The text with the gap filled, regions in their places. -/
def result : Text := head ++ m.before.text ++ m.filling ++ m.after.text

/-- All blanks in the gap make way. -/
def Widest : Prop :=
  ((∃ t, m.filling = "\nWHERE ".toList ++ t) → trimEnd (m.before.outerAt name 0) = m.before.outerAt name 0) ∧
    trimStart (m.after.outerAt name m.before.count) = m.after.outerAt name m.before.count

theorem result_eq : m.result = head ++ m.edited.text := by simp [result, edited]

theorem bodies_edited : m.edited.bodies = d.bodies := by
  have h := congrArg bodies m.joins
  simp only [bodies_append, bodies_plain, List.append_nil] at h
  simp [edited, h]

theorem fenced (hd : d.Fenced) : m.after.Fenced ∧ m.edited.Fenced := by
  constructor
  · intro b hb
    apply hd b
    rw [← m.bodies_edited]
    simp [edited, hb]
  · intro b hb
    exact hd b (by rwa [m.bodies_edited] at hb)

theorem gap_text (hn : Wordy name) (hd : d.Fenced) : Gap (head ++ m.before.text) m.gap m.after.text :=
  Division.gap_text hn (m.fenced hd).1 (m.placed.gap m.blank)

theorem filler_text (hn : Wordy name) (hd : d.Fenced) : Filler m.filling m.after.text :=
  Division.filler_text hn (m.fenced hd).1 m.placed.filler

theorem whole_edited (hn : Wordy name) (hd : d.Fenced) (hj : TokenFree J) (hw : Whole (head ++ d.text)) :
    Whole (head ++ m.edited.text) := by
  rw [m.joins] at hw
  have hw' : Whole (head ++ m.before.text ++ m.gap ++ m.after.text) := by simpa using hw
  simpa [edited] using whole_edit (m.gap_text hn hd) (m.filler_text hn hd) hw' (m.placed.tokenFree_filling.mpr hj).whole

theorem apart_edited (hn : Tokens name) (hd : d.Fenced) (hj : TokenFree J) :
    Apart name 0 head m.edited.regions ↔ Apart name 0 head d.regions := by
  have hi : ∀ k, ¬ name k <:+: m.filling := by
    intro k
    obtain ⟨i, hi⟩ := hn k
    rw [hi]
    exact (m.placed.tokenFree_filling.mpr hj).token i
  rw [edited, apart_edit hn.wordy (m.gap_text hn.wordy hd) (m.filler_text hn.wordy hd) hi, ← m.joins]

/-- Swapping regions back gives the result when no name stands before its region. -/
theorem restore_edited (hn : Tokens name) (hd : d.Fenced) (hj : TokenFree J) (hw : Whole (head ++ d.text))
    (ha : Apart name 0 head d.regions) :
    restoreFrom name 0 m.edited.bodies (head ++ m.edited.outerAt name 0) = m.result := by
  rw [m.result_eq]
  exact restoreFrom_outerAt hn (m.fenced hd).2 (m.whole_edited hn.wordy hd hj hw) ((m.apart_edited hn hd hj).mpr ha)

end Merging

/-! ## Indices -/

/-- The text that a merge writes unless it overflows. -/
def merged (s : Text) (conditions : List Text) : Text :=
  if conjunction conditions = [] then s
  else
    match fromClause? s with
    | none => s
    | some (head, rest) =>
      let name := tokenFrom (indexAbove s)
      restoreFrom name 0 (divide rest).bodies ((site head ((divide rest).outer name)).insert (conjunction conditions))

/-- Counted on from the tokens of the text, `count` local tokens go past the largest word. -/
def Exceeds (s : Text) (count : Nat) : Prop :=
  Shown (indexLimit - 1) s ∨ count - 1 < indexLimit ∧ indexLimit ≤ indexAbove s + (count - 1)

instance (s : Text) (count : Nat) : Decidable (Exceeds s count) := inferInstanceAs (Decidable (_ ∨ _))

/-- Merging has a condition, a FROM marker, and not enough words for the local tokens behind it. -/
def Overflows (s : Text) (conditions : List Text) : Prop :=
  conjunction conditions ≠ [] ∧ ∃ head rest, fromClause? s = some (head, rest) ∧ Exceeds s (divide rest).count

section

variable {s head rest : Text} {conditions : List Text}

theorem merged_blank (h : conjunction conditions = []) : merged s conditions = s := if_pos h

theorem merged_of_none (h : fromClause? s = none) : merged s conditions = s := by
  simp [merged, h]

theorem merged_congr {conditions' : List Text} (h : conjunction conditions = conjunction conditions') :
    merged s conditions = merged s conditions' := by
  simp only [merged, h]

theorem mergeWhere_congr {conditions' : List Text} (h : conjunction conditions = conjunction conditions') :
    mergeWhere s conditions = mergeWhere s conditions' := by
  simp only [mergeWhere, h]

theorem exceeds_congr {t : Text} (h : tokenIndices s = tokenIndices t) (count : Nat) : Exceeds s count ↔ Exceeds t count := by
  simp only [Exceeds, ← mem_tokenIndices_iff, h, indexAbove_congr h]

theorem overflows_iff (hm : fromClause? s = some (head, rest)) (hj : conjunction conditions ≠ []) :
    Overflows s conditions ↔ Exceeds s (divide rest).count := by
  simp [Overflows, hm, hj]

/-- Without local tokens, only the largest word in the text is one too many. -/
theorem exceeds_zero_iff : Exceeds s 0 ↔ Shown (indexLimit - 1) s := by
  have hlast : indexLimit ≤ indexAbove s ↔ Shown (indexLimit - 1) s := by
    rw [← Nat.not_lt, indexAbove_lt_iff, not_not]
  simp [Exceeds, hlast]

theorem overflows_plain_iff (hm : fromClause? s = some (head, rest)) (hd : divide rest = Division.plain rest) :
    Overflows s conditions ↔ conjunction conditions ≠ [] ∧ Shown (indexLimit - 1) s := by
  by_cases hj : conjunction conditions = []
  · exact iff_of_false (fun ho => ho.1 hj) fun h => h.1 hj
  · rw [overflows_iff hm hj, hd, Division.count_plain, exceeds_zero_iff]
    exact ⟨fun h => ⟨hj, h⟩, fun h => h.2⟩

theorem not_overflows_blank (h : conjunction conditions = []) : ¬ Overflows s conditions := fun ho => ho.1 h

theorem not_overflows_of_none (h : fromClause? s = none) : ¬ Overflows s conditions := by
  rintro ⟨-, head, rest, hm, -⟩
  rw [h] at hm
  cases hm

theorem not_exceeds_of_tokenFree (h : TokenFree s) (count : Nat) : ¬ Exceeds s count := by
  have hnil := tokenIndices_of_tokenFree h
  rintro (hs | ⟨hlt, hle⟩)
  · rw [← mem_tokenIndices_iff, hnil] at hs
    cases hs
  · rw [indexAbove_of_tokenFree h, Nat.zero_add] at hle
    omega

theorem not_overflows_of_tokenFree (h : TokenFree s) : ¬ Overflows s conditions := by
  rintro ⟨-, _, _, -, he⟩
  exact not_exceeds_of_tokenFree h _ he

/-- What a merge does behind a marker, when there is a condition. -/
theorem mergeWhere_asked (hm : fromClause? s = some (head, rest)) (hj : conjunction conditions ≠ []) :
    mergeWhere s conditions =
      if Exceeds s (divide rest).count then .error .index else .ok (merged s conditions) := by
  have hempty : (conjunction conditions).isEmpty = false := List.isEmpty_eq_false_iff.mpr hj
  simp only [mergeWhere, hempty, hm, Bool.false_eq_true, if_false]
  by_cases htop : Shown (indexLimit - 1) s
  · have hex : Exceeds s (divide rest).count := Or.inl htop
    rw [if_pos hex, freshIndex_eq_error_iff.mpr htop]
    rfl
  · rw [freshIndex_eq_ok htop]
    show (addWords (indexAbove s) ((divide rest).count - 1) >>= _) = _
    by_cases hsum : (divide rest).count - 1 < indexLimit ∧ indexLimit ≤ indexAbove s + ((divide rest).count - 1)
    · have hex : Exceeds s (divide rest).count := Or.inr hsum
      rw [if_pos hex, addWords_eq_error_iff.mpr ⟨indexAbove_lt_iff.mpr htop, hsum⟩]
      rfl
    · have hex : ¬ Exceeds s (divide rest).count := fun h => hsum (h.resolve_left htop)
      rw [if_neg hex, addWords_eq_ok fun h => hsum h.2, merged, if_neg hj, hm]
      rfl

theorem mergeWhere_of_none (h : fromClause? s = none) : mergeWhere s conditions = .ok s := by
  simp [mergeWhere, h]

theorem mergeWhere_eq_ok (h : ¬ Overflows s conditions) : mergeWhere s conditions = .ok (merged s conditions) := by
  by_cases hj : conjunction conditions = []
  · rw [mergeWhere_blank hj, merged_blank hj]
  cases hm : fromClause? s with
  | none => rw [mergeWhere_of_none hm, merged_of_none hm]
  | some p =>
    obtain ⟨head, rest⟩ := p
    rw [mergeWhere_asked hm hj, if_neg fun he => h ((overflows_iff hm hj).mpr he)]

theorem mergeWhere_eq_error (h : Overflows s conditions) : mergeWhere s conditions = .error .index := by
  obtain ⟨hj, head, rest, hm, he⟩ := h
  rw [mergeWhere_asked hm hj, if_pos he]

theorem mergeWhere_eq_error_iff : mergeWhere s conditions = .error .index ↔ Overflows s conditions := by
  constructor
  · intro h
    by_contra ho
    rw [mergeWhere_eq_ok ho] at h
    cases h
  · exact mergeWhere_eq_error

theorem mergeWhere_eq_ok_iff {t : Text} :
    mergeWhere s conditions = .ok t ↔ ¬ Overflows s conditions ∧ merged s conditions = t := by
  by_cases ho : Overflows s conditions
  · simp [mergeWhere_eq_error ho, ho]
  · simp [mergeWhere_eq_ok ho, ho]

theorem mergeWhere_of_tokenFree (h : TokenFree s) (conditions : List Text) :
    mergeWhere s conditions = .ok (merged s conditions) := mergeWhere_eq_ok (not_overflows_of_tokenFree h)

end

/-! ## Merging keeps the text -/

section

variable {s head rest : Text} {conditions : List Text}

/-- Merging swaps regions back into the division with the widest gap filled. -/
theorem merged_eq (hm : fromClause? s = some (head, rest)) (hj : conjunction conditions ≠ []) :
    ∃ m : Merging (tokenFrom (indexAbove s)) head (conjunction conditions) (divide rest), m.Widest ∧
      merged s conditions = restoreFrom (tokenFrom (indexAbove s)) 0 m.edited.bodies
        (head ++ m.edited.outerAt (tokenFrom (indexAbove s)) 0) := by
  have hn := (Division.tokens_tokenFrom (indexAbove s)).wordy
  obtain ⟨a, w, b, ins, e, hb, hp, hi, ht, ht'⟩ :=
    site_placed (trimEnd_head hm) (conjunction conditions) ((divide rest).outer (tokenFrom (indexAbove s)))
  have hg : Gap a w b := ⟨hb, fun h0 => ((hp.gap hb).seam h0).shrink ⟨head, rfl⟩⟩
  obtain ⟨d₁, d₂, hd, rfl, h₂⟩ := Division.exists_gap hn e hg
  rw [Nat.zero_add] at h₂
  subst h₂
  let m : Merging (tokenFrom (indexAbove s)) head (conjunction conditions) (divide rest) := ⟨d₁, w, d₂, ins, hd, hb, hp⟩
  refine ⟨m, ⟨ht, ht'⟩, ?_⟩
  have hview : head ++ m.edited.outerAt (tokenFrom (indexAbove s)) 0 =
      head ++ d₁.outerAt (tokenFrom (indexAbove s)) 0 ++ ins ++ d₂.outerAt (tokenFrom (indexAbove s)) d₁.count := by
    simp [m, Merging.edited]
  rw [m.bodies_edited, hview, ← hi]
  simp [merged, hm, hj]

/-- A local token is above those of the text. -/
theorem apart_of_clean (hs : Clean s) (hm : fromClause? s = some (head, rest)) :
    Division.Apart (tokenFrom (indexAbove s)) 0 head (divide rest).regions := by
  apply Division.apart_of_absent
  intro j _ _ hi
  rw [divide_joins, ← (fromClause_joins hm).1, tokenFrom] at hi
  have := hs.lt_indexAbove hi
  omega

end

end ExportQuery.Sql
