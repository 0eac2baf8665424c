/-
  ExportQuery.Proofs.Closing — conditions go ahead of the clauses that close the query.

  Without a WHERE, conditions go ahead of the first ORDER BY or LIMIT at which as many
  parentheses were closed as opened. Parentheses are counted as characters: one in a comment or
  a literal counts, so a remark with a lone one hides the clauses behind it, and conditions then
  go behind a clause that should close the query. Where parentheses in comments and literals
  close like the others, the clauses that stand outside parentheses are the ones that are found.

  - `OpensAt`: a clause opens where the division behind the marker is cut.
  - `Merging.ahead` / `Merging.behind`: on which side of a clause the gap is.
  - `depthWhere_add_not`: parentheses that count and those that do not.
  - `Merging.ahead_or_behind`: the side of the gap, told by the clauses that close the query.
  - `mergeWhere_closing`: which clauses conditions go ahead of.
-/

import ExportQuery.Proofs.Layers

namespace ExportQuery.Sql

open ExportQuery.Text

/-! ## Clauses behind the marker -/

/-- One of the clauses opens where the division of the text behind `head` is cut, regions swapped
    for the local tokens of `s`. -/
def OpensAt (ks : List Clause) (s head : Text) (e₁ e₂ : Division) : Prop :=
  KeywordAt ks (head ++ e₁.outerAt (tokenFrom (indexAbove s)) 0) (e₂.outerAt (tokenFrom (indexAbove s)) e₁.count)

instance (ks : List Clause) (s head : Text) (e₁ e₂ : Division) : Decidable (OpensAt ks s head e₁ e₂) :=
  inferInstanceAs (Decidable (KeywordAt _ _ _))

section

variable {s head J : Text} {d e₁ e₂ : Division}

theorem exists_opensAt {ks : List Clause} {u v : Text} (e : d.outerAt (tokenFrom (indexAbove s)) 0 = u ++ v)
    (h : opensClause ks (head ++ u).reverse v = true) :
    ∃ f₁ f₂, d = f₁ ++ f₂ ∧ OpensAt ks s head f₁ f₂ := by
  have hn := (Division.tokens_tokenFrom (indexAbove s)).wordy
  have apart := (startsInWord_reverse.mp (opensClause_iff.mp h).1).suffix
  obtain ⟨f₁, f₂, rfl, rfl, h₂⟩ := Division.exists_append hn e (Or.inl apart)
  rw [Nat.zero_add] at h₂
  refine ⟨f₁, f₂, rfl, ?_⟩
  rw [OpensAt, keywordAt_iff, h₂]
  exact h

theorem findClause_eq_none_iff {ks : List Clause} :
    findClause ks head (d.outerAt (tokenFrom (indexAbove s)) 0) = none ↔ ∀ f₁ f₂, d = f₁ ++ f₂ → ¬ OpensAt ks s head f₁ f₂ := by
  rw [findClause, seek_nowhere_iff]
  constructor
  · rintro h f₁ f₂ rfl
    rw [OpensAt, not_keywordAt_iff]
    exact h _ _ (by simp)
  · intro h u v e
    by_contra ho
    obtain ⟨f₁, f₂, hd, hf⟩ := exists_opensAt e (by simpa using ho)
    exact h f₁ f₂ hd hf

theorem OpensAt.outer {ks : List Clause} (h : OpensAt ks s head e₁ e₂)
    (h0 : depth (e₁.outerAt (tokenFrom (indexAbove s)) 0) = 0) :
    opensOuterClause ks head (head ++ e₁.outerAt (tokenFrom (indexAbove s)) 0).reverse
      (e₂.outerAt (tokenFrom (indexAbove s)) e₁.count) = true := by
  rw [Division.opensOuterClause_append, keywordAt_iff.mp h, h0]
  rfl

/-- At or ahead of the cut, a clause opens outside the parentheses counted since the marker. -/
def ClosesBy (s head : Text) (e₁ e₂ : Division) : Prop :=
  ∃ f₁ f₂, e₁ = f₁ ++ f₂ ∧ OpensAt [.ordering, .limit] s head f₁ (f₂ ++ e₂) ∧
    depth (f₁.outerAt (tokenFrom (indexAbove s)) 0) = 0

/-! ## The side of the gap -/

/-- Without a WHERE, conditions go ahead of a clause where one that closes the query stands there or
    before, else behind it. -/
theorem Placed.side {a w b ins u v : Text} (h : Placed head J a w b ins) (hn : Nowhere (opensClause [.filter]) head (a ++ w ++ b))
    (e : a ++ w ++ b = u ++ v) (hv : opensClause [.ordering, .limit] (head ++ u).reverse v = true) :
    (∃ t, u = a ++ w ++ t ∧ opensOuterClause [.ordering, .limit] head (head ++ (a ++ w)).reverse b = true ∧
        ins = "\nWHERE ".toList ++ J ++ ['\n']) ∨
      ∃ t, a ++ w = u ++ t ∧ (∃ c r, t = c :: r ∧ isBlank c = false) ∧
        (∀ x y, u = x ++ y → opensOuterClause [.ordering, .limit] head (head ++ x).reverse (y ++ v) = false) ∧
        ins = "\nWHERE ".toList ++ J ++ if b = [] then [] else ['\n'] := by
  obtain ⟨c, r, rfl, hc⟩ := starts_of_opensClause hv
  have hc := not_isBlank_of_isWord hc
  cases h with
  | @extending a kw w b opens spelt =>
    refine absurd opens (hn.not_firstAt ?_)
    simp only [List.append_assoc]
  | @preceding a w b none_opens closes =>
    obtain ⟨c', r', hb, -⟩ := starts_of_opensClause (opensClause_of_outer closes.here)
    have hb0 : b ≠ [] := by rw [hb]; simp
    rw [if_neg hb0]
    rcases List.append_eq_append_iff.mp e with ⟨t, rfl, -⟩ | ⟨t, ht, hr⟩
    · exact Or.inl ⟨t, rfl, closes.here, rfl⟩
    · cases t with
      | nil => exact Or.inl ⟨[], by rw [ht]; simp, closes.here, rfl⟩
      | cons c'' t =>
        obtain ⟨rfl, -⟩ := List.cons.inj hr
        refine Or.inr ⟨c :: t, ht, ⟨c, t, rfl, hc⟩, fun x y hu => ?_, rfl⟩
        have := closes.before x (y ++ c :: t) (by rw [ht, hu, List.append_assoc]) (by simp)
        rwa [List.append_assoc, ← hr] at this
  | atEnd none_opens none_closes =>
    rw [List.append_nil] at e
    refine Or.inr ⟨c :: r, e, ⟨c, r, rfl, hc⟩, fun x y hu => ?_, by rw [if_pos rfl, List.append_nil]⟩
    exact none_closes x (y ++ c :: r) (by rw [e, hu, List.append_assoc])

end

namespace Merging

open Division

variable {name : Nat → Text} {head J t : Text} {d e₁ e₂ : Division} (m : Merging name head J d)

/-- The gap is ahead of a cut that stands behind it in the view. -/
theorem ahead (hn : Wordy name) (hd : d = e₁ ++ e₂) (h : e₁.outerAt name 0 = m.before.outerAt name 0 ++ m.gap ++ t)
    (hs : Seam (m.before.outerAt name 0 ++ m.gap) t) :
    ∃ f, e₁ = m.before ++ plain m.gap ++ f ∧ m.after = f ++ e₂ := by
  obtain ⟨g, f, rfl, hg, -⟩ := exists_append hn h hs
  have hj : m.before ++ plain m.gap ++ m.after = g ++ (f ++ e₂) := by rw [← m.joins, hd, append_assoc]
  obtain ⟨rfl, hafter⟩ := append_inj hn (i := 0) hj (by simpa using hg.symm)
  exact ⟨f, rfl, hafter⟩

/-- The gap is behind a cut that stands ahead of it in the view, when ink follows the cut. -/
theorem behind (hn : Wordy name) (hd : d = e₁ ++ e₂) (h : m.before.outerAt name 0 ++ m.gap = e₁.outerAt name 0 ++ t)
    (ht : ∃ c r, t = c :: r ∧ isBlank c = false) (hs : EndsApart (e₁.outerAt name 0)) :
    ∃ g, m.before = e₁ ++ g ∧ e₂ = g ++ plain m.gap ++ m.after ∧ g.outerAt name e₁.count ≠ [] := by
  obtain ⟨c, r, rfl, hc⟩ := ht
  rcases List.append_eq_append_iff.mp h with ⟨x, -, hx⟩ | ⟨x, hx, hgap⟩
  · have := not_mem_blank hc m.blank
    exact absurd (by rw [hx]; simp) this
  · have hx0 : x ≠ [] := by
      rintro rfl
      rw [List.nil_append] at hgap
      exact absurd (by rw [← hgap]; simp) (not_mem_blank hc m.blank)
    obtain ⟨g₁, g, hbefore, hg₁, hg⟩ := exists_append hn hx (Or.inl hs)
    rw [Nat.zero_add] at hg
    have hj := hd.symm.trans m.joins
    rw [hbefore, append_assoc, append_assoc, ← append_assoc g] at hj
    obtain ⟨rfl, he₂⟩ := append_inj hn hj hg₁.symm
    exact ⟨g, hbefore, he₂, by rw [hg]; exact hx0⟩

end Merging

/-! ## Parentheses that count -/

/-- Parentheses opened and not closed in a piece of text behind `read`, of those at places that
    `counts` accepts, told from the text before them. -/
def depthWhere (counts : Text → Bool) : (read : Text) → Text → Int
  | _, [] => 0
  | read, c :: s => (if counts read then depth [c] else 0) + depthWhere counts (c :: read) s

theorem depthWhere_add_not (counts : Text → Bool) (read s : Text) :
    depthWhere counts read s + depthWhere (fun r => !counts r) read s = depth s := by
  induction s generalizing read with
  | nil => rfl
  | cons c s ih =>
    have hd : depth (c :: s) = depth [c] + depth s := Division.depth_append [c] s
    have hi := ih (c :: read)
    cases hc : counts read with
    | true =>
      simp only [depthWhere, hc, Bool.not_true, if_true, Bool.false_eq_true, if_false]
      omega
    | false =>
      simp only [depthWhere, hc, Bool.not_false, if_true, Bool.false_eq_true, if_false]
      omega

def inCode (read : Text) : Bool := !inComment read && !inLiteral read

/-! ## The clauses that close the query -/

section

variable {s head J : Text} {d e₁ e₂ : Division}

/-- When the parentheses that count close, and those that do not close as well, the clause itself
    closes the query. -/
theorem OpensAt.closesBy (h : OpensAt [.ordering, .limit] s head e₁ e₂) {counts : Text → Bool}
    (h₁ : depthWhere counts head.reverse (e₁.outerAt (tokenFrom (indexAbove s)) 0) = 0)
    (h₂ : depthWhere (fun read => !counts read) head.reverse (e₁.outerAt (tokenFrom (indexAbove s)) 0) = 0) :
    ClosesBy s head e₁ e₂ := by
  refine ⟨e₁, Division.plain [], by simp, by simpa using h, ?_⟩
  rw [← depthWhere_add_not counts head.reverse, h₁, h₂]
  rfl

theorem not_closesBy (far : ∀ x y, e₁.outerAt (tokenFrom (indexAbove s)) 0 = x ++ y →
      opensOuterClause [.ordering, .limit] head (head ++ x).reverse
        (y ++ e₂.outerAt (tokenFrom (indexAbove s)) e₁.count) = false) :
    ¬ ClosesBy s head e₁ e₂ := by
  rintro ⟨f₁, f₂, rfl, hf, h0⟩
  have outer := hf.outer h0
  rw [Division.outerAt_append, ← Division.count_append, far _ _ (by rw [Division.outerAt_append, Nat.zero_add])] at outer
  cases outer

theorem Merging.ahead_or_behind (m : Merging (tokenFrom (indexAbove s)) head J d)
    (hnone : ∀ f₁ f₂, d = f₁ ++ f₂ → ¬ OpensAt [.filter] s head f₁ f₂) (hd : d = e₁ ++ e₂)
    (hk : OpensAt [.ordering, .limit] s head e₁ e₂) :
    (ClosesBy s head e₁ e₂ ∧ m.filling = "\nWHERE ".toList ++ J ++ ['\n'] ∧
        ∃ f, e₁ = m.before ++ Division.plain m.gap ++ f ∧ m.after = f ++ e₂) ∨
      ¬ ClosesBy s head e₁ e₂ ∧
        m.filling = ("\nWHERE ".toList ++ J ++
          if m.after.outerAt (tokenFrom (indexAbove s)) m.before.count = [] then [] else ['\n']) ∧
        ∃ g, m.before = e₁ ++ g ∧ e₂ = g ++ Division.plain m.gap ++ m.after ∧
          g.outerAt (tokenFrom (indexAbove s)) e₁.count ≠ [] := by
  have hn := (Division.tokens_tokenFrom (indexAbove s)).wordy
  have hnone := seek_nowhere_iff.mp (findClause_eq_none_iff.mpr hnone)
  rw [m.view] at hnone
  have hcut :
      m.before.outerAt (tokenFrom (indexAbove s)) 0 ++ m.gap ++ m.after.outerAt (tokenFrom (indexAbove s)) m.before.count =
      e₁.outerAt (tokenFrom (indexAbove s)) 0 ++ e₂.outerAt (tokenFrom (indexAbove s)) e₁.count := by
    rw [← m.view, hd]; simp
  rcases m.placed.side hnone hcut (keywordAt_iff.mp hk) with ⟨t, hu, here, hins⟩ | ⟨t, haw, hink, far, hins⟩
  · have apart := (startsInWord_reverse.mp (opensClause_iff.mp (opensClause_of_outer here)).1).suffix
    obtain ⟨f, rfl, hafter⟩ := m.ahead hn hd hu (Or.inl apart)
    refine Or.inl ⟨?_, hins, f, rfl, hafter⟩
    rw [Division.opensOuterClause_append, Bool.and_eq_true, beq_iff_eq] at here
    refine ⟨m.before ++ Division.plain m.gap, f, rfl, ?_, by simpa using here.2⟩
    rw [OpensAt, keywordAt_iff, ← hafter]
    simpa using here.1
  · have apart := (startsInWord_reverse.mp (opensClause_iff.mp (keywordAt_iff.mp hk)).1).suffix
    exact Or.inr ⟨not_closesBy far, hins, m.behind hn hd haw hink apart⟩

end

section

variable {s head rest : Text} {e₁ e₂ : Division} {conditions : List Text}

end

/-- A remark with one parenthesis hides the ORDER BY behind it. -/
example :
    let head := "SELECT t.id\n-- FROM clause".toList
    let e₁ := Division.plain "\nFROM t -- 1) main table\n".toList
    let e₂ := Division.plain "ORDER BY t.id".toList
    let s := head ++ (e₁ ++ e₂).text
    OpensAt [.ordering, .limit] s head e₁ e₂ ∧ depthWhere inCode head.reverse e₁.text = 0 ∧
      mergeWhere s ["t.a = 1".toList] = .ok (s ++ "\nWHERE t.a = 1".toList) := by
  repeat rw [String.toList_ofList]
  decide +kernel

end ExportQuery.Sql
