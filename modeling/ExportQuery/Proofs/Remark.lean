/-
  ExportQuery.Proofs.Remark — a remark between the FROM marker and the FROM clause.

  The outer table is the first one that a FROM behind the marker names, and nothing asks whether
  that FROM stands in a comment. So a remark on a line of its own is read like the clause behind
  it: a FROM in it with a word behind it, be it on the next line, names that word. A remark
  without such a FROM is passed over, since a line feed ends it and the text behind starts as
  it would without it.

  - `fromClause?_marker`: the first FROM marker is the one that nothing stands before.
  - `seekSome_append`: a search passes over text in which it finds nothing.
  - `Misled`: the alias that a remark gives.
  - `outerAlias?_remark`: when a remark leaves the alias of the outer table.
-/

import ExportQuery.Proofs.Alias

namespace ExportQuery.Sql

open ExportQuery.Text

/-! ## The first marker -/

/-- No end of the marker starts it again. -/
theorem fromMarker_borderless {u v : Text} (h : fromMarker = u ++ v) (hu : u ≠ []) (hv : v ≠ []) : ¬ v <+: fromMarker := by
  have all : ∀ n < fromMarker.length, 0 < n → ¬ fromMarker.drop n <+: fromMarker := by decide
  have hlen := congrArg List.length h
  rw [List.length_append] at hlen
  have hu := List.length_pos_iff.mpr hu
  have hv := List.length_pos_iff.mpr hv
  have hdrop : fromMarker.drop u.length = v := by rw [h, List.drop_left]
  rw [← hdrop]
  exact all u.length (by omega) hu

theorem fromClause?_marker {p : Text} (hp : ¬ fromMarker <:+: p) (t : Text) :
    fromClause? (p ++ fromMarker ++ t) = some (p ++ fromMarker, t) := by
  have hfirst : ¬ fromMarker <:+: p ++ fromMarker.dropLast := by
    intro h
    rcases infix_append_cases h with h | h | ⟨u, v, hu, hv, e, -, hv'⟩
    · exact hp h
    · exact absurd h.length_le (by decide)
    · exact fromMarker_borderless e hu hv (hv'.trans (List.dropLast_prefix _))
  rw [fromClause?, cut?_first hfirst]
  rfl

/-! ## Searches for a table -/

theorem seekSome_append {α : Type} {f : Text → Text → Option α} {read c t : Text}
    (h : ∀ u v, c = u ++ v → v ≠ [] → f (u.reverse ++ read) (v ++ t) = none) :
    seekSome f read (c ++ t) = seekSome f (c.reverse ++ read) t := by
  induction c generalizing read with
  | nil => rfl
  | cons d c ih =>
    have hd : f read (d :: (c ++ t)) = none := h [] (d :: c) rfl (by simp)
    rw [List.cons_append, seekSome, hd, Option.none_or, List.reverse_cons, List.append_assoc, List.singleton_append]
    refine ih fun u v e hv => ?_
    have := h (d :: u) v (by rw [e, List.cons_append]) hv
    simpa using this

/-- Of the text before, a search for a table minds whether a word ends there. -/
theorem seekSome_tableAt?_congr {read read' : Text} (h : startsInWord read = startsInWord read') (t : Text) :
    seekSome tableAt? read t = seekSome tableAt? read' t := by
  induction t generalizing read read' with
  | nil => exact tableAt?_congr h []
  | cons c t ih =>
    have hc : startsInWord (c :: read) = startsInWord (c :: read') := rfl
    rw [seekSome, seekSome, tableAt?_congr h, ih hc]

theorem tableAt?_other {read t : Text} {c : Char} (hc : sameLetter 'F' c = false) : tableAt? read (c :: t) = none := by
  have hword : dropWord? "FROM".toList (c :: t) = none := by
    show (if sameLetter 'F' c then _ else none) = none
    rw [hc]
    rfl
  unfold tableAt?
  rw [hword]
  split <;> rfl

/-- Behind a line feed a search for a table starts afresh. -/
theorem seekSome_tableAt?_feed (read t : Text) : seekSome tableAt? read ('\n' :: t) = seekSome tableAt? [] t := by
  rw [seekSome, tableAt?_other (by decide), Option.none_or]
  have hfeed : startsInWord ('\n' :: read) = startsInWord [] := show isWord '\n' = false by decide
  exact seekSome_tableAt?_congr hfeed t

theorem seekSome_tableAt?_dashes (t : Text) : seekSome tableAt? [] ("\n-- ".toList ++ t) = seekSome tableAt? [] t := by
  show seekSome tableAt? [] ('\n' :: '-' :: '-' :: ' ' :: t) = seekSome tableAt? [] t
  rw [seekSome_tableAt?_feed, seekSome, tableAt?_other (by decide), Option.none_or, seekSome, tableAt?_other (by decide),
    Option.none_or, seekSome, tableAt?_other (by decide), Option.none_or]
  exact seekSome_tableAt?_congr (by decide) t

/-! ## What a remark does to the alias -/

/-- A FROM in the remark `c` names a table, and the first one calls it `name`. Both are read on
    into the lines `rest` behind the remark. -/
def Misled (c rest name : Text) : Prop :=
  ∃ u v table after, c = u ++ v ∧ FirstAt namesTable [] u (v ++ '\n' :: rest) ∧
    tableAt? u.reverse (v ++ '\n' :: rest) = some (table, after) ∧ name = (ownAlias? after).getD table

/-- Where a FROM in the remark names a table, the search finds the first one that does. -/
theorem exists_misled {u v rest : Text} (h : namesTable u.reverse (v ++ '\n' :: rest) = true) :
    ∃ table after, seekSome tableAt? [] (u ++ v ++ '\n' :: rest) = some (table, after) ∧
      Misled (u ++ v) rest ((ownAlias? after).getD table) := by
  cases hs : seekSome tableAt? [] (u ++ v ++ '\n' :: rest) with
  | none =>
    have hnone : Nowhere namesTable [] (u ++ v ++ '\n' :: rest) := seekSome_nowhere_iff.mp hs
    have := hnone u (v ++ '\n' :: rest) (List.append_assoc u v _)
    rw [List.nil_append, h] at this
    cases this
  | some found =>
    obtain ⟨table, after⟩ := found
    obtain ⟨x, y, e, hfirst, hat⟩ := seekSome_nil_iff.mp hs
    have hfirst : FirstAt namesTable [] x y := hfirst
    rw [List.append_assoc] at e
    by_cases hx : x.length ≤ u.length
    · obtain ⟨t, rfl, rfl⟩ := eq_append_of_le e.symm hx
      refine ⟨table, after, rfl, x, t ++ v, table, after, by simp, ?_, ?_, rfl⟩
      · rwa [List.append_assoc]
      · rwa [List.append_assoc]
    · -- the place in the remark would come before the first one
      obtain ⟨t, rfl, e'⟩ := eq_append_of_le e (by omega)
      have ht : t ≠ [] := by
        rintro rfl
        simp at hx
      have := hfirst.before u t rfl ht
      rw [← e', List.nil_append, h] at this
      cases this

/-- Where none does, it goes on behind the remark. -/
theorem seekSome_tableAt?_remark {c rest : Text} (h : ∀ u v, c = u ++ v → namesTable u.reverse (v ++ '\n' :: rest) = false) :
    seekSome tableAt? [] (c ++ '\n' :: rest) = seekSome tableAt? [] rest := by
  rw [seekSome_append, List.append_nil, seekSome_tableAt?_feed]
  intro u v e _
  have := h u v e
  rw [List.append_nil]
  simpa [namesTable] using this

/-- The FROM stands in the remark with all its letters; the word may stand behind. -/
theorem exists_misled_iff {c rest : Text} : (∃ name, Misled c rest name) ↔ ∃ u k w x y z, EndsApart u ∧
    Spells "FROM".toList k ∧ w ≠ [] ∧ allBlank w = true ∧ isNameChar x = true ∧ c = u ++ k ++ y ∧
    y ++ '\n' :: rest = w ++ x :: z := by
  constructor
  · rintro ⟨name, u, v, table, after, rfl, hfirst, -, -⟩
    obtain ⟨hu, k, w, x, z, hk, hw0, hw, hx, e⟩ := namesTable_iff.mp hfirst.here
    refine ⟨u, k, w, x, ?_⟩
    rcases List.append_eq_append_iff.mp e with ⟨t, rfl, ht⟩ | ⟨y, rfl, hy⟩
    · cases t with
      | nil => exact ⟨[], z, startsInWord_reverse.mp hu, hk, hw0, hw, hx, by simp, ht⟩
      | cons d t =>
        -- a line feed would be a letter of the keyword
        have hfeed := hk.word fromWord.2 '\n' (by rw [(List.cons.inj ht).1]; simp)
        exact absurd hfeed (by decide)
    · exact ⟨y, z, startsInWord_reverse.mp hu, hk, hw0, hw, hx, (List.append_assoc u k y).symm, hy.symm⟩
  · rintro ⟨u, k, w, x, y, z, hu, hk, hw0, hw, hx, rfl, e⟩
    have hnames : namesTable u.reverse (k ++ y ++ '\n' :: rest) = true :=
      namesTable_iff.mpr ⟨startsInWord_reverse.mpr hu, k, w, x, z, hk, hw0, hw, hx, by rw [List.append_assoc, e]⟩
    obtain ⟨table, after, -, h⟩ := exists_misled hnames
    exact ⟨_, by rwa [List.append_assoc]⟩

/-! ## The alias -/

section

variable {p c rest name : Text}

theorem outerAlias?_of_misled (hp : ¬ fromMarker <:+: p) (h : Misled c rest name) :
    outerAlias? (p ++ fromMarker ++ ("\n-- ".toList ++ (c ++ '\n' :: rest))) = some name := by
  obtain ⟨u, v, table, after, rfl, hfirst, hat, rfl⟩ := h
  have hseek : seekSome tableAt? [] (u ++ v ++ '\n' :: rest) = some (table, after) :=
    seekSome_nil_iff.mpr ⟨u, v ++ '\n' :: rest, List.append_assoc u v _, hfirst, hat⟩
  rw [outerAlias?_eq (fromClause?_marker hp _), seekSome_tableAt?_dashes, hseek]
  rfl

theorem outerAlias?_of_not_misled (hp : ¬ fromMarker <:+: p) (h : ∀ name, ¬ Misled c rest name) :
    outerAlias? (p ++ fromMarker ++ ("\n-- ".toList ++ (c ++ '\n' :: rest))) = outerAlias? (p ++ fromMarker ++ '\n' :: rest) := by
  have hnone : ∀ u v, c = u ++ v → namesTable u.reverse (v ++ '\n' :: rest) = false := by
    rintro u v rfl
    by_contra hn
    obtain ⟨table, after, -, hm⟩ := exists_misled (by simpa using hn)
    exact h _ hm
  rw [outerAlias?_eq (fromClause?_marker hp _), outerAlias?_eq (fromClause?_marker hp _), seekSome_tableAt?_dashes,
    seekSome_tableAt?_remark hnone, seekSome_tableAt?_feed]

/-- A remark on the line behind the FROM marker leaves the alias of the outer table, unless a FROM
    in it is followed by a word, on its line or the next. Then that word is the table, and the
    alias stays as it was only where the table happens to go by the same name. -/
theorem outerAlias?_remark (hp : ¬ fromMarker <:+: p) (c rest : Text) :
    (outerAlias? (p ++ fromMarker ++ ("\n-- ".toList ++ (c ++ '\n' :: rest))) = outerAlias? (p ++ fromMarker ++ '\n' :: rest) ↔
      ∀ name, Misled c rest name → outerAlias? (p ++ fromMarker ++ '\n' :: rest) = some name) ∧
    (∀ name, Misled c rest name → outerAlias? (p ++ fromMarker ++ ("\n-- ".toList ++ (c ++ '\n' :: rest))) = some name) ∧
    ((∃ name, Misled c rest name) ↔ ∃ u k w x y z, EndsApart u ∧ Spells "FROM".toList k ∧ w ≠ [] ∧ allBlank w = true ∧
      isNameChar x = true ∧ c = u ++ k ++ y ∧ y ++ '\n' :: rest = w ++ x :: z) := by
  refine ⟨⟨fun h name hm => ?_, fun h => ?_⟩, fun name hm => outerAlias?_of_misled hp hm, exists_misled_iff⟩
  · rw [← h]
    exact outerAlias?_of_misled hp hm
  · by_cases hm : ∃ name, Misled c rest name
    · obtain ⟨name, hm⟩ := hm
      rw [outerAlias?_of_misled hp hm, h name hm]
    · exact outerAlias?_of_not_misled hp fun name hn => hm ⟨name, hn⟩

end

/-- A remark that tells where the rows came from, and one that is read on into the next line. -/
theorem outerAlias?_remark_backup :
    let p := "SELECT u.id\n".toList
    let backup := "moved From backup b".toList
    let moved := "moved from".toList
    let rest := "FROM users u".toList
    ¬ fromMarker <:+: p ∧ Misled backup rest "b".toList ∧ Misled moved rest "users".toList ∧
      outerAlias? (p ++ fromMarker ++ '\n' :: rest) = some "u".toList ∧
      outerAlias? (p ++ fromMarker ++ ("\n-- ".toList ++ (backup ++ '\n' :: rest))) ≠
        outerAlias? (p ++ fromMarker ++ '\n' :: rest) ∧
      outerAlias? (p ++ fromMarker ++ ("\n-- ".toList ++ (moved ++ '\n' :: rest))) = some "users".toList := by
  repeat rw [String.toList_ofList]
  intro p backup moved rest
  have hp : ¬ fromMarker <:+: p := by decide +kernel
  have hbackup : Misled backup rest "b".toList :=
    ⟨"moved ".toList, "From backup b".toList, "backup".toList, " b\nFROM users u".toList, by decide +kernel, by decide +kernel,
      by decide +kernel, by decide +kernel⟩
  have hmoved : Misled moved rest "users".toList :=
    ⟨"moved ".toList, "from".toList, "FROM".toList, " users u".toList, by decide +kernel, by decide +kernel, by decide +kernel,
      by decide +kernel⟩
  have halias : outerAlias? (p ++ fromMarker ++ '\n' :: rest) = some ['u'] := by decide +kernel
  refine ⟨hp, hbackup, hmoved, halias, fun h => ?_, (outerAlias?_remark hp moved rest).2.1 _ hmoved⟩
  have := (outerAlias?_remark hp backup rest).1.mp h _ hbackup
  rw [halias] at this
  exact absurd this (by decide)

end ExportQuery.Sql
