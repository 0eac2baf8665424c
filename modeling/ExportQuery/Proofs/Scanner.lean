/-
  ExportQuery.Proofs.Scanner — what the region scanner finds, for every text.

  A text has one proper division and the scanner finds it, whatever markers stray about: a
  start inside a region is part of its body, an end outside of one is part of its piece, and a
  start that no end follows opens nothing. The view it returns has tokens where the regions
  were, so there is nothing left for a second scan to find.

  - `divide_eq_iff`: the division found is the proper one.
  - `divide_region`: the scanner takes the first region off and goes on behind it.
  - `extractRegions_eq_self_iff`: a text is its own view when it opens no region.
  - `extractRegions_divided`: view and bodies are those of the one proper division, and the
    view is its own view.
-/

import ExportQuery.Proofs.Marker

namespace ExportQuery.Sql

open ExportQuery.Text

variable {s : Text} {d : Division}

/-! ## The division found -/

theorem divide_eq_iff : divide s = d ↔ d.Proper ∧ d.text = s := by
  constructor
  · rintro rfl
    exact ⟨divide_proper s, divide_joins s⟩
  · rintro ⟨hp, rfl⟩
    exact divide_text hp

theorem divide_region {p t : Text} (hp : ¬ startMarker <:+: p) (ht : ¬ endMarker <:+: t) (s : Text) :
    divide (p ++ (startMarker ++ t ++ endMarker) ++ s) = Division.cons p (startMarker ++ t ++ endMarker) (divide s) := by
  rw [divide_eq_iff, Division.proper_cons_iff, Division.text_cons, divide_joins]
  exact ⟨⟨hp, ⟨t, rfl, ht⟩, divide_proper s⟩, rfl⟩

/-- A start marker inside a region and an end marker outside of one mean nothing. -/
example :
    divide "-- subquery end a -- subquery start -- subquery start b -- subquery end c -- subquery end".toList =
      Division.cons "-- subquery end a ".toList "-- subquery start -- subquery start b -- subquery end".toList
        (Division.plain " c -- subquery end".toList) := by
  rw [divide_eq_iff, Division.proper_cons_iff, Division.proper_plain_iff, ← nextRegion?_eq_none_iff]
  exact ⟨⟨by decide +kernel, ⟨" -- subquery start b ".toList, by decide +kernel, by decide +kernel⟩, by decide +kernel⟩,
    by decide +kernel⟩

/-! ## View and bodies -/

theorem extractRegions_eq_iff {outer : Text} {bodies : List Text} :
    extractRegions s = (outer, bodies) ↔
      ∃ d : Division, (d.Proper ∧ d.text = s) ∧ d.outer token = outer ∧ d.bodies = bodies := by
  constructor
  · intro h
    rw [extractRegions, Prod.mk.injEq] at h
    exact ⟨divide s, divide_eq_iff.mp rfl, h⟩
  · rintro ⟨d, hd, rfl, rfl⟩
    rw [extractRegions, divide_eq_iff.mpr hd]

/-- A text is its own view when no end marker follows a start marker in it. -/
theorem extractRegions_eq_self_iff :
    extractRegions s = (s, []) ↔ ∀ a b c, s ≠ a ++ startMarker ++ b ++ endMarker ++ c := by
  rw [extractRegions_eq_iff, ← Division.proper_plain_iff]
  constructor
  · rintro ⟨d, ⟨hp, rfl⟩, -, hb⟩
    obtain ⟨rs, last⟩ := d
    obtain rfl : rs = [] := List.map_eq_nil_iff.mp hb
    rwa [show (⟨[], last⟩ : Division).text = last from Division.text_plain last]
  · intro hp
    exact ⟨Division.plain s, ⟨hp, Division.text_plain s⟩, rfl, rfl⟩

theorem extractRegions_view (hp : d.Proper) : extractRegions (d.outer token) = (d.outer token, []) :=
  extractRegions_eq_self_iff.mpr fun a b c => hp.no_region_in_view Division.tokens_token a b c

/-- View and bodies are those of the one proper division of the text. -/
theorem extractRegions_divided (s : Text) :
    ∃ d : Division,
      extractRegions s = (d.outer token, d.bodies) ∧
      (∀ e : Division, e.Proper ∧ e.text = s ↔ e = d) ∧
      extractRegions (d.outer token) = (d.outer token, []) := by
  refine ⟨divide s, rfl, ?_, extractRegions_view (divide_proper s)⟩
  intro e
  rw [← divide_eq_iff]
  exact eq_comm

end ExportQuery.Sql
