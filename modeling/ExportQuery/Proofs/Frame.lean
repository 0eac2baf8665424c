/-
  ExportQuery.Proofs.Frame — what an assembly leaves as it was.

  A pass edits the view behind the FROM marker and nothing else. So the text that swapping back
  gives has the regions of the text before, in the same order, and is the same through the first
  marker outside the regions. Without such a marker a pass only puts the semicolon back.

  - `Merges`: the conditions that an assembly merges.
  - `Framed`: divisions with the same regions and the same text through the marker.
  - `exists_pass`: a pass writes a query framed as the one before.
  - `assemble_framed`: so does an assembly.
-/

import ExportQuery.Proofs.TwoPasses
import ExportQuery.Proofs.View

namespace ExportQuery.Sql

open ExportQuery.Text

/-! ## Regions swapped back -/

theorem restoreFrom_append (name : Nat → Text) (i : Nat) (bs bs' : List Text) (s : Text) :
    restoreFrom name i (bs ++ bs') s = restoreFrom name (i + bs.length) bs' (restoreFrom name i bs s) := by
  induction bs generalizing i s with
  | nil => rfl
  | cons b bs ih =>
    rw [List.cons_append, restoreFrom, restoreFrom, ih, List.length_cons]
    congr 1
    omega

namespace Division

variable {name : Nat → Text} {i : Nat}

/-- In a text without tokens nothing is swapped. -/
theorem restoreFrom_tokenFree (hn : Tokens name) {s : Text} (h : TokenFree s) (bs : List Text) : restoreFrom name i bs s = s := by
  induction bs generalizing i with
  | nil => rfl
  | cons b bs ih =>
    obtain ⟨k, hk⟩ := hn i
    rw [restoreFrom, hk, replaceFirst_of_absent (h.token k), ih]

theorem text_of_view (hn : Tokens name) {d : Division} (hf : d.Fenced) (h : TokenFree d.text) {bodies : List Text}
    (hb : d.bodies <+: bodies) : restoreFrom name i bodies (d.outerAt name i) = d.text := by
  obtain ⟨more, rfl⟩ := hb
  rw [restoreFrom_append, restoreFrom_of_tokenFree hn hf h, restoreFrom_tokenFree hn h]

/-! ## Framed divisions -/

/-- `d'` has the regions of `d`, and its text through the first FROM marker outside of them. -/
structure Framed (d d' : Division) : Prop where
  bodies : d'.bodies = d.bodies
  marked : ∀ {d₁ d₂}, d.MarkedAt d₁ d₂ → ∃ d₁' d₂', d'.MarkedAt d₁' d₂' ∧ d₁'.text = d₁.text

theorem Framed.refl (d : Division) : Framed d d := ⟨rfl, fun h => ⟨_, _, h, rfl⟩⟩

theorem Framed.trans {d d' d'' : Division} (h : Framed d d') (h' : Framed d' d'') : Framed d d'' where
  bodies := h'.bodies.trans h.bodies
  marked hm := by
    obtain ⟨d₁', d₂', hm', e⟩ := h.marked hm
    obtain ⟨d₁'', d₂'', hm'', e'⟩ := h'.marked hm'
    exact ⟨d₁'', d₂'', hm'', e'.trans e⟩

/-- Divisions with the same regions are framed when their views are cut behind the same text. -/
theorem framed_of_view {d d' : Division} (hd : d.Fenced) (hd' : d'.Fenced) (h : TokenFree d.text) (h' : TokenFree d'.text)
    (hb : d'.bodies = d.bodies)
    (hm : ∀ head rest, fromClause? (d.outerAt token 0) = some (head, rest) →
      ∃ rest', fromClause? (d'.outerAt token 0) = some (head, rest')) : Framed d d' where
  bodies := hb
  marked := by
    intro d₁ d₂ hmark
    obtain ⟨rest', hm'⟩ := hm _ _ ((fromClause?_outerAt_iff tokens_token (i := 0)).mpr ⟨d₁, d₂, hmark, rfl, rfl⟩)
    obtain ⟨d₁', d₂', hmark', hview, -⟩ := (fromClause?_outerAt_iff tokens_token).mp hm'
    have hview := List.append_cancel_right hview
    refine ⟨d₁', d₂', hmark', ?_⟩
    have e := hmark.joins
    have e' := hmark'.joins
    have part : ∀ {d e f : Division}, d = e ++ plain fromMarker ++ f → d.Fenced → TokenFree d.text →
        restoreFrom token 0 d.bodies (e.outerAt token 0) = e.text := by
      rintro _ e f rfl hf ht
      refine text_of_view tokens_token hf.left.left (ht.within ⟨[], fromMarker ++ f.text, by simp⟩) ⟨f.bodies, by simp⟩
    rw [← part e hd h, ← part e' hd' h', hb, hview]

end Division

/-! ## The semicolon -/

/-- Text of characters that no marker holds is no part of one. -/
theorem unmarked_of_absent {ins : Text} (h : ∀ c ∈ ins, ∀ m, IsMarker m → c ∉ m) (h0 : ins ≠ []) (s t : Text) :
    Unmarked s ins t := by
  constructor
  · rintro m u v hm e - hv ⟨z, hz⟩
    cases ins with
    | nil => exact h0 rfl
    | cons c ins =>
      cases v with
      | nil => exact hv rfl
      | cons d v =>
        simp only [List.cons_append, List.cons.injEq] at hz
        exact h c (by simp) m hm (by rw [e, hz.1]; simp)
  · intro m x y z hm e hy
    cases y with
    | nil => rfl
    | cons d y =>
      obtain ⟨r, hr⟩ := hm.eq_cons
      have e : d :: (y ++ t) = '-' :: ('-' :: ' ' :: r ++ z) := by
        rw [hy, List.append_assoc, List.append_assoc] at e
        simpa [hr] using List.append_cancel_left e
      refine (h d (by rw [hy]; simp) m hm ?_).elim
      rw [hr, (List.cons.inj e).1]; simp

theorem bodies_semicolon {d : Division} (h : d.Proper) : (extractRegions (d.text ++ [';'])).2 = d.bodies := by
  have absent : ∀ c ∈ [';'], ∀ m, IsMarker m → c ∉ m := by
    intro c hc m hm
    obtain rfl : c = ';' := by simpa using hc
    rcases hm with rfl | rfl
    · decide
    · decide
  have hp : (d ++ Division.plain [';'] ++ Division.plain []).Proper :=
    Division.Proper.edit (w := []) (by simpa using h) (unmarked_of_absent absent (by simp) _ _)
  rw [Division.append_plain_nil] at hp
  have := divide_text hp
  rw [Division.text_append, Division.text_plain] at this
  rw [extractRegions, this]
  simp

/-! ## The marker and the GROUP BY clause -/

theorem fromClause?_extractGroupBy {s head rest : Text} (h : fromClause? s = some (head, rest)) :
    ∃ rest', fromClause? (extractGroupBy s).1 = some (head, rest') := by
  obtain ⟨rfl, -⟩ := fromClause_joins h
  rcases extractGroupBy_cases h with ⟨-, e⟩ | ⟨kept, _, _, _, rfl, -, e⟩
  · exact ⟨rest, by rw [e]; exact h⟩
  · exact ⟨kept, by rw [e]; exact fromClause?_congr h _⟩

theorem fromClause?_restoreGroupBy {head rest : Text} (h : fromClause? (head ++ rest) = some (head, rest))
    (hi : EndsInInk (head ++ rest)) (clause : Text) :
    ∃ rest', fromClause? (restoreGroupBy (head ++ rest) clause) = some (head, rest') := by
  obtain ⟨f, -, he⟩ := restoreGroupBy_eq clause
  refine ⟨rest ++ (f ++ clause), ?_⟩
  rw [he _ hi, List.append_assoc]
  exact fromClause?_congr h _

end ExportQuery.Sql

namespace ExportQuery.Assembler

open ExportQuery.Text ExportQuery.Sql ExportQuery.Period ExportQuery.Filter ExportQuery.Assembly

/-! ## The conditions merged -/

/-- The conditions that an assembly finds: `P` of the period, and `F` of filters and deletion,
    written for the query that the first pass gives. -/
structure Merges (a : Assembler) (t : Text) (r : Request) (P F : List Text) : Prop where
  period : a.periodConditions (bare t) r.periodCondition r.periodCriterion = .ok P
  filters : ∃ s, a.periodPass t r.periodCondition r.periodCriterion r.category = .ok s ∧
    conditions (columns (Outer.of (bare s)).head) r.filters r.deletionFlag r.skipDeletion
      (outerAlias? (Outer.of (bare s)).head) = .ok F

section

variable {a : Assembler} {t s : Text} {r : Request} {P F cs : List Text}

theorem exists_merges {out : Text} (hr : a.isMaster r.category = false) (h : a.assemble t r = .ok out) :
    ∃ P F, a.Merges t r P F := by
  cases hp : a.periodPass t r.periodCondition r.periodCriterion r.category with
  | error e => simp [assemble, hp] at h
  | ok s =>
    have hfilters : ∃ F, conditions (columns (Outer.of (bare s)).head) r.filters r.deletionFlag r.skipDeletion
        (outerAlias? (Outer.of (bare s)).head) = .ok F := by
      cases hc : conditions (columns (Outer.of (bare s)).head) r.filters r.deletionFlag r.skipDeletion
          (outerAlias? (Outer.of (bare s)).head) with
      | error e => simp [assemble, hp, filterPass, hr, hc] at h
      | ok F => exact ⟨F, rfl⟩
    obtain ⟨F, hF⟩ := hfilters
    cases hP : a.periodConditions (bare t) r.periodCondition r.periodCriterion with
    | error f => rw [periodPass_refused hr hP] at hp; cases hp
    | ok P => exact ⟨P, F, hP, s, hp, hF⟩

theorem Merges.not_overflows (h : a.Merges t r P F) (hr : a.isMaster r.category = false) :
    ¬ Overflows (Outer.of (bare t)).head P := by
  obtain ⟨s, hs, -⟩ := h.filters
  intro ho
  rw [periodPass_overflow hr h.period ho] at hs
  cases hs

theorem Merges.assemble (h : a.Merges t r P F) (hr : a.isMaster r.category = false) {s : Text}
    (hs : a.periodPass t r.periodCondition r.periodCriterion r.category = .ok s) :
    a.assemble t r = (Outer.of (bare s)).merge F := by
  obtain ⟨s', hs', hF⟩ := h.filters
  rw [hs] at hs'
  cases hs'
  simp [Assembler.assemble, hs, filterPass, hr, hF]

/-! ## One pass -/

/-- Without a FROM marker outside its regions, a query is put together as it was. -/
theorem merge_of_none (ht : TokenFree s) (hm : ∀ d₁ d₂, divide s ≠ d₁ ++ Division.plain fromMarker ++ d₂) :
    (Outer.of s).merge cs = .ok (s ++ [';']) := by
  have hd := divide_proper s
  have hview : fromClause? (extractRegions s).1 = none :=
    (Division.fromClause?_outerAt_none_iff Division.tokens_token).mpr hm
  have ho : Outer.of s = ⟨(extractRegions s).1, [], (extractRegions s).2⟩ := by
    simp only [Outer.of, extractGroupBy_of_none hview]
  have hback : restoreRegions (extractRegions s).1 (extractRegions s).2 = s :=
    (Division.restoreFrom_of_tokenFree Division.tokens_token hd.fenced (by rwa [divide_joins])).trans (divide_joins s)
  rw [ho, Outer.merge_eq_ok (not_overflows_of_none hview), merged_of_none hview, Outer.close, restoreGroupBy_nil, hback]

/-- A FROM marker outside the regions is the marker of the view, and of what is left of it. -/
theorem exists_marked {d₁ d₂ : Division} (hm : divide s = d₁ ++ Division.plain fromMarker ++ d₂) :
    ∃ head rest rest', fromClause? (extractRegions s).1 = some (head, rest) ∧
      fromClause? (Outer.of s).head = some (head, rest') := by
  have hmark : fromClause? (extractRegions s).1 ≠ none := fun h =>
    (Division.fromClause?_outerAt_none_iff Division.tokens_token).mp h d₁ d₂ hm
  obtain ⟨⟨head, rest⟩, hview⟩ := Option.ne_none_iff_exists'.mp hmark
  obtain ⟨rest', hcut⟩ : ∃ rest', fromClause? (Outer.of s).head = some (head, rest') := fromClause?_extractGroupBy hview
  exact ⟨head, rest, rest', hview, hcut⟩

/-- With one, merging conditions gives a query framed as the one before. -/
theorem exists_pass {d₁ d₂ : Division} (ht : TokenFree s) (hs : trimStart s = s) (he : trimEnd s = s)
    (hm : divide s = d₁ ++ Division.plain fromMarker ++ d₂) (hc : ∀ c ∈ cs, TokenFree c ∧ MarkerFree c) :
    ∃ d, Sound d ∧ Division.Framed (divide s) d ∧ (Outer.of s).close (merged (Outer.of s).head cs) = d.text ++ [';'] := by
  obtain ⟨head, _, rest, hview, hcut⟩ := exists_marked hm
  obtain ⟨d, hd⟩ := exists_source ht hs he hcut
  obtain ⟨rest', hfill⟩ := exists_filled (trimEnd_head hd.marker) (conjunction cs) rest
  obtain ⟨d', hd', hb, hv, hi⟩ := hd.exists_view trimmed_conjunction
    (fun _ => markerFree_conjunction fun c h => (hc c h).2) (tokenFree_conjunction fun c h => (hc c h).1) hfill
  refine ⟨d', hd', ?_, ?_⟩
  · -- the view goes on behind the same marker
    refine Division.framed_of_view (divide_proper s).fenced hd'.proper.fenced (by rwa [divide_joins]) hd'.free hb ?_
    intro head' rest'' h
    have hsame : head' = head := by
      have h : fromClause? (extractRegions s).1 = some (head', rest'') := h
      rw [hview] at h
      simp only [Option.some.injEq, Prod.mk.injEq] at h
      exact h.1.symm
    rw [hsame, hv]
    exact fromClause?_restoreGroupBy (fromClause?_congr hd.marker rest') hi _
  · rw [hd.text, merged_filled hd.marker hd.divide hfill, Outer.close, ← hv, ← hb, hd'.restore]

/-! ## Both passes -/

theorem exists_framed_period {d₁ d₂ : Division} (ht : TokenFree t) (hr : a.isMaster r.category = false)
    (hm : divide (bare t) = d₁ ++ Division.plain fromMarker ++ d₂)
    (h : a.Merges t r P F) (hc : ∀ c ∈ P, TokenFree c ∧ MarkerFree c) :
    ∃ d, Sound d ∧ Division.Framed (divide (bare t)) d ∧
      a.periodPass t r.periodCondition r.periodCriterion r.category = .ok (d.text ++ [';']) := by
  have hf := ht.within (bare_within t)
  rw [periodPass_eq hr h.period]
  split
  · have h0 : bare t ≠ [] := by
      intro h0
      have h := congrArg Division.text hm
      rw [divide_joins, h0, Division.text_append, Division.text_append, Division.text_plain] at h
      exact absurd (List.append_eq_nil_iff.mp (List.append_eq_nil_iff.mp h.symm).1).2 (by decide)
    exact ⟨divide (bare t), sound_divide hf (trimStart_bare t) (trimEnd_bare t) h0, .refl _, by rw [divide_joins]⟩
  · obtain ⟨d, hd, hframe, e⟩ := exists_pass hf (trimStart_bare t) (trimEnd_bare t) hm hc
    exact ⟨d, hd, hframe, by rw [Outer.merge_eq_ok (h.not_overflows hr), e]⟩

theorem assemble_of_none (ht : TokenFree t) (hr : a.isMaster r.category = false) (h : a.Merges t r P F)
    (hm : ∀ d₁ d₂, divide (bare t) ≠ d₁ ++ Division.plain fromMarker ++ d₂) : a.assemble t r = .ok (bare t ++ [';']) := by
  have hf := ht.within (bare_within t)
  have hperiod : a.periodPass t r.periodCondition r.periodCriterion r.category = .ok (bare t ++ [';']) := by
    rw [periodPass_eq hr h.period, merge_of_none hf hm, ite_self]
  rw [h.assemble hr hperiod, bare_semicolon, merge_of_none hf hm]

/-- An assembly leaves the sub-queries and what stands up to and with the FROM marker; without a
    marker outside the sub-queries it leaves all of the query. Only conditions that are merged
    may hold no token and no marker of a sub-query. -/
theorem assemble_framed {out : Text} (ht : TokenFree t) (hr : a.isMaster r.category = false) (hout : a.assemble t r = .ok out)
    (h : a.Merges t r P F)
    (hc : (∃ d₁ d₂, (divide (bare t)).MarkedAt d₁ d₂) → ∀ c ∈ P ++ F, TokenFree c ∧ MarkerFree c) :
    (extractRegions out).2 = (extractRegions (bare t)).2 ∧
      (∀ d₁ d₂, (divide (bare t)).MarkedAt d₁ d₂ → d₁.text ++ fromMarker <+: out) ∧
      ((∀ d₁ d₂, divide (bare t) ≠ d₁ ++ Division.plain fromMarker ++ d₂) → out = bare t ++ [';']) := by
  rcases Division.unmarked_or_exists_markedAt (divide (bare t)) with hm | ⟨d₁, d₂, hmark⟩
  · rw [assemble_of_none ht hr h hm] at hout
    cases hout
    refine ⟨?_, fun d₁ d₂ h => absurd h.joins (hm d₁ d₂), fun _ => rfl⟩
    have := bodies_semicolon (divide_proper (bare t))
    rwa [divide_joins] at this
  · -- each pass frames the query, and so do both
    have hc := hc ⟨d₁, d₂, hmark⟩
    obtain ⟨d, hd, hframe, hperiod⟩ := exists_framed_period ht hr hmark.joins h fun c hP => hc c (by simp [hP])
    obtain ⟨d₁', d₂', hmark', -⟩ := hframe.marked hmark
    have hbare : divide (bare (d.text ++ [';'])) = d := by rw [hd.bare, divide_text hd.proper]
    have hcF : ∀ c ∈ F, TokenFree c ∧ MarkerFree c := fun c hF => hc c (by simp [hF])
    obtain ⟨d', hd', hframe', e⟩ := exists_pass (by rw [hd.bare]; exact hd.free) (trimStart_bare (d.text ++ [';']))
      (trimEnd_bare _) (hbare ▸ hmark'.joins) hcF
    rw [h.assemble hr hperiod, Outer.merge_eq_ok_iff, e] at hout
    obtain ⟨-, rfl⟩ := hout
    rw [hbare] at hframe'
    have hframe := hframe.trans hframe'
    refine ⟨(bodies_semicolon hd'.proper).trans hframe.bodies, ?_, fun hn => absurd hmark.joins (hn d₁ d₂)⟩
    intro d₁ d₂ hmark
    obtain ⟨e₁, e₂, he, htext⟩ := hframe.marked hmark
    refine ⟨e₂.text ++ [';'], ?_⟩
    rw [he.joins, ← htext]
    simp

end

/-- Sub-queries on both sides of the marker, a marker inside one of them, an end without a start
    and a start without an end. -/
theorem assemble_framed_on_both_sides :
    let d₁ : Division := ⟨[("SELECT u.name AS \"Name\", (".toList, "-- subquery start -- FROM clause -- subquery end".toList)],
      ") AS n -- subquery end\n".toList⟩
    let d₂ : Division := ⟨[("\nFROM users u JOIN (".toList, "-- subquery start SELECT 2 LIMIT 1 -- subquery end".toList)],
      ") v GROUP BY u.id -- subquery start".toList⟩
    let t := (d₁ ++ Division.plain fromMarker ++ d₂).text
    let a : Assembler := ⟨⟨2025, 6, 15, by decide⟩, Options.default⟩
    let r : Request := ⟨"当日".toList, "登録日時".toList, "TRUE".toList, false, [], ⟨[("Name".toList, .string ['x'])], []⟩⟩
    let P := [" DATE(u.created_at) = '2025-06-15'".toList]
    let F := ["u.name = 'x'".toList, "u.deleted_at IS NULL".toList]
    let out := d₁.text ++ fromMarker ++ "\nFROM users u JOIN (-- subquery start SELECT 2 LIMIT 1 -- subquery end) v\n".toList ++
      "WHERE u.name = 'x' AND u.deleted_at IS NULL AND DATE(u.created_at) = '2025-06-15'\n".toList ++
      "GROUP BY u.id -- subquery start;".toList
    TokenFree t ∧ a.isMaster r.category = false ∧ a.assemble t r = .ok out ∧ a.Merges t r P F ∧
      (∀ c ∈ P ++ F, TokenFree c ∧ MarkerFree c) ∧ (divide (bare t)).MarkedAt d₁ d₂ ∧
      (extractRegions out).2 = (extractRegions (bare t)).2 ∧ d₁.text ++ fromMarker <+: out := by
  repeat rw [String.toList_ofList]
  intro d₁ d₂ t a r P F out
  have ht : TokenFree t := by decide +kernel
  have hr : a.isMaster r.category = false := by decide +kernel
  have hout : a.assemble t r = .ok out := eq_ok_of_toOption (by decide +kernel)
  have hP : a.periodConditions (bare t) r.periodCondition r.periodCriterion = .ok P := eq_ok_of_toOption (by decide +kernel)
  let s := d₁.text ++ fromMarker ++ "\nFROM users u JOIN (-- subquery start SELECT 2 LIMIT 1 -- subquery end) v\n".toList ++
    "WHERE DATE(u.created_at) = '2025-06-15'\nGROUP BY u.id -- subquery start;".toList
  have hs : a.periodPass t r.periodCondition r.periodCriterion r.category = .ok s := eq_ok_of_toOption (by decide +kernel)
  have hM : a.Merges t r P F := ⟨hP, s, hs, eq_ok_of_toOption (by decide +kernel)⟩
  have hc : ∀ c ∈ P ++ F, TokenFree c ∧ MarkerFree c := by decide +kernel
  have hview : ¬ fromMarker <:+: d₁.outerAt token 0 := by decide +kernel
  have hmark : (divide (bare t)).MarkedAt d₁ d₂ := ⟨by decide +kernel, fun e₁ e₂ e =>
    hview ⟨e₁.outerAt token 0, e₂.outerAt token (0 + e₁.count), by rw [e]; simp⟩⟩
  obtain ⟨hbodies, hprefix, -⟩ := assemble_framed ht hr hout hM fun _ => hc
  exact ⟨ht, hr, hout, hM, hc, hmark, hbodies, hprefix d₁ d₂ hmark⟩

end ExportQuery.Assembler
