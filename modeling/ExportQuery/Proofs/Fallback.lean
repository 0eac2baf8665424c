/-
  ExportQuery.Proofs.Fallback — the query of a row without a template of its own.

  Such a row exports its main table as a whole, under the conditions that it asks for: first the
  exclusion of deleted rows, then the window of its period. The fallback query has no clause but
  FROM, whatever the table is called, so both passes put their conditions at its end; and the
  table stays the one that conditions name, since behind its name only a WHERE is ever read.

  - `TableName`: the names that are read as nothing else behind a FROM.
  - `nowhere_clause`: no clause opens behind such a name.
  - `Row.terms`: the conditions that a row asks for.
  - `assemble_fallback`: both passes together write them behind the table.
  - `deliver_fallback`: that query is the one which the sink is handed.
-/

import ExportQuery.Catalog.Batch
import ExportQuery.Proofs.Condition
import ExportQuery.Proofs.NamedTable
import ExportQuery.Proofs.TwoPasses

/-! ## Queries of a whole table -/

namespace ExportQuery.Sql

open ExportQuery.Text

/-- A name of word characters and dots, without a token, no part of which is a keyword. -/
structure TableName (table : Text) : Prop where
  chars : ∀ c ∈ table, isNameChar c = true
  nonempty : table ≠ []
  free : TokenFree table
  parts : ∀ part ∈ table.splitOn '.', isNonAlias part = false

instance (table : Text) : Decidable (TableName table) :=
  decidable_of_iff (table.all isNameChar = true ∧ table ≠ [] ∧ TokenFree table ∧
      ∀ part ∈ table.splitOn '.', isNonAlias part = false)
    ⟨fun ⟨hc, h0, hf, hp⟩ => ⟨List.all_eq_true.mp hc, h0, hf, hp⟩,
      fun h => ⟨List.all_eq_true.mpr h.chars, h.nonempty, h.free, h.parts⟩⟩

/-- The query of a table through its FROM marker, and the text behind it. -/
def wholeHead : Text := "SELECT *\n".toList ++ fromMarker

def wholeRest (table : Text) : Text := "\nFROM ".toList ++ table

/-- The WHERE clause of the conditions, on a line of its own; without any there is none. -/
def whereLine (conditions : List Text) : Text :=
  if conditions = [] then [] else "\nWHERE ".toList ++ join " AND ".toList conditions

section

variable {table head : Text} {ks : List Clause}

theorem fromClause?_whole (rest : Text) : fromClause? (wholeHead ++ rest) = some (wholeHead, rest) :=
  fromClause?_marker (by decide +kernel) rest

theorem TableName.named (h : TableName table) : Named (wholeHead ++ wholeRest table) table [] := by
  have hn : Named ("SELECT *\n".toList ++ fromMarker ++ (['\n'] ++ ("FROM".toList ++ ([' '] ++ (table ++ []))))) table [] :=
    .mk (by decide +kernel) (by decide) (by unfold Spells; decide) (by decide) ⟨h.nonempty, h.chars⟩ rfl
  simp only [List.append_nil] at hn
  exact hn

theorem TableName.last (h : TableName table) :
    ∃ c, (wholeHead ++ wholeRest table).getLast? = some c ∧ isNameChar c = true := by
  have h0 := h.nonempty
  have hlast : ∀ x : Text, (x ++ table).getLast? = some (table.getLast h0) := fun x => by
    rw [List.getLast?_append, List.getLast?_eq_some_getLast h0, Option.some_or]
  have e : wholeHead ++ wholeRest table = wholeHead ++ "\nFROM ".toList ++ table := (List.append_assoc _ _ _).symm
  exact ⟨table.getLast h0, (congrArg List.getLast? e).trans (hlast _), h.chars _ (List.getLast_mem h0)⟩

/-- Ahead of the name, a word starts with the FROM if it starts outside another one. -/
theorem word_start {u t : Text} (hu : EndsApart u) (e : "\nFROM ".toList = u ++ t) (h0 : t ≠ []) : u = [] ∨ u = ['\n'] := by
  have all : ∀ n < 6, startsInWord ("\nFROM ".toList.take n).reverse = false → n = 0 ∨ n = 1 := by decide
  have htake : "\nFROM ".toList.take u.length = u := by rw [e, List.take_left]
  have hlen : u.length < 6 := by
    have hsum : 6 = u.length + t.length := (congrArg List.length e).trans List.length_append
    have := List.length_pos_iff.mpr h0
    omega
  rcases all u.length hlen (by rw [htake]; exact startsInWord_reverse.mpr hu) with h | h
  · exact Or.inl (List.length_eq_zero_iff.mp h)
  · rw [← htake, h]
    exact Or.inr rfl

/-- No clause opens behind the marker: the words there are the FROM and those of the name. -/
theorem nowhere_clause (h : TableName table) : Nowhere (opensClause ks) head (wholeRest table) := by
  intro u v e
  by_contra ho
  have ho : opensClause ks (head ++ u).reverse v = true := by simpa using ho
  obtain ⟨w, r, rfl, ⟨hw0, hw⟩, hkey, -, hr⟩ := exists_word_of_opens ho
  have hu : EndsApart (head ++ u) := startsInWord_reverse.mp (opensClause_iff.mp ho).1
  by_cases hlen : "\nFROM ".toList.length ≤ u.length
  · -- a word of the name is one of its parts
    obtain ⟨x, rfl, ht⟩ := eq_append_of_le e hlen
    have hx : EndsApart x := EndsApart.suffix (x := head ++ "\nFROM ".toList) (by simpa using hu)
    have hl : x.length < table.length := by
      have := List.length_pos_iff.mpr hw0
      rw [ht]
      simp only [List.length_append]
      omega
    have hpart : w ∈ table.splitOn '.' := mem_parts h.chars rfl ((List.append_nil table).trans ht) hl hw0 hw hx hr
    rw [h.parts w hpart] at hkey
    cases hkey
  · -- ahead of the name a word can only start where the FROM does
    obtain ⟨t, e', -⟩ := eq_append_of_le e.symm (by omega)
    have ht0 : t ≠ [] := by
      rintro rfl
      rw [e', List.append_nil] at hlen
      exact hlen (Nat.le_refl _)
    rcases word_start (EndsApart.suffix hu) e' ht0 with rfl | rfl
    · obtain ⟨c, w, rfl⟩ := List.exists_cons_of_ne_nil hw0
      obtain rfl : '\n' = c := (List.cons.inj e).1
      exact absurd (hw '\n' (by simp)) (by decide)
    · have ht : "FROM".toList ++ ' ' :: table = w ++ r := (List.cons.inj e).2
      have hfrom := (word?_eq_some_iff.mpr ⟨ht.symm, by decide, List.all_eq_true.mp (by decide), rfl⟩).1
      have hword := (word?_eq_some_iff.mpr ⟨rfl, hw0, hw, hr⟩).1
      obtain rfl : "FROM".toList = w := Option.some.inj (hfrom.symm.trans hword)
      exact absurd hkey (by decide)

theorem TableName.trimmed (h : TableName table) : Trimmed (wholeHead ++ wholeRest table) := by
  obtain ⟨c, hc, hname⟩ := h.last
  exact ⟨⟨'S', _, rfl, by decide⟩, c, hc, isBlank_of_isNameChar hname⟩

theorem TableName.tokenFree (h : TableName table) : TokenFree (wholeHead ++ wholeRest table) := by
  have hseam : Seam (wholeHead ++ "\nFROM ".toList) table := Or.inl (endsApart_of_getLast? (c := ' ') (by decide) (by decide))
  have hfree := (tokenFree_append_iff hseam).mpr ⟨by decide +kernel, h.free⟩
  rwa [List.append_assoc] at hfree

/-- There is no region in the query. -/
theorem TableName.not_startMarker (h : TableName table) : ¬ startMarker <:+: wholeHead ++ wholeRest table := by
  intro hs
  rcases infix_across (x := wholeHead) (c := '\n') (y := "FROM ".toList ++ table) (by decide) hs with hs | hs
  · exact absurd hs (by decide +kernel)
  · have hdash : '-' ∈ "FROM ".toList ++ table := hs.subset (by decide)
    rcases List.mem_append.mp hdash with hm | hm
    · exact absurd hm (by decide)
    · exact absurd (h.chars '-' hm) (by decide)

theorem divide_of_not_startMarker {s : Text} (h : ¬ startMarker <:+: s) : divide s = Division.plain s := by
  have hp : (Division.plain s).Proper := Division.proper_plain_iff.mpr fun a b c e => h ⟨a, b ++ endMarker ++ c, by rw [e]; simp⟩
  simpa using divide_text hp

theorem TableName.bare (h : TableName table) : bare (wholeHead ++ wholeRest table) = wholeHead ++ wholeRest table := by
  obtain ⟨c, hc, hname⟩ := h.last
  refine (bare_eq_self_iff h.trimmed.trim).mpr (not_suffix_of_getLast rfl hc ?_)
  rintro rfl
  exact absurd hname (by decide)

theorem TableName.extractGroupBy (h : TableName table) :
    extractGroupBy (wholeHead ++ wholeRest table) = (wholeHead ++ wholeRest table, []) := by
  have hnone : findClause [.grouping] wholeHead (wholeRest table) = none := seek_nowhere_iff.mpr (nowhere_clause h)
  rw [Sql.extractGroupBy, fromClause?_whole]
  dsimp only
  rw [hnone]

/-- Conditions go to the end. -/
theorem TableName.merged (h : TableName table) (conditions : List Text) :
    merged (wholeHead ++ wholeRest table) conditions = wholeHead ++ wholeRest table ++ whereLine (conjuncts conditions) := by
  unfold whereLine
  by_cases hj : conjunction conditions = []
  · rw [merged_blank hj, if_pos (conjunction_eq_nil_iff.mp hj), List.append_nil]
  · have hd : divide (wholeRest table) = Division.plain (wholeRest table) :=
      divide_of_not_startMarker fun hs => h.not_startMarker (hs.trans (List.suffix_append _ _).isInfix)
    have hends : EndsInInk (wholeRest table) := h.trimmed.ends.right (List.append_ne_nil_of_left_ne_nil (by decide) table)
    have hclauses : ∀ ks, Nowhere (opensClause ks) wholeHead (wholeRest table ++ []) := fun ks => by
      rw [List.append_nil]
      exact nowhere_clause h
    have hp : Placed wholeHead (conjunction conditions) (wholeRest table) [] [] ("\nWHERE ".toList ++ conjunction conditions) :=
      .atEnd (hclauses _) fun u v e => by
        rw [opensOuterClause, hclauses _ u v e, Bool.false_and]
    have hw : Widest (wholeRest table) [] [] ("\nWHERE ".toList ++ conjunction conditions) := ⟨rfl, fun _ => hends.trimEnd, rfl⟩
    have hrest : wholeRest table = wholeRest table ++ [] ++ [] := by simp only [List.append_nil]
    rw [merged_placed (fromClause?_whole _) hd hj hp hw hrest, if_neg fun h0 => hj (conjunction_eq_nil_iff.mpr h0),
      List.append_nil, ← conjunction_eq]
    exact (List.append_assoc _ _ _).symm

end

end ExportQuery.Sql

/-! ## Conditions of a row -/

namespace ExportQuery.Period

open ExportQuery.Text ExportQuery.Sql

/-- The condition that a window puts on a table: on the column of the criterion, or for logins
    of `users` on one of two columns. -/
def Criterion.term (k : Criterion) (users : Bool) (table : Text) (w : Window) : Text :=
  if k = .login && users then
    '(' :: w.sql (qualified table "updated_at".toList) ++ " OR ".toList ++ w.sql (qualified table "last_login_at".toList) ++ [')']
  else w.sql (qualified table k.column)

section

variable {table : Text} {users : Bool}

theorem Criterion.predicate_term (k : Criterion) (ht : ∀ c ∈ table, isNameChar c = true) (w : Window) :
    Predicate (k.term users table w) := by
  have updated : ∀ c ∈ "updated_at".toList, isNameChar c = true := Criterion.isNameChar_column .update
  have login : ∀ c ∈ "last_login_at".toList, isNameChar c = true := Criterion.isNameChar_column .login
  unfold term
  split
  · exact predicate_either (w.predicate_sql (isNameChar_qualified ht updated)) (w.predicate_sql (isNameChar_qualified ht login))
  · exact w.predicate_sql (isNameChar_qualified ht k.isNameChar_column)

theorem Criterion.tokenFree_term (k : Criterion) (ht : TokenFree table) (w : Window) : TokenFree (k.term users table w) := by
  have hopen : Sealed ['('] := sealed_of (by decide)
  have hupdate := sealed_window (tokenFree_qualified ht (Criterion.tokenFree_column .update)) w
  have hlogin := sealed_window (tokenFree_qualified ht (Criterion.tokenFree_column .login)) w
  unfold term
  split
  · exact ((((hopen.text hupdate.free).sep (separator_of (by decide))).text hlogin.free).sep (separator_of (by decide))).free
  · exact (sealed_window (tokenFree_qualified ht k.tokenFree_column) w).free

theorem window?_of_blank {today : Calendar.Date} {condition : Text} (h : trim condition = []) :
    window? today condition = none := by
  rw [window?, Expr.ofText?, h]
  rfl

end

end ExportQuery.Period

namespace ExportQuery.Sql

open ExportQuery.Text

/-! ## Conditions joined -/

/-- Trimmed conditions are joined as they are. -/
theorem conjuncts_of_trimmed {cs : List Text} (h : ∀ c ∈ cs, Trimmed c) : conjuncts cs = cs := by
  have hmap : cs.map trim = cs := (List.map_congr_left fun c hc => (h c hc).trim).trans (List.map_id cs)
  rw [conjuncts, hmap, List.filter_eq_self]
  intro c hc
  simpa using (h c hc).ne_nil

/-- A blank ahead of a condition is trimmed off. -/
theorem conjuncts_spaced (cs : List Text) : conjuncts (cs.map (' ' :: ·)) = conjuncts cs := by
  have htrim : trim ∘ (' ' :: ·) = trim := funext fun c => rfl
  rw [conjuncts, conjuncts, List.map_map, htrim]

end ExportQuery.Sql

namespace ExportQuery.Catalog

open ExportQuery.Text ExportQuery.Sql ExportQuery.Period ExportQuery.Filter ExportQuery.Calendar

namespace Row

/-- Of deleted rows, as a list of one condition or none. -/
def exclusion (row : Row) : List Text :=
  if isTrue row.deletionFlag then [row.mainTable ++ ".deleted_at IS NULL".toList] else []

/-- Of the period, on the date `today`. -/
def periodTerms (row : Row) (today : Date) : List Text :=
  match Criterion.ofLabel? row.periodCriterion, window? today row.periodCondition with
  | some k, some w => [k.term (readsUsers row.fallback) row.mainTable w]
  | _, _ => []

/-- The conditions that the row asks for, on the date `today`. -/
def terms (row : Row) (today : Date) : List Text := row.exclusion ++ row.periodTerms today

/-- The query of the whole main table under these conditions. -/
def conditioned (row : Row) (today : Date) : Text :=
  "SELECT *\n-- FROM clause\nFROM ".toList ++ row.mainTable ++ whereLine (row.terms today) ++ [';']

/-- The period is blank, or measured on a column of the outer table. -/
def Primary (row : Row) : Prop :=
  trim row.periodCondition = [] ∨ ∃ k, Criterion.ofLabel? row.periodCriterion = some k ∧ k.aliasSource = .outerTable

section

variable {row : Row} {today : Date}

theorem fallback_eq : row.fallback = wholeHead ++ wholeRest row.mainTable :=
  List.append_assoc wholeHead "\nFROM ".toList row.mainTable

theorem fallback_literal : "SELECT *\n-- FROM clause\nFROM ".toList = "SELECT *\n".toList ++ fromMarker ++ "\nFROM ".toList := by
  decide +kernel

theorem conditioned_eq : row.conditioned today = row.fallback ++ whereLine (row.terms today) ++ [';'] := by
  unfold conditioned fallback
  rw [fallback_literal]

theorem predicate_terms (h : TableName row.mainTable) : ∀ c ∈ row.terms today, Predicate c := by
  intro c hc
  rcases List.mem_append.mp hc with hc | hc
  · unfold exclusion at hc
    split at hc
    · rw [List.mem_singleton.mp hc]
      exact predicate_exclusion h.chars
    · cases hc
  · unfold periodTerms at hc
    split at hc
    · rename_i k w _ _
      rw [List.mem_singleton.mp hc]
      exact k.predicate_term h.chars w
    · cases hc

theorem tokenFree_periodTerms (h : TableName row.mainTable) : ∀ c ∈ row.periodTerms today, TokenFree c := by
  intro c hc
  unfold periodTerms at hc
  split at hc
  · rename_i k w _ _
    rw [List.mem_singleton.mp hc]
    exact k.tokenFree_term h.free w
  · cases hc

end

end Row

/-! ## Both passes -/

section

variable {row : Row} {a : Assembler}

theorem outer_fallback (h : TableName row.mainTable) : Assembler.Outer.of row.fallback = ⟨row.fallback, [], []⟩ := by
  have hregions : extractRegions row.fallback = (row.fallback, []) := by
    rw [extractRegions, Row.fallback_eq, divide_of_not_startMarker h.not_startMarker]
    rfl
  have hgroup : extractGroupBy row.fallback = (row.fallback, []) := by
    rw [Row.fallback_eq]
    exact h.extractGroupBy
  rw [Assembler.Outer.of, hregions]
  dsimp only
  rw [hgroup]

theorem bare_fallback (h : TableName row.mainTable) : bare row.fallback = row.fallback := by
  rw [Row.fallback_eq]
  exact h.bare

theorem outerAlias?_fallback (h : TableName row.mainTable) : outerAlias? row.fallback = some row.mainTable := by
  rw [Row.fallback_eq, outerAlias?, h.named.outerTable?]
  rfl

/-- The first pass has the condition of the period to merge. -/
theorem periodConditions_fallback (h : TableName row.mainTable) (hp : row.Primary) :
    a.periodConditions row.fallback row.periodCondition row.periodCriterion =
      .ok ((row.periodTerms a.today).map (' ' :: ·)) := by
  unfold Assembler.periodConditions Row.periodTerms
  by_cases hb : trim row.periodCondition = []
  · have hempty : (trim row.periodCondition).isEmpty = true := by simpa using hb
    rw [if_pos hempty, window?_of_blank hb]
    cases Criterion.ofLabel? row.periodCriterion <;> rfl
  · have hempty : ¬ (trim row.periodCondition).isEmpty = true := by simpa using hb
    obtain ⟨k, hk, hsource⟩ := hp.resolve_left hb
    rw [if_neg hempty, hk, outer_fallback h]
    dsimp only
    rw [Assembler.periodSql, hsource]
    dsimp only
    rw [outerAlias?_fallback h]
    dsimp only
    unfold loginCondition columnCondition Criterion.term
    cases window? a.today row.periodCondition with
    | none => simp [Except.map]
    | some w =>
      by_cases hu : (k = .login && readsUsers row.fallback) = true
      · simp [hu, Except.map]
      · simp [hu, Except.map]

theorem conditions_fallback {columns : List (Text × Text)} :
    conditions columns row.request.filters row.request.deletionFlag row.request.skipDeletion (some row.mainTable) =
      .ok row.exclusion := by
  rw [conditions_eq, Row.exclusion]
  by_cases hd : isTrue row.deletionFlag = true
  · simp [Row.request, Input.empty, hd, Filter.exclusion, Except.map, Except.bind, pure, Except.pure]
  · simp [Row.request, Input.empty, hd, Except.map, Except.bind, pure, Except.pure]

/-- What both passes have to merge is what the row asks for. -/
theorem conjuncts_fallback (h : TableName row.mainTable) (today : Date) :
    conjuncts (row.exclusion ++ (row.periodTerms today).map (' ' :: ·)) = row.terms today := by
  rw [conjuncts_append, conjuncts_spaced, ← conjuncts_append]
  exact conjuncts_of_trimmed fun c hc => (Row.predicate_terms h c hc).toTrimmed

/-- The first pass leaves the table, and what conditions call it. -/
theorem exists_first_pass_fallback (h : TableName row.mainTable) (hr : a.isMaster row.category = false) (hp : row.Primary) :
    ∃ t head, a.periodPass row.fallback row.periodCondition row.periodCriterion row.category = .ok (t ++ [';']) ∧
      bare (t ++ [';']) = t ∧ Assembler.Outer.of t = ⟨head, [], []⟩ ∧ outerAlias? head = some row.mainTable ∧
      mergeWhere head row.exclusion = .ok (row.fallback ++ whereLine (row.terms a.today)) := by
  have hP := periodConditions_fallback (a := a) h hp
  have hpred : ∀ c ∈ (row.periodTerms a.today).map (' ' :: ·), Predicate (trim c) := by
    intro c hc
    obtain ⟨p, hp, rfl⟩ := List.mem_map.mp hc
    have hpred := Row.predicate_terms h p (List.mem_append_right _ hp)
    have htrim : trim (' ' :: p) = p := hpred.trim
    rwa [htrim]
  have hfree : ∀ c ∈ (row.periodTerms a.today).map (' ' :: ·), TokenFree c := by
    intro c hc
    obtain ⟨p, hp, rfl⟩ := List.mem_map.mp hc
    exact (sealed_of (x := [' ']) (by decide)).text (Row.tokenFree_periodTerms h p hp)
  have htext : TokenFree row.fallback := by
    rw [Row.fallback_eq]
    exact h.tokenFree
  have hm : fromClause? (wholeHead ++ wholeRest row.mainTable) = some (wholeHead, wholeRest row.mainTable) := fromClause?_whole _
  have hhead : (Assembler.Outer.of (bare row.fallback)).head = wholeHead ++ wholeRest row.mainTable := by
    rw [bare_fallback h, outer_fallback h, Row.fallback_eq]
  have hq : KeywordsOutside wholeHead (wholeRest row.mainTable) := fun u v e ho => by
    rw [nowhere_clause h u v e] at ho
    cases ho
  have hwhole : TokenFree (wholeHead ++ wholeRest row.mainTable) := by
    rwa [Row.fallback_eq] at htext
  obtain ⟨t, rest, hpass, hbare, hof, hfill, hagain⟩ := Assembler.exists_first_pass_of_predicate hr htext hpred
    (by rw [hhead]; exact hm) hq (by rw [bare_fallback h]; exact hP) hfree
    (by rw [hhead]; exact not_overflows_of_tokenFree hwhole)
  refine ⟨t, wholeHead ++ rest, hpass, hbare, ?_, ?_, ?_⟩
  · rw [hof, bare_fallback h, outer_fallback h]
  · have hnone : ∀ w, aliasAfter? [] = some w → Spells "AS".toList w → isNonAlias w = true := fun w hw => by cases hw
    rw [Assembler.outerAlias?_filled hfill (Assembler.predicate_conjunction hpred) hm h.named.outerTable? h.parts hnone,
      ← Row.fallback_eq, outerAlias?_fallback h]
  · rw [hagain, mergeWhere_of_tokenFree hwhole, h.merged, conjuncts_fallback h, Row.fallback_eq]

/-- The fallback query is the whole table under the conditions of the row. -/
theorem assemble_fallback (h : TableName row.mainTable) (hr : a.isMaster row.category = false) (hp : row.Primary) :
    a.assemble row.fallback row.request = .ok (row.conditioned a.today) := by
  obtain ⟨t, head, hpass, hbare, hof, halias, hmerge⟩ := exists_first_pass_fallback h hr hp
  have hfilter : a.filterPass (t ++ [';']) row.request.filters row.request.deletionFlag row.category row.request.skipDeletion =
      .ok (row.fallback ++ whereLine (row.terms a.today) ++ [';']) := by
    unfold Assembler.filterPass
    simp only [hr, hbare, hof, halias, conditions_fallback, Assembler.Outer.merge, hmerge]
    rfl
  have hperiod : a.periodPass row.fallback row.request.periodCondition row.request.periodCriterion row.request.category =
      .ok (t ++ [';']) := hpass
  rw [Assembler.assemble, hperiod, Row.conditioned_eq]
  exact hfilter

end

end ExportQuery.Catalog
