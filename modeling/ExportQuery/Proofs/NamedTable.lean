/-
  ExportQuery.Proofs.NamedTable — what a query calls the table that its FROM names.

  Where nothing but blanks stands between the FROM marker and a FROM, that FROM names the outer
  table: all the characters of names behind it, dots included. Behind the name, blanks and a whole
  word may give it an alias. When that word is an AS, and a word stands behind it in turn, the
  second one counts; otherwise the first one does, be it an AS. A keyword is no alias.

  - `Named.outerTable?`: the table, and the text behind its name.
  - `aliasAfter?_eq_some_iff`: the word that stands for the table is the one that calls it.
  - `outerAlias?_named`: that word, unless it is a keyword, else the name of the table.
-/

import ExportQuery.Proofs.Remark

namespace ExportQuery.Sql

open ExportQuery.Text

/-! ## The word behind a name -/

/-- The text starts with blanks and the whole word `w`; `rest` stands behind it. -/
structure WordBehind (s w rest : Text) : Prop where
  word : w ≠ [] ∧ ∀ c ∈ w, isWord c = true
  ends : startsInWord rest = false
  joins : ∃ b, b ≠ [] ∧ allBlank b = true ∧ s = b ++ (w ++ rest)

/-- The text behind a table name calls the table `w`. -/
inductive Calls (s w : Text) : Prop where
  | word {rest : Text} (behind : WordBehind s w rest)
      (alone : Spells "AS".toList w → ∀ v rest', ¬ WordBehind rest v rest') : Calls s w
  | passingAs {k rest rest' : Text} (behind : WordBehind s k rest) (spelt : Spells "AS".toList k)
      (next : WordBehind rest w rest') : Calls s w

section

variable {s w rest : Text}

theorem WordBehind.read (h : WordBehind s w rest) : dropBlanks? s = some (w ++ rest) ∧ word? (w ++ rest) = some w := by
  obtain ⟨⟨h0, hw⟩, hr, b, hb0, hb, rfl⟩ := h
  have hink : trimStart (w ++ rest) = w ++ rest := trimStart_of_name h0 (fun c hc => isNameChar_iff.mpr (Or.inl (hw c hc))) rest
  exact ⟨dropBlanks?_eq_some_iff.mpr ⟨b, hb0, hb, rfl, hink⟩, (word?_eq_some_iff.mpr ⟨rfl, h0, hw, hr⟩).1⟩

theorem WordBehind.unique {v r : Text} (h : WordBehind s w rest) (h' : WordBehind s v r) : v = w ∧ r = rest := by
  have e : v ++ r = w ++ rest := Option.some.inj (h'.read.1.symm.trans h.read.1)
  have hw := h'.read.2
  rw [e, h.read.2, Option.some.injEq] at hw
  subst hw
  exact ⟨rfl, List.append_cancel_left e⟩

theorem exists_wordBehind {t : Text} (hd : dropBlanks? s = some t) (hw : word? t = some w) :
    ∃ rest, t = w ++ rest ∧ WordBehind s w rest := by
  obtain ⟨b, hb0, hb, rfl, -⟩ := dropBlanks?_eq_some_iff.mp hd
  obtain ⟨e, h0, hword, hr⟩ := word?_eq_some_iff.mp ⟨hw, rfl⟩
  exact ⟨_, e, ⟨h0, hword⟩, hr, b, hb0, hb, by rw [← e]⟩

/-- Behind an AS that blanks follow, the word there. -/
theorem wordAfterAs_eq_some_iff {t : Text} (hd : dropBlanks? s = some t) :
    ((dropWord? "AS".toList t).bind dropBlanks?).bind word? = some w ↔
      ∃ k rest rest', WordBehind s k rest ∧ Spells "AS".toList k ∧ WordBehind rest w rest' := by
  constructor
  · intro h
    obtain ⟨u, hu, hw⟩ := Option.bind_eq_some_iff.mp h
    obtain ⟨rest, hk, hblank⟩ := Option.bind_eq_some_iff.mp hu
    obtain ⟨k, spelt, rfl⟩ := dropWord?_eq_some_iff.mp hk
    obtain ⟨rest', -, next⟩ := exists_wordBehind hblank hw
    obtain ⟨b, hb0, hb, rfl, -⟩ := dropBlanks?_eq_some_iff.mp hd
    obtain ⟨b', hb0', hb', e⟩ := next.joins
    have ends : startsInWord rest = false := by
      rw [e]
      exact startsInWord_blank hb' hb0' _
    exact ⟨k, rest, rest', ⟨⟨spelt.ne_nil asWord.1, spelt.word asWord.2⟩, ends, b, hb0, hb, rfl⟩, spelt, next⟩
  · rintro ⟨k, rest, rest', behind, spelt, next⟩
    obtain ⟨hd', -⟩ := behind.read
    obtain ⟨hu, hw⟩ := next.read
    obtain rfl : t = k ++ rest := Option.some.inj (hd.symm.trans hd')
    rw [dropWord?_eq_some_iff.mpr ⟨k, spelt, rfl⟩, Option.bind_some, hu, Option.bind_some, hw]

theorem aliasAfter?_eq_some_iff : aliasAfter? s = some w ↔ Calls s w := by
  constructor
  · intro h
    obtain ⟨t, hd, h⟩ := Option.bind_eq_some_iff.mp h
    rcases Option.or_eq_some_iff.mp h with h | ⟨hnone, hw⟩
    · obtain ⟨k, rest, rest', behind, spelt, next⟩ := (wordAfterAs_eq_some_iff hd).mp h
      exact .passingAs behind spelt next
    · obtain ⟨rest, -, behind⟩ := exists_wordBehind hd hw
      refine .word behind fun spelt v rest' next => ?_
      rw [(wordAfterAs_eq_some_iff hd).mpr ⟨w, rest, rest', behind, spelt, next⟩] at hnone
      cases hnone
  · intro h
    cases h with
    | @word rest behind alone =>
      obtain ⟨hd, hw⟩ := behind.read
      have hnone : ((dropWord? "AS".toList (w ++ rest)).bind dropBlanks?).bind word? = none := by
        rw [Option.eq_none_iff_forall_ne_some]
        intro v hv
        obtain ⟨k, r, r', behind', spelt, next⟩ := (wordAfterAs_eq_some_iff hd).mp hv
        obtain ⟨rfl, rfl⟩ := behind.unique behind'
        exact alone spelt v r' next
      rw [aliasAfter?, hd, Option.bind_some, hnone, Option.none_or, hw]
    | passingAs behind spelt next =>
      obtain ⟨hd, -⟩ := behind.read
      rw [aliasAfter?, hd, Option.bind_some, (wordAfterAs_eq_some_iff hd).mpr ⟨_, _, _, behind, spelt, next⟩, Option.some_or]

end

/-! ## The table -/

/-- Nothing but blanks stands in `s` between the FROM marker and a FROM that names `table`, and
    `tail` stands behind the name. -/
inductive Named : (s table tail : Text) → Prop where
  | mk {p b k g table tail : Text} (marker : ¬ fromMarker <:+: p) (blank : allBlank b = true)
      (spelt : Spells "FROM".toList k) (gap : g ≠ [] ∧ allBlank g = true)
      (name : table ≠ [] ∧ ∀ c ∈ table, isNameChar c = true) (ends : startsInName tail = false) :
      Named (p ++ fromMarker ++ (b ++ (k ++ (g ++ (table ++ tail))))) table tail

section

variable {s table tail : Text}

/-- The first FROM behind the marker, with blanks between, names the table. -/
theorem Named.outerTable? (h : Named s table tail) : outerTable? s = some (table, tail) := by
  obtain @⟨p, b, k, g, _, _, marker, blank, spelt, gap, name, ends⟩ := h
  have hat : tableAt? b.reverse (k ++ (g ++ (table ++ tail))) = some (table, tail) :=
    tableAt?_eq_some_iff.mpr
      ⟨startsInWord_reverse.mpr (endsApart_of_allBlank blank), k, g, spelt, gap.1, gap.2, name.1, name.2, ends, rfl⟩
  rw [Sql.outerTable?, fromClause?_marker marker, Option.bind_some]
  dsimp only
  rw [seekSome_append, List.append_nil]
  · obtain ⟨c, t, e, -⟩ := spelt.starts fromWord
    rw [e, List.cons_append] at hat ⊢
    rw [seekSome, hat, Option.some_or]
  · -- no FROM starts in the blanks
    intro u v e hv
    obtain ⟨c, v', rfl⟩ := List.exists_cons_of_ne_nil hv
    have hc : isBlank c = true := List.all_eq_true.mp blank c (by rw [e]; simp)
    refine tableAt?_other ?_
    by_contra hF
    have := isWord_of_sameLetter (u := 'F') (by decide) (by simpa using hF)
    rw [isWord_of_isBlank hc] at this
    cases this

/-- A query calls the table of its first FROM by the word behind it, an AS between them passed
    over, unless that word is a keyword or there is none; then by the name of the table. So only
    the name itself can be a keyword. -/
theorem outerAlias?_named (h : Named s table tail) :
    (∀ w, Calls tail w → isNonAlias w = false → outerAlias? s = some w) ∧
    ((∀ w, Calls tail w → isNonAlias w = true) → outerAlias? s = some table) ∧
    (∀ a, outerAlias? s = some a → isNonAlias a = true → a = table) := by
  have halias : outerAlias? s = some ((ownAlias? tail).getD table) := by
    rw [outerAlias?, h.outerTable?]
    rfl
  refine ⟨fun w hw hn => ?_, fun hall => ?_, fun a ha hn => ?_⟩
  · rw [halias, ownAlias?, aliasAfter?_eq_some_iff.mpr hw, Option.filter_some, if_pos (by rw [hn]; rfl), Option.getD_some]
  · have hnone : ownAlias? tail = none := by
      rw [ownAlias?, Option.filter_eq_none_iff]
      intro w hw
      simpa using hall w (aliasAfter?_eq_some_iff.mp hw)
    rw [halias, hnone, Option.getD_none]
  · rw [halias, Option.some.injEq] at ha
    cases hown : ownAlias? tail with
    | none =>
      rw [hown] at ha
      exact ha.symm
    | some w =>
      have hkey := (Option.filter_eq_some_iff.mp hown).2
      rw [hown, Option.getD_some] at ha
      rw [ha, hn] at hkey
      cases hkey

end

/-- An AS with a long s ahead of a word, of a keyword and of no word: only then it is the alias. -/
theorem outerAlias?_named_long :
    let table := "app.users".toList
    let text := fun tail =>
      "SELECT *\n".toList ++ fromMarker ++ ("\n".toList ++ ("From".toList ++ ("  ".toList ++ (table ++ tail))))
    (∀ tail, startsInName tail = false → Named (text tail) table tail) ∧
      Calls " aſ\tu, v".toList ['u'] ∧ outerAlias? (text " aſ\tu, v".toList) = some ['u'] ∧
      (∀ w, Calls " aſ Where 1".toList w → isNonAlias w = true) ∧ outerAlias? (text " aſ Where 1".toList) = some table ∧
      Calls " aſ, v".toList ['a', 'ſ'] ∧ outerAlias? (text " aſ, v".toList) = some ['a', 'ſ'] := by
  repeat rw [String.toList_ofList]
  intro table text
  have ht : ∀ c ∈ table, isNameChar c = true := List.all_eq_true.mp (by decide +kernel)
  have named : ∀ tail, startsInName tail = false → Named (text tail) table tail := fun tail htail =>
    .mk (by decide +kernel) (by decide) (by unfold Spells; decide) (by decide) ⟨by decide, ht⟩ htail
  have hu : Calls " aſ\tu, v".toList ['u'] := aliasAfter?_eq_some_iff.mp (by decide +kernel)
  have hwhere : aliasAfter? " aſ Where 1".toList = some "Where".toList := by decide +kernel
  have hkeys : ∀ w, Calls " aſ Where 1".toList w → isNonAlias w = true := fun w hw => by
    obtain rfl : "Where".toList = w := Option.some.inj (hwhere.symm.trans (aliasAfter?_eq_some_iff.mpr hw))
    decide +kernel
  have hlong : Calls " aſ, v".toList ['a', 'ſ'] := aliasAfter?_eq_some_iff.mp (by decide +kernel)
  exact ⟨named, hu, (outerAlias?_named (named _ (by decide))).1 _ hu (by decide +kernel), hkeys,
    (outerAlias?_named (named _ (by decide))).2.1 hkeys, hlong,
    (outerAlias?_named (named _ (by decide))).1 _ hlong (by decide +kernel)⟩

end ExportQuery.Sql
