/-
  ExportQuery.Proofs.Alias — the outer table and its alias, before and after conditions are merged.

  The first FROM behind the marker that names a table still does so when conditions are merged
  elsewhere: no FROM reaches into them or stands in them, and none is cut by the placement as
  long as no part of the name is a keyword. The alias behind the name stays as well. Where the
  conditions come right behind the name, a keyword comes instead of a keyword or of nothing,
  and so no alias is read either way. One word can be taken for an alias and for an AS, which
  the keyword behind it tells apart: AS with a long s.

  - `tableAt?_eq_some_iff`: what a FROM that names a table looks like.
  - `aliasAfter?_append`: an alias is read off the text behind the name alone.
  - `Beside.table_edit`: merging conditions keeps the table and its alias.
-/

import ExportQuery.Proofs.Clauses
import ExportQuery.Proofs.Labels
import ExportQuery.Proofs.Placement
import ExportQuery.Proofs.Predicate

namespace ExportQuery.Sql

open ExportQuery.Text

/-! ## A FROM that names a table -/

/-- Whether the text starts with a character of table names. -/
def startsInName : Text → Bool
  | [] => false
  | c :: _ => isNameChar c

theorem head_blank {w : Text} (h0 : w ≠ []) (hw : allBlank w = true) : ∃ c r, w = c :: r ∧ isBlank c = true := by
  cases w with
  | nil => exact absurd rfl h0
  | cons c r => exact ⟨c, r, rfl, List.all_eq_true.mp hw c (by simp)⟩

theorem startsInName_of_blank {w : Text} (hw : allBlank w = true) (h0 : w ≠ []) (y : Text) : startsInName (w ++ y) = false := by
  obtain ⟨c, r, rfl, hc⟩ := head_blank h0 hw
  cases h : isNameChar c with
  | false => exact h
  | true => rw [isBlank_of_isNameChar h] at hc; cases hc

theorem fromWord : "FROM".toList ≠ [] ∧ ∀ u ∈ "FROM".toList, u.isUpper = true := ⟨by decide, List.all_eq_true.mp (by decide)⟩

theorem startsInName_eq_false_iff {s : Text} : startsInName s = false ↔ ∀ c ∈ s.head?, isNameChar c = false := by
  cases s <;> simp [startsInName]

theorem trimStart_of_name {table : Text} (h0 : table ≠ []) (ht : ∀ c ∈ table, isNameChar c = true) (r : Text) :
    trimStart (table ++ r) = table ++ r := by
  cases table with
  | nil => exact absurd rfl h0
  | cons c table => exact trimStart_cons_ink _ c (isBlank_of_isNameChar (ht c (by simp)))

theorem startsInName_dropWhile (s : Text) : startsInName (s.dropWhile isNameChar) = false := by
  cases hd : s.dropWhile isNameChar with
  | nil => rfl
  | cons c r =>
    have h := List.head?_dropWhile_not isNameChar s
    rw [hd] at h
    have hc : isNameChar c = false := by simpa using h
    exact hc

theorem tableAt?_eq_some_iff {read left table after : Text} :
    tableAt? read left = some (table, after) ↔ startsInWord read = false ∧ ∃ k w, Spells "FROM".toList k ∧ w ≠ [] ∧
      allBlank w = true ∧ table ≠ [] ∧ (∀ c ∈ table, isNameChar c = true) ∧ startsInName after = false ∧
      left = k ++ (w ++ (table ++ after)) := by
  constructor
  · intro h
    unfold tableAt? at h
    split at h
    · cases h
    rename_i hr
    obtain ⟨s, h, hs⟩ := Option.bind_eq_some_iff.mp h
    obtain ⟨s₁, h₁, h₂⟩ := Option.bind_eq_some_iff.mp h
    obtain ⟨k, hk, rfl⟩ := dropWord?_eq_some_iff.mp h₁
    obtain ⟨w, h0, hw, rfl, -⟩ := dropBlanks?_eq_some_iff.mp h₂
    split at hs
    · cases hs
    rename_i hne
    simp only [Option.some.injEq, Prod.mk.injEq] at hs
    obtain ⟨rfl, rfl⟩ := hs
    exact ⟨by simpa using hr, k, w, hk, h0, hw, by simpa using hne, List.all_eq_true.mp List.all_takeWhile,
      startsInName_dropWhile s, by rw [List.takeWhile_append_dropWhile]⟩
  · rintro ⟨hr, k, w, hk, h0, hw, ht0, ht, ha, rfl⟩
    obtain ⟨h₁, h₂⟩ := span_append ht (startsInName_eq_false_iff.mp ha)
    have hb := dropBlanks?_eq_some_iff.mpr ⟨w, h0, hw, rfl, trimStart_of_name ht0 ht after⟩
    have hne : table.isEmpty = false := by simpa using ht0
    unfold tableAt?
    rw [hr, dropWord?_eq_some_iff.mpr ⟨k, hk, rfl⟩]
    simp only [Bool.false_eq_true, if_false, Option.bind_some, hb, h₁, h₂, hne]

/-- Whether a FROM names a table at a place. -/
def namesTable (read left : Text) : Bool := (tableAt? read left).isSome

theorem namesTable_iff {read left : Text} :
    namesTable read left = true ↔ startsInWord read = false ∧ ∃ k w c r, Spells "FROM".toList k ∧ w ≠ [] ∧
      allBlank w = true ∧ isNameChar c = true ∧ left = k ++ (w ++ c :: r) := by
  unfold namesTable
  rw [Option.isSome_iff_exists]
  constructor
  · rintro ⟨⟨table, after⟩, h⟩
    obtain ⟨hr, k, w, hk, h0, hw, ht0, ht, -, rfl⟩ := tableAt?_eq_some_iff.mp h
    cases table with
    | nil => exact absurd rfl ht0
    | cons c table => exact ⟨hr, k, w, c, table ++ after, hk, h0, hw, ht c (by simp), rfl⟩
  · rintro ⟨hr, k, w, c, r, hk, h0, hw, hc, rfl⟩
    refine ⟨((c :: r).takeWhile isNameChar, (c :: r).dropWhile isNameChar),
      tableAt?_eq_some_iff.mpr ⟨hr, k, w, hk, h0, hw, ?_, ?_, ?_, ?_⟩⟩
    · simp [hc]
    · exact List.all_eq_true.mp List.all_takeWhile
    · exact startsInName_dropWhile (c :: r)
    · rw [List.takeWhile_append_dropWhile]

theorem tableAt?_congr {read read' : Text} (h : startsInWord read = startsInWord read') (left : Text) :
    tableAt? read left = tableAt? read' left := by
  unfold tableAt?
  rw [h]

/-- Ahead of a FROM, what follows that FROM does not decide whether a place names a table. -/
theorem namesTable_before {k : Text} (hk : Spells "FROM".toList k) {v read z : Text} (hv : v ≠ [])
    (h : namesTable read (v ++ (k ++ z)) = true) (z' : Text) : namesTable read (v ++ (k ++ z')) = true := by
  obtain ⟨hr, k', w, c, r, hk', h0, hw, hc, e⟩ := namesTable_iff.mp h
  obtain ⟨d, k₀, rfl, hd⟩ := hk.starts fromWord
  have hk4 : (d :: k₀).length = 4 := hk.length_eq
  have hk4' : k'.length = 4 := Spells.length_eq hk'
  have hword := hk.word fromWord.2
  obtain ⟨b, w₀, rfl, hb⟩ := head_blank h0 hw
  apply namesTable_iff.mpr
  rcases List.append_eq_append_iff.mp e with ⟨u, rfl, hu⟩ | ⟨u, rfl, hu⟩
  · -- the keyword at the place would end in the one behind it
    rcases List.append_eq_append_iff.mp hu with ⟨t, rfl, -⟩ | ⟨t, hkt, ht⟩
    · have : 0 < v.length := List.length_pos_iff.mpr hv
      simp only [List.length_append] at hk4'
      omega
    · cases t with
      | nil =>
        have : 0 < v.length := List.length_pos_iff.mpr hv
        simp only [List.append_nil] at hkt
        rw [hkt] at hk4
        simp only [List.length_append] at hk4'
        omega
      | cons x t =>
        simp only [List.cons_append, List.cons.injEq] at ht
        have := hword x (by rw [hkt]; simp)
        rw [← ht.1, isWord_of_isBlank hb] at this; cases this
  · rcases List.append_eq_append_iff.mp hu with ⟨t, rfl, ht⟩ | ⟨t, ht, hz⟩
    · cases t with
      | nil =>
        simp only [List.nil_append, List.cons_append, List.cons.injEq] at ht
        exact ⟨hr, k', b :: w₀, d, k₀ ++ z', hk', h0, hw, ht.1 ▸ hc, by simp⟩
      | cons x t =>
        simp only [List.cons_append, List.cons.injEq] at ht
        exact ⟨hr, k', b :: w₀, x, t ++ (d :: k₀ ++ z'), hk', h0, hw, ht.1 ▸ hc, by simp⟩
    · cases t with
      | nil =>
        simp only [List.nil_append, List.cons_append, List.cons.injEq] at hz
        rw [List.append_nil] at ht
        exact ⟨hr, k', b :: w₀, d, k₀ ++ z', hk', h0, hw, hz.1 ▸ hc, by simp [← ht]⟩
      | cons x t =>
        simp only [List.cons_append, List.cons.injEq] at hz
        have hx : isBlank x = true := List.all_eq_true.mp hw x (by rw [ht]; simp)
        rw [← hz.1, not_isBlank_of_isWord hd] at hx; cases hx

/-! ## The alias behind a name -/

/-- The word behind a table name, unless it is no alias. -/
def ownAlias? (after : Text) : Option Text := (aliasAfter? after).filter (!isNonAlias ·)

theorem outerAlias?_eq {head rest : Text} (hm : fromClause? (head ++ rest) = some (head, rest)) :
    outerAlias? (head ++ rest) = (seekSome tableAt? [] rest).map fun (table, after) => (ownAlias? after).getD table := by
  simp only [outerAlias?, outerTable?, hm, Option.bind_some]
  rfl

section

variable {x y s : Text}

theorem word?_append (h0 : y ≠ []) (hs : Seam y s) : word? (y ++ s) = word? y := by
  cases y with
  | nil => exact absurd rfl h0
  | cons c y =>
    have h₁ : startsInWord (c :: y ++ s) = startsInWord (c :: y) := rfl
    unfold word?
    rw [h₁]
    split
    · simp only [takeWord, List.takeWhile_append]
      split
      · rename_i hall
        have hself := (List.takeWhile_prefix isWord).eq_of_length hall
        have hlast := List.takeWhile_eq_self_iff.mp hself _ (List.getLast_mem h0)
        have hs : startsInWord s = false := by
          rcases hs with hs | hs
          · rw [hs _ (List.getLast?_eq_some_getLast h0)] at hlast; cases hlast
          · exact hs
        cases s with
        | nil => simp [hself]
        | cons d s =>
          have hd : isWord d = false := hs
          simp [hself, hd]
      · rfl
    · rfl

theorem dropBlanks?_append (hx : EndsInInk x) (s : Text) : dropBlanks? (x ++ s) = (dropBlanks? x).map (· ++ s) := by
  obtain ⟨w, e, hw⟩ := trimStart_joins x
  have h0 : trimStart x ≠ [] := by
    intro h
    rw [h, List.append_nil] at e
    rw [e] at hx
    have hnil := EndsInInk.not_blank (x := []) hx hw
    obtain ⟨c, hc, -⟩ := hx
    rw [hnil] at hc; cases hc
  cases x with
  | nil => exact absurd rfl h0
  | cons c x =>
    simp only [List.cons_append, dropBlanks?]
    by_cases hc : isBlank c = true
    · have ht : trimStart x ≠ [] := by rwa [trimStart, List.dropWhile_cons, if_pos hc] at h0
      have ha : trimStart (x ++ s) = trimStart x ++ s := by
        simp only [trimStart, List.dropWhile_append]
        rw [if_neg]
        simpa [trimStart] using ht
      simp [hc, ha]
    · simp [hc]

/-- A word is read off the text before a seam, or not at all. -/
theorem dropWord?_seam {word : Text} (hw : word ≠ [] ∧ ∀ u ∈ word, u.isUpper = true) (h0 : y ≠ []) (hs : Seam y s) :
    dropWord? word (y ++ s) = (dropWord? word y).map (· ++ s) := by
  cases h : dropWord? word (y ++ s) with
  | none =>
    cases h' : dropWord? word y with
    | none => rfl
    | some r =>
      obtain ⟨k, hk, rfl⟩ := dropWord?_eq_some_iff.mp h'
      rw [dropWord?_eq_some_iff.mpr ⟨k, hk, List.append_assoc k r s⟩] at h; cases h
  | some r =>
    obtain ⟨k, hk, e⟩ := dropWord?_eq_some_iff.mp h
    have hkw := hk.word hw.2
    rcases List.append_eq_append_iff.mp e with ⟨t, rfl, rfl⟩ | ⟨t, rfl, rfl⟩
    · by_cases ht : t = []
      · subst ht
        rw [List.append_nil] at hk
        rw [dropWord?_eq_some_iff.mpr ⟨y, hk, (List.append_nil y).symm⟩]; rfl
      · exact (hs.not_across h0 ht List.suffix_rfl (List.prefix_append t r) hkw).elim
    · rw [dropWord?_eq_some_iff.mpr ⟨k, hk, rfl⟩]; rfl

/-- An alias is read off the text behind a name alone, unless that ends right behind an AS. -/
theorem aliasAfter?_append (hx : EndsInInk x) (hs : Seam x s)
    (hn : ∀ w k, allBlank w = true → Spells "AS".toList k → x ≠ w ++ k) : aliasAfter? (x ++ s) = aliasAfter? x := by
  unfold aliasAfter?
  rw [dropBlanks?_append hx]
  cases h : dropBlanks? x with
  | none => rfl
  | some y =>
    obtain ⟨w, hw0, hw, rfl, -⟩ := dropBlanks?_eq_some_iff.mp h
    have hy0 : y ≠ [] := by
      rintro rfl
      rw [List.append_nil] at hx
      exact hw0 (EndsInInk.not_blank (x := []) hx hw)
    have hy := hx.right hy0
    have hsy : Seam y s := hs.shrink ⟨w, rfl⟩
    simp only [Option.map_some, Option.bind_some, word?_append hy0 hsy, dropWord?_seam asWord hy0 hsy]
    cases h' : dropWord? "AS".toList y with
    | none => rfl
    | some y₁ =>
      obtain ⟨k, hk, rfl⟩ := dropWord?_eq_some_iff.mp h'
      have hy1 : y₁ ≠ [] := by
        rintro rfl
        exact hn w k hw hk (by rw [List.append_nil])
      simp only [Option.map_some, Option.bind_some, dropBlanks?_append (hy.right hy1)]
      cases h'' : dropBlanks? y₁ with
      | none => rfl
      | some y₂ =>
        obtain ⟨w', hw0', hw', rfl, -⟩ := dropBlanks?_eq_some_iff.mp h''
        have hy2 : y₂ ≠ [] := by
          rintro rfl
          rw [List.append_nil] at hy hy1
          exact hy1 ((hy.right hy1).not_blank (x := []) hw')
        have hs2 : Seam y₂ s := hsy.shrink ⟨k ++ w', by simp⟩
        simp only [Option.map_some, Option.bind_some, word?_append hy2 hs2]

/-- The text starts with no alias: a keyword that can follow a table name is next, or no word. -/
def Shut (s : Text) : Prop :=
  ∀ r, dropBlanks? s = some r → dropWord? "AS".toList r = none ∧ ∀ a, word? r = some a → isNonAlias a = true

theorem Shut.ownAlias? (h : Shut s) : ownAlias? s = none := by
  unfold Sql.ownAlias? aliasAfter?
  cases hs : dropBlanks? s with
  | none => rfl
  | some r =>
    obtain ⟨has, hword⟩ := h r hs
    simp only [Option.bind_some, has, Option.bind_none, Option.none_or]
    cases hr : word? r with
    | none => rfl
    | some a => simp [hword a hr]

/-- Behind an AS alone neither, when the AS itself is no alias. -/
theorem Shut.ownAlias?_as {w k : Text} (h : Shut s) (hw : allBlank w = true) (hk : Spells "AS".toList k)
    (hs : startsInWord s = false) (hn : (dropBlanks? s).bind word? = none → isNonAlias k = true) :
    Sql.ownAlias? (w ++ (k ++ s)) = none := by
  by_cases h0 : w = []
  · subst h0
    obtain ⟨c, t, rfl, hc⟩ := hk.starts asWord
    have hb : isBlank c = false := not_isBlank_of_isWord hc
    simp [Sql.ownAlias?, aliasAfter?, dropBlanks?, hb]
  have hword : word? (k ++ s) = some k :=
    (word?_eq_some_iff.mpr ⟨rfl, hk.ne_nil asWord.1, hk.word asWord.2, hs⟩).1
  unfold Sql.ownAlias? aliasAfter?
  rw [dropBlanks?_eq_some_iff.mpr ⟨w, h0, hw, rfl, trimStart_of_starts (hk.starts asWord) s⟩]
  simp only [Option.bind_some, dropWord?_eq_some_iff.mpr ⟨k, hk, rfl⟩, hword]
  cases hd : (dropBlanks? s).bind word? with
  | none => simp [hn hd]
  | some a =>
    obtain ⟨r, hr, ha⟩ := Option.bind_eq_some_iff.mp hd
    simp [(h r hr).2 a ha]

/-- An AS that is taken for an alias: not in ASCII, and nothing but blanks behind it. -/
structure LongAs (after k : Text) : Prop where
  spelt : Spells "AS".toList k
  taken : isNonAlias k = false
  alone : ∃ w v, w ≠ [] ∧ allBlank w = true ∧ allBlank v = true ∧ after = w ++ (k ++ v)

theorem LongAs.ownAlias? {after k : Text} (h : LongAs after k) : Sql.ownAlias? after = some k := by
  obtain ⟨hk, hn, w, v, hw0, hw, hv, rfl⟩ := h
  have none_behind : (dropBlanks? v).bind word? = none := by
    cases hd : dropBlanks? v with
    | none => rfl
    | some r =>
      obtain ⟨w', -, -, rfl, hr⟩ := dropBlanks?_eq_some_iff.mp hd
      rw [allBlank, List.all_append, Bool.and_eq_true] at hv
      rw [← hr, trimStart_of_allBlank hv.2]
      rfl
  have hs : startsInWord v = false := by
    by_cases h0 : v = []
    · rw [h0]; rfl
    · rw [← List.append_nil v]; exact startsInWord_blank hv h0 []
  have hword : word? (k ++ v) = some k := (word?_eq_some_iff.mpr ⟨rfl, hk.ne_nil asWord.1, hk.word asWord.2, hs⟩).1
  unfold Sql.ownAlias? aliasAfter?
  rw [dropBlanks?_eq_some_iff.mpr ⟨w, hw0, hw, rfl, trimStart_of_starts (hk.starts asWord) v⟩]
  simp only [Option.bind_some, dropWord?_eq_some_iff.mpr ⟨k, hk, rfl⟩, none_behind, hword, Option.none_or]
  simp [hn]

end

/-! ## Keywords -/

/-- A keyword without an S or a K is spelt in ASCII. -/
theorem Spells.sameAscii {word k : Text} (h : Spells word k) (hw : ∀ u ∈ word, u.isUpper = true ∧ u ≠ 'S' ∧ u ≠ 'K') :
    sameAscii k word = true := by
  have letter : ∀ u c : Char, u.isUpper = true → u ≠ 'S' → u ≠ 'K' → sameLetter u c = true → c.toLower = u.toLower := by
    intro u c hu hs hk hc
    simp only [sameLetter, Bool.or_eq_true, Bool.and_eq_true, beq_iff_eq, hs, hk, false_and, or_false] at hc
    rcases hc with rfl | rfl
    · rfl
    · exact forall_upper (M := fun u => u.toLower.toLower = u.toLower) (by decide) hu
  have hmap : k.map Char.toLower = word.map Char.toLower := by
    induction h with
    | nil => rfl
    | @cons u c word k hc _ ih =>
      obtain ⟨hu, hs, hk⟩ := hw u (by simp)
      rw [List.map_cons, List.map_cons, letter u c hu hs hk hc, ih fun u hu => hw u (by simp [hu])]
  simpa [Sql.sameAscii] using hmap

theorem isNonAlias_of_spells {word k : Text} (h : Spells word k) (hn : word ∈ nonAliases)
    (hw : (word.all fun u => u.isUpper && u != 'S' && u != 'K') = true) : isNonAlias k = true := by
  refine List.any_eq_true.mpr ⟨word, hn, h.sameAscii fun u hu => ?_⟩
  have := List.all_eq_true.mp hw u hu
  simp only [Bool.and_eq_true, bne_iff_ne] at this
  exact ⟨this.1.1, this.1.2, this.2⟩

theorem isNonAlias_where {k : Text} (h : Spells "WHERE".toList k) : isNonAlias k = true :=
  isNonAlias_of_spells h (by decide) (by decide)

/-- What stands between dots, or at the ends, is a part. -/
theorem mem_splitOn {a u v : Text} (hdot : '.' ∉ u) (ha : a = [] ∨ ∃ x, a = x ++ ['.']) (hv : v = [] ∨ ∃ y, v = '.' :: y) :
    u ∈ (a ++ (u ++ v)).splitOn '.' := by
  have hmem : u ∈ (u ++ v).splitOn '.' := by
    rcases hv with rfl | ⟨y, rfl⟩
    · rw [List.append_nil, List.splitOn_eq_singleton hdot]; simp
    · rw [List.splitOn_append_cons_self_of_not_mem hdot]; simp
  rcases ha with rfl | ⟨x, rfl⟩
  · exact hmem
  · rw [List.append_assoc, List.singleton_append, List.splitOn_append_cons_self, List.mem_append]
    exact Or.inr hmem

/-- A word that stands in a table name between dots is a part of it. -/
theorem mem_parts {table after a u r : Text} (ht : ∀ c ∈ table, isNameChar c = true) (hn : startsInName after = false)
    (e : table ++ after = a ++ (u ++ r)) (hl : a.length < table.length) (hu0 : u ≠ []) (hu : ∀ c ∈ u, isWord c = true)
    (ha : EndsApart a) (hr : startsInWord r = false) : u ∈ table.splitOn '.' := by
  obtain ⟨t, rfl, et⟩ : ∃ t, table = a ++ t ∧ t ++ after = u ++ r := by
    rcases List.append_eq_append_iff.mp e with ⟨t, rfl, -⟩ | ⟨t, ha, et⟩
    · simp only [List.length_append] at hl; omega
    · exact ⟨t, ha, et.symm⟩
  obtain ⟨v, rfl, rfl⟩ : ∃ v, t = u ++ v ∧ r = v ++ after := by
    rcases List.append_eq_append_iff.mp et with ⟨v, rfl, hv⟩ | ⟨v, rfl, hv⟩
    · cases v with
      | nil => exact ⟨[], by simp, by simpa using hv.symm⟩
      | cons c v =>
        rw [hv] at hn
        have hc : isNameChar c = true := isNameChar_iff.mpr (Or.inl (hu c (by simp)))
        have hc' : isNameChar c = false := hn
        rw [hc] at hc'; cases hc'
    · exact ⟨v, rfl, hv⟩
  -- a character of the name that is no word character is a dot
  have dot : ∀ c ∈ a ++ (u ++ v), isWord c = false → c = '.' := fun c hc hw =>
    (isNameChar_iff.mp (ht c hc)).resolve_left (by simp [hw])
  refine mem_splitOn (not_mem_word (by decide) hu) ?_ ?_
  · by_cases h0 : a = []
    · exact Or.inl h0
    · have hlast := dot (a.getLast h0) (by simp) (ha _ (List.getLast?_eq_some_getLast h0))
      exact Or.inr ⟨a.dropLast, by rw [← hlast, List.dropLast_concat_getLast h0]⟩
  · cases v with
    | nil => exact Or.inl rfl
    | cons c v => exact Or.inr ⟨v, by rw [dot c (by simp) hr]⟩

/-! ## Around a placement -/

/-- What stands around a placement, as far as names and aliases go. -/
inductive Spot : (x w b ins : Text) → Prop where
  /-- A WHERE before. -/
  | behind {a kw w b ins : Text} (apart : EndsApart a) (spelt : Spells "WHERE".toList kw)
      (next : startsInWord (w ++ b) = false) : Spot (a ++ kw) w b ins
  /-- A keyword behind, and a WHERE with the conditions. -/
  | ahead {x w u r t : Text} (apart : EndsApart (x ++ w)) (word : u ≠ [] ∧ ∀ c ∈ u, isWord c = true)
      (keyword : isNonAlias u = true) (noAs : dropWord? "AS".toList (u ++ r) = none) (next : startsInWord r = false) :
      Spot x w (u ++ r) ("\nWHERE ".toList ++ t)
  /-- Nothing behind, and a WHERE with the conditions. -/
  | last {x w t : Text} : Spot x w [] ("\nWHERE ".toList ++ t)

/-- The first word of a clause is a keyword that is no alias, and no AS. -/
theorem Clause.exists_word (k : Clause) : ∃ o word more, k.words = (o :: word) :: more ∧ (o :: word) ∈ nonAliases ∧
    ((o :: word).all fun u => u.isUpper && u != 'S' && u != 'K') = true ∧ o ≠ 'A' := by
  cases k with
  | filter => exact ⟨_, _, _, rfl, by decide, by decide, by decide⟩
  | grouping => exact ⟨_, _, _, rfl, by decide, by decide, by decide⟩
  | ordering => exact ⟨_, _, _, rfl, by decide, by decide, by decide⟩
  | limit => exact ⟨_, _, _, rfl, by decide, by decide, by decide⟩

/-- A phrase starts with its first word, and no word character stands behind that. -/
theorem SpellsPhrase.first {word : Text} {more : List Text} {kw r : Text} (h : SpellsPhrase (word :: more) kw)
    (hr : startsInWord r = false) : ∃ u t, Spells word u ∧ kw ++ r = u ++ t ∧ startsInWord t = false := by
  cases more with
  | nil => exact ⟨kw, r, h, rfl, hr⟩
  | cons word' more =>
    obtain ⟨u, w, v, rfl, hu, h0, hw, -⟩ := h
    exact ⟨u, w ++ (v ++ r), hu, by simp, startsInWord_blank hw h0 _⟩

/-- A clause opens with such a word. -/
theorem exists_word_of_opens {ks : List Clause} {read left : Text} (h : opensClause ks read left = true) :
    ∃ u r, left = u ++ r ∧ (u ≠ [] ∧ ∀ c ∈ u, isWord c = true) ∧ isNonAlias u = true ∧
      dropWord? "AS".toList (u ++ r) = none ∧ startsInWord r = false := by
  obtain ⟨-, -, k, -, kw, r, hs, rfl, hr⟩ := opensClause_iff.mp h
  obtain ⟨o, word, more, hk, hkey, hletters, ho⟩ := k.exists_word
  rw [hk] at hs
  obtain ⟨u, t, hu, e, ht⟩ := hs.first hr
  have hupper : ∀ c ∈ o :: word, c.isUpper = true := fun c hc => by
    have := List.all_eq_true.mp hletters c hc
    simp only [Bool.and_eq_true] at this
    exact this.1.1
  have noAs : dropWord? "AS".toList (u ++ t) = none := by
    cases hu with
    | @cons _ c _ u hc _ =>
      show (if sameLetter 'A' c then _ else none) = none
      rw [sameLetter_other hc (hupper o (by simp)) (by decide) ho]; rfl
  exact ⟨u, t, e, ⟨hu.ne_nil (by simp), hu.word hupper⟩, isNonAlias_of_spells hu hkey hletters, noAs, ht⟩

theorem Placed.spot {head J a w b ins : Text} (h : Placed head J a w b ins) : Spot a w b ins := by
  cases h with
  | @extending a kw w b opens spelt =>
    have hh := opens.here
    rw [List.append_assoc] at hh
    have ha : EndsApart (head ++ a) := startsInWord_reverse.mp (opensClause_iff.mp hh).1
    exact .behind ha.suffix spelt (opensClause_filter hh spelt)
  | @preceding a w b none_opens closes =>
    have hh := opensClause_of_outer closes.here
    obtain ⟨u, r, rfl, hu, hk, hno, hr⟩ := exists_word_of_opens hh
    have ha : EndsApart (head ++ (a ++ w)) := startsInWord_reverse.mp (opensClause_iff.mp hh).1
    rw [List.append_assoc]
    exact .ahead ha.suffix hu hk hno hr
  | atEnd => exact .last

/-! ## Conditions merged beside a name -/

/-- Conditions at a placement as names and aliases see them. -/
structure Beside (x w b ins : Text) : Prop where
  spot : Spot x w b ins
  ink : x ≠ [] → EndsInInk x
  next : trimStart b = b
  gap : Gap x w b
  filler : Filler ins b
  silent : ∀ u v, ins = u ++ v → v ≠ [] → namesTable (x ++ u).reverse (v ++ b) = false
  blank : ∃ c r, ins = c :: r ∧ isBlank c = true

section

variable {x w b ins : Text}

theorem loud_of_from {k : Text} (hk : Spells "FROM".toList k) : ∃ s c, k = s ++ [c] ∧ loud c = true := by
  obtain ⟨s, c, rfl, hc⟩ := hk.last (u := 'M') rfl
  exact ⟨s, c, rfl, by simp [loud, hc]⟩

/-- Behind the conditions, a FROM names a table where one did. -/
theorem Beside.namesTable_behind (h : Beside x w b ins) {u v : Text} (e : b = u ++ v) :
    namesTable (x ++ ins ++ u).reverse v = namesTable (x ++ w ++ u).reverse v := by
  by_cases hv : startsInWord v = true
  · have hs : startsInWord (x ++ ins ++ u).reverse = startsInWord (x ++ w ++ u).reverse := by
      by_cases h0 : u = []
      · subst h0
        rw [List.nil_append] at e
        subst e
        have h₁ : EndsApart (x ++ ins) := (h.filler.right x).resolve_right (by rw [hv]; simp)
        have h₂ : EndsApart (x ++ w) := h.gap.right.resolve_right (by rw [hv]; simp)
        rw [List.append_nil, List.append_nil, startsInWord_reverse.mpr h₁, startsInWord_reverse.mpr h₂]
      · exact startsInWord_append_reverse h0 _ _
    unfold namesTable
    rw [tableAt?_congr hs]
  · have none_here : ∀ read, namesTable read v = false := by
      intro read
      by_contra hn
      obtain ⟨-, k, w', c, r, hk, -, -, -, rfl⟩ := namesTable_iff.mp (by simpa using hn)
      obtain ⟨d, t, rfl, hd⟩ := hk.starts fromWord
      exact hv hd
    rw [none_here, none_here]

/-- In a calm text that ends in no loud character, no FROM names a table. -/
theorem namesTable_of_calm (hc : calm ins = true) (hs : Seam ins b) (hq : ∀ c, ins.getLast? = some c → loud c = false)
    {u v : Text} (e : ins = u ++ v) (hv : v ≠ []) (read : Text) : namesTable read (v ++ b) = false := by
  by_contra hn
  obtain ⟨-, k, w', c, r, hk, h0, hw, -, e'⟩ := namesTable_iff.mp (by simpa using hn)
  exact no_word_of_calm hc hs hq e hv (hk.word fromWord.2) (loud_of_from hk) hw h0 e'

/-- Ahead of the conditions, what names a table did so, unless the text ends in a FROM. -/
theorem Beside.namesTable_ahead (h : Beside x w b ins) {u v read y : Text} (e : x = u ++ v) (hv : v ≠ [])
    (hn : namesTable read (v ++ (ins ++ y)) = true) :
    (∀ y', namesTable read (v ++ y') = true) ∨ startsInWord read = false ∧ Spells "FROM".toList v := by
  obtain ⟨hr, k, w', c, r, hk, h0, hw, hc, e'⟩ := namesTable_iff.mp hn
  obtain ⟨b₀, ins', hins, hb₀⟩ := h.blank
  have hkw := hk.word fromWord.2
  rcases List.append_eq_append_iff.mp e' with ⟨t, rfl, ht⟩ | ⟨t, rfl, ht⟩
  · -- the keyword does not reach into the conditions
    cases t with
    | nil => exact Or.inr ⟨hr, by simpa using hk⟩
    | cons d t =>
      rw [hins, List.cons_append, List.cons_append, List.cons.injEq] at ht
      have hd := hkw d (by simp)
      rw [← ht.1, isWord_of_isBlank hb₀] at hd; cases hd
  · by_cases h1 : t = []
    · subst h1
      exact Or.inr ⟨hr, by simpa using hk⟩
    have hink : EndsInInk t := by
      have hx : EndsInInk x := h.ink (by rw [e]; simp [hv])
      rw [e, ← List.append_assoc] at hx
      exact hx.right h1
    rcases List.append_eq_append_iff.mp ht with ⟨s, rfl, hs⟩ | ⟨s, rfl, -⟩
    · cases s with
      | nil =>
        rw [List.append_nil] at hink h1
        exact absurd (hink.not_blank (x := []) hw) h1
      | cons d s =>
        simp only [List.cons_append, List.cons.injEq] at hs
        refine Or.inl fun y' => namesTable_iff.mpr ⟨hr, k, w', d, s ++ y', hk, h0, hw, hs.1 ▸ hc, by simp⟩
    · simp only [allBlank, List.all_append, Bool.and_eq_true] at hw
      exact absurd (hink.not_blank (x := []) hw.1) h1

/-- The word of the text behind a run of blanks. -/
theorem shut_of_word {u r : Text} (hw : allBlank w = true) (hu : u ≠ [] ∧ ∀ c ∈ u, isWord c = true) (hk : isNonAlias u = true)
    (hno : dropWord? "AS".toList (u ++ r) = none) (hr : startsInWord r = false) : Shut (w ++ (u ++ r)) := by
  have hink : trimStart (u ++ r) = u ++ r := by
    obtain ⟨hu0, hu⟩ := hu
    cases u with
    | nil => exact absurd rfl hu0
    | cons c u => exact trimStart_cons_ink _ c (not_isBlank_of_isWord (hu c (by simp)))
  intro s hs
  obtain ⟨w', h0', hw', e, hs'⟩ := dropBlanks?_eq_some_iff.mp hs
  obtain ⟨v, rfl, hv⟩ := blanks_before hink hw' e
  have hvb : allBlank v = true := by
    simp only [allBlank, List.all_append, Bool.and_eq_true] at hw
    exact hw.2
  have e : s = u ++ r := by
    rw [hv, trimStart_blank_append hvb hink] at hs'
    rw [hv, ← hs']
  rw [e]
  refine ⟨hno, fun a ha => ?_⟩
  rw [(word?_eq_some_iff.mpr ⟨rfl, hu.1, hu.2, hr⟩).1] at ha
  obtain rfl : u = a := by simpa using ha
  exact hk

theorem shut_of_blank (hw : allBlank w = true) : Shut w := by
  intro s hs
  obtain ⟨w', -, hw', rfl, hs'⟩ := dropBlanks?_eq_some_iff.mp hs
  simp only [allBlank, List.all_append, Bool.and_eq_true] at hw
  have hnil : s = [] := hs'.symm.trans (trimStart_of_allBlank hw.2)
  rw [hnil]
  exact ⟨rfl, fun a ha => by cases ha⟩

/-- A line with a WHERE of its own starts with no alias. -/
theorem shut_of_where (t : Text) :
    Shut ("\nWHERE ".toList ++ t) ∧ (dropBlanks? ("\nWHERE ".toList ++ t)).bind word? = some "WHERE".toList := by
  have e : "\nWHERE ".toList ++ t = ['\n'] ++ ("WHERE".toList ++ ' ' :: t) := rfl
  have hword : "WHERE".toList ≠ [] ∧ ∀ c ∈ "WHERE".toList, isWord c = true :=
    ⟨whereWord.1, spells_where.word whereWord.2⟩
  rw [e]
  refine ⟨shut_of_word (by decide) hword (isNonAlias_where spells_where) rfl rfl, ?_⟩
  have hblank : dropBlanks? (['\n'] ++ ("WHERE".toList ++ ' ' :: t)) = some ("WHERE".toList ++ ' ' :: t) :=
    dropBlanks?_eq_some_iff.mpr ⟨['\n'], by simp, by decide, rfl, trimStart_of_starts (spells_where.starts whereWord) _⟩
  rw [hblank]
  exact (word?_eq_some_iff.mpr ⟨rfl, hword.1, hword.2, rfl⟩).1

/-- Unless a WHERE ends before, neither the text behind the gap nor the conditions start with
    an alias. -/
theorem Beside.shut (h : Beside x w b ins) :
    (∃ a kw, x = a ++ kw ∧ EndsApart a ∧ Spells "WHERE".toList kw ∧ startsInWord (w ++ b) = false) ∨
      Shut (w ++ b) ∧ Shut (ins ++ b) ∧ (dropBlanks? (ins ++ b)).bind word? ≠ none := by
  have hw := h.gap.blank
  cases h.spot with
  | @behind a kw w b ins apart spelt next => exact Or.inl ⟨a, kw, rfl, apart, spelt, next⟩
  | @ahead x w u r t apart word keyword noAs next =>
    refine Or.inr ⟨shut_of_word hw word keyword noAs next, ?_⟩
    rw [List.append_assoc]
    exact ⟨(shut_of_where _).1, by rw [(shut_of_where _).2]; simp⟩
  | @last x w t =>
    refine Or.inr ⟨by rw [List.append_nil]; exact shut_of_blank hw, ?_⟩
    rw [List.append_nil]
    exact ⟨(shut_of_where _).1, by rw [(shut_of_where _).2]; simp⟩

/-- The conditions form a clause of their own at the end of the text. -/
def Trailing (b ins : Text) : Prop := b = [] ∧ ∃ t, ins = "\nWHERE ".toList ++ t

/-- Conditions merged behind an AS come last, or the first word of a clause stands behind the gap. -/
theorem Beside.word_behind_as (h : Beside x w b ins) {z k : Text} (hx : x = z ++ k) (hk : Spells "AS".toList k) :
    Trailing b ins ∨ (dropBlanks? (w ++ b)).bind word? ≠ none := by
  have hwb := h.gap.blank
  cases h.spot with
  | behind apart spelt next => exact absurd hx (not_where_of_last (u := 'S') spelt hk rfl (by decide))
  | @ahead x w u r t apart word keyword noAs next =>
    right
    have hne := hk.ne_nil asWord.1
    have hw0 : w ≠ [] := by
      rintro rfl
      have := apart (k.getLast hne) (by rw [List.append_nil, hx, List.getLast?_append, List.getLast?_eq_some_getLast hne]; rfl)
      rw [hk.word asWord.2 _ (List.getLast_mem hne)] at this; cases this
    have hink := trimStart_of_name word.1 (fun c hc => isNameChar_iff.mpr (Or.inl (word.2 c hc))) r
    rw [dropBlanks?_eq_some_iff.mpr ⟨w, hw0, hwb, rfl, hink⟩, Option.bind_some,
      (word?_eq_some_iff.mpr ⟨rfl, word.1, word.2, next⟩).1]
    simp
  | last => exact Or.inl ⟨rfl, _, rfl⟩

/-- The alias behind the name is read again with the conditions, unless it is a long AS and they
    come last. -/
theorem Beside.ownAlias? (h : Beside x w b ins) {z x₂ : Text} (hx : x = z ++ x₂)
    (h0 : x₂ = [] → Shut (w ++ b) ∧ Shut (ins ++ b)) (hn : startsInName (x₂ ++ (w ++ b)) = false)
    (hlong : Trailing b ins → ∀ k, ¬ LongAs (x₂ ++ (w ++ b)) k) :
    ownAlias? (x₂ ++ (ins ++ b)) = Sql.ownAlias? (x₂ ++ (w ++ b)) := by
  by_cases hx0 : x₂ = []
  · subst hx0
    rw [List.nil_append, List.nil_append, (h0 rfl).1.ownAlias?, (h0 rfl).2.ownAlias?]
  have hink : EndsInInk x₂ := by
    have := h.ink (by rw [hx]; simp [hx0])
    rw [hx] at this
    exact this.right hx0
  have hseam : Seam x₂ (w ++ b) := h.gap.left.shrink ⟨z, hx.symm⟩
  by_cases has : ∃ w' k, allBlank w' = true ∧ Spells "AS".toList k ∧ x₂ = w' ++ k
  · obtain ⟨w', k, hw', hk, rfl⟩ := has
    have hkw := hk.word asWord.2
    have hne := hk.ne_nil asWord.1
    rw [← List.append_assoc] at hx
    rcases h.shut with ⟨a, kw, e, -, hkw', -⟩ | ⟨h₁, h₂, h₃⟩
    · exact absurd (e.symm.trans hx) (not_where_of_last (u := 'S') hkw' hk rfl (by decide))
    · have hs : startsInWord (w ++ b) = false := by
        rcases hseam with hs | hs
        · have := hs (k.getLast hne) (by rw [List.getLast?_append, List.getLast?_eq_some_getLast hne]; rfl)
          rw [hkw _ (List.getLast_mem hne)] at this; cases this
        · exact hs
      have hs' : startsInWord (ins ++ b) = false := by
        rw [Division.startsInWord_append h.filler.ne_nil b [], List.append_nil]
        exact h.filler.starts
      have keyword : (dropBlanks? (w ++ b)).bind word? = none → isNonAlias k = true := by
        intro hno
        have hlast := (h.word_behind_as hx hk).resolve_right fun hb => hb hno
        have hw0 : w' ≠ [] := by
          rintro rfl
          obtain ⟨c, t, rfl, hc⟩ := hk.starts asWord
          have hc' : isNameChar c = false := hn
          rw [isNameChar_iff.mpr (Or.inl hc)] at hc'; cases hc'
        by_contra hnon
        refine hlong hlast k ⟨hk, by simpa using hnon, w', w, hw0, hw', h.gap.blank, ?_⟩
        rw [hlast.1]; simp
      rw [List.append_assoc, List.append_assoc, h₁.ownAlias?_as hw' hk hs keyword,
        h₂.ownAlias?_as hw' hk hs' fun hno => absurd hno h₃]
  · have hn' : ∀ w' k, allBlank w' = true → Spells "AS".toList k → x₂ ≠ w' ++ k :=
      fun w' k hw' hk e => has ⟨w', k, hw', hk, e⟩
    have hseam' : Seam x₂ (ins ++ b) := h.filler.left x₂
    unfold Sql.ownAlias?
    rw [aliasAfter?_append hink hseam hn', aliasAfter?_append hink hseam' hn']

/-- Conditions that come last make an AS of a long AS. -/
theorem Beside.ownAlias?_long (h : Beside x w [] ins) {z x₂ k : Text} (hx : x = z ++ x₂) (hl : LongAs (x₂ ++ w) k) :
    Sql.ownAlias? (x₂ ++ ins) = none := by
  obtain ⟨hk, -, w₁, v, -, hw₁, hv, e⟩ := hl
  have hne := hk.ne_nil asWord.1
  have hink : EndsInInk (w₁ ++ k) := (hk.endsInInk asWord).append w₁
  rw [← List.append_assoc] at e
  have hx0 : x₂ ≠ [] := by
    rintro rfl
    have hb := h.gap.blank
    rw [List.nil_append] at e
    rw [e, allBlank, List.all_append, Bool.and_eq_true] at hb
    exact hne (List.append_eq_nil_iff.mp (hink.not_blank (x := []) hb.1)).2
  have hx₂ : EndsInInk x₂ := by
    have := h.ink (by rw [hx]; simp [hx0])
    rw [hx] at this
    exact this.right hx0
  obtain ⟨t, ht, hw⟩ := blanks_after hx₂.trimEnd hv e
  have htb : allBlank t = true := by
    have hb := h.gap.blank
    rw [hw, allBlank, List.all_append, Bool.and_eq_true] at hb
    exact hb.1
  rw [ht] at hink
  rw [hink.not_blank htb, List.append_nil] at ht
  rw [← ht, ← List.append_assoc] at hx
  have hs : startsInWord ins = false := h.filler.starts
  rcases h.shut with ⟨a, kw, e, -, hkw, -⟩ | ⟨-, h₂, h₃⟩
  · exact absurd (e.symm.trans hx) (not_where_of_last (u := 'S') hkw hk rfl (by decide))
  · rw [List.append_nil] at h₂ h₃
    rw [← ht, List.append_assoc]
    exact h₂.ownAlias?_as hw₁ hk hs fun hno => absurd hno h₃

/-- Text that starts with ink has the blanks before it to its left. -/
theorem blanks_left {c t : Text} (hw : allBlank w = true) (ht : trimStart t = t) (h0 : t ≠ []) (e : w ++ b = c ++ t) :
    ∃ v, c = w ++ v ∧ b = v ++ t := by
  rcases List.append_eq_append_iff.mp e with ⟨v, rfl, rfl⟩ | ⟨v, rfl, rfl⟩
  · exact ⟨v, rfl, rfl⟩
  · cases v with
    | nil => exact ⟨[], by simp, by simp⟩
    | cons d v =>
      have hd : isBlank d = true := List.all_eq_true.mp hw d (by simp)
      rw [not_isBlank_of_trimStart ht] at hd; cases hd

section

variable {p k bl table after : Text} (hk : Spells "FROM".toList k) (hbl0 : bl ≠ []) (hbl : allBlank bl = true)
  (ht0 : table ≠ []) (ht : ∀ c ∈ table, isNameChar c = true) (hn : startsInName after = false)
  (hparts : ∀ part ∈ table.splitOn '.', isNonAlias part = false)

include hk hbl ht0 ht hn hparts in
/-- The placement does not come right behind the FROM. -/
theorem Beside.not_behind_from (h : Beside x w b ins) (hx : x = p ++ k) : w ++ b ≠ bl ++ (table ++ after) := by
  intro e
  have hname := trimStart_of_name ht0 ht after
  have hne : table ++ after ≠ [] := by simp [ht0]
  have hwb := h.gap.blank
  have hnext := h.next
  cases h.spot with
  | behind apart spelt next =>
    exact absurd hx (not_where_of_last (u := 'M') spelt hk rfl (by decide))
  | @ahead x w u r t apart word keyword noAs next =>
    obtain ⟨v, rfl, hv⟩ := blanks_left hwb hname hne e
    obtain ⟨v', e', -⟩ := blanks_before hnext hbl e
    have hv0 : v = [] := by
      have := congrArg List.length e'
      simp only [List.length_append] at this
      exact List.eq_nil_of_length_eq_zero (by omega)
    rw [hv0, List.nil_append] at hv
    have hmem := mem_parts (a := []) ht hn hv.symm (List.length_pos_iff.mpr ht0) word.1 word.2 EndsApart.nil next
    rw [hparts u hmem] at keyword; cases keyword
  | last =>
    obtain ⟨v, -, hv⟩ := blanks_left hwb hname hne e
    exact hne (List.append_eq_nil_iff.mp hv.symm).2

include hbl0 hbl ht hn hparts in
/-- No WHERE before the placement ends in the name. -/
theorem not_where_in_name {z a kw c t : Text} (e : z ++ (bl ++ c) = a ++ kw) (ha : EndsApart a)
    (hkw : Spells "WHERE".toList kw) (hnext : startsInWord (t ++ after) = false) (htable : table = c ++ t) (hc0 : c ≠ []) :
    False := by
  have hword := hkw.word whereWord.2
  have hkw0 := hkw.ne_nil whereWord.1
  rw [← List.append_assoc] at e
  obtain ⟨a₁, rfl, rfl⟩ : ∃ a₁, a = z ++ bl ++ a₁ ∧ c = a₁ ++ kw := by
    rcases List.append_eq_append_iff.mp e with ⟨a₁, ha, hc⟩ | ⟨y, hz, hy⟩
    · exact ⟨a₁, ha, hc⟩
    · by_cases hy0 : y = []
      · exact ⟨[], by rw [hz, hy0]; simp, by rw [hy, hy0]; simp⟩
      · -- the last of the blanks would be a letter of the keyword
        have h₁ : (z ++ bl).getLast? = some (y.getLast hy0) := by
          rw [hz, List.getLast?_append, List.getLast?_eq_some_getLast hy0]; rfl
        rw [List.getLast?_append, List.getLast?_eq_some_getLast hbl0, Option.some_or, Option.some.injEq] at h₁
        have h₂ : isBlank (y.getLast hy0) = true := by
          rw [← h₁]
          exact List.all_eq_true.mp hbl _ (List.getLast_mem hbl0)
        have h₃ := not_isBlank_of_isWord (hword (y.getLast hy0) (by rw [hy]; exact List.mem_append_left c (List.getLast_mem hy0)))
        rw [h₃] at h₂; cases h₂
  have hmem : kw ∈ table.splitOn '.' := by
    refine mem_parts ht hn (a := a₁) (r := t ++ after) (by rw [htable]; simp) ?_ hkw0 hword ha.suffix hnext
    have : 0 < kw.length := List.length_pos_iff.mpr hkw0
    rw [htable]
    simp only [List.length_append]; omega
  have := isNonAlias_where hkw
  rw [hparts kw hmem] at this; cases this

include hbl0 hbl ht hn hparts in
/-- The placement is not inside the name. -/
theorem Beside.not_inside_name (h : Beside x w b ins) {z c t : Text} (hx : x = z ++ (bl ++ c)) (htable : table = c ++ t)
    (hc0 : c ≠ []) (h0 : t ≠ []) : w ++ b ≠ t ++ after := by
  intro e
  have hname : trimStart (t ++ after) = t ++ after :=
    trimStart_of_name h0 (fun d hd => ht d (by rw [htable]; simp [hd])) after
  obtain ⟨v, hwv, hv⟩ := blanks_left (c := []) h.gap.blank hname (by simp [h0]) e
  obtain ⟨rfl, rfl⟩ := List.append_eq_nil_iff.mp hwv.symm
  cases h.spot with
  | behind apart spelt next =>
    rw [e] at next
    exact not_where_in_name hbl0 hbl ht hn hparts hx.symm apart spelt next htable hc0
  | @ahead x _ u r t' apart word keyword noAs next =>
    rw [List.append_nil, hx, ← List.append_assoc] at apart
    have hmem : u ∈ table.splitOn '.' := by
      refine mem_parts ht hn (a := c) (r := r) ?_ ?_ word.1 word.2 apart.suffix next
      · rw [htable, List.append_assoc, ← e, List.nil_append]
      · have : 0 < t.length := List.length_pos_iff.mpr h0
        rw [htable, List.length_append]; omega
    rw [hparts u hmem] at keyword; cases keyword
  | last =>
    rw [List.append_nil] at e
    exact h0 (List.append_eq_nil_iff.mp e.symm).1

include hk hbl0 hbl ht0 ht hn hparts in
/-- A placement behind the start of the FROM is behind the start of the name. -/
theorem Beside.cut_name (h : Beside x w b ins) {c : Text} (hx : x = p ++ c) (hc0 : c ≠ [])
    (e : k ++ (bl ++ (table ++ after)) = c ++ (w ++ b)) :
    ∃ c', c' ≠ [] ∧ c = k ++ (bl ++ c') ∧ table ++ after = c' ++ (w ++ b) := by
  have hkw := hk.word fromWord.2
  have hink := h.ink (by simp [hx, hc0])
  subst hx
  -- it is behind the keyword
  obtain ⟨c₁, rfl, e₁⟩ : ∃ c₁, c = k ++ c₁ ∧ bl ++ (table ++ after) = c₁ ++ (w ++ b) := by
    rcases List.append_eq_append_iff.mp e with ⟨t, hct, ht'⟩ | ⟨t, hkt, ht'⟩
    · exact ⟨t, hct, ht'⟩
    · by_cases htn : t = []
      · exact ⟨[], by rw [hkt, htn]; simp, by rw [ht', htn]; simp⟩
      · exact (h.gap.left.not_across hc0 htn ⟨p, rfl⟩ ⟨_, ht'.symm⟩ (by rw [← hkt]; exact hkw)).elim
  -- it is behind the blanks
  obtain ⟨c₂, rfl, e₂⟩ : ∃ c₂, c₁ = bl ++ c₂ ∧ table ++ after = c₂ ++ (w ++ b) := by
    rcases List.append_eq_append_iff.mp e₁ with ⟨t, hct, ht'⟩ | ⟨t, hblt, ht'⟩
    · exact ⟨t, hct, ht'⟩
    · have hb := hbl
      rw [hblt] at hb
      simp only [allBlank, List.all_append, Bool.and_eq_true] at hb
      have hc1 : c₁ = [] := by
        rw [← List.append_assoc] at hink
        exact hink.not_blank hb.1
      subst hc1
      exact absurd ht' (h.not_behind_from hk hb.2 ht0 ht hn hparts (by rw [List.append_nil]))
  refine ⟨c₂, ?_, rfl, e₂⟩
  rintro rfl
  rw [List.append_nil, ← List.append_assoc] at hink
  exact hbl0 (hink.not_blank hbl)

include hk hbl0 hbl ht0 ht hn hparts in
/-- A FROM that names a table stands behind the placement, or ahead of it with the whole name. -/
theorem Beside.split (h : Beside x w b ins) (e : x ++ (w ++ b) = p ++ (k ++ (bl ++ (table ++ after)))) :
    (∃ b₁, p = x ++ w ++ b₁ ∧ b = b₁ ++ (k ++ (bl ++ (table ++ after)))) ∨
      ∃ x₂, x = p ++ (k ++ (bl ++ (table ++ x₂))) ∧ after = x₂ ++ (w ++ b) ∧
        (x₂ = [] → Shut (w ++ b) ∧ Shut (ins ++ b)) := by
  have hk0 := hk.ne_nil fromWord.1
  have hink := trimStart_of_starts (hk.starts fromWord) (bl ++ (table ++ after))
  have hne : k ++ (bl ++ (table ++ after)) ≠ [] := by simp [hk0]
  by_cases hp : x.length ≤ p.length
  · left
    obtain ⟨c, rfl, hc⟩ := eq_append_of_le e hp
    obtain ⟨v, rfl, hb⟩ := blanks_left h.gap.blank hink hne hc
    exact ⟨v, by simp, hb⟩
  right
  obtain ⟨c, rfl, hcut⟩ := eq_append_of_le e.symm (by omega)
  have hc0 : c ≠ [] := by
    rintro rfl
    simp at hp
  obtain ⟨c₂, hc2, rfl, hcut₂⟩ := h.cut_name hk hbl0 hbl ht0 ht hn hparts rfl hc0 hcut
  -- it is behind the name
  obtain ⟨x₂, rfl, hcut₃⟩ : ∃ x₂, c₂ = table ++ x₂ ∧ after = x₂ ++ (w ++ b) := by
    rcases List.append_eq_append_iff.mp hcut₂ with ⟨x₂, hcx, hx₂⟩ | ⟨t, htt, ht'⟩
    · exact ⟨x₂, hcx, hx₂⟩
    · by_cases htn : t = []
      · exact ⟨[], by rw [htt, htn]; simp, by rw [ht', htn]; simp⟩
      · exact absurd ht' (h.not_inside_name hbl0 hbl ht hn hparts (List.append_assoc p k _).symm htt hc2 htn)
  refine ⟨x₂, rfl, hcut₃, ?_⟩
  rintro rfl
  rcases h.shut with ⟨a, kw, hx, ha, hkw', hs⟩ | ⟨h₁, h₂, -⟩
  · rw [List.nil_append] at hcut₃
    rw [← hcut₃] at hs
    rw [List.append_nil] at hx hc2
    refine (not_where_in_name hbl0 hbl ht hn hparts (z := p ++ k) (t := []) ?_ ha hkw' hs (by simp) hc2).elim
    rw [← hx]; simp
  · exact ⟨h₁, h₂⟩

end

/-- A FROM that ends before the placement names what is behind it, a clause. -/
theorem Beside.namesTable_of_end (h : Beside x w b ins) {u v : Text} (hx : x = u ++ v) (hk : Spells "FROM".toList v)
    (hu : startsInWord u.reverse = false) (hb : b ≠ []) : namesTable u.reverse (v ++ (w ++ b)) = true := by
  have hv0 := hk.ne_nil fromWord.1
  have hseam := h.gap.left
  have hwb := h.gap.blank
  cases h.spot with
  | behind apart spelt next =>
    exact absurd hx (not_where_of_last (u := 'M') spelt hk rfl (by decide))
  | @ahead x w u' r t apart word keyword noAs next =>
    obtain ⟨hu0, hword⟩ := word
    cases u' with
    | nil => exact absurd rfl hu0
    | cons c u' =>
      have hc := hword c (by simp)
      refine namesTable_iff.mpr ⟨hu, v, w, c, u' ++ r, hk, ?_, hwb, isNameChar_iff.mpr (Or.inl hc), by simp⟩
      rintro rfl
      have := apart (v.getLast hv0) (by rw [List.append_nil, hx, List.getLast?_append, List.getLast?_eq_some_getLast hv0]; rfl)
      rw [hk.word fromWord.2 _ (List.getLast_mem hv0)] at this; cases this
  | last => exact absurd rfl hb

/-- No FROM ahead of the first one that names a table does so with the conditions. -/
theorem Beside.firstAt_behind (h : Beside x w b ins) {b₁ f : Text} (hb : b = b₁ ++ f) (hf0 : f ≠ [])
    (hf : FirstAt namesTable [] (x ++ w ++ b₁) f) : FirstAt namesTable [] (x ++ ins ++ b₁) f := by
  constructor
  · have hh : namesTable (x ++ w ++ b₁).reverse f = true := hf.here
    rw [← h.namesTable_behind hb] at hh
    exact hh
  · intro u v e hv
    show namesTable u.reverse (v ++ f) = false
    rw [List.append_assoc] at e
    rcases List.append_eq_append_iff.mp e with ⟨u', rfl, hu'⟩ | ⟨v', hx, hv'⟩
    · rcases List.append_eq_append_iff.mp hu' with ⟨u, rfl, rfl⟩ | ⟨v', hins, rfl⟩
      · -- behind the conditions
        have hold : namesTable (x ++ w ++ u).reverse (v ++ f) = false := hf.before (x ++ w ++ u) v (by simp) hv
        rw [← h.namesTable_behind (by rw [hb, List.append_assoc])] at hold
        rw [← List.append_assoc]
        exact hold
      · by_cases h0 : v' = []
        · subst h0
          rw [List.nil_append] at hv ⊢
          have hold : namesTable (x ++ w).reverse (b₁ ++ f) = false := hf.before (x ++ w) b₁ rfl hv
          have hb' := h.namesTable_behind (u := []) (v := b₁ ++ f) hb
          rw [List.append_nil, List.append_nil, hold, hins, List.append_nil] at hb'
          exact hb'
        · rw [List.append_assoc, ← hb]
          exact h.silent u' v' hins h0
    · by_cases h0 : v' = []
      · subst h0
        rw [List.append_nil] at hx
        rw [hv', List.nil_append, List.append_assoc, ← hb, ← hx, ← List.append_nil x]
        exact h.silent [] ins rfl h.filler.ne_nil
      · -- ahead of the conditions
        by_contra hn
        have hn : namesTable u.reverse (v' ++ (ins ++ (b₁ ++ f))) = true := by
          rw [hv'] at hn
          simpa using hn
        have hold : namesTable u.reverse (v' ++ (w ++ (b₁ ++ f))) = false := by
          have := hf.before u (v' ++ (w ++ b₁)) (by rw [hx]; simp) (by simp [h0])
          simpa using this
        rcases h.namesTable_ahead hx h0 hn with hall | ⟨hu, hk⟩
        · rw [hall] at hold; cases hold
        · rw [← hb, h.namesTable_of_end hx hk hu (by rw [hb]; simp [hf0])] at hold; cases hold

/-- With conditions merged at a placement, the same FROM names the same table, and the same
    alias stands behind it, unless that was a long AS and conditions came last. -/
theorem Beside.table_edit (h : Beside x w b ins) {table after : Text}
    (hold : seekSome tableAt? [] (x ++ w ++ b) = some (table, after))
    (hparts : ∀ part ∈ table.splitOn '.', isNonAlias part = false) :
    ∃ after', seekSome tableAt? [] (x ++ ins ++ b) = some (table, after') ∧
      ((Trailing b ins → ∀ k, ¬ LongAs after k) → Sql.ownAlias? after' = Sql.ownAlias? after) ∧
      (Trailing b ins → ∀ k, LongAs after k → Sql.ownAlias? after' = none) := by
  obtain ⟨p, f, e, hf, hat⟩ := seekSome_nil_iff.mp hold
  have hf : FirstAt namesTable [] p f := hf
  obtain ⟨hp, k, bl, hk, hbl0, hbl, ht0, ht, hn, rfl⟩ := tableAt?_eq_some_iff.mp hat
  rw [List.append_assoc] at e
  rcases h.split hk hbl0 hbl ht0 ht hn hparts e with ⟨b₁, rfl, hb⟩ | ⟨x₂, hx, rfl, hshut⟩
  · -- behind the placement nothing changes
    have hf' := h.firstAt_behind hb (by simp [hk.ne_nil fromWord.1]) hf
    have hs : startsInWord (x ++ ins ++ b₁).reverse = false := (namesTable_iff.mp hf'.here).1
    refine ⟨after, seekSome_nil_iff.mpr ⟨x ++ ins ++ b₁, _, by rw [hb]; simp, hf',
      tableAt?_eq_some_iff.mpr ⟨hs, k, bl, hk, hbl0, hbl, ht0, ht, hn, rfl⟩⟩, fun _ => rfl, fun hlast => ?_⟩
    rw [hlast.1] at hb
    exact absurd (List.append_eq_nil_iff.mp (List.append_eq_nil_iff.mp hb.symm).2).1 (hk.ne_nil fromWord.1)
  · have hn' : startsInName (x₂ ++ (ins ++ b)) = false := by
      cases x₂ with
      | nil =>
        obtain ⟨c, r, rfl, hc⟩ := h.blank
        exact startsInName_of_blank (w := [c]) (by simp [allBlank, hc]) (by simp) (r ++ b)
      | cons c x₂ => exact hn
    have hat' : tableAt? p.reverse (k ++ (bl ++ (table ++ (x₂ ++ (ins ++ b))))) = some (table, x₂ ++ (ins ++ b)) :=
      tableAt?_eq_some_iff.mpr ⟨hp, k, bl, hk, hbl0, hbl, ht0, ht, hn', rfl⟩
    have hz : x = p ++ (k ++ (bl ++ table)) ++ x₂ := by rw [hx]; simp
    refine ⟨x₂ ++ (ins ++ b), seekSome_nil_iff.mpr ⟨p, _, ?_, ⟨?_, ?_⟩, hat'⟩, h.ownAlias? hz hshut hn, ?_⟩
    · rw [hx]; simp
    · show (tableAt? p.reverse _).isSome = true
      rw [hat']; rfl
    · intro u v e hv
      show namesTable u.reverse _ = false
      by_contra hnew
      have hold : namesTable u.reverse _ = false := hf.before u v e hv
      rw [namesTable_before hk hv (by simpa using hnew)] at hold; cases hold
    · rintro ⟨rfl, -⟩ k' hl
      rw [List.append_nil] at hl ⊢
      exact h.ownAlias?_long hz hl

end

end ExportQuery.Sql
