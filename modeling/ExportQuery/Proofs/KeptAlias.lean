/-
  ExportQuery.Proofs.KeptAlias — merging conditions keeps the alias of the outer table.

  Conditions without the word FROM name no table, wherever they are merged: their word is
  neither in one of them, nor in what joins them, nor does it reach over an end. So the first
  FROM that names a table stays the first, and the alias behind the name is read as before. One
  word is read otherwise: an AS with a long s that ends the text is an alias until a WHERE
  stands behind it, and an AS from then on.

  - `HasWord`: a keyword stands in a text as a word of its own.
  - `HasWord.append_cases`: such a word is on one side of a seam.
  - `not_hasWord_filling`: conditions without a FROM make none where they are merged.
  - `comesLast_iff`: when conditions are merged at the end of the text.
  - `outerAlias?_mergeWhere`: the alias is kept, but for that one word.
-/

import ExportQuery.Proofs.Grouping
import ExportQuery.Proofs.Marker

namespace ExportQuery.Sql

open ExportQuery.Text

/-! ## Words of their own -/

/-- The keyword `word` stands in the text, in any case and apart from word characters. -/
def HasWord (word s : Text) : Prop := ∃ u k v, s = u ++ k ++ v ∧ EndsApart u ∧ Spells word k ∧ startsInWord v = false

/-- Whether it stands at a place. -/
def opensWord (word read left : Text) : Bool := !startsInWord read && ((dropWord? word left).any (!startsInWord ·))

theorem hasWord_iff {word s : Text} : HasWord word s ↔ ¬ Nowhere (opensWord word) [] s := by
  have opens_iff : ∀ u t, opensWord word ([] ++ u).reverse t = true ↔
      EndsApart u ∧ ∃ k v, t = k ++ v ∧ Spells word k ∧ startsInWord v = false := by
    intro u t
    rw [opensWord, Bool.and_eq_true, List.nil_append, Bool.not_eq_true', startsInWord_reverse, Option.any_eq_true]
    constructor
    · rintro ⟨hu, v, hd, hv⟩
      obtain ⟨k, hk, rfl⟩ := dropWord?_eq_some_iff.mp hd
      exact ⟨hu, k, v, rfl, hk, by simpa using hv⟩
    · rintro ⟨hu, k, v, rfl, hk, hv⟩
      exact ⟨hu, v, dropWord?_eq_some_iff.mpr ⟨k, hk, rfl⟩, by simpa using hv⟩
  constructor
  · rintro ⟨u, k, v, rfl, hu, hk, hv⟩ hn
    have := hn u (k ++ v) (List.append_assoc u k v)
    rw [(opens_iff u (k ++ v)).mpr ⟨hu, k, v, rfl, hk, hv⟩] at this; cases this
  · intro h
    unfold Nowhere at h
    push Not at h
    obtain ⟨u, t, rfl, ho⟩ := h
    obtain ⟨hu, k, v, rfl, hk, hv⟩ := (opens_iff u t).mp (by simpa using ho)
    exact ⟨u, k, v, by simp, hu, hk, hv⟩

instance (word s : Text) : Decidable (HasWord word s) := decidable_of_iff' _ hasWord_iff

section

variable {word s a b : Text}

/-- A word of its own is on one side of a seam. -/
theorem HasWord.append_cases (h : HasWord word (a ++ b)) (hw : ∀ u ∈ word, u.isUpper = true) (hs : Seam a b) :
    HasWord word a ∨ HasWord word b := by
  obtain ⟨u, k, v, e, hu, hk, hv⟩ := h
  rcases hs.split (hk.word hw) e with ⟨t, rfl, rfl⟩ | ⟨t, rfl, rfl⟩
  · refine Or.inl ⟨u, k, t, rfl, hu, hk, ?_⟩
    by_cases h0 : t = []
    · rw [h0]; rfl
    · rwa [Division.startsInWord_append h0 b [], List.append_nil] at hv
  · exact Or.inr ⟨t, k, v, rfl, hu.suffix, hk, hv⟩

/-- Blanks around a text hide no word of it. -/
theorem HasWord.of_trim (h : HasWord word (trim s)) : HasWord word s := by
  obtain ⟨w, w', e, hw, hw'⟩ := trim_joins s
  obtain ⟨u, k, v, ht, hu, hk, hv⟩ := h
  refine ⟨w ++ u, k, v ++ w', by rw [e, ht]; simp, ?_, hk, ?_⟩
  · by_cases h0 : u = []
    · rw [h0, List.append_nil]; exact endsApart_of_allBlank hw
    · exact hu.append h0 w
  · by_cases h0 : v = []
    · by_cases h1 : w' = []
      · rw [h0, h1]; rfl
      · rw [h0, List.nil_append, ← List.append_nil w']; exact startsInWord_blank hw' h1 []
    · rw [Division.startsInWord_append h0 w' [], List.append_nil]; exact hv

end

/-! ## Conditions without a FROM -/

section

variable {head J a w b ins : Text}

/-- What stands around conditions has no FROM in it. -/
theorem not_hasWord_glue : ∀ t ∈ [" AND ".toList, "\nWHERE ".toList, [' '], ['\n']], ¬ HasWord "FROM".toList t :=
  List.forall_mem_cons.mpr ⟨by decide +kernel, List.forall_mem_cons.mpr ⟨by decide +kernel,
    List.forall_mem_cons.mpr ⟨by decide +kernel, List.forall_mem_singleton.mpr (by decide +kernel)⟩⟩⟩

theorem not_hasWord_append {x y : Text} (hx : ¬ HasWord "FROM".toList x) (hy : ¬ HasWord "FROM".toList y) (hs : Seam x y) :
    ¬ HasWord "FROM".toList (x ++ y) := fun h => (h.append_cases fromWord.2 hs).elim hx hy

theorem not_hasWord_conjunction {conditions : List Text} (h0 : conjunction conditions ≠ [])
    (h : ∀ c ∈ conditions, ¬ HasWord "FROM".toList c) : ¬ HasWord "FROM".toList (conjunction conditions) := by
  have hand := not_hasWord_glue " AND ".toList (by simp)
  refine conjunction_induction (M := fun t => ¬ HasWord "FROM".toList t) h0 (fun c hc _ ht => h c hc ht.of_trim)
    fun p q hp hq => ?_
  exact not_hasWord_append (not_hasWord_append hp hand (Or.inr rfl)) hq
    (Or.inl (endsApart_of_getLast? (c := ' ') (by simp) (by decide)))

/-- Conditions without a FROM make none where they are merged. -/
theorem not_hasWord_filling (h : Placed head J a w b ins) (hJ : ¬ HasWord "FROM".toList J) : ¬ HasWord "FROM".toList ins := by
  have hand := not_hasWord_glue " AND ".toList (by simp)
  have hspace : ¬ HasWord "FROM".toList (' ' :: J) :=
    not_hasWord_append (x := [' ']) (not_hasWord_glue [' '] (by simp)) hJ (Or.inl (EndsApart.concat (by decide) []))
  have hline : ¬ HasWord "FROM".toList ("\nWHERE ".toList ++ J) :=
    not_hasWord_append (not_hasWord_glue _ (by simp)) hJ (Or.inl (endsApart_of_getLast? (c := ' ') (by decide) (by decide)))
  cases h with
  | extending opens spelt =>
    split
    · rw [List.append_nil]; exact hspace
    · exact not_hasWord_append hspace hand (Or.inr rfl)
  | preceding none_opens closes => exact not_hasWord_append hline (not_hasWord_glue ['\n'] (by simp)) (Or.inr rfl)
  | atEnd none_opens none_closes => exact hline

/-- A text without the word holds no FROM that names a table, whatever is around it. -/
theorem namesTable_of_not_hasWord (h : ¬ HasWord "FROM".toList ins) (hs : Seam ins b) {u v : Text} (e : ins = u ++ v)
    (hv : v ≠ []) (x : Text) : namesTable (x ++ u).reverse (v ++ b) = false := by
  by_contra hn
  obtain ⟨hr, k, bl, c, r, hk, h0, hbl, -, e'⟩ := namesTable_iff.mp ((Bool.not_eq_false _).mp hn)
  have hu : EndsApart u := (startsInWord_reverse.mp hr).suffix
  rcases List.append_eq_append_iff.mp e' with ⟨t, rfl, ht⟩ | ⟨t, rfl, ht⟩
  · by_cases ht0 : t = []
    · rw [ht0, List.append_nil] at hk
      exact h ⟨u, v, [], by rw [e, List.append_nil], hu, hk, rfl⟩
    · exact hs.not_across hv ht0 ⟨u, e.symm⟩ ⟨_, ht.symm⟩ (hk.word fromWord.2)
  · refine h ⟨u, k, t, by rw [e, List.append_assoc], hu, hk, ?_⟩
    by_cases ht0 : t = []
    · rw [ht0]; rfl
    · have hs := startsInWord_blank hbl h0 (c :: r)
      rwa [ht, Division.startsInWord_append ht0 b [], List.append_nil] at hs

end

/-! ## Conditions that come last -/

/-- Some condition is not blank, and no clause behind the marker takes them in: neither a WHERE,
    nor an ORDER BY or LIMIT outside parentheses. -/
def ComesLast (s : Text) (conditions : List Text) : Prop :=
  conjunction conditions ≠ [] ∧
    ∃ head rest, fromClause? s = some (head, rest) ∧ findClause [.filter] head rest = none ∧
      findOuterClause [.ordering, .limit] head rest = none

theorem comesLast_iff {head a w b ins : Text} {conditions : List Text}
    (hm : fromClause? (head ++ (a ++ w ++ b)) = some (head, a ++ w ++ b)) (hj : conjunction conditions ≠ [])
    (h : Placed head (conjunction conditions) a w b ins) : ComesLast (head ++ (a ++ w ++ b)) conditions ↔ Trailing b ins := by
  constructor
  · rintro ⟨-, head', rest', hm', hw, hc⟩
    obtain ⟨rfl, rfl⟩ := Prod.mk.inj (Option.some.inj (hm.symm.trans hm'))
    have hw := seek_nowhere_iff.mp hw
    have hc : Nowhere (opensOuterClause [.ordering, .limit] head) head (a ++ w ++ b) := seek_nowhere_iff.mp hc
    cases h with
    | extending opens spelt => exact absurd opens (hw.not_firstAt (by simp))
    | preceding none_opens closes => exact absurd closes (hc.not_firstAt rfl)
    | atEnd none_opens none_closes => exact ⟨rfl, _, rfl⟩
  · rintro ⟨rfl, t, ht⟩
    refine ⟨hj, head, _, hm, seek_nowhere_iff.mpr ?_, seek_nowhere_iff.mpr ?_⟩
    all_goals rcases h.inv with ⟨a₀, kw, -, -, -, hi⟩ | ⟨hn, ⟨hc, -⟩ | ⟨-, hc, -⟩⟩
    · exact absurd ⟨t, hi.symm.trans ht⟩ not_line_of_space
    · exact hn
    · exact hn
    · exact absurd ⟨t, hi.symm.trans ht⟩ not_line_of_space
    · obtain ⟨c, r, e, -⟩ := starts_of_opensClause (opensClause_of_outer hc.here)
      cases e
    · rw [List.append_nil]; exact hc

/-! ## The alias -/

section

variable {s table after : Text} {conditions : List Text}

/-- Without a complete region in the text there is none behind its marker. -/
theorem divide_of_no_region {head rest : Text} (hs : ∀ a b c, s ≠ a ++ startMarker ++ b ++ endMarker ++ c)
    (hm : fromClause? s = some (head, rest)) : divide rest = Division.plain rest := by
  obtain rfl : s = head ++ rest := (fromClause_joins hm).1
  have hp : (Division.plain rest).Proper := Division.proper_plain_iff.mpr fun a b c e => hs (head ++ a) b c (by rw [e]; simp)
  simpa using divide_text hp

/-- The first table stays, and its alias unless that is a long AS that ends the text. -/
theorem outerTable?_merged (hs : ∀ a b c, s ≠ a ++ startMarker ++ b ++ endMarker ++ c)
    (htable : outerTable? s = some (table, after)) (hparts : ∀ part ∈ table.splitOn '.', isNonAlias part = false)
    (hfrom : ∀ c ∈ conditions, ¬ HasWord "FROM".toList c) :
    ∃ after', outerTable? (merged s conditions) = some (table, after') ∧
      ((∀ k, ComesLast s conditions → ¬ LongAs after k) → ownAlias? after' = ownAlias? after) ∧
      ∀ k, ComesLast s conditions → LongAs after k → ownAlias? after' = none := by
  obtain ⟨⟨head, rest⟩, hm, hseek⟩ := Option.bind_eq_some_iff.mp htable
  have hd := divide_of_no_region hs hm
  obtain rfl : s = head ++ rest := (fromClause_joins hm).1
  obtain ⟨rest', hfill⟩ := exists_filled (trimEnd_head hm) (conjunction conditions) rest
  rw [merged_filled hm hd hfill]
  cases hfill with
  | same blank => exact ⟨after, htable, fun _ => rfl, fun k h => absurd blank h.1⟩
  | @placed a w b ins hj placed widest =>
    have hins := not_hasWord_filling placed (not_hasWord_conjunction hj hfrom)
    have hbeside := placed.beside_of_silent widest (trimmed_conjunction hj) fun u v e hv =>
      namesTable_of_not_hasWord hins placed.filler.seam e hv a
    obtain ⟨after', hat, hkept, hlost⟩ := hbeside.table_edit hseek hparts
    simp only [comesLast_iff hm hj placed]
    refine ⟨after', ?_, fun h => hkept fun hl k => h k hl, fun k hl => hlost hl k⟩
    rw [outerTable?, fromClause?_congr hm, Option.bind_some]
    exact hat

end

end ExportQuery.Sql
