/-
  ExportQuery.Proofs.Condition — conditions made of texts without tokens hold none.

  A condition puts names and texts of a request between quotes, parentheses, dots and blanks.
  A token is one word, so it stands in one of the texts put together or nowhere.

  - `Sealed`: a text behind which any text can be put.
  - `tokenFree_conditions`: the conditions of filters and deletion.
  - `tokenFree_periodSql`: the condition of a period.
-/

import ExportQuery.Proofs.Merge
import ExportQuery.Proofs.Predicate

namespace ExportQuery.Sql

open ExportQuery.Text

/-! ## Texts put together -/

section

variable {x y q : Text}

/-- A text without tokens that ends outside words. -/
structure Sealed (x : Text) : Prop where
  free : TokenFree x
  ends : EndsApart x

/-- A text without tokens to put between two texts. -/
structure Separator (x : Text) : Prop extends Sealed x where
  ne_nil : x ≠ []
  starts : startsInWord x = false

/-- No two underscores follow one another. -/
def unopened : Text → Bool
  | c :: d :: s => !(c == '_' && d == '_') && unopened (d :: s)
  | _ => true

theorem tokenFree_of_unopened (h : unopened x = true) : TokenFree x := by
  obtain ⟨r, hr⟩ : ∃ r, tokenOpening = '_' :: '_' :: r := ⟨_, rfl⟩
  have opened : ∀ u v : Text, unopened (u ++ '_' :: '_' :: v) = false := by
    intro u v
    induction u with
    | nil => rfl
    | cons c u ih =>
      cases u with
      | nil => rw [List.singleton_append, unopened]; simp [unopened]
      | cons d u => rw [List.cons_append, List.cons_append, unopened, ← List.cons_append, ih, Bool.and_false]
  rintro ⟨u, v, rfl⟩
  rw [hr, List.append_assoc, List.cons_append, List.cons_append, opened] at h; cases h

theorem sealed_of (h : (unopened x && !startsInWord x.reverse) = true) : Sealed x := by
  simp only [Bool.and_eq_true, Bool.not_eq_true'] at h
  exact ⟨tokenFree_of_unopened h.1, startsInWord_reverse.mp h.2⟩

theorem separator_of (h : (unopened x && !startsInWord x.reverse && !x.isEmpty && !startsInWord x) = true) : Separator x := by
  rw [Bool.and_eq_true, Bool.and_eq_true] at h
  exact ⟨sealed_of h.1.1, by simpa using h.1.2, by simpa using h.2⟩

theorem Sealed.text (hx : Sealed x) (hy : TokenFree y) : TokenFree (x ++ y) :=
  (tokenFree_append_iff (Or.inl hx.ends)).mpr ⟨hx.free, hy⟩

theorem TokenFree.sep (hx : TokenFree x) (hs : Separator q) : Sealed (x ++ q) :=
  ⟨(tokenFree_append_iff (Or.inr hs.starts)).mpr ⟨hx, hs.free⟩, hs.ends.append hs.ne_nil x⟩

theorem tokenFree_of_underscore (h : '_' ∉ x) : TokenFree x := fun ho => h (ho.subset (by decide))

theorem tokenFree_join {parts : List Text} (hs : Separator q) (h : ∀ p ∈ parts, TokenFree p) : TokenFree (join q parts) := by
  induction parts with
  | nil => exact tokenFree_of_underscore (by simp [join])
  | cons p parts ih =>
    have hp := h p (by simp)
    by_cases h0 : parts = []
    · rw [h0, join_singleton]; exact hp
    · rw [join_cons _ _ h0]
      exact (hp.sep hs).text (ih fun p' hp' => h p' (by simp [hp']))

theorem separator_literal (h : TokenFree x) : Separator (Filter.literal x) := by
  have hq : Separator ['\''] := separator_of (by decide)
  exact ⟨(hq.toSealed.text h).sep hq, by simp [Filter.literal], hq.starts⟩

end

end ExportQuery.Sql

namespace ExportQuery.Json

open ExportQuery.Text ExportQuery.Sql

/-! ## Texts of a request -/

mutual

/-- The strings and names in a value. -/
def Value.texts : Value → List Text
  | .string s => [s]
  | .array items => itemTexts items
  | .object members => memberTexts members
  | _ => []

def itemTexts : List Value → List Text
  | [] => []
  | v :: more => v.texts ++ itemTexts more

def memberTexts : List (Text × Value) → List Text
  | [] => []
  | (name, v) :: more => name :: v.texts ++ memberTexts more

end

theorem texts_of_item {v : Value} {items : List Value} (h : v ∈ items) : v.texts ⊆ itemTexts items := by
  induction items with
  | nil => cases h
  | cons w items ih =>
    rw [itemTexts]
    rcases List.mem_cons.mp h with rfl | h
    · exact List.subset_append_left _ _
    · exact List.Subset.trans (ih h) (List.subset_append_right _ _)

theorem texts_of_member {m : Text × Value} {members : List (Text × Value)} (h : m ∈ members) :
    m.1 :: m.2.texts ⊆ memberTexts members := by
  induction members with
  | nil => cases h
  | cons w members ih =>
    obtain ⟨name, v⟩ := w
    rw [memberTexts]
    rcases List.mem_cons.mp h with rfl | h
    · exact List.subset_append_left _ _
    · exact List.Subset.trans (ih h) (List.subset_append_right _ _)

theorem mem_of_get? {α : Type} {key : Text} {members : List (Text × α)} {value : α} (h : get? key members = some value) :
    (key, value) ∈ members := by
  obtain ⟨⟨k, v⟩, hf, rfl⟩ := Option.map_eq_some_iff.mp h
  obtain rfl : k = key := by simpa using List.find?_some hf
  exact List.mem_of_find?_eq_some hf

/-- The characters of numbers. -/
def numeric (c : Char) : Bool := c.isDigit || c == '-' || c == '+' || c == '.' || c == 'e'

theorem numeric_decimal {n : Nat} {c : Char} (h : c ∈ decimal n) : numeric c = true := by
  simp [numeric, isDigit_decimal n c h]

theorem numeric_zeros {n : Nat} {c : Char} (h : c ∈ zeros n) : numeric c = true := by
  rw [List.eq_of_mem_replicate h]; decide

theorem numeric_plain {digits : Text} {power : Int} (hd : ∀ c ∈ digits, numeric c = true) {c : Char}
    (h : c ∈ plain digits power) : numeric c = true := by
  have point : ∀ c ∈ ".0".toList, numeric c = true := List.all_eq_true.mp (by decide)
  have nought : ∀ c ∈ "0.".toList, numeric c = true := List.all_eq_true.mp (by decide)
  simp only [plain] at h
  split at h
  · rcases List.mem_append.mp h with h | h
    · rcases List.mem_append.mp h with h | h
      · exact hd c h
      · exact numeric_zeros h
    · exact point c h
  · split at h
    · rcases List.mem_append.mp h with h | h
      · exact hd c (List.mem_of_mem_take h)
      · rcases List.mem_cons.mp h with rfl | h
        · decide
        · exact hd c (List.mem_of_mem_drop h)
    · rcases List.mem_append.mp h with h | h
      · rcases List.mem_append.mp h with h | h
        · exact nought c h
        · exact numeric_zeros h
      · exact hd c h

theorem numeric_scientific {digits : Text} {exponent : Int} (hd : ∀ c ∈ digits, numeric c = true) {c : Char}
    (h : c ∈ scientific digits exponent) : numeric c = true := by
  simp only [scientific] at h
  rcases List.mem_append.mp h with h | h
  · split at h
    · cases h
    · exact hd c h
    · rcases List.mem_cons.mp h with rfl | h
      · exact hd c (by simp)
      · rcases List.mem_cons.mp h with rfl | h
        · decide
        · exact hd c (by simp [h])
  · rcases List.mem_cons.mp h with rfl | h
    · decide
    · rcases List.mem_cons.mp h with rfl | h
      · split
        · decide
        · decide
      · exact numeric_decimal h

theorem numeric_number {n : Number} {c : Char} (h : c ∈ n.text) : numeric c = true := by
  have zero : ∀ c ∈ "0.0".toList, numeric c = true := List.all_eq_true.mp (by decide)
  have magnitude : ∀ f, c ∈ magnitudeText f → numeric c = true := by
    intro f h
    simp only [magnitudeText] at h
    split at h
    · exact zero c h
    · split at h
      · exact numeric_plain (fun _ => numeric_decimal) h
      · exact numeric_scientific (fun _ => numeric_decimal) h
  cases n with
  | integer n =>
    simp only [Number.text] at h
    split at h
    · rcases List.mem_cons.mp h with rfl | h
      · decide
      · exact numeric_decimal h
    · exact numeric_decimal h
  | double x =>
    simp only [Number.text] at h
    rcases List.mem_append.mp h with h | h
    · split at h
      · obtain rfl : c = '-' := by simpa using h
        decide
      · cases h
    · exact magnitude _ h

theorem tokenFree_number (n : Number) : TokenFree n.text := tokenFree_of_underscore fun h =>
  absurd (numeric_number h) (by decide)

end ExportQuery.Json

namespace ExportQuery.Filter

open ExportQuery.Text ExportQuery.Sql ExportQuery.Json

/-! ## Conditions of filters -/

/-- Steps one after the other: the first, and the others. -/
theorem mapM_cons_ok {α β ε : Type} {f : α → Except ε β} {x : α} {items : List α} {results : List β}
    (h : (x :: items).mapM f = .ok results) : ∃ y ys, f x = .ok y ∧ items.mapM f = .ok ys ∧ results = y :: ys := by
  rw [List.mapM_cons] at h
  cases hx : f x with
  | error e => rw [hx] at h; cases h
  | ok y =>
    cases hm : items.mapM f with
    | error e => rw [hx, hm] at h; cases h
    | ok ys =>
      rw [hx, hm] at h
      cases h
      exact ⟨y, ys, rfl, rfl, rfl⟩

/-- What holds of every result of a step holds of the results of all steps. -/
theorem forall_of_mapM {α β ε : Type} {f : α → Except ε β} {M : β → Prop} {items : List α} {results : List β}
    (h : items.mapM f = .ok results) (hf : ∀ x ∈ items, ∀ y, f x = .ok y → M y) : ∀ y ∈ results, M y := by
  induction items generalizing results with
  | nil =>
    cases h
    simp
  | cons x items ih =>
    obtain ⟨y, ys, hx, hm, rfl⟩ := mapM_cons_ok h
    intro z hz
    rcases List.mem_cons.mp hz with rfl | hz
    · exact hf x (by simp) z hx
    · exact ih hm (fun x' hx' => hf x' (by simp [hx'])) z hz

section

variable {field column s item path : Text} {v : Value}

theorem tokenFree_scalarText (hv : ∀ u ∈ v.texts, TokenFree u) (h : scalarText field v = .ok s) : TokenFree s := by
  unfold scalarText at h
  split at h
  · cases h
    exact hv _ (by simp [Value.texts])
  · cases h
    exact tokenFree_number _
  · cases h
    split
    · decide
    · decide
  · cases h
    decide
  · cases h

theorem tokenFree_inList (hc : TokenFree column) {items : List Text} (hi : ∀ s ∈ items, TokenFree s) :
    ∀ c ∈ inList column items, TokenFree c := by
  unfold inList
  split
  · simp
  · intro c hm
    obtain rfl := List.mem_singleton.mp hm
    have hjoin : TokenFree (join ", ".toList (items.map literal)) := by
      refine tokenFree_join (separator_of (by decide)) fun p hp => ?_
      obtain ⟨s, hs, rfl⟩ := List.mem_map.mp hp
      exact (separator_literal (hi s hs)).free
    exact (((hc.sep (separator_of (by decide))).text hjoin).sep (separator_of (by decide))).free

theorem tokenFree_like (hc : TokenFree column) (hs : TokenFree s) : TokenFree (column ++ " LIKE '%".toList ++ s ++ "%'".toList) :=
  (((hc.sep (separator_of (by decide))).text hs).sep (separator_of (by decide))).free

theorem sealed_pageDate (hs : TokenFree s) : Sealed (pageDate s) := by
  have hcall : Sealed "STR_TO_DATE(".toList := sealed_of (by decide)
  exact (hcall.text (separator_literal hs).free).sep (separator_of (by decide))

/-- An end of a range is one of its texts. -/
theorem tokenFree_bound? {key : Text} {range : List (Text × Value)} (hv : ∀ u ∈ memberTexts range, TokenFree u)
    (h : bound? key range = some s) : TokenFree s := by
  unfold bound? at h
  split at h
  · rename_i u hg
    split at h
    · cases h
    · cases h
      refine (hv u (texts_of_member (mem_of_get? hg) ?_)).within (trim_within u)
      simp [Value.texts]
  · cases h

theorem tokenFree_dateRange (hc : TokenFree column) {range : List (Text × Value)} (hv : ∀ u ∈ memberTexts range, TokenFree u) :
    ∀ c ∈ dateRange column range, TokenFree c := by
  have hcall : Sealed "DATE(".toList := sealed_of (by decide)
  have hdate : TokenFree ("DATE(".toList ++ column ++ [')']) := ((hcall.text hc).sep (separator_of (by decide))).free
  unfold dateRange
  split
  · rename_i first last hfirst hlast
    have hfirst := sealed_pageDate (tokenFree_bound? hv hfirst)
    have hlast := sealed_pageDate (tokenFree_bound? hv hlast)
    split
    · intro c hm
      obtain rfl := List.mem_singleton.mp hm
      exact (hdate.sep (separator_of (by decide))).text hfirst.free
    · intro c hm
      obtain rfl := List.mem_singleton.mp hm
      exact (((hdate.sep (separator_of (by decide))).text hfirst.free).sep (separator_of (by decide))).text hlast.free
  · simp

theorem tokenFree_contains (hc : TokenFree column) (hi : TokenFree item) (hp : TokenFree path) :
    TokenFree (contains column item path) := by
  have hcall : Sealed "JSON_CONTAINS(".toList := sealed_of (by decide)
  have hitem := ((hcall.text hc).sep (q := ", '\"".toList) (separator_of (by decide))).text hi
  exact (((hitem.sep (separator_of (by decide))).text hp).sep (separator_of (by decide))).free

theorem tokenFree_pathItems (hv : ∀ u ∈ v.texts, TokenFree u) {items : List Text} (h : pathItems field v = .ok items) :
    ∀ s ∈ items, TokenFree s := by
  unfold pathItems at h
  split at h
  · cases h
    simp
  · refine forall_of_mapM h fun w hw s hs => tokenFree_scalarText (fun u hu => hv u ?_) hs
    rw [Value.texts]
    exact texts_of_item (List.mem_filter.mp hw).1 hu
  · obtain ⟨s, hs, rfl⟩ := exists_of_map h
    simpa using tokenFree_scalarText hv hs

theorem tokenFree_pathConditions (hc : TokenFree column) {m : Text × Value} (hv : ∀ u ∈ m.1 :: m.2.texts, TokenFree u)
    {cs : List Text} (h : pathConditions field column m = .ok cs) : ∀ c ∈ cs, TokenFree c := by
  obtain ⟨items, hi, rfl⟩ := exists_of_map h
  intro c hm
  obtain ⟨item, hitem, rfl⟩ := List.mem_map.mp hm
  have hdollar : Sealed "$.".toList := sealed_of (by decide)
  have hitems := tokenFree_pathItems (fun u hu => hv u (by simp [hu])) hi item hitem
  exact tokenFree_contains hc hitems (hdollar.text (hv m.1 (by simp)))

theorem tokenFree_arrayConditions (hc : TokenFree column) {items : List Value}
    (hv : ∀ v ∈ items, ∀ u ∈ v.texts, TokenFree u) {cs : List Text} (h : arrayConditions field column items = .ok cs) :
    ∀ c ∈ cs, TokenFree c := by
  obtain ⟨texts, hm, rfl⟩ := exists_of_map h
  exact tokenFree_inList hc (forall_of_mapM hm fun v hmem s hs => tokenFree_scalarText (hv v hmem) hs)

theorem tokenFree_equality (hc : TokenFree column) (hv : ∀ u ∈ v.texts, TokenFree u) {cs : List Text}
    (h : equality field column v = .ok cs) : ∀ c ∈ cs, TokenFree c := by
  obtain ⟨s, hs, rfl⟩ := exists_of_map h
  intro c hm
  obtain rfl := List.mem_singleton.mp hm
  exact (hc.sep (separator_of (by decide))).text (separator_literal (tokenFree_scalarText hv hs)).free

theorem tokenFree_fieldConditions (hc : TokenFree column) (hv : ∀ u ∈ v.texts, TokenFree u) {type : FieldType} {cs : List Text}
    (h : fieldConditions field column type v = .ok cs) : ∀ c ∈ cs, TokenFree c := by
  unfold fieldConditions at h
  split at h
  · cases h
    exact tokenFree_dateRange hc (by simpa [Value.texts] using hv)
  · cases h
    rename_i s
    split
    · simp
    · intro c hm
      obtain rfl := List.mem_singleton.mp hm
      exact tokenFree_like hc (hv s (by simp [Value.texts]))
  · obtain ⟨all, hm, rfl⟩ := exists_of_map h
    have hall : ∀ cs ∈ all, ∀ c ∈ cs, TokenFree c := forall_of_mapM (M := fun cs => ∀ c ∈ cs, TokenFree c) hm
      fun m hmem cs hcs => tokenFree_pathConditions hc (fun u hu => hv u (by rw [Value.texts]; exact texts_of_member hmem hu)) hcs
    intro c hmem
    obtain ⟨cs, hcs, hin⟩ := List.mem_flatten.mp hmem
    exact hall cs hcs c hin
  · cases h
    rename_i s
    intro c hm
    obtain rfl := List.mem_singleton.mp hm
    exact tokenFree_contains hc (hv s (by simp [Value.texts])) (tokenFree_of_unopened (by decide))
  · cases h
    rename_i options
    refine tokenFree_inList hc fun s hs => ?_
    obtain ⟨m, hm, rfl⟩ := List.mem_map.mp hs
    exact hv m.1 (by rw [Value.texts]; exact texts_of_member (List.mem_filter.mp hm).1 (by simp))
  · refine tokenFree_arrayConditions hc (fun w hw u hu => hv u ?_) h
    rw [Value.texts]
    exact texts_of_item hw hu
  · exact tokenFree_equality hc hv h

end

theorem tokenFree_memberConditions {columns : List (Text × Text)} {input : Input} {m : Text × Value} {cs : List Text}
    (hv : ∀ u ∈ m.2.texts, TokenFree u) (hc : ∀ column, get? m.1 columns = some column → TokenFree column)
    (h : memberConditions columns input m = .ok cs) : ∀ c ∈ cs, TokenFree c := by
  unfold memberConditions at h
  split at h
  · split at h
    · rename_i column hcol
      exact tokenFree_fieldConditions (hc column hcol) hv h
    · cases h
      simp
  · cases h
    simp

/-- The conditions of a request without tokens hold none, when the columns and the alias that
    they are written with hold none. -/
theorem tokenFree_conditions {columns : List (Text × Text)} {input : Input} {flag : Text} {skip : Bool} {alias? : Option Text}
    {F : List Text} (hv : ∀ m ∈ input.values, ∀ u ∈ m.2.texts, TokenFree u)
    (hc : ∀ m ∈ input.values, ∀ cs column, memberConditions columns input m = .ok cs → cs ≠ [] →
      get? m.1 columns = some column → TokenFree column)
    (ha : (!skip && isTrue flag) = true → ∀ table, alias? = some table → TokenFree table)
    (h : conditions columns input flag skip alias? = .ok F) : ∀ c ∈ F, TokenFree c := by
  obtain ⟨fields, deletion, hf, rfl, hd⟩ := conditions_eq_ok h
  have hfields : ∀ cs ∈ fields, ∀ c ∈ cs, TokenFree c := forall_of_mapM (M := fun cs => ∀ c ∈ cs, TokenFree c) hf
    fun m hm cs hcs c hmem =>
      tokenFree_memberConditions (hv m hm) (fun column => hc m hm cs column hcs (List.ne_nil_of_mem hmem)) hcs c hmem
  intro c hmem
  rcases List.mem_append.mp hmem with hmem | hmem
  · obtain ⟨cs, hcs, hin⟩ := List.mem_flatten.mp hmem
    exact hfields cs hcs c hin
  · split at hd
    · rename_i hflag
      obtain ⟨table, ht, rfl⟩ := exclusion_eq_ok hd
      obtain rfl := List.mem_singleton.mp hmem
      refine (tokenFree_append_iff (Or.inr ?_)).mpr ⟨ha hflag table ht, ?_⟩
      · decide
      · exact tokenFree_of_unopened (by decide)
    · cases hd
      cases hmem

end ExportQuery.Filter

namespace ExportQuery.Sql

open ExportQuery.Text

/-! ## Names read off a query -/

theorem word?_within {s w : Text} (h : word? s = some w) : w <:+: s := by
  unfold word? at h
  split at h
  · cases h
    exact ⟨[], (takeWord s).2, by rw [List.nil_append, takeWord_append]⟩
  · cases h

theorem dropBlanks?_within {s r : Text} (h : dropBlanks? s = some r) : r <:+: s := by
  obtain ⟨w, -, -, rfl, -⟩ := dropBlanks?_eq_some_iff.mp h
  exact ⟨w, [], by simp⟩

theorem dropWord?_within {word s r : Text} (h : dropWord? word s = some r) : r <:+: s := by
  obtain ⟨k, -, rfl⟩ := dropWord?_eq_some_iff.mp h
  exact ⟨k, [], by simp⟩

theorem aliasAfter?_within {s w : Text} (h : aliasAfter? s = some w) : w <:+: s := by
  obtain ⟨r, hr, h⟩ := Option.bind_eq_some_iff.mp h
  refine List.IsInfix.trans ?_ (dropBlanks?_within hr)
  rcases Option.or_eq_some_iff.mp h with h | ⟨-, h⟩
  · obtain ⟨r', hr', h⟩ := Option.bind_eq_some_iff.mp h
    obtain ⟨r'', hr'', hb⟩ := Option.bind_eq_some_iff.mp hr'
    exact (word?_within h).trans ((dropBlanks?_within hb).trans (dropWord?_within hr''))
  · exact word?_within h

/-- The alias of the submission table stands in the query. -/
theorem submissionAlias?_within {s w : Text} (h : submissionAlias? s = some w) : w <:+: s := by
  rcases Option.or_eq_some_iff.mp h with h | ⟨-, h⟩
  · obtain ⟨u, v, rfl, -, h⟩ := seekSome_nil_iff.mp h
    unfold submissionTableAt? at h
    split at h
    · cases h
    obtain ⟨r, hr, h⟩ := Option.bind_eq_some_iff.mp (Option.filter_eq_some_iff.mp h).1
    exact ((aliasAfter?_within h).trans (dropWord?_within hr)).trans (List.suffix_append u v).isInfix
  · obtain ⟨u, v, rfl, -, h⟩ := seekSome_nil_iff.mp h
    unfold submissionColumnAt? at h
    split at h
    · cases h
    obtain ⟨w', hw, h⟩ := Option.bind_eq_some_iff.mp h
    obtain ⟨_, -, rfl⟩ := Option.map_eq_some_iff.mp h
    exact (word?_within hw).trans (List.suffix_append u v).isInfix

end ExportQuery.Sql

namespace ExportQuery.Period

open ExportQuery.Text ExportQuery.Calendar ExportQuery.Sql

/-! ## Conditions of periods -/

section

variable {column table condition : Text} {today : Date}

theorem tokenFree_date (d : Date) : TokenFree d.text := tokenFree_of_underscore fun h => by
  rcases mem_date h with h | h | h
  · exact absurd h (by decide)
  · cases h
  · cases h

theorem sealed_window (hc : TokenFree column) (w : Window) : Sealed (w.sql column) := by
  have hcall : Sealed "DATE(".toList := sealed_of (by decide)
  cases w with
  | on date => exact (((hcall.text hc).sep (separator_of (by decide))).text (tokenFree_date date)).sep (separator_of (by decide))
  | through date =>
    exact (((hcall.text hc).sep (separator_of (by decide))).text (tokenFree_date date)).sep (separator_of (by decide))
  | between first last =>
    have hfirst := ((hcall.text hc).sep (q := ") BETWEEN '".toList) (separator_of (by decide))).text (tokenFree_date first)
    exact ((hfirst.sep (separator_of (by decide))).text (tokenFree_date last)).sep (separator_of (by decide))

theorem tokenFree_qualified (ht : TokenFree table) (hc : TokenFree column) : TokenFree (qualified table column) := by
  have h := (ht.sep (q := ['.']) (separator_of (by decide))).text hc
  rwa [List.append_assoc] at h

theorem Criterion.tokenFree_column (k : Criterion) : TokenFree k.column := by
  cases k <;> exact tokenFree_of_unopened (by decide)

theorem tokenFree_columnCondition (ht : (window? today condition).isSome = true → TokenFree table) (hc : TokenFree column) :
    TokenFree (columnCondition today condition column table) := by
  have hspace : Sealed [' '] := sealed_of (by decide)
  unfold columnCondition
  split
  · rename_i w hw
    exact hspace.text (sealed_window (tokenFree_qualified (ht (by rw [hw]; rfl)) hc) w).free
  · exact tokenFree_of_unopened (by decide)

theorem tokenFree_loginCondition (ht : (window? today condition).isSome = true → TokenFree table) :
    TokenFree (loginCondition today condition table) := by
  have hopen : Sealed " (".toList := sealed_of (by decide)
  have update : TokenFree "updated_at".toList := tokenFree_of_unopened (by decide)
  have login : TokenFree "last_login_at".toList := tokenFree_of_unopened (by decide)
  unfold loginCondition
  split
  · rename_i w hw
    have ht := ht (by rw [hw]; rfl)
    have hupdate := sealed_window (tokenFree_qualified ht update) w
    have hlogin := sealed_window (tokenFree_qualified ht login) w
    exact ((((hopen.text hupdate.free).sep (separator_of (by decide))).text hlogin.free).sep (separator_of (by decide))).free
  · exact tokenFree_of_unopened (by decide)

end

end ExportQuery.Period

namespace ExportQuery.Assembler

open ExportQuery.Text ExportQuery.Sql ExportQuery.Period

/-- The condition of a period holds no token, when the alias it is written with holds none. -/
theorem tokenFree_periodSql {a : Assembler} {s condition sql : Text} {outer : Outer} {criterion : Criterion} (hs : TokenFree s)
    (hf : TokenFree a.options.submissionFallback)
    (ha : criterion.aliasSource = .outerTable → (window? a.today condition).isSome = true →
      ∀ table, outerAlias? outer.head = some table → TokenFree table)
    (h : a.periodSql s outer condition criterion = .ok sql) : TokenFree sql := by
  obtain ⟨table, hsql, hfrom⟩ := periodSql_cases h
  have htable : (window? a.today condition).isSome = true → TokenFree table := by
    intro hw
    rcases hfrom with ⟨hsource, ht⟩ | ⟨-, rfl⟩
    · exact ha hsource hw table ht
    · cases hsub : submissionAlias? s with
      | none => exact hf
      | some w => exact hs.within (submissionAlias?_within hsub)
  rcases hsql with rfl | rfl
  · exact tokenFree_loginCondition htable
  · exact tokenFree_columnCondition htable criterion.tokenFree_column

end ExportQuery.Assembler
