/-
  ExportQuery.Proofs.Enquoted — where the texts of a user stand in conditions.

  A condition is put together from words of its own, the column, and texts that the user gave. The
  user's texts are put between quotes that the words bring along: one pair around each, also
  inside a call. As long as no text of a user holds a quote, it stands behind an odd number of them
  and cannot close its literal, and the quotes of every condition are paired.

  - `Span`: a part of a condition, with whose it is; `conditionSpans` are the conditions of an
    input in parts, `conditions_spans` says that they are the conditions.
  - `Leads`: parts that lead from a place outside literals, or inside one, to another.
  - `conditions_enquoted`: no text of a user leaves its literal.
-/

import ExportQuery.Proofs.Condition

namespace ExportQuery.Filter

open ExportQuery.Text ExportQuery.Sql ExportQuery.Json

/-! ## Conditions in parts -/

/-- A part of a condition: words of its own, or a text that the user gave. -/
inductive Span where
  | own (s : Text)
  | given (s : Text)
  deriving DecidableEq, Repr

def Span.text : Span → Text
  | .own s => s
  | .given s => s

/-- The condition made of the parts. -/
def render (l : List Span) : Text := l.flatMap Span.text

/-- The text of a scalar. -/
def scalar : Value → Text
  | .string s => s
  | .number n => n.text
  | .bool b => if b then ['1'] else ['0']
  | _ => []

def literalSpans (s : Text) : List Span := [.own ['\''], .given s, .own ['\'']]

def inListSpans (column : Text) (items : List Text) : List (List Span) :=
  if items.isEmpty then []
  else [.own column :: .own " IN (".toList :: List.intercalate [.own ", ".toList] (items.map literalSpans) ++ [.own [')']]]

def pageDateSpans (s : Text) : List Span :=
  .own "STR_TO_DATE(".toList :: literalSpans s ++ [.own ", '%Y/%m/%d')".toList]

def dateRangeSpans (column : Text) (range : List (Text × Value)) : List (List Span) :=
  match bound? "start_date".toList range, bound? "end_date".toList range with
  | some first, some last =>
    let date : List Span := [.own "DATE(".toList, .own column, .own [')']]
    if first = last then [date ++ .own " = ".toList :: pageDateSpans first]
    else [date ++ .own " BETWEEN ".toList :: pageDateSpans first ++ .own " AND ".toList :: pageDateSpans last]
  | _, _ => []

def likeSpans (column s : Text) : List Span := [.own column, .own " LIKE '%".toList, .given s, .own "%'".toList]

def containsSpans (column item : Text) (path : List Span) : List Span :=
  [.own "JSON_CONTAINS(".toList, .own column, .own ", '\"".toList, .given item, .own "\"', '".toList] ++ path ++
    [.own "')".toList]

/-- The texts looked for at one path. -/
def searched : Value → List Text
  | .null => []
  | .array items => (items.filter (!isNull ·)).map scalar
  | v => [scalar v]

def pathSpans (column : Text) (path : Text × Value) : List (List Span) :=
  (searched path.2).map fun item => containsSpans column item [.own "$.".toList, .given path.1]

/-- The conditions of a field in parts. -/
def fieldSpans (column : Text) : FieldType → Value → List (List Span)
  | .date, .object range => dateRangeSpans column range
  | .freeText, .string s => if (trim s).isEmpty then [] else [likeSpans column s]
  | .json, .object paths => paths.flatMap (pathSpans column)
  | .json, .string s => [containsSpans column s [.own ['$']]]
  | .checkbox, .object options => inListSpans column ((options.filter (·.2.isFilled)).map (·.1))
  | _, .array items => inListSpans column (items.map scalar)
  | _, v => [.own column :: .own " = ".toList :: literalSpans (scalar v)]

def memberSpans (columns : List (Text × Text)) (input : Input) (m : Text × Value) : List (List Span) :=
  if m.2.isFilled then
    match get? m.1 columns with
    | some column => fieldSpans column (input.typeOf m.1) m.2
    | none => []
  else []

def exclusionSpans (alias? : Option Text) : List (List Span) :=
  alias?.toList.map fun table => [.own table, .own ".deleted_at IS NULL".toList]

/-- The conditions of an input in parts. -/
def conditionSpans (columns : List (Text × Text)) (input : Input) (flag : Text) (skip : Bool) (alias? : Option Text) :
    List (List Span) :=
  input.values.flatMap (memberSpans columns input) ++ if !skip && isTrue flag then exclusionSpans alias? else []

/-! ## The parts put together -/

@[simp] theorem render_nil : render [] = [] := rfl

@[simp] theorem render_own (s : Text) (l : List Span) : render (.own s :: l) = s ++ render l := rfl

@[simp] theorem render_given (s : Text) (l : List Span) : render (.given s :: l) = s ++ render l := rfl

@[simp] theorem render_append (a b : List Span) : render (a ++ b) = render a ++ render b := List.flatMap_append

@[simp] theorem render_literal (s : Text) : render (literalSpans s) = literal s := by
  simp [literalSpans, literal]

theorem render_intercalate (sep : List Span) (parts : List (List Span)) :
    render (List.intercalate sep parts) = join (render sep) (parts.map render) := by
  induction parts with
  | nil => rfl
  | cons p parts ih =>
    cases parts with
    | nil => rw [List.intercalate_singleton, List.map_singleton, join_singleton]
    | cons q parts =>
      rw [List.map_cons, join_cons _ _ (by simp), ← ih, List.intercalate_cons_cons, render_append, render_append]

theorem render_inList (column : Text) (items : List Text) : (inListSpans column items).map render = inList column items := by
  unfold inListSpans inList
  split
  · rfl
  · have hl : (items.map literalSpans).map render = items.map literal := by simp
    simp [render_intercalate, hl]

theorem render_pageDate (s : Text) : render (pageDateSpans s) = pageDate s := by
  unfold pageDateSpans pageDate
  rw [List.cons_append, render_own, render_append, render_literal, render_own, render_nil, List.append_nil, List.append_assoc]

theorem render_dateRange (column : Text) (range : List (Text × Value)) :
    (dateRangeSpans column range).map render = dateRange column range := by
  have date : render [.own "DATE(".toList, .own column, .own [')']] = "DATE(".toList ++ column ++ [')'] := by
    simp only [render_own, render_nil, List.append_nil, List.append_assoc]
  unfold dateRangeSpans dateRange
  generalize bound? "start_date".toList range = first?
  generalize bound? "end_date".toList range = last?
  cases first? with
  | none => rfl
  | some first =>
    cases last? with
    | none => rfl
    | some last =>
      dsimp only
      split
      · rw [List.map_singleton, render_append, date, render_own, render_pageDate, ← List.append_assoc]
      · rw [List.map_singleton, List.append_assoc, render_append, date, List.cons_append, render_own, render_append,
          render_own, render_pageDate, render_pageDate]
        simp only [List.append_assoc]

theorem render_like (column s : Text) : render (likeSpans column s) = column ++ " LIKE '%".toList ++ s ++ "%'".toList := by
  simp only [likeSpans, render_own, render_given, render_nil, List.append_nil, List.append_assoc]

theorem render_contains (column item : Text) (path : List Span) :
    render (containsSpans column item path) = contains column item (render path) := by
  unfold containsSpans contains
  simp only [render_append, render_own, render_given, render_nil, List.append_nil, List.append_assoc]

section

variable {field column : Text}

theorem scalarText_eq {v : Value} {s : Text} (h : scalarText field v = .ok s) : s = scalar v := by
  unfold scalarText at h
  split at h
  · exact (Except.ok.inj h).symm
  · exact (Except.ok.inj h).symm
  · exact (Except.ok.inj h).symm
  · exact (Except.ok.inj h).symm
  · cases h

/-- Steps whose results are known yield those results. -/
theorem eq_map_of_mapM {α β ε : Type} {f : α → Except ε β} {g : α → β} {items : List α} {results : List β}
    (h : items.mapM f = .ok results) (hf : ∀ x y, f x = .ok y → y = g x) : results = items.map g := by
  induction items generalizing results with
  | nil =>
    cases h
    rfl
  | cons x items ih =>
    obtain ⟨y, ys, hx, hm, rfl⟩ := mapM_cons_ok h
    rw [hf x y hx, ih hm, List.map_cons]

theorem pathItems_eq {v : Value} {items : List Text} (h : pathItems field v = .ok items) : items = searched v := by
  unfold pathItems at h
  split at h
  · cases h
    rfl
  · exact eq_map_of_mapM h fun _ _ => scalarText_eq
  · rename_i hnull harray
    obtain ⟨s, hs, rfl⟩ := exists_of_map h
    rw [scalarText_eq hs]
    cases v with
    | null => exact absurd rfl hnull
    | array items => exact absurd rfl (harray items)
    | _ => rfl

theorem pathConditions_spans {m : Text × Value} {cs : List Text} (h : pathConditions field column m = .ok cs) :
    cs = (pathSpans column m).map render := by
  obtain ⟨items, hi, rfl⟩ := exists_of_map h
  rw [pathItems_eq hi, pathSpans, List.map_map]
  refine List.map_congr_left fun item _ => ?_
  rw [Function.comp_apply, render_contains, render_own, render_given, render_nil, List.append_nil]

theorem fieldConditions_spans {type : FieldType} {v : Value} {cs : List Text} (h : fieldConditions field column type v = .ok cs) :
    cs = (fieldSpans column type v).map render := by
  have scalars {items : List Value} {texts : List Text} (h : items.mapM (scalarText field) = .ok texts) :
      texts = items.map scalar :=
    eq_map_of_mapM h fun _ _ => scalarText_eq
  unfold fieldConditions at h
  split at h
  case h_1 range =>
    cases h
    exact (render_dateRange column range).symm
  case h_2 s =>
    cases h
    rw [fieldSpans]
    split
    · rfl
    · rw [List.map_singleton, render_like]
  case h_3 paths =>
    obtain ⟨all, hm, rfl⟩ := exists_of_map h
    rw [fieldSpans, eq_map_of_mapM hm fun _ _ => pathConditions_spans, List.map_flatMap, List.flatMap_def]
  case h_4 s =>
    cases h
    rw [fieldSpans, List.map_singleton, render_contains]
    rfl
  case h_5 options =>
    cases h
    exact (render_inList column _).symm
  case h_6 items =>
    obtain ⟨texts, hm, rfl⟩ := exists_of_map h
    rw [scalars hm, ← render_inList]
    cases type <;> rfl
  case h_7 harray hdate htext hpaths hjson hoptions =>
    obtain ⟨s, hs, rfl⟩ := exists_of_map h
    rw [fieldSpans, scalarText_eq hs]
    · simp
    all_goals assumption

theorem memberConditions_spans {columns : List (Text × Text)} {input : Input} {m : Text × Value} {cs : List Text}
    (h : memberConditions columns input m = .ok cs) : cs = (memberSpans columns input m).map render := by
  unfold memberConditions at h
  unfold memberSpans
  by_cases filled : m.2.isFilled = true
  · rw [if_pos filled] at h ⊢
    obtain hcolumn | ⟨column, hcolumn⟩ := (get? m.1 columns).eq_none_or_eq_some
    · rw [hcolumn] at h ⊢
      exact (Except.ok.inj h).symm
    · rw [hcolumn] at h ⊢
      exact fieldConditions_spans h
  · rw [if_neg filled] at h ⊢
    exact (Except.ok.inj h).symm

end

theorem exclusion_spans {alias? : Option Text} {cs : List Text} (h : exclusion alias? = .ok cs) :
    cs = (exclusionSpans alias?).map render := by
  obtain ⟨table, rfl, rfl⟩ := exclusion_eq_ok h
  simp only [exclusionSpans, Option.toList_some, List.map_singleton, render_own, render_nil, List.append_nil]

/-- The conditions of an input, when it has any to give, are its conditions in parts, put together. -/
theorem conditions_spans {columns : List (Text × Text)} {input : Input} {flag : Text} {skip : Bool} {alias? : Option Text}
    {cs : List Text} (h : conditions columns input flag skip alias? = .ok cs) :
    cs = (conditionSpans columns input flag skip alias?).map render := by
  obtain ⟨fields, deletion, hf, rfl, hd⟩ := conditions_eq_ok h
  have hfields : fields.flatten = (input.values.flatMap (memberSpans columns input)).map render := by
    rw [eq_map_of_mapM hf fun _ _ => memberConditions_spans, List.map_flatMap, List.flatMap_def]
  have hdeletion : deletion = (if !skip && isTrue flag then exclusionSpans alias? else []).map render := by
    split at hd
    · rename_i hflag
      rw [if_pos hflag]
      exact exclusion_spans hd
    · rename_i hflag
      rw [if_neg hflag]
      exact (Except.ok.inj hd).symm
  rw [conditionSpans, List.map_append, hfields, hdeletion]

/-! ## Texts of a user -/

/-- The strings in a scalar or in the items of a list. -/
def strings : Value → List Text
  | .string s => [s]
  | .array items => items.filterMap fun
    | .string s => some s
    | _ => none
  | _ => []

/-- The texts a user gives with a value: the ends of a date range, the names of paths with the strings
    at them, the names of options, and else strings and the strings in a list. -/
def entered : FieldType → Value → List Text
  | .date, .object range => (bound? "start_date".toList range).toList ++ (bound? "end_date".toList range).toList
  | .json, .object paths => paths.flatMap fun m => m.1 :: strings m.2
  | .checkbox, .object options => options.map (·.1)
  | _, v => strings v

theorem scalar_unquoted {v : Value} (h : ∀ s ∈ strings v, '\'' ∉ s) : '\'' ∉ scalar v := by
  cases v with
  | string s => exact h s (by simp [strings])
  | number n => exact fun hm => absurd (numeric_number hm) (by decide)
  | bool b => cases b <;> decide
  | null => exact List.not_mem_nil
  | array items => exact List.not_mem_nil
  | object members => exact List.not_mem_nil

theorem item_unquoted {items : List Value} {v : Value} (h : ∀ s ∈ strings (.array items), '\'' ∉ s) (hv : v ∈ items) :
    '\'' ∉ scalar v := by
  cases v with
  | string s => exact h s (List.mem_filterMap.mpr ⟨.string s, hv, rfl⟩)
  | array items => exact List.not_mem_nil
  | _ => exact scalar_unquoted (by simp [strings])

theorem searched_unquoted {v : Value} (h : ∀ s ∈ strings v, '\'' ∉ s) : ∀ s ∈ searched v, '\'' ∉ s := by
  intro s hs
  unfold searched at hs
  split at hs
  · cases hs
  · obtain ⟨w, hw, rfl⟩ := List.mem_map.mp hs
    exact item_unquoted h (List.mem_filter.mp hw).1
  · obtain rfl := List.mem_singleton.mp hs
    exact scalar_unquoted h

/-! ## Quotes -/

/-- The words that conditions are put together with. -/
def phrases : List Text :=
  ["'", " IN (", ", ", ")", " = ", " LIKE '%", "%'", "JSON_CONTAINS(", ", '\"", "\"', '", "')", "$.", "$", "DATE(",
    "STR_TO_DATE(", ", '%Y/%m/%d')", " BETWEEN ", " AND ", ".deleted_at IS NULL"].map String.toList

/-- Parts that lead from a place to another, `true` for inside a literal: texts given stand inside
    and hold no quote, and the quotes of the other parts count. -/
inductive Leads (P : Text → Prop) : Bool → List Span → Bool → Prop where
  | nil (b : Bool) : Leads P b [] b
  | aside {b b' : Bool} {s : Text} {l : List Span} (own : P s) (even : oddQuotes s = false) (rest : Leads P b l b') :
      Leads P b (.own s :: l) b'
  | across {b b' : Bool} {s : Text} {l : List Span} (own : P s) (odd : oddQuotes s = true) (rest : Leads P (!b) l b') :
      Leads P b (.own s :: l) b'
  | given {b' : Bool} {s : Text} {l : List Span} (unquoted : '\'' ∉ s) (rest : Leads P true l b') :
      Leads P true (.given s :: l) b'

section

variable {P : Text → Prop} {b b' b'' : Bool} {l l' : List Span} {s column : Text}

theorem Leads.append (h : Leads P b l b') (h' : Leads P b' l' b'') : Leads P b (l ++ l') b'' := by
  induction h with
  | nil => exact h'
  | aside own even _ ih => exact .aside own even (ih h')
  | across own odd _ ih => exact .across own odd (ih h')
  | given unquoted _ ih => exact .given unquoted (ih h')

theorem Leads.parity (h : Leads P b l b') : (b != oddQuotes (render l)) = b' := by
  induction h with
  | nil b => cases b <;> rfl
  | aside _ even _ ih => rw [render_own, oddQuotes_append, even, ← ih]; simp
  | across _ odd _ ih => rw [render_own, oddQuotes_append, odd, ← ih]; simp
  | given unquoted _ ih => rw [render_given, oddQuotes_append, oddQuotes_of_not_mem unquoted, ← ih]; simp

theorem Leads.own_of_mem (h : Leads P b l b') (hs : .own s ∈ l) : P s := by
  induction h with
  | nil => cases hs
  | aside own _ _ ih =>
    rcases List.mem_cons.mp hs with e | hs
    · cases e
      exact own
    · exact ih hs
  | across own _ _ ih =>
    rcases List.mem_cons.mp hs with e | hs
    · cases e
      exact own
    · exact ih hs
  | given _ _ ih =>
    rcases List.mem_cons.mp hs with e | hs
    · cases e
    · exact ih hs

/-- Parts put one behind the other meet at a place. -/
theorem Leads.of_append (h : Leads P b (l ++ l') b'') : ∃ b', Leads P b l b' ∧ Leads P b' l' b'' := by
  induction l generalizing b with
  | nil => exact ⟨b, .nil b, h⟩
  | cons x l ih =>
    cases h with
    | aside own even rest =>
      obtain ⟨b', hl, hl'⟩ := ih rest
      exact ⟨b', .aside own even hl, hl'⟩
    | across own odd rest =>
      obtain ⟨b', hl, hl'⟩ := ih rest
      exact ⟨b', .across own odd hl, hl'⟩
    | given unquoted rest =>
      obtain ⟨b', hl, hl'⟩ := ih rest
      exact ⟨b', .given unquoted hl, hl'⟩

/-- A text given stands behind an odd number of quotes, and so does every place in it. -/
theorem Leads.inside {before after : List Span} {p : Text} (h : Leads P false (before ++ .given s :: after) b') (hp : p <+: s) :
    oddQuotes (render before ++ p) = true := by
  obtain ⟨c, hbefore, hgiven⟩ := h.of_append
  cases hgiven with
  | given unquoted _ =>
    rw [oddQuotes_append, oddQuotes_of_not_mem fun hm => unquoted (hp.subset hm)]
    simpa using hbefore.parity

theorem leads_intercalate {sep : List Span} {parts : List (List Span)} (hsep : Leads P false sep false)
    (h : ∀ p ∈ parts, Leads P false p false) : Leads P false (List.intercalate sep parts) false := by
  induction parts with
  | nil => exact .nil false
  | cons p parts ih =>
    have hp := h p (by simp)
    have ih := ih fun q hq => h q (by simp [hq])
    cases parts with
    | nil => rwa [List.intercalate_singleton]
    | cons q parts =>
      rw [List.intercalate_cons_cons]
      exact (hp.append hsep).append ih

/-! ## The conditions of a field -/

section

variable (words : ∀ s ∈ phrases, P s)

include words

theorem leads_literal (hs : '\'' ∉ s) : Leads P false (literalSpans s) false :=
  .across (words _ (by decide)) (by decide) (.given hs (.across (words _ (by decide)) (by decide) (.nil _)))

theorem leads_inList (hc : P column) (he : oddQuotes column = false) {items : List Text} (hi : ∀ s ∈ items, '\'' ∉ s) :
    ∀ l ∈ inListSpans column items, Leads P false l false := by
  unfold inListSpans
  split
  · simp
  · intro l hl
    obtain rfl := List.mem_singleton.mp hl
    have sep : Leads P false [.own ", ".toList] false := .aside (words _ (by decide)) (by decide) (.nil _)
    have close : Leads P false [.own [')']] false := .aside (words _ (by decide)) (by decide) (.nil _)
    have list : Leads P false (List.intercalate [.own ", ".toList] (items.map literalSpans)) false := by
      refine leads_intercalate sep fun p hp => ?_
      obtain ⟨s, hs, rfl⟩ := List.mem_map.mp hp
      exact leads_literal words (hi s hs)
    exact .aside hc he (.aside (words _ (by decide)) (by decide) (list.append close))

theorem leads_pageDate (hs : '\'' ∉ s) : Leads P false (pageDateSpans s) false := by
  have close : Leads P false [.own ", '%Y/%m/%d')".toList] false := .aside (words _ (by decide)) (by decide) (.nil _)
  exact .aside (words _ (by decide)) (by decide) ((leads_literal words hs).append close)

theorem leads_dateRange (hc : P column) (he : oddQuotes column = false) {range : List (Text × Value)}
    (hb : ∀ key s, bound? key range = some s → key = "start_date".toList ∨ key = "end_date".toList → '\'' ∉ s) :
    ∀ l ∈ dateRangeSpans column range, Leads P false l false := by
  have date : Leads P false [.own "DATE(".toList, .own column, .own [')']] false :=
    .aside (words _ (by decide)) (by decide) (.aside hc he (.aside (words _ (by decide)) (by decide) (.nil _)))
  unfold dateRangeSpans
  split
  · rename_i first last hfirst hlast
    have hfirst := leads_pageDate words (hb _ _ hfirst (Or.inl rfl))
    have hlast := leads_pageDate words (hb _ _ hlast (Or.inr rfl))
    split
    · intro l hl
      obtain rfl := List.mem_singleton.mp hl
      exact date.append (.aside (words _ (by decide)) (by decide) hfirst)
    · intro l hl
      obtain rfl := List.mem_singleton.mp hl
      have between : Leads P false (.own " BETWEEN ".toList :: pageDateSpans first) false :=
        .aside (words _ (by decide)) (by decide) hfirst
      have upTo : Leads P false (.own " AND ".toList :: pageDateSpans last) false :=
        .aside (words _ (by decide)) (by decide) hlast
      exact (date.append between).append upTo
  · simp

theorem leads_like (hc : P column) (he : oddQuotes column = false) (hs : '\'' ∉ s) : Leads P false (likeSpans column s) false :=
  .aside hc he (.across (words _ (by decide)) (by decide) (.given hs (.across (words _ (by decide)) (by decide) (.nil _))))

/-- The path stands inside the second literal. -/
theorem leads_contains (hc : P column) (he : oddQuotes column = false) (hs : '\'' ∉ s) {path : List Span}
    (hpath : Leads P true path true) : Leads P false (containsSpans column s path) false := by
  have item :
      Leads P false [.own "JSON_CONTAINS(".toList, .own column, .own ", '\"".toList, .given s, .own "\"', '".toList] true :=
    .aside (words _ (by decide)) (by decide) (.aside hc he (.across (words _ (by decide)) (by decide)
      (.given hs (.aside (words _ (by decide)) (by decide) (.nil _)))))
  exact (item.append hpath).append (.across (words _ (by decide)) (by decide) (.nil _))

theorem leads_pathSpans (hc : P column) (he : oddQuotes column = false) {m : Text × Value} (hname : '\'' ∉ m.1)
    (hv : ∀ s ∈ strings m.2, '\'' ∉ s) : ∀ l ∈ pathSpans column m, Leads P false l false := by
  intro l hl
  obtain ⟨item, hitem, rfl⟩ := List.mem_map.mp hl
  exact leads_contains words hc he (searched_unquoted hv item hitem)
    (.aside (words _ (by decide)) (by decide) (.given hname (.nil _)))

theorem leads_fieldSpans (hc : P column) (he : oddQuotes column = false) {type : FieldType} {v : Value}
    (hv : ∀ s ∈ entered type v, '\'' ∉ s) : ∀ l ∈ fieldSpans column type v, Leads P false l false := by
  unfold fieldSpans
  split
  case h_1 range =>
    refine leads_dateRange words hc he fun key s hs hkey => hv s ?_
    rw [entered]
    rcases hkey with rfl | rfl
    · simp only [hs, Option.toList_some, List.mem_append, List.mem_singleton, true_or]
    · simp only [hs, Option.toList_some, List.mem_append, List.mem_singleton, or_true]
  case h_2 s =>
    split
    · simp
    · intro l hl
      obtain rfl := List.mem_singleton.mp hl
      exact leads_like words hc he (hv s (by simp [entered, strings]))
  case h_3 paths =>
    intro l hl
    obtain ⟨m, hm, hl⟩ := List.mem_flatMap.mp hl
    refine leads_pathSpans words hc he (hv m.1 ?_) (fun s hs => hv s ?_) l hl
    · exact List.mem_flatMap.mpr ⟨m, hm, List.mem_cons_self⟩
    · exact List.mem_flatMap.mpr ⟨m, hm, List.mem_cons_of_mem _ hs⟩
  case h_4 s =>
    intro l hl
    obtain rfl := List.mem_singleton.mp hl
    exact leads_contains words hc he (hv s (by simp [entered, strings])) (.aside (words _ (by decide)) (by decide) (.nil _))
  case h_5 options =>
    refine leads_inList words hc he fun s hs => ?_
    obtain ⟨m, hm, rfl⟩ := List.mem_map.mp hs
    exact hv m.1 (List.mem_map.mpr ⟨m, (List.mem_filter.mp hm).1, rfl⟩)
  case h_6 items =>
    refine leads_inList words hc he fun s hs => ?_
    obtain ⟨v, hmem, rfl⟩ := List.mem_map.mp hs
    exact item_unquoted (by simpa [entered] using hv) hmem
  case h_7 harray hdate _ hpaths _ hoptions =>
    intro l hl
    obtain rfl := List.mem_singleton.mp hl
    have hs : '\'' ∉ scalar v := scalar_unquoted (by rwa [entered] at hv <;> assumption)
    exact .aside hc he (.aside (words _ (by decide)) (by decide) (leads_literal words hs))

theorem leads_memberSpans {columns : List (Text × Text)} {input : Input} {m : Text × Value} (hc : ∀ c ∈ columns, P c.2)
    (he : ∀ c ∈ columns, oddQuotes c.2 = false) (hv : ∀ s ∈ entered (input.typeOf m.1) m.2, '\'' ∉ s) :
    ∀ l ∈ memberSpans columns input m, Leads P false l false := by
  unfold memberSpans
  split
  · split
    · rename_i column hcolumn
      have hmem := mem_of_get? hcolumn
      exact leads_fieldSpans words (hc _ hmem) (he _ hmem) hv
    · simp
  · simp

theorem leads_exclusion {alias? : Option Text} (ha : ∀ table, alias? = some table → P table ∧ '\'' ∉ table) :
    ∀ l ∈ exclusionSpans alias?, Leads P false l false := by
  intro l hl
  obtain ⟨table, ht, rfl⟩ := List.mem_map.mp hl
  obtain ⟨hp, hq⟩ := ha table (Option.mem_toList.mp ht)
  exact .aside hp (oddQuotes_of_not_mem hq) (.aside (words _ (by decide)) (by decide) (.nil _))

end

end

/-! ## The conditions of an input -/

/-- A text that is not the user's: words of conditions, an expression of a column, the alias. -/
def Fixed (columns : List (Text × Text)) (alias? : Option Text) (s : Text) : Prop :=
  s ∈ phrases ∨ s ∈ columns.map (·.2) ∨ alias? = some s

theorem leads_conditionSpans {columns : List (Text × Text)} {input : Input} {alias? : Option Text} (flag : Text) (skip : Bool)
    (hcolumns : ∀ m ∈ columns, oddQuotes m.2 = false) (halias : ∀ table, alias? = some table → '\'' ∉ table)
    (hentered : ∀ m ∈ input.values, ∀ s ∈ entered (input.typeOf m.1) m.2, '\'' ∉ s) :
    ∀ l ∈ conditionSpans columns input flag skip alias?, Leads (Fixed columns alias?) false l false := by
  have words : ∀ s ∈ phrases, Fixed columns alias? s := fun s hs => Or.inl hs
  have own : ∀ m ∈ columns, Fixed columns alias? m.2 := fun m hm => Or.inr (Or.inl (List.mem_map.mpr ⟨m, hm, rfl⟩))
  intro l hl
  rcases List.mem_append.mp hl with hl | hl
  · obtain ⟨m, hm, hl⟩ := List.mem_flatMap.mp hl
    exact leads_memberSpans words own hcolumns (hentered m hm) l hl
  · split at hl
    · exact leads_exclusion words (fun table ht => ⟨Or.inr (Or.inr ht), halias table ht⟩) l hl
    · cases hl

/-- Where no text of a user holds a quote, the quotes of every condition are paired, and every
    place in a text of a user has an odd number of them before it in its condition: the text
    stands in a literal. On the first line of a condition the scanner of comments counts the same
    quotes. Nothing else in the condition is the user's. -/
theorem conditions_enquoted {columns : List (Text × Text)} {input : Input} {flag : Text} {skip : Bool} {alias? : Option Text}
    {cs : List Text} (hcolumns : ∀ m ∈ columns, oddQuotes m.2 = false) (halias : ∀ table, alias? = some table → '\'' ∉ table)
    (hentered : ∀ m ∈ input.values, ∀ s ∈ entered (input.typeOf m.1) m.2, '\'' ∉ s)
    (h : conditions columns input flag skip alias? = .ok cs) :
    cs = (conditionSpans columns input flag skip alias?).map render ∧ (∀ c ∈ cs, oddQuotes c = false) ∧
    ∀ l ∈ conditionSpans columns input flag skip alias?, (∀ s, .own s ∈ l → Fixed columns alias? s) ∧
      ∀ before s after, l = before ++ .given s :: after → ∀ p, p <+: s → oddQuotes (render before ++ p) = true ∧
        ('\n' ∉ render before ++ p → inLiteral (render before ++ p).reverse = true) := by
  have hleads := leads_conditionSpans flag skip hcolumns halias hentered
  obtain rfl := conditions_spans h
  refine ⟨rfl, fun c hc => ?_, fun l hl => ⟨fun s => (hleads l hl).own_of_mem, ?_⟩⟩
  · obtain ⟨l, hl, rfl⟩ := List.mem_map.mp hc
    simpa using (hleads l hl).parity
  · rintro before s after rfl p hp
    have hodd := (hleads _ hl).inside hp
    exact ⟨hodd, fun hn => by rw [inLiteral_reverse, lineSoFar_of_not_mem hn, hodd]⟩

/-- A path with a list, a range and a free text that look like SQL, and a column with a literal. -/
theorem conditions_enquoted_lookalike :
    let columns := [("name".toList, "u.name".toList), ("skills".toList, "p.skills".toList),
      ("day".toList, "IF(u.day = '', 0, u.day)".toList)]
    let input : Input :=
      ⟨[("skills".toList, .object [("lang".toList, .array [.string "-- WHERE".toList, .null, .number (.integer 3)])]),
        ("day".toList,
          .object [("start_date".toList, .string " 2025/06/01".toList), ("end_date".toList, .string "2025/06/30".toList)]),
        ("name".toList, .string "a) OR (1 = 1".toList)],
        [("skills".toList, .json), ("day".toList, .date), ("name".toList, .freeText)]⟩
    let cs := ["JSON_CONTAINS(p.skills, '\"-- WHERE\"', '$.lang')".toList, "JSON_CONTAINS(p.skills, '\"3\"', '$.lang')".toList,
      ("DATE(IF(u.day = '', 0, u.day)) BETWEEN STR_TO_DATE('2025/06/01', '%Y/%m/%d') " ++
        "AND STR_TO_DATE('2025/06/30', '%Y/%m/%d')").toList,
      "u.name LIKE '%a) OR (1 = 1%'".toList, "u.deleted_at IS NULL".toList]
    let parts := conditionSpans columns input "true".toList false (some "u".toList)
    (∀ m ∈ columns, oddQuotes m.2 = false) ∧ (∀ table, some "u".toList = some table → '\'' ∉ table) ∧
      (∀ m ∈ input.values, ∀ s ∈ entered (input.typeOf m.1) m.2, '\'' ∉ s) ∧
      conditions columns input "true".toList false (some "u".toList) = .ok cs ∧
      cs = parts.map render ∧ (∀ c ∈ cs, oddQuotes c = false) ∧
      ∀ l ∈ parts, (∀ s, .own s ∈ l → Fixed columns (some "u".toList) s) ∧
        ∀ before s after, l = before ++ .given s :: after → ∀ p, p <+: s → oddQuotes (render before ++ p) = true ∧
          ('\n' ∉ render before ++ p → inLiteral (render before ++ p).reverse = true) := by
  intro columns input cs parts
  have hcolumns : ∀ m ∈ columns, oddQuotes m.2 = false := by decide
  have halias : ∀ table, some "u".toList = some table → '\'' ∉ table := by
    intro table ht
    obtain rfl := Option.some.inj ht
    decide
  have hentered : ∀ m ∈ input.values, ∀ s ∈ entered (input.typeOf m.1) m.2, '\'' ∉ s := by decide
  have h : conditions columns input "true".toList false (some "u".toList) = .ok cs := eq_ok_of_toOption (by decide +kernel)
  exact ⟨hcolumns, halias, hentered, h, conditions_enquoted hcolumns halias hentered h⟩

end ExportQuery.Filter
