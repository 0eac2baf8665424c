/-
  ExportQuery.Proofs.Unwritable — values that no condition can be written for.

  A literal holds a scalar. A value of several is taken apart when its type says how: a date by its
  ends, a JSON object by its paths, a checkbox by its options, an array by its items. Any other
  object is refused, and so is an array or object where a scalar is due. The first value refused
  refuses the whole input; a missing alias refuses it when no value does.

  - `Unwritable`: the values refused, by the type of their field; `Unsearchable`, those of a JSON path.
  - `Refuses`: what a step does, told from the condition under which it refuses; `Refuses.mapM`
    puts steps one after the other.
  - `fieldConditions_refuses` / `memberConditions_refuses`: the conditions of a field.
  - `conditions_refused`: when an input is refused, and for which field.
-/

import ExportQuery.Proofs.Predicate

namespace ExportQuery.Json

/-- An array or an object. -/
def Value.isComposite : Value → Bool
  | .array _ | .object _ => true
  | _ => false

end ExportQuery.Json

namespace ExportQuery.Filter

open ExportQuery.Text ExportQuery.Sql ExportQuery.Json

/-! ## Values refused -/

/-- An array or an object stands among the items. -/
def Deep (items : List Value) : Prop := ∃ v ∈ items, v.isComposite = true

/-- No text can be looked for at a path with the value. -/
inductive Unsearchable : Value → Prop where
  | object {members : List (Text × Value)} : Unsearchable (.object members)
  | items {items : List Value} (deep : Deep items) : Unsearchable (.array items)

/-- No condition can be written for a field of the type with the value. -/
inductive Unwritable : FieldType → Value → Prop where
  | items {type : FieldType} {items : List Value} (deep : Deep items) : Unwritable type (.array items)
  | path {paths : List (Text × Value)} {m : Text × Value} (mem : m ∈ paths) (value : Unsearchable m.2) :
      Unwritable .json (.object paths)
  | object {type : FieldType} {members : List (Text × Value)} (date : type ≠ .date) (json : type ≠ .json)
      (checkbox : type ≠ .checkbox) : Unwritable type (.object members)

/-- A member of the input is filled in and names a column, and no condition can be written for it. -/
structure Refused (columns : List (Text × Text)) (input : Input) (m : Text × Value) : Prop where
  filled : m.2.isFilled = true
  mapped : (get? m.1 columns).isSome = true
  unwritable : Unwritable (input.typeOf m.1) m.2

/-! ## Steps that refuse -/

/-- The step refuses an array or object of the field exactly when `p`, and else gives a result. -/
structure Refuses {α : Type} (field : Text) (step : Except FilterError α) (p : Prop) : Prop where
  ok : ¬ p → ∃ r, step = .ok r
  error : p → ∃ v, v.isComposite = true ∧ step = .error (.unsupportedValue field v)

section

variable {α β : Type} {field : Text} {p q : Prop}

theorem refuses_ok (r : α) : Refuses field (.ok r) False := ⟨fun _ => ⟨r, rfl⟩, False.elim⟩

theorem Refuses.congr {step : Except FilterError α} (h : Refuses field step p) (hq : p ↔ q) : Refuses field step q :=
  ⟨fun hn => h.ok fun hp => hn (hq.mp hp), fun hq' => h.error (hq.mpr hq')⟩

theorem Refuses.map {step : Except FilterError α} (h : Refuses field step p) (g : α → β) : Refuses field (step.map g) p where
  ok hn := by
    obtain ⟨r, rfl⟩ := h.ok hn
    exact ⟨g r, rfl⟩
  error hp := by
    obtain ⟨v, hv, rfl⟩ := h.error hp
    exact ⟨v, hv, rfl⟩

/-- Steps one after the other give their results when none refuses. -/
theorem mapM_ok {f : α → Except FilterError β} {items : List α} (h : ∀ x ∈ items, ∃ r, f x = .ok r) :
    ∃ rs, items.mapM f = .ok rs := by
  induction items with
  | nil => exact ⟨[], rfl⟩
  | cons x items ih =>
    obtain ⟨r, hr⟩ := h x (by simp)
    obtain ⟨rs, hrs⟩ := ih fun y hy => h y (by simp [hy])
    exact ⟨r :: rs, by rw [List.mapM_cons, hr, hrs]; rfl⟩

/-- They stop at the first one that refuses. -/
theorem mapM_error {f : α → Except FilterError β} {before after : List α} {x : α} {e : FilterError}
    (h : ∀ y ∈ before, ∃ r, f y = .ok r) (hx : f x = .error e) : (before ++ x :: after).mapM f = .error e := by
  induction before with
  | nil =>
    rw [List.nil_append, List.mapM_cons, hx]
    rfl
  | cons y before ih =>
    obtain ⟨r, hr⟩ := h y (by simp)
    rw [List.cons_append, List.mapM_cons, hr, ih fun z hz => h z (by simp [hz])]
    rfl

/-- Where something holds of an item, there is a first one. -/
theorem exists_first {p : α → Prop} {items : List α} (h : ∃ x ∈ items, p x) :
    ∃ before x after, items = before ++ x :: after ∧ p x ∧ ∀ y ∈ before, ¬ p y := by
  classical
  have hsome : (items.find? fun x => decide (p x)).isSome := by
    obtain ⟨x, hx, hp⟩ := h
    exact List.find?_isSome.mpr ⟨x, hx, decide_eq_true hp⟩
  obtain ⟨y, hy⟩ := Option.isSome_iff_exists.mp hsome
  obtain ⟨hp, before, after, e, hb⟩ := List.find?_eq_some_iff_append.mp hy
  exact ⟨before, y, after, e, of_decide_eq_true hp, fun z hz => by simpa using hb z hz⟩

theorem Refuses.mapM {f : α → Except FilterError β} {items : List α} {p : α → Prop}
    (h : ∀ x ∈ items, Refuses field (f x) (p x)) : Refuses field (items.mapM f) (∃ x ∈ items, p x) where
  ok hn := mapM_ok fun x hx => (h x hx).ok fun hp => hn ⟨x, hx, hp⟩
  error hp := by
    obtain ⟨before, x, after, rfl, hp, hb⟩ := exists_first hp
    obtain ⟨v, hv, hx⟩ := (h x (by simp)).error hp
    exact ⟨v, hv, mapM_error (fun y hy => (h y (by simp [hy])).ok (hb y hy)) hx⟩

/-! ## The conditions of a field -/

theorem scalarText_refuses (field : Text) (v : Value) : Refuses field (scalarText field v) (v.isComposite = true) := by
  cases v with
  | array items => exact ⟨fun h => absurd rfl h, fun _ => ⟨_, rfl, rfl⟩⟩
  | object members => exact ⟨fun h => absurd rfl h, fun _ => ⟨_, rfl, rfl⟩⟩
  | _ => exact (refuses_ok _).congr (by simp [Value.isComposite])

theorem arrayConditions_refuses (field column : Text) (items : List Value) :
    Refuses field (arrayConditions field column items) (Deep items) :=
  (Refuses.mapM fun v _ => scalarText_refuses field v).map _

theorem equality_refuses (field column : Text) (v : Value) : Refuses field (equality field column v) (v.isComposite = true) :=
  (scalarText_refuses field v).map _

/-- Null items are passed over, and refuse nothing. -/
theorem deep_filter {items : List Value} : Deep (items.filter (!isNull ·)) ↔ Deep items := by
  constructor
  · rintro ⟨v, hv, hc⟩
    exact ⟨v, (List.mem_filter.mp hv).1, hc⟩
  · rintro ⟨v, hv, hc⟩
    refine ⟨v, List.mem_filter.mpr ⟨hv, ?_⟩, hc⟩
    cases v with
    | null => cases hc
    | _ => rfl

theorem pathItems_refuses (field : Text) (v : Value) : Refuses field (pathItems field v) (Unsearchable v) := by
  have alone (v : Value) : Refuses field ((scalarText field v).map ([·])) (v.isComposite = true) :=
    (scalarText_refuses field v).map _
  cases v with
  | null => exact (refuses_ok _).congr ⟨nofun, nofun⟩
  | array items =>
    have h : Refuses field (pathItems field (.array items)) (Deep (items.filter (!isNull ·))) :=
      Refuses.mapM fun v _ => scalarText_refuses field v
    exact h.congr (deep_filter.trans ⟨.items, fun | .items deep => deep⟩)
  | object members => exact (alone (.object members)).congr ⟨fun _ => .object, fun _ => rfl⟩
  | bool b => exact (alone (.bool b)).congr ⟨nofun, nofun⟩
  | number n => exact (alone (.number n)).congr ⟨nofun, nofun⟩
  | string s => exact (alone (.string s)).congr ⟨nofun, nofun⟩

theorem pathConditions_refuses (field column : Text) (path : Text × Value) :
    Refuses field (pathConditions field column path) (Unsearchable path.2) :=
  (pathItems_refuses field path.2).map _

theorem unwritable_array {type : FieldType} {items : List Value} : Unwritable type (.array items) ↔ Deep items :=
  ⟨fun | .items deep => deep, .items⟩

theorem unwritable_paths {paths : List (Text × Value)} : Unwritable .json (.object paths) ↔ ∃ m ∈ paths, Unsearchable m.2 := by
  constructor
  · intro h
    cases h with
    | path mem value => exact ⟨_, mem, value⟩
    | object _ json _ => exact absurd rfl json
  · rintro ⟨m, mem, value⟩
    exact .path mem value

theorem fieldConditions_refuses (field column : Text) (type : FieldType) (v : Value) :
    Refuses field (fieldConditions field column type v) (Unwritable type v) := by
  unfold fieldConditions
  split
  case h_1 => exact (refuses_ok _).congr ⟨nofun, fun | .object date _ _ => date rfl⟩
  case h_2 => exact (refuses_ok _).congr ⟨nofun, nofun⟩
  case h_3 paths =>
    exact ((Refuses.mapM fun path _ => pathConditions_refuses field column path).map _).congr unwritable_paths.symm
  case h_4 => exact (refuses_ok _).congr ⟨nofun, nofun⟩
  case h_5 => exact (refuses_ok _).congr ⟨nofun, fun | .object _ _ checkbox => checkbox rfl⟩
  case h_6 items => exact (arrayConditions_refuses field column items).congr unwritable_array.symm
  case h_7 harray hdate _ hpaths _ hoptions =>
    refine (equality_refuses field column v).congr ⟨fun hc => ?_, fun h => ?_⟩
    · cases v with
      | array items => exact absurd rfl (harray items)
      | object members =>
        exact .object (fun ht => hdate members ht rfl) (fun ht => hpaths members ht rfl) fun ht => hoptions members ht rfl
      | _ => cases hc
    · cases h with
      | items => rfl
      | path => rfl
      | object => rfl

end

theorem memberConditions_refuses (columns : List (Text × Text)) (input : Input) (m : Text × Value) :
    Refuses m.1 (memberConditions columns input m) (Refused columns input m) := by
  unfold memberConditions
  split
  · rename_i filled
    split
    · rename_i column mapped
      exact (fieldConditions_refuses m.1 column _ m.2).congr
        ⟨fun h => ⟨filled, by rw [mapped]; rfl, h⟩, Refused.unwritable⟩
    · rename_i unmapped
      refine (refuses_ok _).congr ⟨False.elim, fun h => ?_⟩
      have := h.mapped
      rw [unmapped] at this
      cases this
  · rename_i empty
    exact (refuses_ok _).congr ⟨False.elim, fun h => empty h.filled⟩

/-- Members that are empty or name no column yield no conditions, whatever they hold. -/
theorem memberConditions_passed {columns : List (Text × Text)} {m : Text × Value} (input : Input)
    (h : ¬ (m.2.isFilled && (get? m.1 columns).isSome) = true) : memberConditions columns input m = .ok [] := by
  unfold memberConditions
  split
  · rename_i filled
    split
    · rename_i mapped
      rw [filled, mapped] at h
      exact absurd rfl h
    · rfl
  · rfl

/-! ## The conditions of an input -/

/-- Steps that yield nothing can be left out. -/
theorem flatten_mapM_filter {α β : Type} {f : α → Except FilterError (List β)} {p : α → Bool} {items : List α}
    (h : ∀ x ∈ items, ¬ p x = true → f x = .ok []) :
    ((items.filter p).mapM f).map List.flatten = (items.mapM f).map List.flatten := by
  induction items with
  | nil => rfl
  | cons x items ih =>
    have ih := ih fun y hy => h y (by simp [hy])
    by_cases hp : p x = true
    · rw [List.filter_cons_of_pos hp, List.mapM_cons, List.mapM_cons]
      cases hx : f x with
      | error e => rfl
      | ok r =>
        have hcons (rest : Except FilterError (List (List β))) :
            (do let rs ← rest; pure (r :: rs)).map List.flatten = (rest.map List.flatten).map (r ++ ·) := by
          cases rest <;> rfl
        exact (hcons _).trans ((congrArg _ ih).trans (hcons _).symm)
    · rw [List.filter_cons_of_neg hp, List.mapM_cons, h x (by simp) hp, ih]
      cases items.mapM f <;> rfl

section

variable {columns : List (Text × Text)} {input : Input} {flag : Text} {skip : Bool} {alias? : Option Text}

/-- The exclusion of deleted rows is asked for, and there is no alias to write it with. -/
def MissesAlias (flag : Text) (skip : Bool) (alias? : Option Text) : Prop :=
  skip = false ∧ sameAscii (trim flag) "TRUE".toList = true ∧ alias? = none

theorem conditions_of_refused {before after : List (Text × Value)} {m : Text × Value} (e : input.values = before ++ m :: after)
    (hm : Refused columns input m) (hb : ∀ m' ∈ before, ¬ Refused columns input m') :
    ∃ v, v.isComposite = true ∧ conditions columns input flag skip alias? = .error (.unsupportedValue m.1 v) := by
  obtain ⟨v, hv, hx⟩ := (memberConditions_refuses columns input m).error hm
  have hall : (before ++ m :: after).mapM (memberConditions columns input) = .error (.unsupportedValue m.1 v) :=
    mapM_error (fun m' hm' => (memberConditions_refuses columns input m').ok (hb m' hm')) hx
  refine ⟨v, hv, ?_⟩
  rw [conditions, e, hall]
  rfl

theorem fields_of_writable (h : ∀ m ∈ input.values, ¬ Refused columns input m) :
    ∃ fields, input.values.mapM (memberConditions columns input) = .ok fields :=
  mapM_ok fun m hm => (memberConditions_refuses columns input m).ok (h m hm)

theorem conditions_of_missing (h : ∀ m ∈ input.values, ¬ Refused columns input m) (hx : MissesAlias flag skip alias?) :
    conditions columns input flag skip alias? = .error .missingAlias := by
  obtain ⟨fields, hf⟩ := fields_of_writable h
  obtain ⟨rfl, hflag, rfl⟩ := hx
  have hflag : isTrue flag = true := hflag
  rw [conditions, hf, hflag]
  rfl

theorem conditions_of_writable (h : ∀ m ∈ input.values, ¬ Refused columns input m) (hx : ¬ MissesAlias flag skip alias?) :
    ∃ cs, conditions columns input flag skip alias? = .ok cs := by
  obtain ⟨fields, hf⟩ := fields_of_writable h
  rw [conditions, hf]
  by_cases hd : (!skip && isTrue flag) = true
  · rw [hd]
    cases halias : alias? with
    | some table => exact ⟨_, rfl⟩
    | none =>
      simp only [Bool.and_eq_true, Bool.not_eq_true'] at hd
      exact absurd ⟨hd.1, hd.2, halias⟩ hx
  · rw [Bool.eq_false_iff.mpr hd]
    exact ⟨_, rfl⟩

theorem conditions_cases (columns : List (Text × Text)) (input : Input) (flag : Text) (skip : Bool) (alias? : Option Text) :
    (∃ before m after v, input.values = before ++ m :: after ∧ Refused columns input m ∧
        (∀ m' ∈ before, ¬ Refused columns input m') ∧
      conditions columns input flag skip alias? = .error (.unsupportedValue m.1 v)) ∨
    ((∀ m ∈ input.values, ¬ Refused columns input m) ∧ MissesAlias flag skip alias? ∧
      conditions columns input flag skip alias? = .error .missingAlias) ∨
    ((∀ m ∈ input.values, ¬ Refused columns input m) ∧ ¬ MissesAlias flag skip alias? ∧
      ∃ cs, conditions columns input flag skip alias? = .ok cs) := by
  by_cases hr : ∃ m ∈ input.values, Refused columns input m
  · obtain ⟨before, m, after, e, hm, hb⟩ := exists_first hr
    obtain ⟨v, -, h⟩ := conditions_of_refused e hm hb
    exact Or.inl ⟨before, m, after, v, e, hm, hb, h⟩
  · have hw : ∀ m ∈ input.values, ¬ Refused columns input m := fun m hmem hm => hr ⟨m, hmem, hm⟩
    by_cases hx : MissesAlias flag skip alias?
    · exact Or.inr (Or.inl ⟨hw, hx, conditions_of_missing hw hx⟩)
    · exact Or.inr (Or.inr ⟨hw, hx, conditions_of_writable hw hx⟩)

/-- Members that are empty or name no column can be left out of an input. -/
theorem conditions_filled (columns : List (Text × Text)) (input : Input) (flag : Text) (skip : Bool) (alias? : Option Text) :
    conditions columns { input with values := input.values.filter fun m => m.2.isFilled && (get? m.1 columns).isSome }
      flag skip alias? = conditions columns input flag skip alias? := by
  rw [conditions_eq, conditions_eq]
  congr 1
  exact flatten_mapM_filter fun m _ h => memberConditions_passed input h

end

/-- An input is refused for its first value that no condition can be written for; when there is
    none, for the alias that the exclusion of deleted rows misses; else it has conditions. What
    members that are empty or name no column hold makes no difference. -/
theorem conditions_refused (columns : List (Text × Text)) (input : Input) (flag : Text) (skip : Bool) (alias? : Option Text) :
    (∀ field, (∃ v, v.isComposite = true ∧ conditions columns input flag skip alias? = .error (.unsupportedValue field v)) ↔
      ∃ before m after, input.values = before ++ m :: after ∧ m.1 = field ∧ Refused columns input m ∧
        ∀ m' ∈ before, ¬ Refused columns input m') ∧
    (conditions columns input flag skip alias? = .error .missingAlias ↔
      (∀ m ∈ input.values, ¬ Refused columns input m) ∧ MissesAlias flag skip alias?) ∧
    ((∃ cs, conditions columns input flag skip alias? = .ok cs) ↔
      (∀ m ∈ input.values, ¬ Refused columns input m) ∧ ¬ MissesAlias flag skip alias?) ∧
    conditions columns { input with values := input.values.filter fun m => m.2.isFilled && (get? m.1 columns).isSome }
      flag skip alias? = conditions columns input flag skip alias? := by
  have outcomes := conditions_cases columns input flag skip alias?
  refine ⟨fun field => ⟨?_, ?_⟩, ⟨fun h => ?_, fun h => conditions_of_missing h.1 h.2⟩,
    ⟨?_, fun h => conditions_of_writable h.1 h.2⟩, conditions_filled columns input flag skip alias?⟩
  · rintro ⟨v, -, h⟩
    rcases outcomes with ⟨before, m, after, v', e, hm, hb, h'⟩ | ⟨-, -, h'⟩ | ⟨-, -, cs, h'⟩
    · rw [h'] at h
      cases h
      exact ⟨before, m, after, e, rfl, hm, hb⟩
    · rw [h'] at h
      cases h
    · rw [h'] at h
      cases h
  · rintro ⟨before, m, after, e, rfl, hm, hb⟩
    exact conditions_of_refused e hm hb
  · rcases outcomes with ⟨_, _, _, _, _, _, _, h'⟩ | ⟨hw, hx, -⟩ | ⟨_, _, cs, h'⟩
    · rw [h'] at h
      cases h
    · exact ⟨hw, hx⟩
    · rw [h'] at h
      cases h
  · rintro ⟨cs, h⟩
    rcases outcomes with ⟨_, _, _, _, _, _, _, h'⟩ | ⟨_, _, h'⟩ | ⟨hw, hx, -⟩
    · rw [h'] at h
      cases h
    · rw [h'] at h
      cases h
    · exact ⟨hw, hx⟩

end ExportQuery.Filter
