/-
  ExportQuery.Proofs.Marker — edits that open and close no region.

  Markers hold blanks, and a dash or a `y` before each; they hold no line feed and no capital.
  So conditions without markers are no part of one where they are merged, and putting them in
  the place of blanks divides the text as before. Tokens are no part of markers either: the
  view with tokens holds no region.

  - `markerFree_conjunction`: conditions without markers make none when joined.
  - `Placed.unmarked`: no marker reaches into such conditions.
  - `beside_of_unmarked`: a marker lies on one side of such a text.
  - `Proper.edit`: an edited division is the division of its text.
  - `divide_view`: the view with tokens divides into one piece.
-/

import ExportQuery.Proofs.Merge

namespace ExportQuery.Sql

open ExportQuery.Text

/-! ## Markers -/

/-- The markers of regions. -/
def IsMarker (m : Text) : Prop := m = startMarker ∨ m = endMarker

/-- A text with neither marker in it. -/
def MarkerFree (s : Text) : Prop := ¬ startMarker <:+: s ∧ ¬ endMarker <:+: s

instance (s : Text) : Decidable (MarkerFree s) := by unfold MarkerFree; exact inferInstance

section

variable {s t m x y : Text}

theorem IsMarker.eq_cons (h : IsMarker m) : ∃ t, m = '-' :: '-' :: ' ' :: t := by
  rcases h with rfl | rfl
  · exact ⟨_, rfl⟩
  · exact ⟨_, rfl⟩

theorem IsMarker.not_mem_feed (h : IsMarker m) : '\n' ∉ m := by
  rcases h with rfl | rfl
  · decide
  · decide

theorem IsMarker.not_mem_underscore (h : IsMarker m) : '_' ∉ m := by
  rcases h with rfl | rfl
  · decide
  · decide

theorem IsMarker.not_mem_upper {c : Char} (h : IsMarker m) (hc : c.isUpper = true) : c ∉ m := by
  have all : (startMarker ++ endMarker).all (fun c => !c.isUpper) = true := by decide
  intro hm
  have := List.all_eq_true.mp all c (by rcases h with rfl | rfl <;> simp [hm])
  rw [hc] at this; cases this

/-- Before a blank of a marker stands a dash or a `y`. -/
theorem IsMarker.before_blank {u v : Text} (h : IsMarker m) (e : m = u ++ ' ' :: v) :
    ∃ d, u.getLast? = some d ∧ (d = '-' ∨ d = 'y') := by
  have key : ∀ m ∈ [startMarker, endMarker], ∀ n < m.length,
      (m.drop n).head? = some ' ' → (m.take n).getLast? = some '-' ∨ (m.take n).getLast? = some 'y' := by
    decide +kernel
  have hn : u.length < m.length := by rw [e]; simp
  have hm : m ∈ [startMarker, endMarker] := by
    rcases h with rfl | rfl
    · simp
    · simp
  rcases key m hm u.length hn (by rw [e]; simp) with hk | hk
  · exact ⟨'-', by rw [e] at hk; simpa using hk, Or.inl rfl⟩
  · exact ⟨'y', by rw [e] at hk; simpa using hk, Or.inr rfl⟩

/-- A marker that starts with a blank, or ends in one, is none. -/
theorem IsMarker.ends (h : IsMarker m) : m.head? = some '-' ∧ m.getLast? ≠ some ' ' := by
  rcases h with rfl | rfl
  · decide
  · decide

theorem markerFree_iff : MarkerFree s ↔ ∀ m, IsMarker m → ¬ m <:+: s := by
  constructor
  · rintro ⟨h₁, h₂⟩ m (rfl | rfl)
    · exact h₁
    · exact h₂
  · intro h
    exact ⟨h _ (Or.inl rfl), h _ (Or.inr rfl)⟩

theorem MarkerFree.within (h : MarkerFree t) (hs : s <:+: t) : MarkerFree s :=
  ⟨fun hm => h.1 (hm.trans hs), fun hm => h.2 (hm.trans hs)⟩

/-- A line feed or a capital between two texts keeps markers apart. -/
theorem MarkerFree.across {c : Char} (hc : c = '\n' ∨ c.isUpper = true) (hx : MarkerFree x) (hy : MarkerFree y) :
    MarkerFree (x ++ c :: y) := by
  rw [markerFree_iff] at hx hy ⊢
  intro m hm hi
  have hcm : c ∉ m := by
    rcases hc with rfl | hc
    · exact hm.not_mem_feed
    · exact hm.not_mem_upper hc
  rcases infix_across hcm hi with h | h
  · exact hx m hm h
  · exact hy m hm h

theorem MarkerFree.space_cons (h : MarkerFree s) : MarkerFree (' ' :: s) := by
  rw [markerFree_iff] at h ⊢
  rintro m hm hi
  rcases List.infix_cons_iff.mp hi with hp | hi
  · obtain ⟨r, rfl⟩ := hm.eq_cons
    obtain ⟨t, ht⟩ := hp
    simp only [List.cons_append, List.cons.injEq] at ht
    exact absurd ht.1 (by decide)
  · exact h m hm hi

theorem MarkerFree.concat_space (h : MarkerFree s) : MarkerFree (s ++ [' ']) := by
  rw [markerFree_iff] at h ⊢
  rintro m hm hi
  rcases List.infix_concat_iff.mp hi with hp | hi
  · obtain ⟨t, ht⟩ := hp
    have hlast := congrArg List.getLast? ht
    obtain ⟨r, hr⟩ := hm.eq_cons
    rw [List.getLast?_append, List.getLast?_concat, List.getLast?_eq_some_getLast (by rw [hr]; simp), Option.some_or,
      ← List.getLast?_eq_some_getLast] at hlast
    exact hm.ends.2 hlast
  · exact h m hm hi

theorem MarkerFree.joined (hx : MarkerFree x) (hy : MarkerFree y) : MarkerFree (x ++ " AND ".toList ++ y) := by
  have hN : MarkerFree ['N'] := by decide
  have hand := hN.across (c := 'D') (Or.inr rfl) hy.space_cons
  have h := hx.concat_space.across (c := 'A') (Or.inr rfl) hand
  simpa using h

theorem markerFree_conjunction {conditions : List Text} (h : ∀ c ∈ conditions, MarkerFree c) :
    MarkerFree (conjunction conditions) := by
  by_cases h0 : conjunction conditions = []
  · rw [h0]; decide
  exact conjunction_induction h0 (fun c hc _ => (h c hc).within (trim_within c)) fun _ _ => MarkerFree.joined

end

/-! ## Text that is no part of a marker -/

/-- A text behind `s` and before `t` into which no marker reaches, and in which none starts. -/
structure Unmarked (s ins t : Text) : Prop where
  not_into : ∀ {m u v : Text}, IsMarker m → m = u ++ v → u <:+ s → v ≠ [] → ¬ v <+: ins ++ t
  not_from : ∀ {m x y z : Text}, IsMarker m → ins ++ t = x ++ m ++ z → ins = x ++ y → y = []

section

variable {s ins t m a c : Text}

/-- So it is when it starts with a line feed, or with a blank where no marker has one, holds no
    marker, and none goes on from its end. -/
theorem unmarked_of (starts : ∃ c r, ins = c :: r ∧ (c = '\n' ∨ c = ' ' ∧ ∀ d, s.getLast? = some d → d ≠ '-' ∧ d ≠ 'y'))
    (inside : MarkerFree ins) (ends : ∀ m u v, IsMarker m → m = u ++ v → u ≠ [] → v ≠ [] → u <:+ ins → ¬ v <+: t) :
    Unmarked s ins t := by
  constructor
  · rintro m u v hm e hs hv ⟨x, hx⟩
    obtain ⟨c, r, rfl, hc⟩ := starts
    cases v with
    | nil => exact hv rfl
    | cons d v =>
      simp only [List.cons_append, List.cons.injEq] at hx
      obtain ⟨rfl, -⟩ := hx
      rcases hc with rfl | ⟨rfl, hs'⟩
      · exact hm.not_mem_feed (by rw [e]; simp)
      · obtain ⟨d, hd, hd'⟩ := hm.before_blank e
        obtain ⟨y, rfl⟩ := hs
        have := hs' d (by rw [List.getLast?_append, hd]; rfl)
        rcases hd' with rfl | rfl
        · exact this.1 rfl
        · exact this.2 rfl
  · intro m x y z hm e hy
    by_contra h0
    have e : y ++ t = m ++ z := by
      rw [hy, List.append_assoc, List.append_assoc] at e
      exact List.append_cancel_left e
    rcases List.append_eq_append_iff.mp e with ⟨v, rfl, ht⟩ | ⟨v, rfl, -⟩
    · by_cases hv : v = []
      · exact markerFree_iff.mp inside _ hm ⟨x, [], by rw [hy, hv]; simp⟩
      · exact ends _ y v hm rfl h0 hv ⟨x, hy.symm⟩ ⟨z, ht.symm⟩
    · exact markerFree_iff.mp inside m hm ⟨x, v, by rw [hy]; simp⟩

theorem Unmarked.shrink {s' t' : Text} (h : Unmarked s ins t) (hs : s' <:+ s) (ht : t' <+: t) : Unmarked s' ins t' := by
  obtain ⟨r, rfl⟩ := ht
  constructor
  · intro m u v hm e hu hv hi
    exact h.not_into hm e (hu.trans hs) hv (hi.trans ⟨r, by simp⟩)
  · intro m x y z hm e hy
    exact h.not_from hm (show ins ++ (t' ++ r) = x ++ m ++ (z ++ r) by rw [← List.append_assoc, e]; simp) hy

theorem suffix_across {u x y : Text} {c : Char} (hc : c ∉ u) (h : u <:+ x ++ c :: y) : u <:+ y := by
  obtain ⟨t, ht⟩ := h
  rcases List.append_eq_append_iff.mp ht with ⟨v, -, rfl⟩ | ⟨v, -, hv⟩
  · exact absurd (by simp) hc
  · cases v with
    | nil =>
      rw [List.nil_append] at hv
      exact absurd (by rw [← hv]; simp) hc
    | cons d v =>
      simp only [List.cons_append, List.cons.injEq] at hv
      exact ⟨v, hv.2.symm⟩

theorem Placed.markerFree_filling {head J w b : Text} (h : Placed head J a w b ins) (hJ : MarkerFree J) : MarkerFree ins := by
  have hwhere : MarkerFree ("\nWHERE ".toList ++ J) := by
    have hx : MarkerFree "\nWHER".toList := by decide
    have := hx.across (c := 'E') (Or.inr rfl) hJ.space_cons
    simpa using this
  cases h with
  | extending opens spelt =>
    split
    · rw [List.append_nil]; exact hJ.space_cons
    · have hy : MarkerFree "ND ".toList := by decide
      have := hJ.space_cons.concat_space.across (c := 'A') (Or.inr rfl) hy
      simpa using this
  | preceding none_opens closes =>
    have hy : MarkerFree [] := by decide
    exact hwhere.across (c := '\n') (Or.inl rfl) hy
  | atEnd none_opens none_closes => exact hwhere

/-- No marker reaches into conditions without one, where a line or the text ends behind them. -/
theorem Placed.unmarked {head J w b e : Text} (h : Placed head J a w b ins) (hJ : MarkerFree J)
    (he : e = [] ∨ ∃ r, e = '\n' :: r) : Unmarked (head ++ a) ins (b ++ e) := by
  have feed : ∀ {m u v : Text}, IsMarker m → m = u ++ v → v ≠ [] → ¬ v <+: e := by
    rintro m u v hm rfl hv ⟨z, hz⟩
    rcases he with rfl | ⟨r, rfl⟩
    · exact hv (List.append_eq_nil_iff.mp hz).1
    · cases v with
      | nil => exact hv rfl
      | cons d v =>
        obtain ⟨rfl, -⟩ := List.cons.inj hz
        exact hm.not_mem_feed (by simp)
  refine unmarked_of ?_ (h.markerFree_filling hJ) ?_
  · cases h with
    | @extending a kw w b opens spelt =>
      refine ⟨' ', _, rfl, Or.inr ⟨rfl, fun d hd => ?_⟩⟩
      obtain ⟨s, c, rfl, hc⟩ := spelt.last (u := 'E') rfl
      have : c = 'E' ∨ c = 'e' := by
        simp only [sameLetter, Bool.or_eq_true, Bool.and_eq_true, beq_iff_eq] at hc
        simpa using hc
      rw [← List.append_assoc, ← List.append_assoc, List.getLast?_concat, Option.some.injEq] at hd
      rcases this with rfl | rfl
      · rw [← hd]; decide
      · rw [← hd]; decide
    | preceding none_opens closes => exact ⟨'\n', _, rfl, Or.inl rfl⟩
    | atEnd none_opens none_closes => exact ⟨'\n', _, rfl, Or.inl rfl⟩
  · intro m u v hm hmu hu hv hs
    cases h with
    | @extending a kw w b opens spelt =>
      by_cases hb : b = []
      · rw [hb, List.nil_append]
        exact feed hm hmu hv
      · -- a marker would hold the D of the AND, or start with the blank behind it
        rw [if_neg hb] at hs
        have hand : ' ' :: J ++ " AND ".toList = (' ' :: J ++ " AN".toList) ++ 'D' :: [' '] := by simp
        rw [hand] at hs
        have hD : 'D' ∉ u := fun hd => hm.not_mem_upper (c := 'D') rfl (by rw [hmu]; simp [hd])
        obtain ⟨r, hr⟩ := hm.eq_cons
        rcases List.suffix_cons_iff.mp (suffix_across hD hs) with rfl | hn
        · rw [hmu] at hr
          simp at hr
        · exact absurd (List.suffix_nil.mp hn) hu
    | preceding none_opens closes =>
      have hf : '\n' ∉ u := fun hd => hm.not_mem_feed (by rw [hmu]; simp [hd])
      exact absurd (List.suffix_nil.mp (suffix_across hf hs)) hu
    | atEnd none_opens none_closes => exact feed hm hmu hv

/-- A marker lies on one side of a text that is no part of one. -/
theorem beside_of_unmarked (h : Unmarked s ins t) (hm : IsMarker m) (e : s ++ ins ++ t = a ++ m ++ c) :
    (∃ c', s = a ++ m ++ c' ∧ c = c' ++ ins ++ t) ∨ ∃ a', t = a' ++ m ++ c ∧ a = s ++ ins ++ a' := by
  have e' : s ++ (ins ++ t) = a ++ (m ++ c) := by rw [← List.append_assoc, e, List.append_assoc]
  rcases List.append_eq_append_iff.mp e' with ⟨x, rfl, hx⟩ | ⟨u, rfl, hu⟩
  · -- the marker starts behind `s`
    rw [← List.append_assoc] at hx
    have hx' := hx
    rw [List.append_assoc] at hx'
    rcases List.append_eq_append_iff.mp hx' with ⟨a', rfl, ht⟩ | ⟨y, rfl, hy⟩
    · exact Or.inr ⟨a', by rw [ht, List.append_assoc], by simp⟩
    · by_cases h0 : y = []
      · rw [h0, List.nil_append] at hy
        exact Or.inr ⟨[], by rw [← hy]; simp, by simp [h0]⟩
      · exact absurd (h.not_from hm hx rfl) h0
  · -- the marker starts in `s`
    rcases List.append_eq_append_iff.mp hu with ⟨c', rfl, hc⟩ | ⟨v, hm', hv⟩
    · exact Or.inl ⟨c', by simp, by rw [hc]; simp⟩
    · by_cases h0 : v = []
      · rw [h0, List.append_nil] at hm'
        rw [h0, List.nil_append] at hv
        exact Or.inl ⟨[], by rw [hm']; simp, by rw [← hv]; simp⟩
      exact absurd ⟨c, hv.symm⟩ (h.not_into hm hm' ⟨a, rfl⟩ h0)

/-- No region is opened around the text. -/
theorem Unmarked.no_region {w : Text} (h : Unmarked s ins t)
    (hn : ∀ a b c, s ++ w ++ t ≠ a ++ startMarker ++ b ++ endMarker ++ c) (a b c : Text) :
    s ++ ins ++ t ≠ a ++ startMarker ++ b ++ endMarker ++ c := by
  intro e
  have e₁ : s ++ ins ++ t = a ++ startMarker ++ (b ++ endMarker ++ c) := by rw [e]; simp
  rcases beside_of_unmarked h (Or.inl rfl) e₁ with ⟨c₁, rfl, hc₁⟩ | ⟨a₁, rfl, -⟩
  · have h' : Unmarked c₁ ins t := h.shrink (List.suffix_append _ _) (List.prefix_refl t)
    rcases beside_of_unmarked h' (Or.inr rfl) hc₁.symm with ⟨c₂, rfl, -⟩ | ⟨a₂, rfl, -⟩
    · exact hn a b (c₂ ++ w ++ t) (by simp)
    · exact hn a (c₁ ++ w ++ a₂) c (by simp)
  · exact hn (s ++ w ++ a₁) b c (by simp)

theorem Unmarked.not_infix {w : Text} (h : Unmarked s ins t) (hn : ¬ startMarker <:+: s ++ w ++ t) :
    ¬ startMarker <:+: s ++ ins ++ t := by
  rintro ⟨a, c, e⟩
  rcases beside_of_unmarked h (Or.inl rfl) e.symm with ⟨c', rfl, -⟩ | ⟨a', rfl, -⟩
  · exact hn ⟨a, c' ++ w ++ t, by simp⟩
  · exact hn ⟨s ++ w ++ a', c, by simp⟩

end

/-! ## Edited divisions -/

namespace Division

theorem proper_cons_iff {p b : Text} {d : Division} :
    (cons p b d).Proper ↔
      ¬ startMarker <:+: p ∧ (∃ t, b = startMarker ++ t ++ endMarker ∧ ¬ endMarker <:+: t) ∧ d.Proper := by
  constructor
  · intro h
    exact ⟨h.piece (p, b) (by simp), h.body (p, b) (by simp), fun r hr => h.piece r (by simp [hr]),
      fun r hr => h.body r (by simp [hr]), h.last⟩
  · rintro ⟨hp, hb, h⟩
    refine ⟨?_, ?_, h.last⟩
    · intro r hr
      rcases List.mem_cons.mp hr with rfl | hr
      · exact hp
      · exact h.piece r hr
    · intro r hr
      rcases List.mem_cons.mp hr with rfl | hr
      · exact hb
      · exact h.body r hr

theorem proper_plain_iff {s : Text} : (plain s).Proper ↔ ∀ a b c, s ≠ a ++ startMarker ++ b ++ endMarker ++ c := by
  constructor
  · intro h; exact h.last
  · intro h; exact ⟨by simp, by simp, h⟩

/-- The piece a division starts with. -/
def first (d : Division) : Text :=
  match d.regions with
  | [] => d.last
  | (p, _) :: _ => p

theorem last_suffix_outerAt {name : Nat → Text} {i : Nat} (d : Division) : d.last <:+ d.outerAt name i := by
  induction d generalizing i with
  | plain s => exact List.suffix_refl s
  | cons p b d ih => exact ih.trans ⟨p ++ name i, rfl⟩

theorem first_prefix_outerAt {name : Nat → Text} {i : Nat} (d : Division) : d.first <+: d.outerAt name i := by
  induction d with
  | plain s => exact List.prefix_refl s
  | cons p b d _ => exact ⟨name i ++ d.outerAt name (i + 1), by simp [first]⟩

/-- Text that is no part of a marker, in the place of other such text. -/
theorem Proper.edit {d e : Division} {w ins : Text} (h : (d ++ plain w ++ e).Proper)
    (hu : Unmarked d.last ins e.first) : (d ++ plain ins ++ e).Proper := by
  induction d with
  | plain s =>
    induction e with
    | plain t =>
      simp only [plain_append_plain, proper_plain_iff] at h ⊢
      exact hu.no_region h
    | cons p b e _ =>
      simp only [plain_append_plain, plain_append_cons, proper_cons_iff] at h ⊢
      exact ⟨hu.not_infix h.1, h.2⟩
  | cons p b d ih =>
    simp only [cons_append, proper_cons_iff] at h ⊢
    exact ⟨h.1, h.2.1, ih h.2.2 hu⟩

/-- The view with tokens holds no region. -/
theorem Proper.no_region_in_view {name : Nat → Text} (hn : Tokens name) {d : Division} (h : d.Proper) {i : Nat} (a b c : Text) :
    d.outerAt name i ≠ a ++ startMarker ++ b ++ endMarker ++ c := by
  induction d generalizing i a with
  | plain s => exact proper_plain_iff.mp h a b c
  | cons p q d ih =>
    intro e
    obtain ⟨k, hk⟩ := hn i
    obtain ⟨hp, -, hd⟩ := proper_cons_iff.mp h
    have e' : p ++ (token k ++ d.outerAt name (i + 1)) = a ++ (startMarker ++ (b ++ endMarker ++ c)) := by
      rw [← hk]
      simpa using e
    rcases List.append_eq_append_iff.mp e' with ⟨x, rfl, hx⟩ | ⟨u, rfl, hu⟩
    · rcases List.append_eq_append_iff.mp hx with ⟨a', rfl, ha⟩ | ⟨y, hy, hy'⟩
      · exact ih hd a' (by rw [ha]; simp)
      · cases y with
        | nil => exact ih hd [] (by rw [List.nil_append] at hy'; rw [← hy']; simp)
        | cons z y =>
          obtain ⟨r, hr⟩ := startMarker_eq_cons
          rw [hr, List.cons_append, List.cons_append, List.cons.injEq] at hy'
          exact dash_not_mem_token k (by rw [hy, hy'.1]; simp)
    · rcases List.append_eq_append_iff.mp hu with ⟨x, rfl, -⟩ | ⟨v, hm, hv⟩
      · exact hp ⟨a, x, by simp⟩
      · cases v with
        | nil => exact hp ⟨a, [], by rw [hm]; simp⟩
        | cons z v =>
          obtain ⟨r, hr⟩ := token_eq_cons k
          rw [hr, List.cons_append, List.cons_append, List.cons.injEq] at hv
          exact (show IsMarker startMarker from Or.inl rfl).not_mem_underscore (by rw [hm, hv.1]; simp)

end Division

/-- A part of the view with tokens divides into one piece. -/
theorem divide_view {name : Nat → Text} (hn : Division.Tokens name) {d : Division} (h : d.Proper) {x : Text}
    (hx : x <:+: d.outerAt name 0) : divide x = Division.plain x := by
  have hp : (Division.plain x).Proper := by
    rw [Division.proper_plain_iff]
    rintro a b c rfl
    obtain ⟨u, v, e⟩ := hx
    exact h.no_region_in_view hn (u ++ a) b (c ++ v) (by rw [← e]; simp)
  have := divide_text hp
  rwa [Division.text_plain] at this

end ExportQuery.Sql
