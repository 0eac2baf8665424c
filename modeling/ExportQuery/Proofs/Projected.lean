/-
  ExportQuery.Proofs.Projected — what the label of a single projection stands for.

  The shapes of projections are looked for anywhere in the text, and each is known to be complete
  only by the label behind it. So the label of a projection stands for the last part of it that
  has a shape of its own: a column or a date that no word runs into, or a CASE expression where
  none is open. Nothing asks what stands ahead of that part. In a text with one label there is at
  most one such part.

  - `mem_casesFrom`: what the pairing finds is a whole expression ahead of its label.
  - `Run.labelledCases`: a whole expression ahead of the only label is all it finds.
  - `Projected` / `Projected.unique`: the last part of a projection, and what it stands for.
  - `get?_columns_projection`: what the label of a projection stands for.
-/

import ExportQuery.Proofs.Pairing
import ExportQuery.Proofs.Search
import Mathlib.Data.Nat.Find

namespace ExportQuery.Sql

open ExportQuery.Text

/-! ## What the pairing finds -/

variable {start : Nat} {l c x s t : Text}

/-- The first keyword that counts, if any does. -/
theorem quiet_or_keyword (s : Text) :
    Quiet s ∨ ∃ t k r, s = t ++ (k ++ r) ∧ Quiet t ∧ Counting t ∧ IsCaseWord k ∧ startsInWord r = false := by
  by_cases h : ∃ n, ∃ k r, s = s.take n ++ (k ++ r) ∧ Counting (s.take n) ∧ IsCaseWord k ∧ startsInWord r = false
  · classical
    obtain ⟨k, r, e, hc, hk, hr⟩ := Nat.find_spec h
    refine Or.inr ⟨_, k, r, e, ?_, hc, hk, hr⟩
    intro a k' b ht hk' ha hb
    by_contra hne
    rw [not_or, Bool.not_eq_true] at hne
    -- a keyword that counts further ahead
    have hn : a.length < Nat.find h := by
      have := congrArg List.length ht
      have hk0 := List.length_pos_iff.mpr hk'.ne_nil
      rw [List.length_take, List.length_append, List.length_append] at this
      omega
    have hs : s = a ++ (k' ++ (b ++ (k ++ r))) := by rw [e, ht]; simp
    have htake : s.take a.length = a := by rw [hs, List.take_left]
    refine Nat.find_min h hn ⟨k', b ++ (k ++ r), by rw [htake]; exact hs, by rw [htake]; exact ⟨ha, hne.2, hne.1⟩, hk', ?_⟩
    cases b with
    | cons c b => exact hb
    | nil =>
      have hlast := hc.apart
      rw [ht, List.append_nil] at hlast
      have := hlast (k'.getLast hk'.ne_nil) (by rw [List.getLast?_append, List.getLast?_eq_some_getLast hk'.ne_nil]; rfl)
      rw [hk'.word _ (List.getLast_mem _)] at this; cases this
  · left
    intro a k b e hk ha hb
    by_contra hne
    rw [not_or, Bool.not_eq_true] at hne
    have htake : s.take a.length = a := by rw [e, List.append_assoc, List.take_left]
    exact h ⟨a.length, k, b, by rw [htake, e, List.append_assoc], by rw [htake]; exact ⟨ha, hne.2, hne.1⟩, hk, hb⟩

theorem casesFrom_quiet_nil {depth : Nat} (hq : Quiet s) (hx : inLiteral x.reverse = false) :
    casesFrom depth start x.reverse s = [] := by
  have h : casesFrom depth start x.reverse (s ++ []) = casesFrom depth start (x ++ s).reverse [] :=
    casesFrom_quiet hq hx (Seam.nil s)
  simpa [casesFrom] using h

theorem stretch_of_counting {r : Text} (ht : Counting t) (hq : Quiet t) (h0 : t ≠ [])
    (hs : startsInWord (t ++ r) = false) : Stretch t := by
  cases t with
  | nil => exact absurd rfl h0
  | cons d t => exact ⟨ht, h0, hq, hs⟩

/-- An open expression is closed further on, or nothing is found. -/
theorem closed_or_open (s : Text) (hs : startsInWord s = false) :
    (∃ b n r, s = b ++ (n ++ r) ∧ Nested b ∧ Closes n ∧ startsInWord r = false) ∨
      ∀ depth start (x : Text), inLiteral x.reverse = false → casesFrom (depth + 1) start x.reverse s = [] := by
  induction hn : s.length using Nat.strong_induction_on generalizing s with
  | _ n ih =>
    rcases quiet_or_keyword s with hq | ⟨t, k, r, rfl, hq, ht, hk, hr⟩
    · right
      intro depth start x hx
      exact casesFrom_quiet_nil hq hx
    have h0 : t ≠ [] := by
      rintro rfl
      obtain ⟨d, w, rfl, hd⟩ := hk.starts
      rw [List.nil_append, List.cons_append, startsInWord, hd] at hs; cases hs
    have hst := stretch_of_counting ht hq h0 hs
    by_cases ho : sameAscii "CASE".toList k = true
    · have hk0 := List.length_pos_iff.mpr hk.ne_nil
      simp only [List.length_append] at hn
      have pass : ∀ depth start (x : Text), inLiteral x.reverse = false →
          casesFrom (depth + 1) start x.reverse (t ++ (k ++ r)) = casesFrom (depth + 1 + 1) start (x ++ t ++ k).reverse r := by
        intro depth start x hx
        rw [casesFrom_quiet hq hx (Or.inl ht.apart), casesFrom_case (hst.behind hx) ho hr]
        simp
      rcases ih r.length (by omega) r hr rfl with ⟨b, e, r', rfl, hb, he, hr'⟩ | hopen
      · -- the inner expression is closed, so the outer one is or is not behind it
        simp only [List.length_append] at hn
        rcases ih r'.length (by omega) r' hr' rfl with ⟨b', e', r'', rfl, hb', he', hr''⟩ | hopen
        · exact Or.inl ⟨t ++ (k ++ (b ++ (e ++ b'))), e', r'', by simp, Nested.case hst ho hb he hb', he', hr''⟩
        · right
          intro depth start x hx
          have hxk := paired_append (hst.behind hx).paired hk.paired
          rw [casesFrom_inner hst ho hb he hr' hx fun _ => hb.scan hxk]
          exact hopen depth start _ (paired_append (hb.behind hxk).paired he.1.paired)
      · right
        intro depth start x hx
        rw [pass depth start x hx]
        exact hopen (depth + 1) start _ (paired_append (hst.behind hx).paired hk.paired)
    · exact Or.inl ⟨t, k, r, rfl, Nested.text hst, ⟨hk, by simpa using ho⟩, hr⟩

/-- Text behind which no expression is open: texts that open none, and whole expressions. -/
inductive Run : Text → Prop
  | idle {t : Text} : Idle t → Run t
  | case {t e s : Text} : Idle t → Counting t → IsCase e → startsInWord s = false → Run s → Run (t ++ (e ++ s))

theorem Run.append {a : Text} (ha : Run a) (ht : Harmless t) (hs : startsInWord a = false) : Run (t ++ a) := by
  cases ha with
  | @idle a ha => exact Run.idle (ht.append_idle ha (Or.inr hs))
  | @case u e s hu hc he hes hr =>
    have h0 : u ≠ [] := by
      rintro rfl
      rw [List.nil_append, he.starts] at hs; cases hs
    have hus : startsInWord u = false := by
      cases u with
      | nil => exact absurd rfl h0
      | cons d u => exact hs
    rw [← List.append_assoc]
    exact Run.case (ht.append_idle hu (Or.inr hus)) (hc.append (fun h => absurd h h0) ht.paired) he hes hr

/-- Where no word starts, text stands ahead of an expression. -/
theorem IsCase.ahead {a e r : Text} (he : IsCase e) (h : startsInWord (a ++ (e ++ r)) = false) :
    a ≠ [] ∧ startsInWord a = false := by
  cases a with
  | nil => rw [List.nil_append, he.starts] at h; cases h
  | cons d a => exact ⟨by simp, h⟩

/-- What the pairing finds is a whole expression that stands where none is open, its label behind it. -/
theorem mem_casesFrom (s : Text) (hmem : (l, c) ∈ casesFrom 0 start x.reverse s) (hx : inLiteral x.reverse = false)
    (hs : startsInWord s = true → Counting x) :
    ∃ a r, s = a ++ (c ++ r) ∧ Run a ∧ Counting a ∧ IsCase c ∧ Labelled r l := by
  induction hn : s.length using Nat.strong_induction_on generalizing s x start with
  | _ n ih =>
    rcases quiet_or_keyword s with hq | ⟨t, k, r, rfl, hq, ht, hk, hr⟩
    · rw [casesFrom_quiet_nil hq hx] at hmem
      cases hmem
    have hk0 := List.length_pos_iff.mpr hk.ne_nil
    simp only [List.length_append] at hn
    have hxt : Counting (x ++ t) := by
      refine ht.append (fun h0 => hs ?_) hx
      obtain ⟨d, w, rfl, hd⟩ := hk.starts
      rw [h0]; exact hd
    have htext : casesFrom 0 start x.reverse (t ++ (k ++ r)) = casesFrom 0 start (x ++ t).reverse (k ++ r) :=
      casesFrom_quiet hq hx (Or.inl ht.apart)
    by_cases ho : sameAscii "CASE".toList k = true
    · rcases closed_or_open r hr with ⟨b, e, r', rfl, hb, he, hr'⟩ | hopen
      · have hcase : IsCase (k ++ (b ++ e)) := ⟨k, b, e, ho, hb, he, rfl⟩
        have etext : k ++ (b ++ (e ++ r')) = k ++ (b ++ e) ++ r' := by simp
        rw [htext, etext, hcase.scan hxt hr'] at hmem
        rcases List.mem_append.mp hmem with hmem | hmem
        · obtain ⟨p, hp, e⟩ := List.mem_map.mp hmem
          obtain ⟨rfl, rfl⟩ := Prod.mk.inj e
          refine ⟨t, r', by simp, Run.idle hq.idle, ht, hcase, labelled_iff.mpr ?_⟩
          rw [Option.mem_toList.mp hp]; rfl
        · have hxe := paired_append hxt.paired hcase.paired
          simp only [List.length_append] at hn
          obtain ⟨a, r'', rfl, hrun, ha, hc, hl⟩ := ih r'.length (by omega) r' hmem hxe (by simp [hr']) rfl
          obtain ⟨ha0, has⟩ := hc.ahead hr'
          refine ⟨t ++ (k ++ (b ++ e) ++ a), r'', by simp, Run.case hq.idle ht hcase has hrun, ?_, hc, hl⟩
          rw [← List.append_assoc]
          exact ha.append (fun h0 => absurd h0 ha0) (paired_append ht.paired hcase.paired)
      · rw [htext, casesFrom_case hxt ho hr, hopen 0 _ _ (paired_append hxt.paired hk.paired)] at hmem
        simp at hmem
    · have hcl : Closes k := ⟨hk, by simpa using ho⟩
      rw [htext, casesFrom_end hxt hcl hr] at hmem
      obtain ⟨a, r', rfl, hrun, ha, hc, hl⟩ :=
        ih r.length (by omega) r (by simpa using hmem) (paired_append hxt.paired hk.paired) (by simp [hr]) rfl
      obtain ⟨ha0, has⟩ := hc.ahead hr
      have hharm : Harmless (t ++ k) :=
        Harmless.append ⟨hq.idle, ht.paired⟩ ⟨idle_of_word hk.word hcl.2, hk.paired⟩ (Or.inl ht.apart)
      refine ⟨t ++ k ++ a, r', by simp, hrun.append hharm has, ?_, hc, hl⟩
      exact ha.append (fun h0 => absurd h0 ha0) hharm.paired

theorem Counting.suffix (h : Counting (x ++ t)) (hx : inLiteral x.reverse = false) : Counting t := by
  refine ⟨h.apart.suffix, ?_, by rw [← inLiteral_append hx]; exact h.paired⟩
  intro hd
  exact h.undotted (by rw [List.getLast?_append, hd]; rfl)

theorem IsCase.not_endsApart {e : Text} (h : IsCase e) : ¬ EndsApart (x ++ e) := by
  obtain ⟨k, b, n, -, -, hn, rfl⟩ := h
  intro ha
  have := ha (n.getLast hn.1.ne_nil) (by simp [List.getLast?_append, List.getLast?_eq_some_getLast hn.1.ne_nil])
  rw [hn.1.word _ (List.getLast_mem _)] at this; cases this

/-- A label does not have an expression ahead of it. -/
theorem IsCase.label?_eq_none {q y r : Text} (hq : IsCase q) (hd : '"' ∉ y ++ q) : label? (y ++ (q ++ r)) = none := by
  rw [Option.eq_none_iff_forall_ne_some]
  intro ⟨l, r'⟩ h
  obtain ⟨t, ht, -, -, e⟩ := label?_eq_some_iff.mp h
  rw [← List.append_assoc] at e
  obtain ⟨v, rfl, -⟩ := mark_split hd e
  obtain ⟨k, b, n, hk, -, -, rfl⟩ := hq
  obtain ⟨d, w, rfl, hletter⟩ := Spells.head 'C' "ASE".toList (spells_of_sameAscii upper_case.2 hk)
  have hcc : d = 'C' ∨ d = 'c' := by simpa [sameLetter] using hletter
  rcases hcc with rfl | rfl
  · exact ht.not_mem (q := 'C') (by decide) (by decide) (by simp)
  · exact ht.not_mem (q := 'c') (by decide) (by decide) (by simp)

/-- Ahead of the first label, the pairing finds nothing where no expression is open. -/
theorem Run.scan (start : Nat) {p q r : Text} (hp : Run p) (hc : Counting p) (hq : IsCase q) (hd : '"' ∉ p ++ q)
    (hx : inLiteral x.reverse = false)
    (hs : startsInWord (p ++ (q ++ r)) = true → Counting x) :
    ∃ start', casesFrom 0 start x.reverse (p ++ (q ++ r)) = casesFrom 0 start' (x ++ p).reverse (q ++ r) := by
  induction hp generalizing x start with
  | @idle t ht => exact ⟨start, casesFrom_idle ht hx (Or.inl hc.apart)⟩
  | @case t e s ht hct he hes hrun ih =>
    have hs0 : s ≠ [] := by
      rintro rfl
      rw [List.append_nil] at hc
      exact he.not_endsApart hc.apart
    have hsw : startsInWord (s ++ (q ++ r)) = false := startsInWord_append_of_ne_nil hs0 hes
    have hte := paired_append hct.paired he.paired
    have hxt : Counting (x ++ t) := by
      refine hct.append (fun h0 => hs ?_) hx
      rw [h0, List.nil_append, List.append_assoc]
      exact he.starts
    have hcs : Counting s := by
      rw [← List.append_assoc] at hc
      exact hc.suffix hte
    have hds : '"' ∉ s ++ q := by
      intro hm
      exact hd (by simp only [List.append_assoc, List.mem_append] at hm ⊢; tauto)
    obtain ⟨start', ih⟩ := ih (x ++ t).length hcs hds (paired_append hxt.paired he.paired) (by simp [hsw])
    refine ⟨start', ?_⟩
    calc casesFrom 0 start x.reverse (t ++ (e ++ s) ++ (q ++ r))
        = casesFrom 0 start x.reverse (t ++ (e ++ (s ++ (q ++ r)))) := by simp
      _ = casesFrom 0 start (x ++ t).reverse (e ++ (s ++ (q ++ r))) := casesFrom_idle ht hx (Or.inl hct.apart)
      _ = casesFrom 0 (x ++ t).length (x ++ t ++ e).reverse (s ++ (q ++ r)) := by
          rw [he.scan hxt hsw, hq.label?_eq_none hds]; simp
      _ = casesFrom 0 start' (x ++ t ++ e ++ s).reverse (q ++ r) := ih
      _ = casesFrom 0 start' (x ++ (t ++ (e ++ s))).reverse (q ++ r) := by simp

/-- A whole expression ahead of the first label, standing where none is open, is the first one found. -/
theorem Run.labelledCases {p q r : Text} (hp : Run p) (hc : Counting p) (hq : IsCase q) (hd : '"' ∉ p ++ q) (hl : Labelled r l) :
    ∃ more, Sql.labelledCases (p ++ (q ++ r)) = (l, q) :: more := by
  obtain ⟨start', h⟩ := hp.scan 0 (r := r) (x := []) hc hq hd rfl fun _ => Counting.nil
  obtain ⟨⟨_, r'⟩, hlabel, rfl⟩ := Option.map_eq_some_iff.mp (labelled_iff.mp hl)
  have hscan : casesFrom 0 start' p.reverse (q ++ r) =
      ((label? r).toList.map fun f => (f.1, q)) ++ casesFrom 0 p.length (p ++ q).reverse r := hq.scan hc hl.starts
  rw [hlabel] at hscan
  exact ⟨casesFrom 0 p.length (p ++ q).reverse r, h.trans hscan⟩

/-! ## Searches over a text with one label -/

namespace Reader

variable {m : Text → Text → Option ((Text × Text) × Text)} {p : Text × Text} {a b r : Text}

/-- SELECT is passed over, unless something is read at its start. -/
theorem scan_select (hm : Reader m) (h : m [] ("SELECT ".toList ++ s) = none) :
    scan m 0 [] ("SELECT ".toList ++ s) = scan m 0 [] s := by
  have e : "SELECT ".toList ++ s = 'S' :: ("ELECT".toList ++ ' ' :: s) := rfl
  rw [e] at h ⊢
  rw [scan_step h, hm.scan_in_word (List.all_eq_true.mp (by decide +kernel)) (by decide +kernel),
    scan_step (hm.within _ (by decide +kernel))]
  exact hm.scan_read s 0 (by decide +kernel)

end Reader

section

variable {e w y z u v u' v' lab r rest : Text}

/-- The only label of a text. -/
theorem label_inj (hx : '"' ∉ x) (hl : '"' ∉ l) (hlab : '"' ∉ lab) (hr : '"' ∉ rest)
    (e : y ++ '"' :: (lab ++ '"' :: r) = x ++ '"' :: (l ++ '"' :: rest)) : y = x ∧ lab = l := by
  obtain ⟨v, rfl, hv⟩ := mark_split hx e.symm
  cases v with
  | nil =>
    simp only [List.nil_append, List.cons.injEq, true_and] at hv
    exact ⟨by simp, (mark_inj hl hlab hv).1.symm⟩
  | cons d v =>
    simp only [List.cons_append, List.cons.injEq] at hv
    obtain ⟨rfl, hv⟩ := hv
    obtain ⟨v', rfl, hv'⟩ := mark_split hl hv
    refine absurd ?_ hr
    cases v' with
    | nil =>
      simp only [List.nil_append, List.cons.injEq, true_and] at hv'
      rw [hv']; simp
    | cons d v' =>
      simp only [List.cons_append, List.cons.injEq] at hv'
      rw [hv'.2]; simp

/-- The characters of one kind at the end of a text. -/
theorem span_inj {P : Char → Bool} (hu : ∀ d, u.getLast? = some d → P d = false) (hu' : ∀ d, u'.getLast? = some d → P d = false)
    (hv : ∀ d ∈ v, P d = true) (hv' : ∀ d ∈ v', P d = true) (e : u ++ v = u' ++ v') : u = u' ∧ v = v' := by
  have ends : ∀ {a b : Text}, b ≠ [] → (∀ d ∈ b, P d = true) → ¬ ∀ d, (a ++ b).getLast? = some d → P d = false := by
    intro a b h0 hb h
    have := h (b.getLast h0) (by rw [List.getLast?_append, List.getLast?_eq_some_getLast h0]; rfl)
    rw [hb _ (List.getLast_mem h0)] at this; cases this
  rcases List.append_eq_append_iff.mp e with ⟨b, rfl, rfl⟩ | ⟨b, rfl, rfl⟩
  · by_cases h0 : b = []
    · simp [h0]
    · exact absurd hu' (ends h0 fun d hd => hv d (by simp [hd]))
  · by_cases h0 : b = []
    · simp [h0]
    · exact absurd hu (ends h0 fun d hd => hv' d (by simp [hd]))

theorem isAs_blank (hw : allBlank w = true) : IsAs (w ++ " AS ".toList) := by
  refine ⟨w ++ " ".toList, "AS".toList, " ".toList, by simp, ?_, by unfold Spells; decide, by decide, by decide, by simp⟩
  rw [allBlank, List.all_append, Bool.and_eq_true]
  exact ⟨hw, by decide⟩

/-- Ahead of AS between blanks stands the same text, up to blanks. -/
theorem IsAs.split (ht : IsAs t) (e : y ++ t = z ++ " AS ".toList) : ∃ w, allBlank w = true ∧ z = y ++ w := by
  obtain ⟨w, k, b, hw0, hw, hk, -, hb, rfl⟩ := ht
  have hblank : ∀ {u k : Text}, k ≠ [] → (∀ d ∈ k, isWord d = true) → ∀ d, (u ++ k).getLast? = some d → isBlank d = false := by
    intro u k h0 hk d hd
    rw [List.getLast?_append, List.getLast?_eq_some_getLast h0, Option.some_or, Option.some.injEq] at hd
    exact not_isBlank_of_isWord (hk d (by rw [← hd]; exact List.getLast_mem h0))
  have has : ∀ d ∈ "AS".toList, isWord d = true := List.all_eq_true.mp (by decide +kernel)
  have e' : y ++ w ++ k ++ b = z ++ " ".toList ++ "AS".toList ++ " ".toList := by simpa using e
  obtain ⟨h₁, -⟩ := span_inj (hblank (hk.ne_nil asWord.1) (hk.word asWord.2)) (hblank asWord.1 has) (List.all_eq_true.mp hb)
    (List.all_eq_true.mp (by decide)) e'
  obtain ⟨h₂, -⟩ := span_inj ((endsApart_of_allBlank hw).append hw0 y) (EndsApart.concat (by decide) z) (hk.word asWord.2) has h₁
  cases w using List.reverseRecOn with
  | nil => exact absurd rfl hw0
  | append_singleton w d =>
    rw [← List.append_assoc] at h₂
    refine ⟨w, ?_, (List.append_inj' h₂ rfl).1.symm⟩
    rw [allBlank, List.all_append, Bool.and_eq_true] at hw
    exact hw.1

/-- What stands ahead of the label of a projection is the projection, up to blanks. -/
theorem label_of_projection (he : '"' ∉ e) (hl : '"' ∉ l) (hr : '"' ∉ rest) (ht : IsAs t) (hlab : '"' ∉ lab)
    (h : e ++ (labelText " AS ".toList l ++ rest) = y ++ (t ++ '"' :: (lab ++ '"' :: r))) :
    lab = l ∧ ∃ w, allBlank w = true ∧ e = y ++ w := by
  have hx : '"' ∉ e ++ " AS ".toList := by simp [he]
  obtain ⟨h₁, h₂⟩ := label_inj (y := y ++ t) hx hl hlab hr (by rw [List.append_assoc, ← h]; simp [labelText])
  exact ⟨h₂, ht.split h₁⟩

end

/-! ## The last part of a projection -/

/-- The part `q` of a projection, with `p` ahead of it, stands for the column or expression `c`. -/
inductive Projected (p : Text) : Text → Text → Prop
  | column {c : Text} : EndsApart p → IsColumn c → Projected p c c
  | date {d c : Text} : EndsApart p → IsDate d c → Projected p d c
  | case {e : Text} : Run p → Counting p → IsCase e → Projected p e e

section

variable {p p' q q' c' : Text}

theorem IsColumn.not_endsApart (h : IsColumn c) (p : Text) : ¬ EndsApart (p ++ c) := by
  obtain ⟨a, b, rfl, -, hb0, -, hb⟩ := h
  intro hp
  have := hp (b.getLast hb0) (by simp [List.getLast?_append, List.getLast?_cons, List.getLast?_eq_some_getLast hb0])
  rw [hb _ (List.getLast_mem hb0)] at this; cases this

theorem IsDate.getLast? {d : Text} (h : IsDate d c) (p : Text) : (p ++ d).getLast? = some ')' := by
  obtain ⟨h, f, w, -, -, -, rfl⟩ := isDate_iff.mp h
  rw [← List.append_assoc, ← List.append_assoc, ← List.append_assoc, List.getLast?_concat]

/-- A column is told from the text it ends. -/
theorem IsColumn.inj (hp : EndsApart p) (hp' : EndsApart p') (hc : IsColumn c) (hc' : IsColumn c') (e : p ++ c = p' ++ c') :
    c = c' := by
  obtain ⟨a, b, rfl, -, -, ha, hb⟩ := hc
  obtain ⟨a', b', rfl, -, -, ha', hb'⟩ := hc'
  obtain ⟨h₁, rfl⟩ := span_inj (EndsApart.concat not_isWord_dot (p ++ a)) (EndsApart.concat not_isWord_dot (p' ++ a')) hb hb'
    (by simpa using e)
  obtain ⟨-, rfl⟩ := span_inj hp hp' ha ha' (List.append_inj' h₁ rfl).1
  rfl

theorem IsColumn.ink (h : IsColumn c) (p : Text) : ∀ d, (p ++ c).getLast? = some d → isBlank d = false := by
  intro d hd
  by_contra hb
  exact h.not_endsApart p (endsApart_of_getLast? hd (isWord_of_isBlank (by simpa using hb)))

theorem OpensDate.inj {h h' : Text} (ho : OpensDate h c) (ho' : OpensDate h' c') (e : p ++ h = p' ++ h') : c = c' := by
  have apart : ∀ {x k b : Text}, Spells "DATE_FORMAT(".toList k → allBlank b = true → EndsApart (x ++ k ++ b) := by
    intro x k b hk hb
    by_cases h0 : b = []
    · obtain ⟨s, d, rfl, hd⟩ := hk.last (u := '(') (by decide)
      obtain rfl : d = '(' := by simpa [sameLetter] using hd
      rw [h0, List.append_nil, ← List.append_assoc]
      exact EndsApart.concat (by decide) _
    · exact (endsApart_of_allBlank hb).append h0 _
  have comma : ∀ {x : Text} d, (x ++ [',']).getLast? = some d → isBlank d = false := by
    intro x d hd
    rw [List.getLast?_concat, Option.some.injEq] at hd
    rw [← hd]; decide
  obtain ⟨k, b₁, b₂, b₃, hk, h₁, hc, h₂, h₃, rfl⟩ := ho
  obtain ⟨k', b₁', b₂', b₃', hk', h₁', hc', h₂', h₃', rfl⟩ := ho'
  have e' : p ++ k ++ b₁ ++ c ++ b₂ ++ [','] ++ b₃ = p' ++ k' ++ b₁' ++ c' ++ b₂' ++ [','] ++ b₃' := by simpa using e
  obtain ⟨e₁, -⟩ := span_inj comma comma (List.all_eq_true.mp h₃) (List.all_eq_true.mp h₃') e'
  obtain ⟨e₂, -⟩ := span_inj (hc.ink _) (hc'.ink _) (List.all_eq_true.mp h₂) (List.all_eq_true.mp h₂') (List.append_inj' e₁ rfl).1
  exact hc.inj (apart hk h₁) (apart hk' h₁') hc' e₂

/-- A date with its format in single quotes is told from the text it ends. -/
theorem IsDate.inj {d d' : Text} (hd : IsDate d c) (hd' : IsDate d' c') (hq : '"' ∉ p ++ d) (e : p ++ d = p' ++ d') : c = c' := by
  obtain ⟨h, f, w, ho, hf, hw, rfl⟩ := isDate_iff.mp hd
  obtain ⟨h', f', w', ho', hf', hw', rfl⟩ := isDate_iff.mp hd'
  have hq' : '"' ∉ p' ++ (h' ++ (f' ++ (w' ++ [')']))) := by rwa [← e]
  obtain ⟨q, g, rfl | rfl, hg, rfl⟩ := hf
  · obtain ⟨q', g', rfl | rfl, hg', rfl⟩ := hf'
    · have quote : ∀ {P : Char → Bool} {x : Text}, P '\'' = false → ∀ d, (x ++ ['\'']).getLast? = some d → P d = false := by
        intro P x hP d hd
        rw [List.getLast?_concat, Option.some.injEq] at hd
        rw [← hd]; exact hP
      have other : ∀ {g : Text}, '\'' ∉ g → ∀ d ∈ g, decide (d ≠ '\'') = true := by
        intro g hg d hd
        rw [decide_eq_true_eq]
        rintro rfl
        exact hg hd
      -- from the end: the parenthesis, the blanks ahead of it, the format
      have e₁ : p ++ h ++ ['\''] ++ g ++ ['\''] ++ w ++ [')'] = p' ++ h' ++ ['\''] ++ g' ++ ['\''] ++ w' ++ [')'] := by
        simpa using e
      obtain ⟨e₂, -⟩ := span_inj (quote (by decide)) (quote (by decide)) (List.all_eq_true.mp hw) (List.all_eq_true.mp hw')
        (List.append_inj' e₁ rfl).1
      obtain ⟨e₃, -⟩ := span_inj (quote (by decide)) (quote (by decide)) (other hg) (other hg') (List.append_inj' e₂ rfl).1
      exact ho.inj ho' (List.append_inj' e₃ rfl).1
    · exact absurd (by simp) hq'
  · exact absurd (by simp) hq

/-- The projection ends in ink. -/
theorem Projected.ink (h : Projected p q c) : ∀ d, (p ++ q).getLast? = some d → isBlank d = false := by
  intro d hd
  cases h with
  | column _ hc => exact hc.ink p d hd
  | case _ _ hc =>
    by_contra hb
    exact hc.not_endsApart (endsApart_of_getLast? hd (isWord_of_isBlank (by simpa using hb)))
  | date _ hdate =>
    rw [hdate.getLast? p, Option.some.injEq] at hd
    rw [← hd]; decide

/-- A date does not end in a word, as columns and expressions do. -/
theorem IsDate.endsApart {d : Text} (h : IsDate d c) (p : Text) : EndsApart (p ++ d) :=
  endsApart_of_getLast? (h.getLast? p) (by decide)

/-- A column has a dot ahead of its last word, and END has not. -/
theorem IsColumn.not_case (hc : IsColumn c) (hp : Counting p') (hq : IsCase q) (e : p ++ c = p' ++ q) : False := by
  obtain ⟨a, b, rfl, -, -, -, hb⟩ := hc
  obtain ⟨k, b', n, hk, hb', hn, rfl⟩ := hq
  have hcount := hb'.behind (paired_append hp.paired (isCaseWord_case hk).paired)
  have e' : p ++ a ++ ['.'] ++ b = p' ++ k ++ b' ++ n := by simpa using e
  obtain ⟨h, -⟩ := span_inj (EndsApart.concat not_isWord_dot _) hcount.apart hb hn.1.word e'
  refine hcount.undotted ?_
  rw [← h, List.getLast?_concat]

/-- A projection has one last part at most. -/
theorem Projected.unique {e w w' : Text} (he : '"' ∉ e) (h : Projected p q c) (h' : Projected p' q' c') (hw : allBlank w = true)
    (hw' : allBlank w' = true) (e₁ : e = p ++ (q ++ w)) (e₂ : e = p' ++ (q' ++ w')) : c = c' := by
  have e' : p ++ q ++ w = p' ++ q' ++ w' := by rw [List.append_assoc, List.append_assoc, ← e₁, ← e₂]
  obtain ⟨e₃, -⟩ := span_inj h.ink h'.ink (List.all_eq_true.mp hw) (List.all_eq_true.mp hw') e'
  have hd : '"' ∉ p ++ q := by
    intro hm
    exact he (by rw [e₁, ← List.append_assoc]; exact List.mem_append_left w hm)
  cases h with
  | column hp hc =>
    cases h' with
    | column hp' hc' => exact hc.inj hp hp' hc' e₃
    | date _ hd' => exact absurd (by rw [e₃]; exact hd'.endsApart p') (hc.not_endsApart p)
    | case _ hp' hc' => exact (hc.not_case hp' hc' e₃).elim
  | date _ hdate =>
    cases h' with
    | column _ hc' => exact absurd (by rw [← e₃]; exact hdate.endsApart p) (hc'.not_endsApart p')
    | date _ hd' => exact hdate.inj hd' hd e₃
    | case _ _ hc' => exact absurd (by rw [← e₃]; exact hdate.endsApart p) hc'.not_endsApart
  | case hr hp hc =>
    cases h' with
    | column _ hc' => exact (hc'.not_case hp hc e₃.symm).elim
    | date _ hd' => exact absurd (by rw [e₃]; exact hd'.endsApart p') hc.not_endsApart
    | case hr' hp' hc' =>
      -- the pairing finds both at once
      have hl : Labelled (labelText " AS ".toList "x".toList) "x".toList :=
        ⟨" AS ".toList, [], isAs_blank (w := []) rfl, by simp, by simp, by simp [labelText]⟩
      obtain ⟨more, h₁⟩ := hr.labelledCases hp hc hd hl
      obtain ⟨more', h₂⟩ := hr'.labelledCases hp' hc' (by rw [← e₃]; exact hd) hl
      rw [← List.append_assoc] at h₁ h₂
      rw [e₃, h₂] at h₁
      simp only [List.cons.injEq, Prod.mk.injEq, true_and] at h₁
      exact h₁.1.symm

end

/-! ## The label of a projection -/

/-- A query with the one projection `e`, labelled `l`. -/
def projection (e l rest : Text) : Text := "SELECT ".toList ++ (e ++ (labelText " AS ".toList l ++ rest))

/-- The last part of the projection `e`, blanks apart, stands for `c`. -/
def StandsFor (e c : Text) : Prop := ∃ p q w, e = p ++ (q ++ w) ∧ allBlank w = true ∧ Projected p q c

theorem StandsFor.unique {e c' : Text} (he : '"' ∉ e) (h : StandsFor e c) (h' : StandsFor e c') : c = c' := by
  obtain ⟨p, q, w, e₁, hw, hq⟩ := h
  obtain ⟨p', q', w', e₂, hw', hq'⟩ := h'
  exact hq.unique he hq' hw hw' e₁ e₂

/-- Where all pairs have the one key and the one value that satisfies `P`, it is the value of the key. -/
theorem get?_eq_some_iff_of_unique {found : List (Text × Text)} {P : Text → Prop} (hf : ∀ p ∈ found, p.1 = l ∧ P p.2)
    (hu : ∀ c c', P c → P c' → c = c') (h0 : ∀ c, P c → found ≠ []) : Json.get? l found = some c ↔ P c := by
  cases found with
  | nil =>
    constructor
    · intro h
      cases h
    · intro h
      exact absurd rfl (h0 c h)
  | cons p found =>
    obtain ⟨hl, hp⟩ := hf p (by simp)
    have hget : Json.get? l (p :: found) = some p.2 := by
      rw [Json.get?, List.find?_cons, beq_iff_eq.mpr hl]; rfl
    rw [hget, Option.some.injEq]
    constructor
    · intro h
      rw [← h]; exact hp
    · exact hu p.2 c hp

theorem labelled_select (s : Text) : labelled ("SELECT ".toList ++ s) = labelled s := by
  have hselect : Harmless "SELECT ".toList := ⟨Quiet.idle (by decide +kernel), by decide⟩
  have hcount : Counting "SELECT ".toList := by decide +kernel
  have hcases : labelledCases ("SELECT ".toList ++ s) = labelledCases s := by
    calc labelledCases ("SELECT ".toList ++ s) = casesFrom 0 0 "SELECT ".toList.reverse s :=
        casesFrom_idle (x := []) hselect.idle rfl (Or.inl hcount.apart)
      _ = labelledCases s := casesFrom_fresh hcount
  rw [labelled, reader_plainAt?.scan_select rfl, reader_dateAt?.scan_select rfl, hcases, labelled]

section

variable {e rest : Text} {p : Text × Text}

/-- The searches find the last part of the projection alone, with its label. -/
theorem standsFor_of_mem (he : '"' ∉ e) (hl : '"' ∉ l) (hr : '"' ∉ rest)
    (h : p ∈ labelled (e ++ (labelText " AS ".toList l ++ rest))) :
    p.1 = l ∧ l ≠ [] ∧ StandsFor e p.2 := by
  obtain ⟨lab, c⟩ := p
  rcases List.mem_append.mp h with h | h
  · rcases List.mem_append.mp h with h | h
    · obtain ⟨a, b, r, hs, hb⟩ := Reader.mem_scan (x := []) h
      obtain ⟨ha, hc, t, ht, h0, hlab, rfl⟩ := plainAt?_eq_some_iff.mp hb
      obtain ⟨rfl, w, hw, rfl⟩ := label_of_projection he hl hr ht hlab (by rw [hs, List.append_assoc])
      exact ⟨rfl, h0, a, c, w, by simp, hw, Projected.column ha hc⟩
    · obtain ⟨a, b, r, hs, hb⟩ := Reader.mem_scan (x := []) h
      obtain ⟨ha, d, hd, t, ht, h0, hlab, rfl⟩ := dateAt?_eq_some_iff.mp hb
      obtain ⟨rfl, w, hw, rfl⟩ := label_of_projection he hl hr ht hlab (by rw [hs, List.append_assoc])
      exact ⟨rfl, h0, a, d, w, by simp, hw, Projected.date ha hd⟩
  · obtain ⟨a, r, hs, hrun, ha, hc, t, r', ht, h0, hlab, rfl⟩ := mem_casesFrom (x := []) _ h rfl fun _ => Counting.nil
    obtain ⟨rfl, w, hw, rfl⟩ := label_of_projection he hl hr ht hlab (by rw [hs, List.append_assoc])
    exact ⟨rfl, h0, a, c, w, by simp, hw, Projected.case hrun ha hc⟩

/-- The last part of the projection is found by one of the searches. -/
theorem labelled_ne_nil (he : '"' ∉ e) (hl : '"' ∉ l) (h0 : l ≠ []) (h : StandsFor e c) (rest : Text) :
    labelled (e ++ (labelText " AS ".toList l ++ rest)) ≠ [] := by
  obtain ⟨p, q, w, rfl, hw, hq⟩ := h
  have hd : '"' ∉ p ++ q := by
    intro hm
    exact he (by rw [← List.append_assoc]; exact List.mem_append_left w hm)
  have e₁ : p ++ (q ++ w) ++ (labelText " AS ".toList l ++ rest) =
      p ++ (q ++ (w ++ " AS ".toList ++ '"' :: (l ++ '"' :: rest))) := by
    simp [labelText]
  rw [e₁, labelled]
  cases hq with
  | column hp hc =>
    have hread : plainAt? p.reverse (c ++ (w ++ " AS ".toList ++ '"' :: (l ++ '"' :: rest))) = some ((l, c), rest) :=
      plainAt?_eq_some_iff.mpr ⟨hp, hc, _, isAs_blank hw, h0, hl, rfl⟩
    have hscan := reader_plainAt?.scan_ne_nil (x := []) hread
    rw [List.append_assoc]
    exact List.append_ne_nil_of_left_ne_nil hscan _
  | date hp hdate =>
    have hread : dateAt? p.reverse (q ++ (w ++ " AS ".toList ++ '"' :: (l ++ '"' :: rest))) = some ((l, c), rest) :=
      dateAt?_eq_some_iff.mpr ⟨hp, q, hdate, _, isAs_blank hw, h0, hl, rfl⟩
    have hscan := reader_dateAt?.scan_ne_nil (x := []) hread
    exact List.append_ne_nil_of_left_ne_nil (List.append_ne_nil_of_right_ne_nil _ hscan) _
  | case hrun hp hc =>
    have hlabel : Labelled (w ++ " AS ".toList ++ '"' :: (l ++ '"' :: rest)) l := ⟨_, rest, isAs_blank hw, h0, hl, rfl⟩
    obtain ⟨more, h⟩ := hrun.labelledCases hp hc hd hlabel
    rw [h]
    exact List.append_ne_nil_of_right_ne_nil _ (List.cons_ne_nil _ _)

/-- The label of a projection stands for the last part of it that has a shape of its own: for the
    projection itself when nothing but blanks stands ahead of that part. -/
theorem get?_columns_projection (he : '"' ∉ e) (hl : '"' ∉ l) (hr : '"' ∉ rest) :
    Json.get? l (columns (projection e l rest)) = some c ↔ l ≠ [] ∧ StandsFor e c := by
  have hfound : Json.get? l (columns (projection e l rest)) =
      Json.get? l (labelled (e ++ (labelText " AS ".toList l ++ rest))) := by
    calc Json.get? l (columns (projection e l rest)) = Json.get? l (labelled (projection e l rest)) := get?_columns l _
      _ = Json.get? l (labelled (e ++ (labelText " AS ".toList l ++ rest))) := congrArg _ (labelled_select _)
  have hunique : ∀ c c', l ≠ [] ∧ StandsFor e c → l ≠ [] ∧ StandsFor e c' → c = c' := by
    intro c c' h h'
    exact h.2.unique he h'.2
  have hsome : ∀ c, l ≠ [] ∧ StandsFor e c → labelled (e ++ (labelText " AS ".toList l ++ rest)) ≠ [] := by
    intro c h
    exact labelled_ne_nil he hl h.1 h.2 rest
  rw [hfound]
  exact get?_eq_some_iff_of_unique (P := fun c => l ≠ [] ∧ StandsFor e c) (fun p hp => standsFor_of_mem he hl hr hp) hunique hsome

/-- The label of a sum stands for its last column alone. -/
theorem get?_columns_projection_sum :
    Json.get? "x".toList (columns (projection "t.a + t.b".toList "x".toList "\n-- FROM clause\nFROM t".toList)) =
      some "t.b".toList := by
  have hcolumn : IsColumn "t.b".toList := ⟨"t".toList, "b".toList, by decide, by decide, by decide,
    List.all_eq_true.mp (by decide +kernel), List.all_eq_true.mp (by decide +kernel)⟩
  have hapart : EndsApart "t.a + ".toList := startsInWord_reverse.mp (by decide +kernel)
  exact (get?_columns_projection (by decide) (by decide) (by decide)).mpr
    ⟨by decide, "t.a + ".toList, "t.b".toList, [], by decide, rfl, Projected.column hapart hcolumn⟩

end

end ExportQuery.Sql
