/-
  ExportQuery.Proofs.Division — divisions put one behind the other, and regions swapped back.

  Divisions form a monoid: the last piece of one joins the first piece of the next. The text,
  the bodies and the view with tokens are taken part by part, so an edit of the view that cuts
  no token is an edit of the division, and the text follows.

  Swapping back goes from left to right. Each body lands in the place of its token as long as
  the token does not stand in the text before it; texts that hold no tokens never fail this.

  - `exists_between` / `exists_append`: a cut of the view divides the division.
  - `restoreFrom_outerAt`: swapping back gives the text when the tokens are apart.
  - `divide_text`: a proper division is the division of its text.
  - `restoreRegions_extractRegions`: what was swapped is swapped back.
-/

import ExportQuery.Proofs.Token

namespace ExportQuery.Sql

open ExportQuery.Text

namespace Division

/-! ## Parts -/

/-- A text without regions. -/
def plain (s : Text) : Division := ⟨[], s⟩

/-- A piece and a region ahead of a division. -/
def cons (p b : Text) (d : Division) : Division := ⟨(p, b) :: d.regions, d.last⟩

@[induction_eliminator]
theorem induction {motive : Division → Prop} (plain : ∀ s, motive (plain s))
    (cons : ∀ p b d, motive d → motive (cons p b d)) (d : Division) : motive d := by
  obtain ⟨rs, last⟩ := d
  induction rs with
  | nil => exact plain last
  | cons r rs ih => exact cons r.1 r.2 _ ih

protected def append (d : Division) : Division → Division
  | ⟨[], last⟩ => ⟨d.regions, d.last ++ last⟩
  | ⟨(p, b) :: more, last⟩ => ⟨d.regions ++ (d.last ++ p, b) :: more, last⟩

instance : Append Division := ⟨Division.append⟩

/-- The view with tokens, counted from `i`. -/
def outerAt (name : Nat → Text) (i : Nat) (d : Division) : Text := outerFrom name i d.regions d.last

variable {name : Nat → Text}

@[simp] theorem plain_append_plain (s t : Text) : plain s ++ plain t = plain (s ++ t) := rfl

@[simp] theorem plain_append_cons (s p b : Text) (d : Division) : plain s ++ cons p b d = cons (s ++ p) b d := rfl

@[simp] theorem cons_append (p b : Text) (d e : Division) : cons p b d ++ e = cons p b (d ++ e) := by
  induction e <;> rfl

@[simp] theorem plain_nil_append (d : Division) : plain [] ++ d = d := by induction d <;> simp

@[simp] theorem append_plain_nil (d : Division) : d ++ plain [] = d := by
  induction d with
  | plain s => simp
  | cons p b d ih => simp [ih]

@[simp] theorem regions_plain (s : Text) : (plain s).regions = [] := rfl

@[simp] theorem regions_cons (p b : Text) (d : Division) : (cons p b d).regions = (p, b) :: d.regions := rfl

@[simp] theorem count_plain (s : Text) : (plain s).count = 0 := rfl

@[simp] theorem count_cons (p b : Text) (d : Division) : (cons p b d).count = d.count + 1 := rfl

@[simp] theorem text_plain (s : Text) : (plain s).text = s := by simp [plain, text]

@[simp] theorem text_cons (p b : Text) (d : Division) : (cons p b d).text = p ++ b ++ d.text := by simp [cons, text]

@[simp] theorem bodies_plain (s : Text) : (plain s).bodies = [] := rfl

@[simp] theorem bodies_cons (p b : Text) (d : Division) : (cons p b d).bodies = b :: d.bodies := rfl

@[simp] theorem outerAt_plain (i : Nat) (s : Text) : (plain s).outerAt name i = s := rfl

@[simp] theorem outerAt_cons (i : Nat) (p b : Text) (d : Division) :
    (cons p b d).outerAt name i = p ++ name i ++ d.outerAt name (i + 1) := rfl

@[simp] theorem count_append (d e : Division) : (d ++ e).count = d.count + e.count := by
  induction d with
  | plain s => induction e <;> simp
  | cons p b d ih => simp [ih]; omega

@[simp] theorem text_append (d e : Division) : (d ++ e).text = d.text ++ e.text := by
  induction d with
  | plain s => induction e <;> simp
  | cons p b d ih => simp [ih]

@[simp] theorem bodies_append (d e : Division) : (d ++ e).bodies = d.bodies ++ e.bodies := by
  induction d with
  | plain s => induction e <;> simp
  | cons p b d ih => simp [ih]

theorem count_congr {d e : Division} (h : d.bodies = e.bodies) : d.count = e.count := by
  simpa [bodies, count] using congrArg List.length h

@[simp] theorem outerAt_append (i : Nat) (d e : Division) :
    (d ++ e).outerAt name i = d.outerAt name i ++ e.outerAt name (i + d.count) := by
  induction d generalizing i with
  | plain s => induction e <;> simp
  | cons p b d ih => simp [ih, Nat.add_assoc, Nat.add_comm 1]

theorem append_assoc (d e f : Division) : d ++ e ++ f = d ++ (e ++ f) := by
  induction d with
  | plain s =>
    induction e with
    | plain t => induction f <;> simp
    | cons p b e ih => simp
  | cons p b d ih => simp [ih]

/-! ## Cuts of the view -/

/-- Names whose characters all belong to words. -/
def Wordy (name : Nat → Text) : Prop := ∀ i, name i ≠ [] ∧ ∀ c ∈ name i, isWord c = true

/-- Names that are tokens, in whatever order. -/
def Tokens (name : Nat → Text) : Prop := ∀ i, ∃ k, name i = token k

theorem tokens_token : Tokens token := fun i => ⟨i, rfl⟩

theorem tokens_tokenFrom (first : Nat) : Tokens (tokenFrom first) := fun _ => ⟨_, rfl⟩

theorem Tokens.wordy (hn : Tokens name) : Wordy name := fun i => by
  obtain ⟨k, hk⟩ := hn i
  rw [hk]
  exact ⟨token_ne_nil k, fun _ => isWord_token⟩

/-- A place that divides no name. -/
def Between (name : Nat → Text) (a b : Text) : Prop :=
  ∀ i u v, name i = u ++ v → u ≠ [] → v ≠ [] → u <:+ a → ¬ v <+: b

theorem between_of_seam (hn : Wordy name) {a b : Text} (hs : Seam a b) : Between name a b := by
  intro i u v e hu hv ha hb
  exact hs.not_across hu hv ha hb (by rw [← e]; exact (hn i).2)

/-- Behind a character that no name holds, no name is divided. -/
theorem between_of_last {a : Text} {c : Char} (hc : ∀ i, c ∉ name i) (ha : a.getLast? = some c) (b : Text) :
    Between name a b := by
  rintro i u v e hu - ⟨t, rfl⟩ -
  rw [List.getLast?_append, List.getLast?_eq_some_getLast hu, Option.some_or, Option.some.injEq] at ha
  exact hc i (by rw [e, ← ha]; exact List.mem_append_left v (List.getLast_mem hu))

theorem Between.shrink {a e b : Text} (h : Between name a b) (he : e <:+ a) : Between name e b :=
  fun i u v hi hu hv ha => h i u v hi hu hv (ha.trans he)

/-- A cut of the view that divides no name divides the division. -/
theorem exists_between {d : Division} {i : Nat} {a b : Text} (h : d.outerAt name i = a ++ b) (hs : Between name a b) :
    ∃ d₁ d₂, d = d₁ ++ d₂ ∧ d₁.outerAt name i = a ∧ d₂.outerAt name (i + d₁.count) = b := by
  induction d generalizing i a with
  | plain s => exact ⟨plain a, plain b, by rw [outerAt_plain] at h; rw [h]; rfl, rfl, rfl⟩
  | cons p body d ih =>
    rw [outerAt_cons, List.append_assoc] at h
    rcases List.append_eq_append_iff.mp h with ⟨c, rfl, hc⟩ | ⟨c, rfl, hb⟩
    · rcases List.append_eq_append_iff.mp hc with ⟨e, rfl, hrest⟩ | ⟨e, he, hb⟩
      · -- the cut is right of the name
        obtain ⟨d₁, d₂, rfl, h₁, h₂⟩ := ih hrest (hs.shrink ⟨p ++ name i, by simp⟩)
        refine ⟨cons p body d₁, d₂, by simp, by simp [h₁], ?_⟩
        rw [← h₂, count_cons, Nat.add_right_comm, Nat.add_assoc]
      · by_cases h0 : c = []
        · subst h0
          exact ⟨plain p, cons [] body d, by simp, by simp, by simpa [hb] using he⟩
        by_cases h1 : e = []
        · subst h1
          exact ⟨cons p body (plain []), d, by simp, by simp [he], by simpa using hb.symm⟩
        · exact (hs i c e he h0 h1 ⟨p, rfl⟩ ⟨_, hb.symm⟩).elim
    · -- the cut is inside the piece
      exact ⟨plain a, cons c body d, by simp, rfl, by simp [hb]⟩

theorem exists_append (hn : Wordy name) {d : Division} {i : Nat} {a b : Text} (h : d.outerAt name i = a ++ b)
    (hs : Seam a b) : ∃ d₁ d₂, d = d₁ ++ d₂ ∧ d₁.outerAt name i = a ∧ d₂.outerAt name (i + d₁.count) = b :=
  exists_between h (between_of_seam hn hs)

/-! ## Swapping back -/

/-- No name stands in the text before the region it names, where `x` comes before all of it. -/
def Apart (name : Nat → Text) : Nat → Text → List (Text × Text) → Prop
  | _, _, [] => True
  | i, x, (p, b) :: more => ¬ name i <:+: x ++ p ∧ Apart name (i + 1) (x ++ p ++ b) more

instance decidableApart (name : Nat → Text) : (i : Nat) → (x : Text) → (rs : List (Text × Text)) → Decidable (Apart name i x rs)
  | _, _, [] => isTrue trivial
  | i, x, (p, b) :: more => @instDecidableAnd _ _ inferInstance (decidableApart name (i + 1) (x ++ p ++ b) more)

/-- Bodies that start with a dash. -/
def Fenced (d : Division) : Prop := ∀ b ∈ d.bodies, ∃ t, b = '-' :: t

theorem Fenced.seam {p b : Text} {d : Division} (h : (cons p b d).Fenced) (x y : Text) : Seam x (b ++ y) := by
  obtain ⟨t, rfl⟩ := h b (by simp)
  exact Or.inr not_isWord_dash

theorem Fenced.tail {p b : Text} {d : Division} (h : (cons p b d).Fenced) : d.Fenced :=
  fun b' hb => h b' (by simp [hb])

/-- A body lands in the place of its name when the name does not stand in the text before. -/
theorem restoreFrom_cons (hn : Tokens name) {i : Nat} {x p b : Text} {d : Division} (hf : (cons p b d).Fenced)
    (hw : Whole (x ++ (cons p b d).text)) (hi : ¬ name i <:+: x ++ p) :
    restoreFrom name i (cons p b d).bodies (x ++ (cons p b d).outerAt name i) =
      restoreFrom name (i + 1) d.bodies (x ++ p ++ b ++ d.outerAt name (i + 1)) := by
  have hwx : Whole (x ++ p) := by
    have e : x ++ (cons p b d).text = (x ++ p) ++ (b ++ d.text) := by simp
    exact (e ▸ hw).left (hf.seam _ _)
  have hcut : cut? (name i) (x ++ p ++ name i ++ d.outerAt name (i + 1)) = some (x ++ p, d.outerAt name (i + 1)) := by
    obtain ⟨k, hk⟩ := hn i
    rw [hk] at hi ⊢
    exact cut?_first (token_first hwx hi) _
  rw [← replaceFirst_of_cut hcut]
  simp [restoreFrom]

theorem restoreFrom_outerAt (hn : Tokens name) {i : Nat} {x : Text} {d : Division} (hf : d.Fenced)
    (hw : Whole (x ++ d.text)) (ha : Apart name i x d.regions) :
    restoreFrom name i d.bodies (x ++ d.outerAt name i) = x ++ d.text := by
  induction d generalizing i x with
  | plain s => simp [restoreFrom]
  | cons p b d ih =>
    obtain ⟨hi, ha⟩ := ha
    have e : x ++ (cons p b d).text = x ++ p ++ b ++ d.text := by simp
    rw [restoreFrom_cons hn hf hw hi, e]
    exact ih hf.tail (e ▸ hw) ha

/-- Names that stand nowhere in the text are apart from their regions. -/
theorem apart_of_absent {i : Nat} {x : Text} {d : Division}
    (h : ∀ j, i ≤ j → j < i + d.count → ¬ name j <:+: x ++ d.text) : Apart name i x d.regions := by
  induction d generalizing i x with
  | plain s => trivial
  | cons p b d ih =>
    rw [count_cons, text_cons] at h
    constructor
    · intro hi
      apply h i (Nat.le_refl i) (by omega)
      exact hi.trans ⟨[], b ++ d.text, by simp⟩
    · apply ih
      intro j hj hc
      have := h j (by omega) (by omega)
      simpa using this

theorem apart_of_tokenFree (hn : Tokens name) {i : Nat} {x : Text} {d : Division} (h : TokenFree (x ++ d.text)) :
    Apart name i x d.regions := by
  apply apart_of_absent
  intro j _ _
  obtain ⟨k, hk⟩ := hn j
  rw [hk]
  exact h.token k

/-- Without tokens in the text, swapping back always succeeds. -/
theorem restoreFrom_of_tokenFree (hn : Tokens name) {i : Nat} {d : Division} (hf : d.Fenced) (h : TokenFree d.text) :
    restoreFrom name i d.bodies (d.outerAt name i) = d.text :=
  restoreFrom_outerAt hn (x := []) hf h.whole (apart_of_tokenFree hn h)

end Division

/-! ## Proper divisions -/

/-- A pattern no end of which is also a beginning of it occurs nowhere across its own place. -/
theorem not_infix_dropLast {pat x : Text} (hp : pat ≠ []) (hb : ∀ n < pat.length, 0 < n → ¬ pat.drop n <+: pat)
    (h : ¬ pat <:+: x) : ¬ pat <:+: x ++ pat.dropLast := by
  intro hi
  rcases infix_append_cases hi with hi | hi | ⟨u, v, hu, hv, e, -, hd⟩
  · exact h hi
  · have h₁ := hi.length_le
    have h₂ : 0 < pat.length := List.length_pos_iff.mpr hp
    simp only [List.length_dropLast] at h₁
    omega
  · have hlen := congrArg List.length e
    have hu' : 0 < u.length := List.length_pos_iff.mpr hu
    have hv' : 0 < v.length := List.length_pos_iff.mpr hv
    simp only [List.length_append] at hlen
    refine hb u.length (by omega) hu' ?_
    have : pat.drop u.length = v := by rw [e]; simp
    rw [this]
    exact hd.trans (List.dropLast_prefix pat)

theorem startMarker_first {x : Text} (h : ¬ startMarker <:+: x) (y : Text) :
    cut? startMarker (x ++ startMarker ++ y) = some (x, y) :=
  cut?_first (not_infix_dropLast (by decide) (by decide) h) y

theorem endMarker_first {x : Text} (h : ¬ endMarker <:+: x) (y : Text) :
    cut? endMarker (x ++ endMarker ++ y) = some (x, y) :=
  cut?_first (not_infix_dropLast (by decide) (by decide) h) y

theorem not_infix_of_cut? {pat s a b : Text} (hp : pat ≠ []) (h : cut? pat s = some (a, b)) : ¬ pat <:+: a := by
  rintro ⟨u, v, rfl⟩
  have := cut?_le h (show s = u ++ pat ++ (v ++ pat ++ b) by rw [eq_of_cut? h]; simp)
  have : 0 < pat.length := List.length_pos_iff.mpr hp
  simp only [List.length_append] at *
  omega

/-- A region found starts at the first start marker and ends at the first end marker after it. -/
theorem eq_of_nextRegion? {s p b q : Text} (h : nextRegion? s = some (p, b, q)) :
    ¬ startMarker <:+: p ∧ ∃ t, b = startMarker ++ t ++ endMarker ∧ ¬ endMarker <:+: t := by
  obtain ⟨opened, body, h₁, h₂, rfl⟩ := cuts_of_nextRegion? h
  exact ⟨not_infix_of_cut? (by decide) h₁, body, rfl, not_infix_of_cut? (by decide) h₂⟩

/-- A text opens a region unless no end marker follows a start marker. -/
theorem nextRegion?_eq_none_iff {s : Text} :
    nextRegion? s = none ↔ ∀ a b c, s ≠ a ++ startMarker ++ b ++ endMarker ++ c := by
  constructor
  · rintro h a b c e
    have hs : startMarker <:+: s := ⟨a, b ++ endMarker ++ c, by rw [e]; simp⟩
    obtain ⟨⟨x, y⟩, hc⟩ := Option.isSome_iff_exists.mp (cut?_isSome_iff.mpr hs)
    have hle : x.length ≤ a.length := cut?_le hc (show s = a ++ startMarker ++ (b ++ endMarker ++ c) by rw [e]; simp)
    have hj := eq_of_cut? hc
    have hy : endMarker <:+: y := by
      have he : x ++ startMarker ++ y = a ++ startMarker ++ (b ++ endMarker ++ c) := by rw [← hj, e]; simp
      obtain ⟨t, -, ht⟩ := eq_append_of_le he (by simp only [List.length_append]; omega)
      exact ⟨t ++ b, c, by rw [ht]; simp⟩
    obtain ⟨⟨u, v⟩, hu⟩ := Option.isSome_iff_exists.mp (cut?_isSome_iff.mpr hy)
    simp only [nextRegion?, hc, hu] at h
    cases h
  · intro h
    cases hn : nextRegion? s with
    | none => rfl
    | some r =>
      obtain ⟨p, b, q⟩ := r
      obtain ⟨-, t, rfl, -⟩ := eq_of_nextRegion? hn
      exact absurd (by rw [nextRegion?_joins hn]; simp) (h p t q)

namespace Division

/-- What a division by regions looks like: pieces before regions hold no start marker, a region
    ends at its first end marker, and the last piece holds no region. -/
structure Proper (d : Division) : Prop where
  piece : ∀ r ∈ d.regions, ¬ startMarker <:+: r.1
  body : ∀ r ∈ d.regions, ∃ t, r.2 = startMarker ++ t ++ endMarker ∧ ¬ endMarker <:+: t
  last : ∀ a b c, d.last ≠ a ++ startMarker ++ b ++ endMarker ++ c

theorem startMarker_eq_cons : ∃ t, startMarker = '-' :: t := ⟨_, rfl⟩

theorem Proper.fenced {d : Division} (h : d.Proper) : d.Fenced := by
  intro b hb
  obtain ⟨r, hr, rfl⟩ := List.mem_map.mp hb
  obtain ⟨t, ht, -⟩ := h.body r hr
  obtain ⟨m, hm⟩ := startMarker_eq_cons
  exact ⟨m ++ t ++ endMarker, by rw [ht, hm]; simp⟩

end Division

theorem divide_proper (s : Text) : (divide s).Proper := by
  fun_induction divide s with
  | case1 s h => exact ⟨by simp, by simp, nextRegion?_eq_none_iff.mp h⟩
  | case2 s p b q h ih =>
    refine ⟨?_, ?_, ih.last⟩
    · simp only [List.mem_cons, forall_eq_or_imp]
      exact ⟨(eq_of_nextRegion? h).1, ih.piece⟩
    · simp only [List.mem_cons, forall_eq_or_imp]
      exact ⟨(eq_of_nextRegion? h).2, ih.body⟩

/-- A proper division is the division of its text. -/
theorem divide_text {d : Division} (h : d.Proper) : divide d.text = d := by
  obtain ⟨rs, last⟩ := d
  induction rs with
  | nil =>
    have hn : nextRegion? last = none := nextRegion?_eq_none_iff.mpr h.last
    rw [show (⟨[], last⟩ : Division).text = last by simp [Division.text], divide]
    split
    · rfl
    · rename_i h'; rw [hn] at h'; cases h'
  | cons r rs ih =>
    obtain ⟨p, b⟩ := r
    obtain ⟨t, hb, ht⟩ := h.body (p, b) (by simp)
    have hp := h.piece (p, b) (by simp)
    simp only at hb hp
    have ih := ih ⟨fun r hr => h.piece r (by simp [hr]), fun r hr => h.body r (by simp [hr]), h.last⟩
    have hn : nextRegion? (⟨(p, b) :: rs, last⟩ : Division).text = some (p, b, (⟨rs, last⟩ : Division).text) := by
      have e : (⟨(p, b) :: rs, last⟩ : Division).text =
          p ++ startMarker ++ (t ++ endMarker ++ (⟨rs, last⟩ : Division).text) := by simp [Division.text, hb]
      rw [e]
      simp only [nextRegion?, startMarker_first hp, endMarker_first ht, ← hb]
    rw [divide]
    split
    · rename_i h'; rw [hn] at h'; cases h'
    · rename_i x y z h'
      rw [hn] at h'
      simp only [Option.some.injEq, Prod.mk.injEq] at h'
      obtain ⟨rfl, rfl, rfl⟩ := h'
      simp only [ih]

/-! ## Round trip -/

/-- Swapping the regions of a text for tokens and back gives the text. -/
theorem restoreRegions_extractRegions (s : Text) (h : TokenFree s) :
    restoreRegions (extractRegions s).1 (extractRegions s).2 = s := by
  have hd : TokenFree (divide s).text := by rw [divide_joins]; exact h
  calc restoreRegions (extractRegions s).1 (extractRegions s).2
      = restoreFrom token 0 (divide s).bodies ((divide s).outerAt token 0) := rfl
    _ = (divide s).text := Division.restoreFrom_of_tokenFree Division.tokens_token (divide_proper s).fenced hd
    _ = s := divide_joins s

/-- Two regions that touch, and a start marker without an end. -/
theorem restoreRegions_extractRegions_touching :
    let s := "a-- subquery start-- subquery end-- subquery start (1) -- subquery end -- subquery start".toList
    TokenFree s ∧ (extractRegions s).2.length = 2 ∧ restoreRegions (extractRegions s).1 (extractRegions s).2 = s :=
  ⟨by decide +kernel, by decide +kernel, restoreRegions_extractRegions _ (by decide +kernel)⟩

end ExportQuery.Sql
