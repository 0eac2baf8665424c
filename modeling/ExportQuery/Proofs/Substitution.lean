/-
  ExportQuery.Proofs.Substitution — a text with references is its parts, one after the other.

  A text is put together from literals, references and lone dollar signs. Where each part ends can
  be told from what stands behind it, the reader finds the parts again, and expansion puts the
  values in their places, once, from left to right.

  The process looks a name up as the beginning of an entry. A name between braces may hold `=`,
  and then runs on from the name of a variable into its value: `${A=B}` reads the end of the
  value `B=C` of `A`.

  - `pieces_render`: the reader finds the parts.
  - `expand_render`: expansion is substitution, with any look-up.
  - `value?_ofList`: what an environment answers for a name.
  - `expand_segments`: expansion is substitution of the variables' values, unless the first name
    that is no variable runs on.
-/

import ExportQuery.Proofs.Search
import ExportQuery.Proofs.Token
import ExportQuery.Settings.Environment

namespace ExportQuery.Settings

open ExportQuery.Text ExportQuery.Sql

/-! ## Parts of a text -/

inductive Segment where
  | literal (s : Text)
  /-- `${name}`. -/
  | braced (name : Text)
  /-- `$name`. -/
  | bare (name : Text)
  /-- A dollar sign that starts no reference. -/
  | dollar
  deriving DecidableEq, Repr

namespace Segment

def text : Segment → Text
  | .literal s => s
  | .braced name => '$' :: '\x7b' :: (name ++ ['\x7d'])
  | .bare name => '$' :: name
  | .dollar => ['$']

/-- The name a reference asks for. -/
def name? : Segment → Option Text
  | .braced name | .bare name => some name
  | .literal _ | .dollar => none

/-- The part with a value in place of a reference. -/
def filled (value? : Text → Option Text) : Segment → Text
  | .braced name | .bare name => (value? name).getD []
  | .literal s => s
  | .dollar => ['$']

/-- What the reader should find. -/
def pieces : Segment → List Piece
  | .braced name | .bare name => [.variable name]
  | .literal s => s.map .char
  | .dollar => [.char '$']

end Segment

def render (segs : List Segment) : Text := segs.flatMap Segment.text

/-- The names asked for, in order. -/
def names (segs : List Segment) : List Text := segs.filterMap Segment.name?

/-- No character of names stands at the start of the text. -/
def PastName (s : Text) : Prop := ∀ c ∈ s.head?, isNameChar c = false

instance (s : Text) : Decidable (PastName s) :=
  decidable_of_iff (s.head?.all (!isNameChar ·) = true) (by cases s <;> simp [PastName])

/-- Where the part ends can be told with `rest` behind it. -/
def Segment.Ends (rest : Text) : Segment → Prop
  | .literal s => '$' ∉ s
  | .braced name => '\x7d' ∉ name
  | .bare name => name ≠ [] ∧ (∀ c ∈ name, isNameChar c = true) ∧ PastName rest
  | .dollar => PastName rest ∧ rest.head? ≠ some '\x7b'

instance (rest : Text) : (seg : Segment) → Decidable (seg.Ends rest)
  | .literal s => inferInstanceAs (Decidable ('$' ∉ s))
  | .braced name => inferInstanceAs (Decidable ('\x7d' ∉ name))
  | .bare name => decidable_of_iff (name ≠ [] ∧ name.all isNameChar = true ∧ PastName rest) (by simp [Segment.Ends])
  | .dollar => inferInstanceAs (Decidable (PastName rest ∧ rest.head? ≠ some '\x7b'))

/-- Where each part ends can be told from the text behind it. -/
def Legible : List Segment → Prop
  | [] => True
  | seg :: more => seg.Ends (render more) ∧ Legible more

instance decidableLegible : (segs : List Segment) → Decidable (Legible segs)
  | [] => .isTrue trivial
  | seg :: more =>
    have := decidableLegible more
    inferInstanceAs (Decidable (seg.Ends (render more) ∧ Legible more))

/-- The first name without a value. -/
def missing? (value? : Text → Option Text) (segs : List Segment) : Option Text := (names segs).find? (value? · |>.isNone)

/-- Each reference replaced by the value of its name; the first name without a value is an error. -/
def substitute (value? : Text → Option Text) (segs : List Segment) : Except Text Text :=
  match missing? value? segs with
  | some name => .error name
  | none => .ok (segs.flatMap (Segment.filled value?))

/-! ## Reading -/

section

variable {s name rest : Text}

theorem reference?_braced (h : '\x7d' ∉ name) : reference? ('\x7b' :: (name ++ '\x7d' :: rest)) = some (name, rest) := by
  have hn : ∀ c ∈ name, decide (c ≠ '\x7d') = true := fun c hc => by
    have : c ≠ '\x7d' := fun e => h (e ▸ hc)
    simpa using this
  simp only [reference?, List.takeWhile_append_of_pos hn, List.dropWhile_append_of_pos hn]
  simp

/-- Without a brace, a name is read as far as it goes. -/
theorem reference?_of_head (h : s.head? ≠ some '\x7b') : reference? s =
    if (s.takeWhile isNameChar).isEmpty then none else some (s.takeWhile isNameChar, s.dropWhile isNameChar) := by
  cases s with
  | nil => rfl
  | cons c s =>
    have hc : c ≠ '\x7b' := by simpa using h
    unfold reference?
    split
    · rename_i e
      exact absurd (List.cons.inj e).1 hc
    · rfl

theorem reference?_bare (h0 : name ≠ []) (hn : ∀ c ∈ name, isNameChar c = true) (hr : PastName rest) :
    reference? (name ++ rest) = some (name, rest) := by
  have hbrace : (name ++ rest).head? ≠ some '\x7b' := by
    cases name with
    | nil => exact absurd rfl h0
    | cons c name =>
      intro e
      obtain rfl : c = '\x7b' := by simpa using e
      exact absurd (hn '\x7b' (by simp)) (by decide)
  obtain ⟨htake, hdrop⟩ := span_append hn hr
  simp [reference?_of_head hbrace, htake, hdrop, h0]

theorem reference?_none (hr : PastName s) (hb : s.head? ≠ some '\x7b') : reference? s = none := by
  have hn : ∀ c ∈ ([] : Text), isNameChar c = true := fun c hc => absurd hc List.not_mem_nil
  have htake : s.takeWhile isNameChar = [] := (span_append hn hr).1
  simp [reference?_of_head hb, htake]

theorem pieces_literal (h : '$' ∉ s) (t : Text) : pieces (s ++ t) = s.map .char ++ pieces t := by
  induction s with
  | nil => rfl
  | cons c s ih =>
    simp only [List.mem_cons, not_or] at h
    rw [List.cons_append, pieces, if_neg (Ne.symm h.1), ih h.2]
    rfl

theorem pieces_reference (h : reference? s = some (name, rest)) : pieces ('$' :: s) = .variable name :: pieces rest := by
  rw [pieces, if_pos rfl]
  split
  · rename_i e
    rw [h] at e
    cases e
    rfl
  · rename_i e
    rw [h] at e
    cases e

theorem pieces_dollar (h : reference? s = none) : pieces ('$' :: s) = .char '$' :: pieces s := by
  rw [pieces, if_pos rfl]
  split
  · rename_i e
    rw [h] at e
    cases e
  · rfl

end

/-- The reader finds a part that it can tell the end of. -/
theorem pieces_segment {seg : Segment} {rest : Text} (h : seg.Ends rest) :
    Settings.pieces (seg.text ++ rest) = seg.pieces ++ Settings.pieces rest := by
  cases seg with
  | literal s => exact pieces_literal h rest
  | braced name =>
    have e : (Segment.braced name).text ++ rest = '$' :: '\x7b' :: (name ++ '\x7d' :: rest) := by simp [Segment.text]
    rw [e, pieces_reference (reference?_braced h)]
    rfl
  | bare name =>
    obtain ⟨h0, hn, hr⟩ := h
    exact pieces_reference (reference?_bare h0 hn hr)
  | dollar =>
    obtain ⟨hr, hb⟩ := h
    exact pieces_dollar (reference?_none hr hb)

/-- The reader finds the parts that a text was put together from. -/
theorem pieces_render {segs : List Segment} (h : Legible segs) : pieces (render segs) = segs.flatMap Segment.pieces := by
  induction segs with
  | nil => rw [render, List.flatMap_nil, pieces, List.flatMap_nil]
  | cons seg more ih =>
    obtain ⟨hseg, hmore⟩ := h
    rw [List.flatMap_cons, ← ih hmore]
    exact pieces_segment hseg

/-! ## Filling in -/

section

variable {value? : Text → Option Text} {segs : List Segment}

theorem fill_chars (s : Text) (ps : List Piece) : fill value? (s.map .char ++ ps) = (fill value? ps).map (s ++ ·) := by
  induction s with
  | nil =>
    rw [List.map_nil, List.nil_append]
    cases fill value? ps <;> rfl
  | cons c s ih =>
    rw [List.map_cons, List.cons_append, fill, ih]
    cases fill value? ps <;> rfl

/-- What stands for a part is put ahead of what stands for the parts behind it. -/
theorem fill_segment {seg : Segment} (h : ∀ name, seg.name? = some name → value? name ≠ none) (ps : List Piece) :
    fill value? (seg.pieces ++ ps) = (fill value? ps).map (seg.filled value? ++ ·) := by
  cases seg with
  | literal s => exact fill_chars s ps
  | dollar => exact fill_chars ['$'] ps
  | braced name | bare name =>
    obtain ⟨v, hv⟩ := Option.ne_none_iff_exists'.mp (h name rfl)
    simp [Segment.pieces, Segment.filled, fill, hv]

/-- A name without a value ends it. -/
theorem fill_missing {seg : Segment} {name : Text} (h : seg.name? = some name) (hv : value? name = none) (ps : List Piece) :
    fill value? (seg.pieces ++ ps) = .error name := by
  cases seg with
  | literal s => cases h
  | dollar => cases h
  | braced n | bare n =>
    cases h
    simp [Segment.pieces, fill, hv]

theorem substitute_cons {seg : Segment} (h : ∀ name, seg.name? = some name → value? name ≠ none) (more : List Segment) :
    substitute value? (seg :: more) = (substitute value? more).map (seg.filled value? ++ ·) := by
  have e : missing? value? (seg :: more) = missing? value? more := by
    cases hn : seg.name? with
    | none => rw [missing?, names, List.filterMap_cons_none hn, ← names, ← missing?]
    | some name => simp [missing?, names, hn, h name hn]
  unfold substitute
  rw [e]
  cases missing? value? more <;> rfl

theorem substitute_missing {seg : Segment} {name : Text} (h : seg.name? = some name) (hv : value? name = none)
    (more : List Segment) : substitute value? (seg :: more) = .error name := by
  simp [substitute, missing?, names, h, hv]

/-- Expansion is substitution, whatever the values are. -/
theorem expand_render (h : Legible segs) : expand value? (render segs) = substitute value? segs := by
  rw [expand, pieces_render h]
  clear h
  induction segs with
  | nil => rfl
  | cons seg more ih =>
    rw [List.flatMap_cons]
    by_cases hseg : ∀ name, seg.name? = some name → value? name ≠ none
    · rw [fill_segment hseg, substitute_cons hseg, ih]
    · simp only [not_forall, not_not] at hseg
      obtain ⟨name, hn, hv⟩ := hseg
      rw [fill_missing hn hv, substitute_missing hn hv]

theorem substitute_eq_error_iff {name : Text} : substitute value? segs = .error name ↔ missing? value? segs = some name := by
  unfold substitute
  cases missing? value? segs <;> simp

/-- A look-up that knows more values substitutes alike, unless it knows the first that is missing. -/
theorem substitute_eq_iff {less? more? : Text → Option Text} (h : ∀ name v, less? name = some v → more? name = some v) :
    substitute more? segs = substitute less? segs ↔ ∀ name, missing? less? segs = some name → more? name = none := by
  cases hm : missing? less? segs with
  | none =>
    have hset : ∀ name ∈ names segs, more? name = less? name := by
      intro name hn
      obtain ⟨v, hv⟩ := Option.ne_none_iff_exists'.mp (show less? name ≠ none by simpa using List.find?_eq_none.mp hm name hn)
      rw [hv, h name v hv]
    have hmore : missing? more? segs = none := by
      refine List.find?_eq_none.mpr fun name hn => ?_
      rw [hset name hn]
      exact List.find?_eq_none.mp hm name hn
    have hfilled : segs.flatMap (Segment.filled more?) = segs.flatMap (Segment.filled less?) := by
      refine List.flatMap_congr fun seg hseg => ?_
      cases seg with
      | literal s => rfl
      | dollar => rfl
      | braced name | bare name =>
        have hn : name ∈ names segs := List.mem_filterMap.mpr ⟨_, hseg, rfl⟩
        simp only [Segment.filled, hset name hn]
    simp [substitute, hm, hmore, hfilled]
  | some name =>
    rw [substitute_eq_error_iff.mpr hm, substitute_eq_error_iff]
    obtain ⟨hnone, before, behind, e, hbefore⟩ := List.find?_eq_some_iff_append.mp hm
    constructor
    · intro hmore name' e'
      cases e'
      simpa using List.find?_some hmore
    · intro hmore
      refine List.find?_eq_some_iff_append.mpr ⟨by simp [hmore name rfl], before, behind, e, fun x hx => ?_⟩
      obtain ⟨v, hv⟩ := Option.isSome_iff_exists.mp (show (less? x).isSome = true by simpa using hbefore x hx)
      simp [h x v hv]

end

/-! ## What an environment answers -/

section

variable {bindings : List (Text × Text)} {name value : Text}

/-- The name runs on from that of a variable, behind a `=`, into its value, up to another `=`. -/
def RunsOn (bindings : List (Text × Text)) (name : Text) : Prop :=
  ∃ b ∈ bindings, ∃ u v, name = b.1 ++ '=' :: u ∧ b.2 = u ++ '=' :: v

/-- What a look-up reads off an entry: the value, or the end of the value where the name runs on. -/
theorem dropStart?_entry {x v r : Text} (hx : '=' ∉ x) : dropStart? (name ++ ['=']) (x ++ '=' :: v) = some r ↔
    name = x ∧ r = v ∨ ∃ u, name = x ++ '=' :: u ∧ v = u ++ '=' :: r := by
  constructor
  · intro h
    have e := eq_of_dropStart? h
    rw [List.append_assoc, List.singleton_append] at e
    obtain ⟨t, rfl, ht⟩ := mark_split hx e
    cases t with
    | nil => exact Or.inl ⟨List.append_nil x, (List.cons.inj ht).2.symm⟩
    | cons c t =>
      obtain ⟨rfl, rfl⟩ := List.cons.inj ht
      exact Or.inr ⟨t, rfl, rfl⟩
  · rintro (⟨rfl, rfl⟩ | ⟨u, rfl, rfl⟩)
    · have := dropStart?_append (name ++ ['=']) r
      rwa [List.append_assoc, List.singleton_append] at this
    · have := dropStart?_append (x ++ '=' :: u ++ ['=']) r
      simpa using this

variable (hb : ∀ b ∈ bindings, b.1 ≠ [] ∧ '=' ∉ b.1)

theorem value?_ofList (h0 : name ≠ []) : (Environment.ofList bindings).value? name =
    bindings.findSome? fun b => dropStart? (name ++ ['=']) (b.1 ++ '=' :: b.2) := by
  have hne : name.isEmpty = false := by simpa using h0
  simp only [Environment.value?, Environment.ofList, hne, Bool.false_eq_true, if_false, List.findSome?_map]
  rfl

include hb in
/-- The value of a variable is found. -/
theorem value?_of_lookup (h : bindings.lookup name = some value) : (Environment.ofList bindings).value? name = some value := by
  obtain ⟨before, behind, e, hbefore⟩ := List.lookup_eq_some_iff.mp h
  obtain ⟨h0, heq⟩ := hb (name, value) (by rw [e]; simp)
  rw [value?_ofList h0, List.findSome?_eq_some_iff]
  refine ⟨before, (name, value), behind, e, (dropStart?_entry heq).mpr (Or.inl ⟨rfl, rfl⟩), fun b hmem => ?_⟩
  rw [Option.eq_none_iff_forall_ne_some]
  intro r hr
  rcases (dropStart?_entry (hb b (by rw [e]; simp [hmem])).2).mp hr with ⟨rfl, -⟩ | ⟨u, rfl, -⟩
  · simpa using hbefore b hmem
  · exact heq (by simp)

include hb in
/-- Of the other names those are found that run on. -/
theorem value?_of_lookup_none (h : bindings.lookup name = none) :
    (Environment.ofList bindings).value? name = none ↔ ¬ RunsOn bindings name := by
  by_cases h0 : name = []
  · subst h0
    simp [Environment.value?, RunsOn]
  rw [value?_ofList h0, List.findSome?_eq_none_iff]
  constructor
  · rintro hnone ⟨b, hmem, u, v, rfl, hv⟩
    have hsome := (dropStart?_entry (hb b hmem).2).mpr (Or.inr ⟨u, rfl, hv⟩)
    rw [hnone b hmem] at hsome
    cases hsome
  · intro hruns b hmem
    rw [Option.eq_none_iff_forall_ne_some]
    intro r hr
    rcases (dropStart?_entry (hb b hmem).2).mp hr with ⟨rfl, -⟩ | ⟨u, e, hv⟩
    · simpa using List.lookup_eq_none_iff.mp h b hmem
    · exact hruns ⟨b, hmem, u, r, e, hv⟩

include hb in
/-- Expansion of a text put together from parts is one substitution from left to right: literals
    and lone dollar signs stay, each reference becomes its variable's value as it is, and the first
    name that is no variable is the error. The exception is that name itself, where it runs on
    into the value of a variable. -/
theorem expand_segments {segs : List Segment} (h : Legible segs) :
    expand (Environment.ofList bindings).value? (render segs) = substitute (bindings.lookup ·) segs ↔
      ∀ name, missing? (bindings.lookup ·) segs = some name → ¬ RunsOn bindings name := by
  rw [expand_render h, substitute_eq_iff fun name v => value?_of_lookup hb]
  refine forall_congr' fun name => imp_congr_right fun hm => value?_of_lookup_none hb ?_
  simpa using List.find?_some hm

end

/-- A value with a reference in it, and a name that is none of a variable. -/
theorem expand_segments_values :
    let bindings := [("A".toList, "B=C".toList), ("B_2".toList, "$A".toList)]
    let segs :=
      [.literal "cost ".toList, .dollar, .literal " = ".toList, .bare "B_2".toList, .literal "/".toList, .braced "A".toList]
    let runs := [.bare "A".toList, .literal " ".toList, .braced "A=B".toList]
    let env := Environment.ofList bindings
    (∀ b ∈ bindings, b.1 ≠ [] ∧ '=' ∉ b.1) ∧ Legible segs ∧ Legible runs ∧
      expand env.value? (render segs) = .ok "cost $ = $A/B=C".toList ∧
      substitute (bindings.lookup ·) runs = .error "A=B".toList ∧ expand env.value? (render runs) = .ok "B=C C".toList := by
  repeat rw [String.toList_ofList]
  intro bindings segs runs env
  have hb : ∀ b ∈ bindings, b.1 ≠ [] ∧ '=' ∉ b.1 := by decide
  have hsegs : Legible segs := by decide
  have hruns : Legible runs := by decide
  have hsub : substitute (bindings.lookup ·) segs = .ok "cost $ = $A/B=C".toList := rfl
  refine ⟨hb, hsegs, hruns, ?_, rfl, ?_⟩
  · rw [(expand_segments hb hsegs).mpr fun name hm => by cases hm]
    exact hsub
  · rw [expand_render hruns]
    rfl

end ExportQuery.Settings
