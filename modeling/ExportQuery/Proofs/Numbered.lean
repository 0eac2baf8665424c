/-
  ExportQuery.Proofs.Numbered — regions put in for numbered tokens are found again.

  A text is numbered when it holds the tokens of a run of indices once each, in order and
  apart, and no other opening of a token. Such a text is the view of a division: it is cut at
  the first token, and what follows is numbered from the next index on. With a body for each
  token, the division's text holds no opening at all, so swapping back puts every body in the
  place of its token; and as the pieces between hold no start marker, the regions of that text
  are the bodies and nothing else.

  - `exists_of_numbered`: a numbered text is a view.
  - `tokenFree_text`: closed bodies between pieces leave no opening.
  - `extractRegions_restoreRegions`: what was swapped back is swapped out again.
-/

import ExportQuery.Proofs.Marker

namespace ExportQuery.Sql

open ExportQuery.Text

/-! ## Numbered texts -/

/-- The text holds the tokens `i`, …, `n - 1` once each, in order and apart, and no opening of a
    token besides. -/
structure Numbered (i n : Nat) (s : Text) : Prop where
  each : ∀ k, i ≤ k → k < n → ∃ a b, s = a ++ token k ++ b
  once : ∀ k a b a' b', i ≤ k → k < n → s = a ++ token k ++ b → s = a' ++ token k ++ b' → a = a'
  order : ∀ j k a b a' b', i ≤ j → j < k → k < n → s = a ++ token j ++ b → s = a' ++ token k ++ b' →
    (a ++ token j).length ≤ a'.length
  only : ∀ a u, s = a ++ tokenOpening ++ u → ∃ k v, i ≤ k ∧ k < n ∧ u = decimal k ++ tokenClosing ++ v

variable {i n : Nat}

/-- The places where a pattern stands. -/
def places (pat s : Text) : List Nat := (List.range s.length).filter fun m => pat.isPrefixOf (s.drop m)

theorem mem_places {pat s : Text} {m : Nat} (h0 : pat ≠ []) :
    m ∈ places pat s ↔ ∃ a b, s = a ++ pat ++ b ∧ a.length = m := by
  rw [places, List.mem_filter, List.mem_range, isPrefixOf_eq]
  constructor
  · intro h
    obtain ⟨hm, b, hb⟩ := h
    exact ⟨s.take m, b, by rw [List.append_assoc, ← hb, List.take_append_drop], by simp [Nat.le_of_lt hm]⟩
  · intro h
    obtain ⟨a, b, rfl, rfl⟩ := h
    have : 0 < pat.length := List.length_pos_iff.mpr h0
    refine ⟨by simp only [List.length_append]; omega, b, ?_⟩
    rw [List.append_assoc, List.drop_left]

/-- Whether a text is numbered is told from the places of its tokens. -/
theorem numbered_iff {s : Text} : Numbered i n s ↔
    (∀ k < n, i ≤ k → places (token k) s ≠ []) ∧
    (∀ k < n, i ≤ k → ∀ m ∈ places (token k) s, ∀ m' ∈ places (token k) s, m = m') ∧
    (∀ k < n, ∀ j < k, i ≤ j → ∀ m ∈ places (token j) s, ∀ m' ∈ places (token k) s, m + (token j).length ≤ m') ∧
    ∀ m ∈ places tokenOpening s, ∃ k < n, i ≤ k ∧ m ∈ places (token k) s := by
  constructor
  · intro h
    refine ⟨?_, ?_, ?_, ?_⟩
    · intro k hk hi
      obtain ⟨a, b, e⟩ := h.each k hi hk
      exact List.ne_nil_of_mem ((mem_places (token_ne_nil k)).mpr ⟨a, b, e, rfl⟩)
    · intro k hk hi m hm m' hm'
      obtain ⟨a, b, e, rfl⟩ := (mem_places (token_ne_nil k)).mp hm
      obtain ⟨a', b', e', rfl⟩ := (mem_places (token_ne_nil k)).mp hm'
      rw [h.once k a b a' b' hi hk e e']
    · intro k hk j hjk hi m hm m' hm'
      obtain ⟨a, b, e, rfl⟩ := (mem_places (token_ne_nil j)).mp hm
      obtain ⟨a', b', e', rfl⟩ := (mem_places (token_ne_nil k)).mp hm'
      have := h.order j k a b a' b' hi hjk hk e e'
      rwa [List.length_append] at this
    · intro m hm
      obtain ⟨a, u, e, rfl⟩ := (mem_places tokenOpening_ne_nil).mp hm
      obtain ⟨k, v, hi, hk, hu⟩ := h.only a u e
      exact ⟨k, hk, hi, (mem_places (token_ne_nil k)).mpr ⟨a, v, by rw [e, hu]; simp [token], rfl⟩⟩
  · intro h
    obtain ⟨each, once, order, only⟩ := h
    constructor
    · intro k hi hk
      obtain ⟨m, hm⟩ := List.exists_mem_of_ne_nil _ (each k hk hi)
      obtain ⟨a, b, e, -⟩ := (mem_places (token_ne_nil k)).mp hm
      exact ⟨a, b, e⟩
    · intro k a b a' b' hi hk e e'
      have hl := once k hk hi _ ((mem_places (token_ne_nil k)).mpr ⟨a, b, e, rfl⟩) _
        ((mem_places (token_ne_nil k)).mpr ⟨a', b', e', rfl⟩)
      rw [e, List.append_assoc, List.append_assoc] at e'
      exact (List.append_inj e' hl).1
    · intro j k a b a' b' hi hjk hk e e'
      rw [List.length_append]
      exact order k hk j hjk hi _ ((mem_places (token_ne_nil j)).mpr ⟨a, b, e, rfl⟩) _
        ((mem_places (token_ne_nil k)).mpr ⟨a', b', e', rfl⟩)
    · intro a u e
      obtain ⟨k, hk, hi, hm⟩ := only _ ((mem_places tokenOpening_ne_nil).mpr ⟨a, u, e, rfl⟩)
      obtain ⟨a', v, e', hl⟩ := (mem_places (token_ne_nil k)).mp hm
      refine ⟨k, v, hi, hk, ?_⟩
      rw [e, List.append_assoc, List.append_assoc] at e'
      have hu := (List.append_inj e' hl.symm).2
      simp only [token, List.append_assoc] at hu ⊢
      exact List.append_cancel_left hu

instance (s : Text) : Decidable (Numbered i n s) := decidable_of_iff' _ numbered_iff

/-- An opening in a numbered text is that of one of its tokens. -/
theorem Numbered.token_of_opening {s a u : Text} (h : Numbered i n s) (e : s = a ++ tokenOpening ++ u) :
    ∃ k v, i ≤ k ∧ k < n ∧ s = a ++ token k ++ v := by
  obtain ⟨k, v, hi, hn, hu⟩ := h.only a u e
  exact ⟨k, v, hi, hn, by rw [e, hu]; simp [token]⟩

/-- Before its first token, a numbered text holds no opening. -/
theorem Numbered.tokenFree_before {p q : Text} (h : Numbered i n (p ++ token i ++ q)) (hn : i < n) : TokenFree p := by
  intro ho
  obtain ⟨a, b, e⟩ := ho
  obtain ⟨k, v, hi, hk, ek⟩ := h.token_of_opening (a := a) (u := b ++ token i ++ q) (by rw [← e]; simp)
  have hlen : a.length < p.length := by
    have := congrArg List.length e
    have : 0 < tokenOpening.length := List.length_pos_iff.mpr tokenOpening_ne_nil
    simp only [List.length_append] at *
    omega
  by_cases hki : k = i
  · rw [hki] at ek
    have := h.once i p q a v (Nat.le_refl i) hn rfl ek
    rw [this] at hlen
    omega
  · have := h.order i k p q a v (Nat.le_refl i) (by omega) hk rfl ek
    simp only [List.length_append] at this
    omega

/-- Behind its first token, a numbered text is numbered from the next index on. -/
theorem Numbered.behind {p q : Text} (h : Numbered i n (p ++ token i ++ q)) (hn : i < n) : Numbered (i + 1) n q where
  each := by
    intro k hi hk
    obtain ⟨a, b, e⟩ := h.each k (by omega) hk
    have hle := h.order i k p q a b (Nat.le_refl i) (by omega) hk rfl e
    rw [List.append_assoc a] at e
    obtain ⟨t, -, ht⟩ := eq_append_of_le e hle
    exact ⟨t, b, by rw [ht, List.append_assoc]⟩
  once := by
    intro k a b a' b' hi hk e e'
    have := h.once k (p ++ token i ++ a) b (p ++ token i ++ a') b' (by omega) hk (by rw [e]; simp) (by rw [e']; simp)
    exact List.append_cancel_left this
  order := by
    intro j k a b a' b' hi hjk hk e e'
    have := h.order j k (p ++ token i ++ a) b (p ++ token i ++ a') b' (by omega) hjk hk (by rw [e]; simp) (by rw [e']; simp)
    simp only [List.length_append] at this ⊢
    omega
  only := by
    intro a u e
    obtain ⟨k, v, hi, hk, hu⟩ := h.only (p ++ token i ++ a) u (by rw [e]; simp)
    have hki : k ≠ i := by
      intro hki
      have := h.once i p q (p ++ token i ++ a) v (Nat.le_refl i) hn rfl (by rw [e, hu, hki]; simp [token])
      have := congrArg List.length this
      have : 0 < (token i).length := List.length_pos_iff.mpr (token_ne_nil i)
      simp only [List.length_append] at *
      omega
    exact ⟨k, v, by omega, hk, hu⟩

/-- Behind all its tokens, a numbered text holds no opening. -/
theorem Numbered.tokenFree {s : Text} (h : Numbered n n s) : TokenFree s := by
  intro ho
  obtain ⟨a, b, e⟩ := ho
  obtain ⟨k, -, hi, hk, -⟩ := h.only a b e.symm
  omega

namespace Division

/-- A numbered text is the view of a division into pieces without openings, whatever the bodies. -/
theorem exists_of_numbered {s : Text} {bodies : List Text} (h : Numbered i n s) (hn : i + bodies.length = n) :
    ∃ d : Division, d.outerAt token i = s ∧ d.bodies = bodies ∧ (∀ r ∈ d.regions, TokenFree r.1) ∧ TokenFree d.last := by
  induction bodies generalizing i s with
  | nil =>
    obtain rfl : i = n := by simpa using hn
    exact ⟨plain s, rfl, rfl, by simp, h.tokenFree⟩
  | cons b bodies ih =>
    have hi : i < n := by simp only [List.length_cons] at hn; omega
    obtain ⟨p, q, rfl⟩ := h.each i (Nat.le_refl i) hi
    obtain ⟨d, hd, hb, hp, hl⟩ := ih (h.behind hi) (by simp only [List.length_cons] at hn; omega)
    refine ⟨cons p b d, by rw [outerAt_cons, hd], by rw [bodies_cons, hb], ?_, hl⟩
    intro r hr
    rcases List.mem_cons.mp hr with rfl | hr
    · exact h.tokenFree_before hi
    · exact hp r hr

/-- The pieces of a division stand in its view. -/
theorem piece_infix_outerAt {name : Nat → Text} {d : Division} {r : Text × Text} (hr : r ∈ d.regions) :
    r.1 <:+: d.outerAt name i := by
  induction d generalizing i with
  | plain s => cases hr
  | cons p b d ih =>
    rw [outerAt_cons]
    rcases List.mem_cons.mp hr with rfl | hr
    · exact ⟨[], name i ++ d.outerAt name (i + 1), by simp⟩
    · exact (ih hr).trans (List.suffix_append _ _).isInfix

end Division

/-! ## Closed bodies -/

/-- A region from its start marker through its first end marker, without openings of tokens. -/
def ClosedBody (b : Text) : Prop :=
  ∃ x, b = startMarker ++ x ++ endMarker ∧ ¬ endMarker <:+: x ∧ TokenFree x

/-- No opening reaches across a character that no token holds. -/
theorem tokenFree_append_of_last {x y : Text} {c : Char} (hl : x.getLast? = some c) (hc : c ∉ tokenOpening)
    (hx : TokenFree x) (hy : TokenFree y) : TokenFree (x ++ y) := by
  intro h
  rcases infix_append_cases h with h | h | ⟨u, v, hu, -, e, hs, -⟩
  · exact hx h
  · exact hy h
  · obtain ⟨t, rfl⟩ := hs
    rw [List.getLast?_append, List.getLast?_eq_some_getLast hu, Option.some_or, Option.some.injEq] at hl
    exact hc (by rw [e, ← hl]; exact List.mem_append_left v (List.getLast_mem hu))

theorem ClosedBody.tokenFree {b : Text} (h : ClosedBody b) : TokenFree b := by
  obtain ⟨x, rfl, -, hx⟩ := h
  have hs : TokenFree (startMarker ++ x) :=
    tokenFree_append_of_last (c := 't') (by decide) (by decide) (by decide) hx
  exact (tokenFree_append_iff (Or.inr (by decide))).mpr ⟨hs, by decide⟩

theorem ClosedBody.getLast? {b : Text} (h : ClosedBody b) : b.getLast? = some 'd' := by
  obtain ⟨x, rfl, -, -⟩ := h
  rw [List.getLast?_append]; rfl

theorem ClosedBody.starts {b : Text} (h : ClosedBody b) (y : Text) : startsInWord (b ++ y) = false := by
  obtain ⟨x, rfl, -, -⟩ := h
  obtain ⟨m, hm⟩ := Division.startMarker_eq_cons
  rw [hm]
  exact not_isWord_dash

namespace Division

/-- Closed bodies between pieces without openings leave a text without openings. -/
theorem tokenFree_text {d : Division} (hp : ∀ r ∈ d.regions, TokenFree r.1) (hb : ∀ b ∈ d.bodies, ClosedBody b)
    (hl : TokenFree d.last) : TokenFree d.text := by
  induction d with
  | plain s => rwa [text_plain]
  | cons p b d ih =>
    have hbody : ClosedBody b := hb b (by simp)
    have hrest : TokenFree d.text := ih (fun r hr => hp r (by simp [hr])) (fun c hc => hb c (by simp [hc])) hl
    have hjoin : TokenFree (b ++ d.text) :=
      tokenFree_append_of_last hbody.getLast? (by decide) hbody.tokenFree hrest
    rw [text_cons, List.append_assoc]
    exact (tokenFree_append_iff (Or.inr (hbody.starts _))).mpr ⟨hp (p, b) (by simp), hjoin⟩

/-- A view without start markers and closed bodies make up a proper division. -/
theorem proper_of_view {name : Nat → Text} {d : Division} (hm : ¬ startMarker <:+: d.outerAt name i)
    (hb : ∀ b ∈ d.bodies, ClosedBody b) : d.Proper where
  piece := fun _ hr h => hm (h.trans (piece_infix_outerAt hr))
  body := by
    intro r hr
    obtain ⟨x, hx, he, -⟩ := hb r.2 (List.mem_map.mpr ⟨r, hr, rfl⟩)
    exact ⟨x, hx, he⟩
  last := by
    intro a b c e
    exact hm (List.IsInfix.trans ⟨a, b ++ endMarker ++ c, by rw [e]; simp⟩ (last_suffix_outerAt d).isInfix)

end Division

/-! ## Round trip -/

/-- Bodies put in for the tokens of a numbered text are the regions of the result, and swapping
    them out gives the numbered text. -/
theorem extractRegions_restoreRegions {outer : Text} {bodies : List Text} (hs : Numbered 0 bodies.length outer)
    (hm : ¬ startMarker <:+: outer) (hb : ∀ b ∈ bodies, ClosedBody b) :
    extractRegions (restoreRegions outer bodies) = (outer, bodies) := by
  obtain ⟨d, rfl, rfl, hp, hl⟩ := Division.exists_of_numbered hs (Nat.zero_add _)
  have hproper : d.Proper := Division.proper_of_view hm hb
  have hfree : TokenFree d.text := Division.tokenFree_text hp hb hl
  have hrestored : restoreRegions (d.outerAt token 0) d.bodies = d.text :=
    Division.restoreFrom_of_tokenFree Division.tokens_token hproper.fenced hfree
  rw [hrestored]
  have hdivided : divide d.text = d := divide_text hproper
  calc extractRegions d.text = ((divide d.text).outerAt token 0, (divide d.text).bodies) := rfl
    _ = (d.outerAt token 0, d.bodies) := by rw [hdivided]

/-- Tokens that touch behind a stray end marker, and a start marker inside a body. -/
theorem extractRegions_restoreRegions_nested :
    let outer := "a -- subquery end".toList ++ token 0 ++ token 1 ++ " b".toList
    let bodies := ["-- subquery start-- subquery end".toList, "-- subquery start -- subquery start -- subquery end".toList]
    Numbered 0 2 outer ∧ ¬ startMarker <:+: outer ∧ (∀ b ∈ bodies, ClosedBody b) ∧
      extractRegions (restoreRegions outer bodies) = (outer, bodies) := by
  have hs : Numbered 0 2 ("a -- subquery end".toList ++ token 0 ++ token 1 ++ " b".toList) := by decide +kernel
  have hm : ¬ startMarker <:+: "a -- subquery end".toList ++ token 0 ++ token 1 ++ " b".toList := by decide +kernel
  have hb : ∀ b ∈ ["-- subquery start-- subquery end".toList, "-- subquery start -- subquery start -- subquery end".toList],
      ClosedBody b := by
    intro b h
    rcases List.mem_cons.mp h with rfl | h
    · exact ⟨[], by decide, by decide, by decide⟩
    · obtain rfl := List.mem_singleton.mp h
      exact ⟨" -- subquery start ".toList, by decide, by decide, by decide⟩
  exact ⟨hs, hm, hb, extractRegions_restoreRegions hs hm hb⟩

end ExportQuery.Sql
