/-
  ExportQuery.Sql.Region — embedded sub-queries and the tokens that stand for them.

  A region runs from a `-- subquery start` comment through the first `-- subquery end`
  after it. A start without an end after it opens no region, and a start inside a region is
  part of it. `divide` cuts a text into its regions and the pieces between them; a region
  can be swapped for a token and swapped back, so that edits of the outer query never see
  the inside of a sub-query.

  Tokens of the whole text count from 0. Tokens of a part count from the first index above
  those already in the text. Indices are 64-bit words: where a larger one would be needed the
  program ends with an overflow, which is no failure that anything answers.

  - `divide_joins`: pieces and regions make up the text.
-/

import ExportQuery.Sql.Template
import ExportQuery.Text.Numeral

namespace ExportQuery.Sql

open ExportQuery.Text

def startMarker : Text := "-- subquery start".toList

def endMarker : Text := "-- subquery end".toList

/-! ## Tokens -/

def tokenOpening : Text := "__SUBQUERY_PLACEHOLDER_".toList

def tokenClosing : Text := "__".toList

/-- The token of region `i`. -/
def token (i : Nat) : Text := tokenOpening ++ decimal i ++ tokenClosing

/-- How many indices a 64-bit word can count. -/
def indexLimit : Nat := 0x10000000000000000

/-- The index of the token a text starts with, and the text after it. A token written in other
    digits, or with an index that no word holds, has none. -/
def tokenAt? (left : Text) : Option (Option Nat × Text) :=
  match dropStart? tokenOpening left with
  | none => none
  | some s =>
    let digits := s.takeWhile isDecimalDigit
    if digits.isEmpty then none
    else (dropStart? tokenClosing (s.dropWhile isDecimalDigit)).map fun rest =>
      ((readDecimal? digits).filter (· < indexLimit), rest)

/-- The indices of the tokens in a text, in order. -/
def tokenIndices (s : Text) : List Nat := (scan (fun _ left => tokenAt? left) 0 [] s).filterMap id

/-- An index that no word holds was asked for. -/
inductive Overflow where
  | index
  deriving DecidableEq, Repr

/-- The sum of two words, which has to be a word. Nothing is asked of numbers that are none: no
    text has as many regions as there are words. -/
def addWords (i j : Nat) : Except Overflow Nat :=
  if i < indexLimit && j < indexLimit && indexLimit ≤ i + j then .error .index else .ok (i + j)

theorem addWords_eq_error_iff {i j : Nat} :
    addWords i j = .error .index ↔ i < indexLimit ∧ j < indexLimit ∧ indexLimit ≤ i + j := by
  simp [addWords, and_assoc]

theorem addWords_eq_ok {i j : Nat} (h : ¬ (i < indexLimit ∧ j < indexLimit ∧ indexLimit ≤ i + j)) :
    addWords i j = .ok (i + j) := by
  have hoff : ¬ (i < indexLimit && j < indexLimit && indexLimit ≤ i + j) = true := by simpa [and_assoc] using h
  exact if_neg hoff

/-- The index after the largest one in the text. -/
def freshIndex (s : Text) : Except Overflow Nat :=
  match tokenIndices s with
  | [] => .ok 0
  | i :: more => addWords (more.foldl max i) 1

/-- The tokens of a part of a text, counted from `first`. -/
def tokenFrom (first i : Nat) : Text := token (first + i)

/-! ## Regions -/

/-- A text cut at its regions: each region with the piece before it, and the last piece. -/
structure Division where
  regions : List (Text × Text)
  last : Text
  deriving Repr, DecidableEq

/-- The piece before the first region, the region, and the text after it. -/
def nextRegion? (s : Text) : Option (Text × Text × Text) :=
  match cut? startMarker s with
  | none => none
  | some (before, opened) =>
    match cut? endMarker opened with
    | none => none
    | some (body, after) => some (before, startMarker ++ body ++ endMarker, after)

/-- A region found was cut at its two markers. -/
theorem cuts_of_nextRegion? {s p b q : Text} (h : nextRegion? s = some (p, b, q)) :
    ∃ opened body, cut? startMarker s = some (p, opened) ∧ cut? endMarker opened = some (body, q) ∧
      b = startMarker ++ body ++ endMarker := by
  unfold nextRegion? at h
  split at h
  · cases h
  · rename_i before opened h₁
    split at h
    · cases h
    · rename_i body after h₂
      simp only [Option.some.injEq, Prod.mk.injEq] at h
      obtain ⟨rfl, rfl, rfl⟩ := h
      exact ⟨opened, body, h₁, h₂, rfl⟩

theorem nextRegion?_joins {s p b q : Text} (h : nextRegion? s = some (p, b, q)) : s = p ++ b ++ q := by
  obtain ⟨opened, body, h₁, h₂, rfl⟩ := cuts_of_nextRegion? h
  rw [eq_of_cut? h₁, eq_of_cut? h₂]
  simp

theorem length_after_region {s p b q : Text} (h : nextRegion? s = some (p, b, q)) : q.length < s.length := by
  have e := nextRegion?_joins h
  obtain ⟨_, body, -, -, rfl⟩ := cuts_of_nextRegion? h
  have : 0 < startMarker.length := by decide
  rw [e]
  simp only [List.length_append]
  omega

/-- The division of a text by its regions. -/
def divide (s : Text) : Division :=
  match _h : nextRegion? s with
  | none => ⟨[], s⟩
  | some (before, body, after) => ⟨(before, body) :: (divide after).regions, (divide after).last⟩
termination_by s.length
decreasing_by all_goals exact length_after_region _h

namespace Division

def bodies (d : Division) : List Text := d.regions.map (·.2)

def count (d : Division) : Nat := d.regions.length

/-- The pieces with region `i` replaced by `name i`, counting from `i`. -/
def outerFrom (name : Nat → Text) : Nat → List (Text × Text) → Text → Text
  | _, [], last => last
  | i, (before, _) :: more, last => before ++ name i ++ outerFrom name (i + 1) more last

/-- The text with each region swapped for its token. -/
def outer (name : Nat → Text) (d : Division) : Text := outerFrom name 0 d.regions d.last

/-- The text as it was. -/
def text (d : Division) : Text := d.regions.flatMap (fun (before, body) => before ++ body) ++ d.last

end Division

theorem divide_joins (s : Text) : (divide s).text = s := by
  fun_induction divide s with
  | case1 s h => simp [Division.text]
  | case2 s p b q h ih =>
    simp only [Division.text, List.flatMap_cons, List.append_assoc] at ih ⊢
    rw [ih, nextRegion?_joins h]
    simp

/-! ## Swapping and restoring -/

/-- Puts each body where its token first occurs, one after the other. -/
def restoreFrom (name : Nat → Text) : Nat → List Text → Text → Text
  | _, [], s => s
  | i, body :: more, s => restoreFrom name (i + 1) more (replaceFirst (name i) body s)

/-- The text with tokens for its regions, and the regions in order. -/
def extractRegions (s : Text) : Text × List Text := ((divide s).outer token, (divide s).bodies)

def restoreRegions (s : Text) (bodies : List Text) : Text := restoreFrom token 0 bodies s

end ExportQuery.Sql
