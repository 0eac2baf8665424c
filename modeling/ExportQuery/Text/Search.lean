/-
  ExportQuery.Text.Search — first occurrences, first places and scans.

  A place in a text is given by what was read before it, last character first, and what is
  left after it; so a test at a place sees the neighbours on both sides, and the line up to
  the place is the part read since the last line feed.

  - `cut?` divides a text at the first occurrence of a pattern.
  - `seek` is the first place, from a given one on, that a test accepts.
  - `scan` collects what a matcher finds, going on behind each find.

  - `eq_of_cut?`: the pieces of a cut and the pattern make up the text.
  - `seek_joins`: a place found divides the same text.
-/

import ExportQuery.Text.Word

namespace ExportQuery.Text

/-! ## First occurrence -/

/-- What stands before and after the first occurrence of `pat`. -/
def cut? (pat : Text) : Text → Option (Text × Text)
  | [] => if pat.isEmpty then some ([], []) else none
  | c :: s =>
    if pat.isPrefixOf (c :: s) then some ([], (c :: s).drop pat.length)
    else (cut? pat s).map fun (before, after) => (c :: before, after)

def occurs (pat s : Text) : Bool := (cut? pat s).isSome

/-- `s` with the first occurrence of `pat` replaced. -/
def replaceFirst (pat new s : Text) : Text :=
  match cut? pat s with
  | some (before, after) => before ++ new ++ after
  | none => s

/-- `s` without the beginning `pat`, when it has it. -/
def dropStart? (pat s : Text) : Option Text := if pat.isPrefixOf s then some (s.drop pat.length) else none

theorem eq_of_isPrefixOf {pat s : Text} (h : pat.isPrefixOf s = true) : s = pat ++ s.drop pat.length := by
  obtain ⟨t, rfl⟩ := List.isPrefixOf_iff_prefix.mp h
  simp

theorem eq_of_cut? {pat s a b : Text} (h : cut? pat s = some (a, b)) : s = a ++ pat ++ b := by
  induction s generalizing a with
  | nil =>
    unfold cut? at h
    split at h
    · simp_all
    · cases h
  | cons c s ih =>
    unfold cut? at h
    split at h
    · rename_i hp
      simp only [Option.some.injEq, Prod.mk.injEq] at h
      obtain ⟨rfl, rfl⟩ := h
      simpa using eq_of_isPrefixOf hp
    · simp only [Option.map_eq_some_iff, Prod.exists, Prod.mk.injEq] at h
      obtain ⟨a', b', h, rfl, rfl⟩ := h
      simp [ih h]

/-! ## First place -/

/-- The first place from here on that `p` accepts, the end of the text included. -/
def seek (p : Text → Text → Bool) : Text → Text → Option (Text × Text)
  | read, [] => if p read [] then some (read, []) else none
  | read, c :: left => if p read (c :: left) then some (read, c :: left) else seek p (c :: read) left

/-- The first value that `f` finds at a place from here on. -/
def seekSome {α : Type} (f : Text → Text → Option α) : Text → Text → Option α
  | read, [] => f read []
  | read, c :: left => (f read (c :: left)).or (seekSome f (c :: read) left)

theorem seek_joins {p : Text → Text → Bool} {read left r l : Text} (h : seek p read left = some (r, l)) :
    r.reverse ++ l = read.reverse ++ left := by
  induction left generalizing read with
  | nil =>
    unfold seek at h
    split at h
    · simp_all
    · cases h
  | cons c left ih =>
    unfold seek at h
    split at h
    · simp_all
    · simpa using ih h

theorem seek_accepts {p : Text → Text → Bool} {read left r l : Text} (h : seek p read left = some (r, l)) :
    p r l = true := by
  induction left generalizing read with
  | nil => unfold seek at h; split at h <;> simp_all
  | cons c left ih =>
    unfold seek at h
    split at h
    · simp_all
    · exact ih h

/-! ## Scans -/

/-- All that `m` finds from here on, each search starting behind the text of the last find. The
    first `skip` characters are passed over. `m` answers with what it found and what is left. -/
def scan {α : Type} (m : Text → Text → Option (α × Text)) : Nat → Text → Text → List α
  | _, _, [] => []
  | skip + 1, read, c :: left => scan m skip (c :: read) left
  | 0, read, c :: left =>
    match m read (c :: left) with
    | some (a, rest) => a :: scan m (left.length - rest.length) (c :: read) left
    | none => scan m 0 (c :: read) left

/-! ## Lines -/

/-- The line a place stands in, up to the place. -/
def lineSoFar (read : Text) : Text := (read.takeWhile (· ≠ '\n')).reverse

end ExportQuery.Text
