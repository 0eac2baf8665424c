/-
  ExportQuery.Text.Blank — texts, blank characters and trimming.

  A text is a list of characters. Blank characters are those with the Unicode property
  White_Space; the zero-width space U+200B and the byte-order mark U+FEFF are not among
  them. Trimming drops blanks from the ends of a text and keeps those inside it.

  - `trim_trim`: trimming twice is trimming once.
  - `trim_padded`: blanks around a text do not survive trimming.
  - `dropEnding?_append`: an ending comes off the text that it was put behind.
-/

namespace ExportQuery

/-- Templates, conditions, catalogs and messages alike. -/
abbrev Text := List Char

namespace Text

/-- The Unicode property White_Space. -/
def isBlank (c : Char) : Bool :=
  let n := c.toNat
  (9 ≤ n && n ≤ 13) || n == 0x20 || n == 0x85 || n == 0xA0 || n == 0x1680 || (0x2000 ≤ n && n ≤ 0x200A) ||
    n == 0x2028 || n == 0x2029 || n == 0x202F || n == 0x205F || n == 0x3000

def trimStart (s : Text) : Text := s.dropWhile isBlank

def trimEnd (s : Text) : Text := (s.reverse.dropWhile isBlank).reverse

def trim (s : Text) : Text := trimEnd (trimStart s)

/-- No characters but blanks. -/
def allBlank (s : Text) : Bool := s.all isBlank

/-- Length in UTF-8. -/
def bytes (s : Text) : Nat := s.foldr (fun c n => c.utf8Size + n) 0

/-- `s` without the ending `e`, when it has it. -/
def dropEnding? (e s : Text) : Option Text :=
  if e.isSuffixOf s then some (s.take (s.length - e.length)) else none

/-- The texts one after the other, with `sep` between neighbours. -/
def join (sep : Text) (parts : List Text) : Text := sep.intercalate parts

/-! ## Trimming -/

theorem dropWhile_dropWhile (p : Char → Bool) (s : Text) : (s.dropWhile p).dropWhile p = s.dropWhile p := by
  induction s with
  | nil => rfl
  | cons c s ih => by_cases h : p c = true <;> simp [h, ih]

@[simp] theorem trimEnd_trimEnd (s : Text) : trimEnd (trimEnd s) = trimEnd s := by
  simp [trimEnd, dropWhile_dropWhile]

@[simp] theorem trimStart_trimStart (s : Text) : trimStart (trimStart s) = trimStart s := dropWhile_dropWhile _ s

theorem trimEnd_append_blank (s : Text) (c : Char) (h : isBlank c = true) : trimEnd (s ++ [c]) = trimEnd s := by
  simp [trimEnd, h]

theorem trimEnd_append_ink (s : Text) (c : Char) (h : isBlank c = false) : trimEnd (s ++ [c]) = s ++ [c] := by
  simp [trimEnd, h]

theorem trimStart_cons_ink (s : Text) (c : Char) (h : isBlank c = false) : trimStart (c :: s) = c :: s := by
  simp [trimStart, h]

/-- What stays after dropping the leading blanks either is empty or starts with ink. -/
theorem trimStart_eq_nil_or (s : Text) : trimStart s = [] ∨ ∃ c r, trimStart s = c :: r ∧ isBlank c = false := by
  induction s with
  | nil => exact Or.inl rfl
  | cons c s ih =>
    by_cases h : isBlank c = true
    · simpa [trimStart, h] using ih
    · exact Or.inr ⟨c, s, by simp [trimStart, h], by simpa using h⟩

theorem trimEnd_cons_ink (s : Text) (c : Char) (h : isBlank c = false) : ∃ r, trimEnd (c :: s) = c :: r := by
  refine ⟨((s.reverse.dropWhile isBlank)).reverse, ?_⟩
  simp only [trimEnd, List.reverse_cons]
  generalize s.reverse = t
  induction t with
  | nil => simp [h]
  | cons d t ih => by_cases hd : isBlank d = true <;> simp_all

theorem trim_trim (s : Text) : trim (trim s) = trim s := by
  unfold trim
  rcases trimStart_eq_nil_or s with h | ⟨c, r, h, hc⟩
  · rw [h]; rfl
  · rw [h]
    obtain ⟨r', hr⟩ := trimEnd_cons_ink r c hc
    have : trimStart (trimEnd (c :: r)) = trimEnd (c :: r) := by rw [hr]; exact trimStart_cons_ink r' c hc
    rw [this, trimEnd_trimEnd]

theorem trimStart_blanks_append {w : Text} (hw : allBlank w = true) (s : Text) : trimStart (w ++ s) = trimStart s :=
  List.dropWhile_append_of_pos (List.all_eq_true.mp hw)

theorem trimStart_of_allBlank {w : Text} (hw : allBlank w = true) : trimStart w = [] := by
  rw [← List.append_nil w, trimStart_blanks_append hw]
  rfl

theorem trimEnd_append_blanks {v : Text} (hv : allBlank v = true) (s : Text) : trimEnd (s ++ v) = trimEnd s := by
  rw [trimEnd, List.reverse_append, List.dropWhile_append_of_pos]
  · rfl
  · simpa using List.all_eq_true.mp hv

theorem trim_padded {w v : Text} (hw : allBlank w = true) (hv : allBlank v = true) (s : Text) :
    trim (w ++ s ++ v) = trim s := by
  rw [List.append_assoc, trim, trimStart_blanks_append hw, trimStart, List.dropWhile_append]
  split
  · -- nothing but blanks in `s`: the blanks behind it go as leading ones
    rename_i h
    have hs : trimStart s = [] := List.isEmpty_iff.mp h
    rw [trim, hs, ← trimStart, trimStart_of_allBlank hv]
  · exact trimEnd_append_blanks hv (trimStart s)

/-! ## Endings -/

theorem dropEnding?_append (x e : Text) : dropEnding? e (x ++ e) = some x := by simp [dropEnding?]

theorem dropEnding?_eq_none {e s : Text} (h : ¬ e <:+ s) : dropEnding? e s = none := by
  simpa [dropEnding?, List.isSuffixOf_iff_suffix] using h

/-- A text does not end in one that ends in another character. -/
theorem not_suffix_of_getLast {e s : Text} {c c' : Char} (he : e.getLast? = some c) (hs : s.getLast? = some c')
    (hc : c ≠ c') : ¬ e <:+ s := by
  intro ⟨t, ht⟩
  rw [← ht, List.getLast?_append, he, Option.some_or, Option.some.injEq] at hs
  exact hc hs

end Text

end ExportQuery
