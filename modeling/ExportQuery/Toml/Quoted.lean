/-
  ExportQuery.Toml.Quoted — TOML strings.

  Strings stand in quotation marks, where a backslash starts an escape, or in apostrophes,
  where it does not. Three marks open a string of several lines, which leaves out a line
  break right behind them; up to two marks before the closing three belong to it. A
  backslash at the end of a line joins the lines, blanks left out.

  - `literal?_eq`: a string in apostrophes is its own content.
-/

import ExportQuery.Text.Numeral

namespace ExportQuery.Toml

open ExportQuery.Text

def isTomlBlank (c : Char) : Bool := c == ' ' || c == '\t'

/-- Characters that comments and strings hold as they are: all but the control characters, with
    the tab. -/
def isPlain (c : Char) : Bool := c == '\t' || (0x20 ≤ c.toNat && c.toNat ≠ 0x7F)

/-- The text behind a line break. -/
def lineBreak? : Text → Option Text
  | '\n' :: s => some s
  | '\r' :: '\n' :: s => some s
  | _ => none

/-! ## Escapes -/

/-- The character of a code point, surrogates excepted. -/
def codePoint? (n : Nat) : Option Char := if n.isValidChar then some (Char.ofNat n) else none

def escapeOf? : Char → Option Char
  | 'b' => some '\x08'
  | 't' => some '\t'
  | 'n' => some '\n'
  | 'f' => some '\x0c'
  | 'r' => some '\r'
  | 'e' => some '\x1b'
  | '"' => some '"'
  | '\\' => some '\\'
  | _ => none

/-- How many hexadecimal digits follow. -/
def hexDigitsOf? : Char → Option Nat
  | 'x' => some 2
  | 'u' => some 4
  | 'U' => some 8
  | _ => none

/-- Where the reading of a string stands. -/
inductive Mode where
  /-- Between characters; after a joined line, blanks and line breaks are left out. -/
  | text (joining : Bool)
  | escape
  /-- `left` digits of a code point are missing. -/
  | code (left value : Nat)
  /-- Between a backslash and the end of its line. -/
  | lineEnd
  deriving DecidableEq, Repr

/-- A character read, or none so far, and the mode to go on in. -/
abbrev Read := Option Char × Mode

/-- One more character of an escape. -/
def Mode.escaped? : Mode → Char → Option Read
  | .escape, c =>
    match hexDigitsOf? c with
    | some n => some (none, .code n 0)
    | none => (escapeOf? c).map fun c => (some c, .text false)
  | .code left value, c =>
    match hexValue? c with
    | none => none
    | some d =>
      if left ≤ 1 then (codePoint? (16 * value + d)).map fun c => (some c, .text false)
      else some (none, .code (left - 1) (16 * value + d))
  | _, _ => none

/-- Puts the character that was read in front. -/
def Read.add (r : Read) (found : Text × Text) : Text × Text := (r.1.toList ++ found.1, found.2)

/-! ## One line -/

/-- The content of a string up to its closing quotation mark, and the text behind it. -/
def basic? : Mode → Text → Option (Text × Text)
  | _, [] => none
  | .text joining, c :: s =>
    if c = '"' then some ([], s)
    else if c = '\\' then basic? .escape s
    else if isPlain c then (basic? (.text joining) s).map fun (t, r) => (c :: t, r)
    else none
  | m, c :: s =>
    match m.escaped? c with
    | none => none
    | some read => (basic? read.2 s).map read.add

/-- The content of a string up to its closing apostrophe, and the text behind it. -/
def literal? : Text → Option (Text × Text)
  | [] => none
  | c :: s =>
    if c = '\'' then some ([], s) else if isPlain c then (literal? s).map fun (t, r) => (c :: t, r) else none

theorem literal?_eq {s t r : Text} (h : literal? s = some (t, r)) : s = t ++ '\'' :: r := by
  induction s generalizing t with
  | nil => cases h
  | cons c s ih =>
    unfold literal? at h
    split at h
    · simp_all
    · split at h
      · simp only [Option.map_eq_some_iff, Prod.exists, Prod.mk.injEq] at h
        obtain ⟨t', r', h, rfl, rfl⟩ := h
        simp [ih h]
      · cases h

/-! ## Several lines -/

/-- The marks before the closing three, and the text behind those. -/
def closing? (mark : Char) (s : Text) : Option (Text × Text) :=
  let marks := (s.take 5).takeWhile (· == mark)
  if marks.length < 3 then none else some (marks.drop 3, s.drop marks.length)

def isBreak (c : Char) (s : Text) : Bool := (lineBreak? (c :: s)).isSome

/-- The content of a string of several lines, and the text behind it. -/
def lines? : Mode → Text → Option (Text × Text)
  | _, [] => none
  | .text joining, c :: s =>
    if joining && (isTomlBlank c || isBreak c s) then lines? (.text true) s
    else
      match closing? '"' (c :: s) with
      | some found => some found
      | none =>
        if c = '\\' then lines? .escape s
        else if isPlain c || isBreak c s then (lines? (.text false) s).map fun (t, r) => (c :: t, r)
        else none
  | .lineEnd, c :: s =>
    if isTomlBlank c then lines? .lineEnd s else if isBreak c s then lines? (.text true) s else none
  | m, c :: s =>
    if m = .escape && isTomlBlank c then lines? .lineEnd s
    else if m = .escape && isBreak c s then lines? (.text true) s
    else
      match m.escaped? c with
      | none => none
      | some read => (lines? read.2 s).map read.add

/-- The content of a string of several lines in apostrophes, and the text behind it. -/
def literalLines? : Text → Option (Text × Text)
  | [] => none
  | c :: s =>
    match closing? '\'' (c :: s) with
    | some found => some found
    | none => if isPlain c || isBreak c s then (literalLines? s).map fun (t, r) => (c :: t, r) else none

/-- The text behind a line break at its start, or all of it. -/
def dropBreak (s : Text) : Text := (lineBreak? s).getD s

/-- The content of the string at the start of a text, and the text behind it. -/
def string? : Text → Option (Text × Text)
  | '"' :: '"' :: '"' :: s => lines? (.text false) (dropBreak s)
  | '\'' :: '\'' :: '\'' :: s => literalLines? (dropBreak s)
  | '"' :: s => basic? (.text false) s
  | '\'' :: s => literal? s
  | _ => none

end ExportQuery.Toml
