/-
  ExportQuery.Json.Token — the tokens of a JSON text.

  Blanks between tokens are space, tab, line feed and carriage return. A string with an
  unpaired surrogate among its escapes is a token without a text, a number too large for a
  double one without a value: both are in order where the value is not wanted.

  - `token?_shorter`: a token takes at least one character.
-/

import ExportQuery.Json.Number

namespace ExportQuery.Json

open ExportQuery.Text

inductive Token where
  | openArray
  | closeArray
  | openObject
  | closeObject
  | comma
  | colon
  | null
  | bool (b : Bool)
  | number (n : Option Number)
  | string (s : Option Text)
  deriving Repr

def isJsonBlank (c : Char) : Bool := c == ' ' || c == '\t' || c == '\n' || c == '\r'

/-! ## Strings -/

/-- The value of four hexadecimal digits, and the text after them. -/
def hex4? : Text → Option (Nat × Text)
  | a :: b :: c :: d :: s => do
    let a ← hexValue? a
    let b ← hexValue? b
    let c ← hexValue? c
    let d ← hexValue? d
    pure (((a * 16 + b) * 16 + c) * 16 + d, s)
  | _ => none

def isLeading (unit : Nat) : Bool := 0xD800 ≤ unit && unit ≤ 0xDBFF

def isTrailing (unit : Nat) : Bool := 0xDC00 ≤ unit && unit ≤ 0xDFFF

/-- One character of a string as it is written. -/
inductive Piece where
  | char (c : Char)
  /-- A UTF-16 unit. -/
  | unit (u : Nat)
  deriving Repr

/-- The character of a one-letter escape. -/
def escaped? : Char → Option Char
  | '"' => some '"'
  | '\\' => some '\\'
  | '/' => some '/'
  | 'b' => some '\x08'
  | 'f' => some '\x0c'
  | 'n' => some '\n'
  | 'r' => some '\r'
  | 't' => some '\t'
  | _ => none

/-- The next piece of a string, and the text after it. -/
def piece? : Text → Option (Piece × Text)
  | [] => none
  | '\\' :: 'u' :: s => (hex4? s).map fun (u, s) => (.unit u, s)
  | '\\' :: c :: s => (escaped? c).map fun c => (.char c, s)
  | '\\' :: [] => none
  | c :: s => if c.toNat < 0x20 then none else some (.char c, s)

theorem hex4?_shorter {s r : Text} {u : Nat} (h : hex4? s = some (u, r)) : r.length < s.length := by
  unfold hex4? at h
  split at h
  · simp only [Option.pure_def, Option.bind_eq_bind, Option.bind_eq_some_iff, Option.some.injEq, Prod.mk.injEq] at h
    obtain ⟨_, _, _, _, _, _, _, _, _, rfl⟩ := h
    simp only [List.length_cons]; omega
  · cases h

theorem piece?_shorter {s r : Text} {p : Piece} (h : piece? s = some (p, r)) : r.length < s.length := by
  unfold piece? at h
  split at h
  · cases h
  · simp only [Option.map_eq_some_iff, Prod.exists, Prod.mk.injEq] at h
    obtain ⟨_, _, h, -, rfl⟩ := h
    have := hex4?_shorter h
    simp only [List.length_cons]; omega
  · simp only [Option.map_eq_some_iff, Prod.mk.injEq] at h
    obtain ⟨_, _, -, rfl⟩ := h
    simp only [List.length_cons]; omega
  · cases h
  · split at h
    · cases h
    · simp only [Option.some.injEq, Prod.mk.injEq] at h
      obtain ⟨-, rfl⟩ := h
      simp

/-- The pieces up to the closing quote, and the text after it. -/
def pieces? (s : Text) : Option (List Piece × Text) :=
  if s.head? = some '"' then some ([], s.tail)
  else
    match _h : piece? s with
    | none => none
    | some (p, rest) => (pieces? rest).map fun (ps, rest) => (p :: ps, rest)
termination_by s.length
decreasing_by exact piece?_shorter _h

theorem pieces?_shorter {s r : Text} {ps : List Piece} (h : pieces? s = some (ps, r)) : r.length < s.length := by
  fun_induction pieces? s generalizing ps with
  | case1 s hs =>
    cases s with
    | nil => simp at hs
    | cons c s => simp_all
  | case2 => cases h
  | case3 s _ p rest hp ih =>
    simp only [Option.map_eq_some_iff, Prod.exists, Prod.mk.injEq] at h
    obtain ⟨_, _, h, -, rfl⟩ := h
    have := ih h
    have := piece?_shorter hp
    omega

/-- The text of the pieces; none when a surrogate stands alone. -/
def unescaped? : List Piece → Option Text
  | [] => some []
  | .char c :: ps => (unescaped? ps).map (c :: ·)
  | .unit a :: .unit b :: ps =>
    if isLeading a then
      if isTrailing b then
        (unescaped? ps).map (Char.ofNat (0x10000 + (a - 0xD800) * 0x400 + (b - 0xDC00)) :: ·)
      else none
    else if isTrailing a then none
    else (unescaped? (.unit b :: ps)).map (Char.ofNat a :: ·)
  | .unit a :: ps => if isLeading a || isTrailing a then none else (unescaped? ps).map (Char.ofNat a :: ·)

/-! ## Numbers -/

/-- The digits after a point, and the text after them. -/
def fraction? : Text → Option (Option Text × Text)
  | '.' :: s =>
    let digits := s.takeWhile Char.isDigit
    if digits.isEmpty then none else some (some digits, s.dropWhile Char.isDigit)
  | s => some (none, s)

def exponentDigits? (negative : Bool) (s : Text) : Option (Option (Bool × Text) × Text) :=
  let digits := s.takeWhile Char.isDigit
  if digits.isEmpty then none else some (some (negative, digits), s.dropWhile Char.isDigit)

/-- The exponent, if there is one, and the text after it. -/
def exponent? : Text → Option (Option (Bool × Text) × Text)
  | c :: s =>
    if c == 'e' || c == 'E' then
      match s with
      | '-' :: s => exponentDigits? true s
      | '+' :: s => exponentDigits? false s
      | s => exponentDigits? false s
    else some (none, c :: s)
  | [] => some (none, [])

/-- A number without its sign, and the text after it. Zero has no digits behind it. -/
def numeral? (negative : Bool) (s : Text) : Option (Numeral × Text) := do
  let digits := s.takeWhile Char.isDigit
  if digits.isEmpty || (digits.head? == some '0' && 1 < digits.length) then none
  else
    let (fraction, s) ← fraction? (s.dropWhile Char.isDigit)
    let (exponent, s) ← exponent? s
    pure (⟨negative, digits, fraction, exponent⟩, s)

def number? (s : Text) : Option (Token × Text) :=
  (match s with
    | '-' :: s => numeral? true s
    | s => numeral? false s).map fun ((x : Numeral), s) => (.number x.number?, s)

theorem rest_le (p : Char → Bool) (s : Text) : (s.dropWhile p).length ≤ s.length :=
  (List.dropWhile_suffix p).length_le

theorem fraction?_le {s r : Text} {f : Option Text} (h : fraction? s = some (f, r)) : r.length ≤ s.length := by
  unfold fraction? at h
  split at h
  · simp only [Option.ite_none_left_eq_some, Option.some.injEq, Prod.mk.injEq] at h
    obtain ⟨_, _, rfl⟩ := h
    have := rest_le Char.isDigit ‹_›
    simp only [List.length_cons]; omega
  · simp_all

theorem exponentDigits?_le {n : Bool} {s r : Text} {e : Option (Bool × Text)}
    (h : exponentDigits? n s = some (e, r)) : r.length ≤ s.length := by
  simp only [exponentDigits?, Option.ite_none_left_eq_some, Option.some.injEq, Prod.mk.injEq] at h
  obtain ⟨_, _, rfl⟩ := h
  exact rest_le Char.isDigit s

theorem exponent?_le {s r : Text} {e : Option (Bool × Text)} (h : exponent? s = some (e, r)) : r.length ≤ s.length := by
  unfold exponent? at h
  split at h
  · split at h
    · split at h
      all_goals
        have := exponentDigits?_le h
        simp only [List.length_cons] at *
        omega
    · simp_all
  · simp_all

theorem numeral?_shorter {n : Bool} {s r : Text} {x : Numeral} (h : numeral? n s = some (x, r)) :
    r.length < s.length := by
  unfold numeral? at h
  simp only [Option.pure_def, Option.bind_eq_bind, Option.ite_none_left_eq_some, Option.bind_eq_some_iff,
    Prod.exists, Option.some.injEq, Prod.mk.injEq] at h
  obtain ⟨hd, f, s₁, h₁, e, s₂, h₂, -, rfl⟩ := h
  have := fraction?_le h₁
  have := exponent?_le h₂
  have hs : s.takeWhile Char.isDigit ++ s.dropWhile Char.isDigit = s := List.takeWhile_append_dropWhile
  have : 0 < (s.takeWhile Char.isDigit).length := by
    rw [List.length_pos_iff]; intro e; simp [e] at hd
  have := congrArg List.length hs
  simp only [List.length_append] at this
  omega

/-! ## Tokens -/

/-- The token a text starts with, and the text after it. -/
def token? : Text → Option (Token × Text)
  | '[' :: s => some (.openArray, s)
  | ']' :: s => some (.closeArray, s)
  | '{' :: s => some (.openObject, s)
  | '}' :: s => some (.closeObject, s)
  | ',' :: s => some (.comma, s)
  | ':' :: s => some (.colon, s)
  | 'n' :: 'u' :: 'l' :: 'l' :: s => some (.null, s)
  | 't' :: 'r' :: 'u' :: 'e' :: s => some (.bool true, s)
  | 'f' :: 'a' :: 'l' :: 's' :: 'e' :: s => some (.bool false, s)
  | '"' :: s => (pieces? s).map fun (ps, s) => (.string (unescaped? ps), s)
  | s => number? s

theorem number?_shorter {s r : Text} {t : Token} (h : number? s = some (t, r)) : r.length < s.length := by
  unfold number? at h
  simp only [Option.map_eq_some_iff, Prod.exists, Prod.mk.injEq] at h
  obtain ⟨x, r', h, -, rfl⟩ := h
  split at h
  · have := numeral?_shorter h
    simp only [List.length_cons]; omega
  · exact numeral?_shorter h

theorem token?_shorter {s r : Text} {t : Token} (h : token? s = some (t, r)) : r.length < s.length := by
  unfold token? at h
  split at h
  all_goals first
    | (simp only [Option.some.injEq, Prod.mk.injEq] at h
       obtain ⟨-, rfl⟩ := h
       simp only [List.length_cons]; omega)
    | (simp only [Option.map_eq_some_iff, Prod.exists, Prod.mk.injEq] at h
       obtain ⟨_, _, h, -, rfl⟩ := h
       have := pieces?_shorter h
       simp only [List.length_cons]; omega)
    | exact number?_shorter h

/-- The tokens of a text. -/
def tokens? (s : Text) : Option (List Token) :=
  if (s.dropWhile isJsonBlank).isEmpty then some []
  else
    match _h : token? (s.dropWhile isJsonBlank) with
    | none => none
    | some (token, rest) => (tokens? rest).map (token :: ·)
termination_by s.length
decreasing_by
  have := token?_shorter _h
  have := rest_le isJsonBlank s
  omega

end ExportQuery.Json
