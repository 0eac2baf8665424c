/-
  ExportQuery.Settings.Environment — environment variables and their expansion in texts.

  An environment is a list of entries `name=value`. In a text, `${name}` and `$name` stand
  for the value of a variable; a name without braces is a run of ASCII letters, digits and
  underscores. Values are not expanded again, and a dollar sign that starts no reference is
  kept. The first variable without a value is an error.
-/

import ExportQuery.Text.Search

namespace ExportQuery.Settings

open ExportQuery.Text

structure Environment where
  entries : List Text

namespace Environment

def ofList (bindings : List (Text × Text)) : Environment := ⟨bindings.map fun (name, value) => name ++ '=' :: value⟩

/-- The value of a variable. No variable has an empty name. -/
def value? (env : Environment) (name : Text) : Option Text :=
  if name.isEmpty then none else env.entries.findSome? (dropStart? (name ++ ['=']))

end Environment

/-! ## References -/

def isNameChar (c : Char) : Bool := c.isAlphanum || c == '_'

/-- The name that a reference has behind its dollar sign, and the text behind the reference. -/
def reference? : Text → Option (Text × Text)
  | '\x7b' :: s =>
    match s.dropWhile (· ≠ '\x7d') with
    | [] => none
    | _ :: rest => some (s.takeWhile (· ≠ '\x7d'), rest)
  | s =>
    let name := s.takeWhile isNameChar
    if name.isEmpty then none else some (name, s.dropWhile isNameChar)

theorem reference?_le {s name rest : Text} (h : reference? s = some (name, rest)) : rest.length ≤ s.length := by
  unfold reference? at h
  split at h
  · rename_i s
    split at h
    · cases h
    · rename_i d r e
      simp only [Option.some.injEq, Prod.mk.injEq] at h
      obtain ⟨-, rfl⟩ := h
      have := (List.dropWhile_suffix (fun c => decide (c ≠ '\x7d')) (l := s)).length_le
      rw [e] at this
      simp only [List.length_cons] at this ⊢
      omega
  · simp only [Option.ite_none_left_eq_some, Option.some.injEq, Prod.mk.injEq] at h
    obtain ⟨-, -, rfl⟩ := h
    exact (List.dropWhile_suffix isNameChar).length_le

inductive Piece where
  | char (c : Char)
  | variable (name : Text)
  deriving DecidableEq, Repr

/-- The characters and references of a text. -/
def pieces : Text → List Piece
  | [] => []
  | c :: s =>
    if c = '$' then
      match _h : reference? s with
      | some (name, rest) => .variable name :: pieces rest
      | none => .char c :: pieces s
    else .char c :: pieces s
termination_by s => s.length
decreasing_by
  · have := reference?_le _h
    simp only [List.length_cons]; omega
  · simp
  · simp

/-- The names of the variables a text refers to. -/
def references (s : Text) : List Text :=
  (pieces s).filterMap fun
    | .char _ => none
    | .variable name => some name

/-! ## Expansion -/

/-- The pieces with values in place of the variables, or the first name without a value. -/
def fill (value? : Text → Option Text) : List Piece → Except Text Text
  | [] => .ok []
  | .char c :: ps => (fill value? ps).map (c :: ·)
  | .variable name :: ps =>
    match value? name with
    | none => .error name
    | some value => (fill value? ps).map (value ++ ·)

def expand (value? : Text → Option Text) (s : Text) : Except Text Text := fill value? (pieces s)

end ExportQuery.Settings
