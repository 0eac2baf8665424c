/-
  ExportQuery.Toml.Document — TOML documents.

  A document is a sequence of statements, one to a line: a key with its value, the header of
  a table, or the header of one more table of an array. A value goes into the table of the
  latest header. Arrays and inline tables may hold line breaks, comments and a comma at the
  end, and nest 80 levels deep; a key has at most 81 parts. A byte-order mark in front of
  the first statement is left out.
-/

import ExportQuery.Toml.Quoted
import ExportQuery.Toml.Scalar

namespace ExportQuery.Toml

open ExportQuery.Text

/-! ## Gaps -/

def skipBlanks (s : Text) : Text := s.dropWhile isTomlBlank

/-- The text behind blanks, comments and line breaks. -/
def gap? (inComment : Bool) : Text → Option Text
  | [] => some []
  | c :: s =>
    if isBreak c s then gap? false s
    else if inComment then if isPlain c then gap? true s else none
    else if isTomlBlank c then gap? false s
    else if c = '#' then gap? true s
    else some (c :: s)

/-- The text behind the end of a line, which may hold a comment. -/
def lineEnd? (s : Text) : Option Text :=
  match skipBlanks s with
  | [] => some []
  | '#' :: s =>
    match s.dropWhile isPlain with
    | [] => some []
    | s => lineBreak? s
  | s => lineBreak? s

/-! ## Keys -/

def isBareKey (c : Char) : Bool := c.isAlphanum || c == '_' || c == '-'

/-- One part of a key, and the text behind it. -/
def keyPart? (s : Text) : Option (Text × Text) :=
  match s with
  | '"' :: s => basic? (.text false) s
  | '\'' :: s => literal? s
  | s =>
    let bare := s.takeWhile isBareKey
    if bare.isEmpty then none else some (bare, s.dropWhile isBareKey)

/-- Parts of a key at most. -/
def maxKeyParts : Nat := 81

/-- The parts before the last, the last part, and the text behind the key and blanks. -/
def keyWithin? : Nat → Text → Option ((List Text × Text) × Text)
  | 0, _ => none
  | n + 1, s => do
    let (part, s) ← keyPart? s
    match skipBlanks s with
    | '.' :: s =>
      let ((path, key), s) ← keyWithin? n (skipBlanks s)
      pure ((part :: path, key), s)
    | s => pure (([], part), s)

def key? (s : Text) : Option ((List Text × Text) × Text) := keyWithin? maxKeyParts (skipBlanks s)

/-! ## Values -/

/-- Characters that end a word. -/
def endsWord (c : Char) : Bool := " \t\r\n,=#'\"[]\x7b\x7d".toList.contains c

/-- The word at the start of a text, a date and the time behind it being one, and the rest. -/
def word (s : Text) : Text × Text :=
  let first := s.takeWhile (!endsWord ·)
  match s.dropWhile (!endsWord ·) with
  | ' ' :: c :: rest =>
    if c.isDigit && isDate first then
      (first ++ ' ' :: (c :: rest).takeWhile (!endsWord ·), (c :: rest).dropWhile (!endsWord ·))
    else (first, ' ' :: c :: rest)
  | rest => (first, rest)

/-- Levels of arrays and inline tables. -/
def maxNesting : Nat := 80

mutual

/-- The value at the start of a text, and the text behind it. Each call takes one from `fuel`, each
    level one from `depth`. -/
def value? : Nat → Nat → Text → Option (Value × Text)
  | 0, _, _ => none
  | fuel + 1, depth, s =>
    match s with
    | '[' :: s => if depth = 0 then none else items? fuel (depth - 1) [] s
    | '\x7b' :: s => if depth = 0 then none else pairs? fuel (depth - 1) ⟨.inline, []⟩ s
    | s =>
      if s.head? = some '"' || s.head? = some '\'' then (string? s).map fun (t, s) => (.string t, s)
      else
        let (w, s) := word s
        (scalar? w).map fun v => (v, s)

/-- An array, its latest item first, and the text behind it. -/
def items? : Nat → Nat → List Value → Text → Option (Value × Text)
  | 0, _, _, _ => none
  | fuel + 1, depth, items, s => do
    let s ← gap? false s
    if s.head? = some ']' then pure (.array items.reverse, s.tail)
    else
      let (v, s) ← value? fuel depth s
      match ← gap? false s with
      | ',' :: s => items? fuel depth (v :: items) s
      | ']' :: s => pure (.array (v :: items).reverse, s)
      | _ => none

/-- An inline table and the text behind it. -/
def pairs? : Nat → Nat → Table → Text → Option (Value × Text)
  | 0, _, _, _ => none
  | fuel + 1, depth, t, s => do
    let s ← gap? false s
    if s.head? = some '\x7d' then pure (t.value, s.tail)
    else
      let ((path, key), s) ← key? s
      match s with
      | '=' :: s =>
        let (v, s) ← value? fuel depth (skipBlanks s)
        let t ← t.assign path key v
        match ← gap? false s with
        | ',' :: s => pairs? fuel depth t s
        | '\x7d' :: s => pure (t.value, s)
        | _ => none
      | _ => none

end

/-! ## Statements -/

inductive Statement where
  | pair (path : List Text) (key : Text) (value : Value)
  | table (path : List Text) (key : Text)
  | element (path : List Text) (key : Text)
  deriving Repr

/-- The statement at the start of a text, and the text behind it. -/
def statement? (fuel : Nat) : Text → Option (Statement × Text)
  | '[' :: '[' :: s => do
    let ((path, key), s) ← key? s
    match s with
    | ']' :: ']' :: s => pure (.element path key, s)
    | _ => none
  | '[' :: s => do
    let ((path, key), s) ← key? s
    match s with
    | ']' :: s => pure (.table path key, s)
    | _ => none
  | s => do
    let ((path, key), s) ← key? s
    match s with
    | '=' :: s =>
      let (v, s) ← value? fuel maxNesting (skipBlanks s)
      pure (.pair path key v, s)
    | _ => none

/-- The statements of a text. Each call takes one from `fuel`. -/
def statements? : Nat → Text → Option (List Statement)
  | 0, _ => none
  | fuel + 1, s => do
    let s ← gap? false s
    if s.isEmpty then pure []
    else
      let (statement, s) ← statement? fuel s
      let s ← lineEnd? s
      let more ← statements? fuel s
      pure (statement :: more)

/-- The members of a document so far, and the path of the latest header. -/
structure Draft where
  root : Table
  current : List Text
  deriving Repr

def Draft.add? (d : Draft) : Statement → Option Draft
  | .pair path key v => (d.root.enter false (·.assign path key v) d.current).map fun t => { d with root := t }
  | .table path key => (d.root.openTable path key).map fun t => ⟨t, path ++ [key]⟩
  | .element path key => (d.root.openElement path key).map fun t => ⟨t, path ++ [key]⟩

def documentOf? (statements : List Statement) : Option Value :=
  (statements.foldlM Draft.add? ⟨.document, []⟩).map (·.root.value)

def dropMark (s : Text) : Text := if s.head? = some '\uFEFF' then s.tail else s

/-- The table a document holds. No character is behind more than two calls. -/
def document? (s : Text) : Option Value := (statements? (2 * s.length + 2) (dropMark s)).bind documentOf?

end ExportQuery.Toml
