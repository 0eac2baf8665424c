/-
  ExportQuery.Json.Tree — reading JSON texts.

  A text is read in two steps: first into a tree, which knows only the grammar, then into a
  value, which must be nested 127 levels deep at most and free of faulty strings and numbers.
  So the parts of a document that are not wanted need no more than be well formed.

  The tree is built by one pass over the tokens with a stack of open arrays and objects.
-/

import ExportQuery.Json.Token

namespace ExportQuery.Json

/-- A well-formed document. A string or number that has no value is a fault in its place. -/
inductive Tree where
  | null
  | bool (b : Bool)
  | number (n : Option Number)
  | string (s : Option Text)
  | array (items : List Tree)
  | object (members : List (Option Text × Tree))
  deriving Repr

/-! ## Grammar -/

/-- An open array or object, what it holds so far in reverse; an object also the name of the
    member that is being read. -/
inductive Frame where
  | array (items : List Tree)
  | object (members : List (Option Text × Tree)) (name : Option Text)

inductive Expecting where
  | value
  /-- Right after an opening bracket. -/
  | firstItem
  /-- Right after an opening brace. -/
  | firstName
  /-- After a comma in an object. -/
  | name (members : List (Option Text × Tree))
  | colon (members : List (Option Text × Tree)) (name : Option Text)
  /-- After a value. -/
  | next (t : Tree)

def leaf? : Token → Option Tree
  | .null => some .null
  | .bool b => some (.bool b)
  | .number n => some (.number n)
  | .string s => some (.string s)
  | _ => none

/-- Reads a value or the start of one. -/
def valueStep? (t : Token) (stack : List Frame) : Option (Expecting × List Frame) :=
  match t with
  | .openArray => some (.firstItem, stack)
  | .openObject => some (.firstName, stack)
  | t => (leaf? t).map fun leaf => (.next leaf, stack)

def step? (t : Token) : Expecting × List Frame → Option (Expecting × List Frame)
  | (.value, stack) => valueStep? t stack
  | (.firstItem, stack) =>
    match t with
    | .closeArray => some (.next (.array []), stack)
    | t => valueStep? t (.array [] :: stack)
  | (.firstName, stack) =>
    match t with
    | .closeObject => some (.next (.object []), stack)
    | .string s => some (.colon [] s, stack)
    | _ => none
  | (.name members, stack) =>
    match t with
    | .string s => some (.colon members s, stack)
    | _ => none
  | (.colon members name, stack) =>
    match t with
    | .colon => some (.value, .object members name :: stack)
    | _ => none
  | (.next v, .array items :: stack) =>
    match t with
    | .comma => some (.value, .array (v :: items) :: stack)
    | .closeArray => some (.next (.array (v :: items).reverse), stack)
    | _ => none
  | (.next v, .object members name :: stack) =>
    match t with
    | .comma => some (.name ((name, v) :: members), stack)
    | .closeObject => some (.next (.object ((name, v) :: members).reverse), stack)
    | _ => none
  | (.next _, []) => none

def Tree.ofText? (s : Text) : Option Tree := do
  let tokens ← tokens? s
  match ← tokens.foldlM (fun state t => step? t state) (.value, []) with
  | (.next t, []) => some t
  | _ => none

/-! ## Values -/

/-- Levels of arrays and objects that a value may have. -/
def maxDepth : Nat := 127

mutual

/-- The value of a tree of at most `depth` levels. -/
def Tree.value? (depth : Nat) : Tree → Option Value
  | .null => some .null
  | .bool b => some (.bool b)
  | .number n => n.map .number
  | .string s => s.map .string
  | .array items => if depth = 0 then none else (values? (depth - 1) items).map .array
  | .object members => if depth = 0 then none else (members? (depth - 1) members).map fun ms => .object (collect ms)

def values? (depth : Nat) : List Tree → Option (List Value)
  | [] => some []
  | t :: ts => do
    let v ← t.value? depth
    let vs ← values? depth ts
    pure (v :: vs)

/-- The members with their values, in the order they are written. -/
def members? (depth : Nat) : List (Option Text × Tree) → Option (List (Text × Value))
  | [] => some []
  | (name, t) :: more => do
    let name ← name
    let v ← t.value? depth
    let vs ← members? depth more
    pure ((name, v) :: vs)

end

def Value.ofText? (s : Text) : Option Value := (Tree.ofText? s).bind (·.value? maxDepth)

end ExportQuery.Json
