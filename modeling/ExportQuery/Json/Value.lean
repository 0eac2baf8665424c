/-
  ExportQuery.Json.Value — JSON values.

  Members of an object keep the place of their first appearance; a repeated name takes the
  last value. Integers from -2^63 through 2^64 - 1 are exact, all other numbers are doubles.

  - `keys_put`: putting a member adds its name at the end, or adds none.
-/

import ExportQuery.Decimal.Double
import ExportQuery.Text.Blank

namespace ExportQuery.Json

open ExportQuery.Decimal

inductive Number where
  | integer (n : Int)
  | double (x : Double)
  deriving DecidableEq, Repr

inductive Value where
  | null
  | bool (b : Bool)
  | number (n : Number)
  | string (s : Text)
  | array (items : List Value)
  | object (members : List (Text × Value))
  deriving Repr

def Number.isZero : Number → Bool
  | .integer n => n == 0
  | .double x => x.magnitude.isZero

/-- Whether a value counts as filled in: not null, false, zero, nor empty. -/
def Value.isFilled : Value → Bool
  | .null => false
  | .bool b => b
  | .number n => !n.isZero
  | .string s => !s.isEmpty
  | .array items => !items.isEmpty
  | .object members => !members.isEmpty

/-! ## Members -/

/-- The members with `key` bound to `value`, in its old place if it has one. -/
def put {α : Type} (key : Text) (value : α) : List (Text × α) → List (Text × α)
  | [] => [(key, value)]
  | (k, v) :: more => if k = key then (key, value) :: more else (k, v) :: put key value more

/-- The members with later ones put over earlier ones. -/
def collect {α : Type} (members : List (Text × α)) : List (Text × α) :=
  members.foldl (fun acc (key, value) => put key value acc) []

/-- The value of the first member named `key`. -/
def get? {α : Type} (key : Text) (members : List (Text × α)) : Option α := (members.find? (·.1 == key)).map (·.2)

theorem keys_put {α : Type} (key : Text) (value : α) (l : List (Text × α)) :
    (put key value l).map (·.1) = if key ∈ l.map (·.1) then l.map (·.1) else l.map (·.1) ++ [key] := by
  induction l with
  | nil => simp [put]
  | cons x l ih =>
    obtain ⟨k, v⟩ := x
    by_cases h : k = key
    · simp [put, h]
    · simp only [put, h, if_false, List.map_cons, ih, List.mem_cons, Ne.symm h, false_or]
      split <;> simp

theorem get?_put {α : Type} (key : Text) (value : α) (l : List (Text × α)) : get? key (put key value l) = some value := by
  induction l with
  | nil => simp [put, get?]
  | cons x l ih =>
    obtain ⟨k, v⟩ := x
    by_cases h : k = key
    · simp [put, get?, h]
    · have hk : (k == key) = false := by simpa using h
      simp only [put, h, if_false, get?, List.find?_cons, hk] at ih ⊢
      exact ih

end ExportQuery.Json
