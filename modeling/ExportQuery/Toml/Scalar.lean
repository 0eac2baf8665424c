/-
  ExportQuery.Toml.Scalar — TOML numbers, booleans and points in time.

  Digits may be grouped by single underscores. Decimal integers have no leading zeros;
  hexadecimal, octal and binary ones have no sign. Integers go from -2^127 through
  2^128 - 1. Reals are rounded once and stay below infinity, unless they are written `inf`.
  Points in time are dates, times of day or both, these with or without an offset; the
  seconds may be left out.

  - `grouped?_plain`: digits without underscores are their own group.
-/

import ExportQuery.Calendar.Date
import ExportQuery.Decimal.Literal
import ExportQuery.Toml.Value

namespace ExportQuery.Toml

open ExportQuery.Text ExportQuery.Decimal ExportQuery.Calendar

/-! ## Numbers -/

/-- The digits of a text in which each underscore stands between two digits. `behindDigit` tells
    whether a digit stands in front. -/
def grouped? (isDigit : Char → Bool) : Bool → Text → Option Text
  | behindDigit, [] => if behindDigit then some [] else none
  | behindDigit, c :: s =>
    if isDigit c then (grouped? isDigit true s).map (c :: ·)
    else if c = '_' && behindDigit then grouped? isDigit false s
    else none

theorem grouped?_plain (isDigit : Char → Bool) (s : Text) (h : ∀ c ∈ s, isDigit c = true) :
    grouped? isDigit true s = some s := by
  induction s with
  | nil => rfl
  | cons c s ih => simp [grouped?, h c, ih fun d hd => h d (List.mem_cons_of_mem c hd)]

/-- The digits of a number without leading zeros. -/
def wholeDigits? (s : Text) : Option Text :=
  (grouped? Char.isDigit false s).bind fun ds => if ds.head? = some '0' && 1 < ds.length then none else some ds

/-- The sign in front, true for a minus, and the rest. -/
def splitSign : Text → Bool × Text
  | '-' :: s => (true, s)
  | '+' :: s => (false, s)
  | s => (false, s)

def minInteger : Int := -0x80000000000000000000000000000000

def maxInteger : Int := 0xffffffffffffffffffffffffffffffff

def inRange? (n : Int) : Option Value := if minInteger ≤ n && n ≤ maxInteger then some (.integer n) else none

/-- The number that digits denote in a base. -/
def baseValue (base : Nat) (ds : Text) : Nat := ds.foldl (fun n c => base * n + (hexValue? c).getD 0) 0

def isDigitOf (base : Nat) (c : Char) : Bool :=
  match hexValue? c with
  | some d => d < base
  | none => false

def inBase? (base : Nat) (s : Text) : Option Value :=
  (grouped? (isDigitOf base) false s).bind fun ds => inRange? (baseValue base ds)

def integer? : Text → Option Value
  | '0' :: 'x' :: s => inBase? 16 s
  | '0' :: 'o' :: s => inBase? 8 s
  | '0' :: 'b' :: s => inBase? 2 s
  | s =>
    let (negative, s) := splitSign s
    (wholeDigits? s).bind fun ds => inRange? (if negative then -(digitsValue ds : Int) else digitsValue ds)

/-- What stands before the first character with `p`, and behind it if there is one. -/
def splitAt (p : Char → Bool) (s : Text) : Text × Option Text :=
  let before := s.takeWhile (!p ·)
  match s.drop before.length with
  | [] => (before, none)
  | _ :: after => (before, some after)

def exponentValue? (s : Text) : Option Int :=
  let (negative, s) := splitSign s
  (grouped? Char.isDigit false s).map fun ds => if negative then -(digitsValue ds : Int) else digitsValue ds

def finite? (negative : Bool) (s : Text) : Option Value := do
  let (mantissa, exponent) := splitAt (fun c => c == 'e' || c == 'E') s
  let (whole, fraction) := splitAt (· == '.') mantissa
  if exponent.isNone && fraction.isNone then none
  else
    let whole ← wholeDigits? whole
    let fraction ← match fraction with
      | none => some []
      | some s => grouped? Char.isDigit false s
    let power ← match exponent with
      | none => some 0
      | some s => exponentValue? s
    let magnitude ← nearestDecimal? (digitsValue (whole ++ fraction)) (power - fraction.length)
    pure (.real ⟨negative, magnitude⟩)

def real? (s : Text) : Option Value :=
  let (negative, s) := splitSign s
  if s = "inf".toList then some (.infinity negative)
  else if s = "nan".toList then some .notANumber
  else finite? negative s

/-! ## Points in time -/

def isDate : Text → Bool
  | [a, b, c, d, '-', e, f, '-', g, h] =>
    [a, b, c, d, e, f, g, h].all Char.isDigit &&
      (Date.ofYmd? (digitsValue [a, b, c, d]) (digitsValue [e, f]) (digitsValue [g, h])).isSome
  | _ => false

/-- Whether two digits denote a number up to `max`. -/
def upTo (max : Nat) (a b : Char) : Bool := a.isDigit && b.isDigit && digitsValue [a, b] ≤ max

/-- What follows the minutes. -/
def isSeconds : Text → Bool
  | [] => true
  | [':', a, b] => upTo 60 a b
  | ':' :: a :: b :: '.' :: c :: s => upTo 60 a b && (c :: s).all Char.isDigit
  | _ => false

def isTime : Text → Bool
  | a :: b :: ':' :: c :: d :: s => upTo 23 a b && upTo 59 c d && isSeconds s
  | _ => false

def isOffset : Text → Bool
  | [] => true
  | ['Z'] => true
  | ['z'] => true
  | [sign, a, b, ':', c, d] => (sign == '+' || sign == '-') && upTo 23 a b && upTo 59 c d
  | _ => false

def startsOffset (c : Char) : Bool := c == 'Z' || c == 'z' || c == '+' || c == '-'

/-- What follows a date. -/
def isTimeOfDate : Text → Bool
  | [] => true
  | mark :: s =>
    (mark == 'T' || mark == 't' || mark == ' ') && isTime (s.takeWhile (!startsOffset ·)) &&
      isOffset (s.dropWhile (!startsOffset ·))

def isMoment (s : Text) : Bool := isTime s || (isDate (s.take 10) && isTimeOfDate (s.drop 10))

/-! ## Words -/

/-- The value of a word. -/
def scalar? (s : Text) : Option Value :=
  if s = "true".toList then some (.boolean true)
  else if s = "false".toList then some (.boolean false)
  else if isMoment s then some .time
  else (integer? s).or (real? s)

end ExportQuery.Toml
