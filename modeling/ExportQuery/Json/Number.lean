/-
  ExportQuery.Json.Number — numbers as JSON writes them.

  A number without fraction and exponent is an integer where 64 bits hold it; `-0` is a
  double. All other numbers are doubles, read in two roundings: as many leading digits as a
  64-bit word holds go to the nearest double, which then is multiplied or divided by a power
  of ten. A number beyond the doubles is none; one below them is zero.

  - `leadingDigits_bound`: the digits kept fit the word.
-/

import ExportQuery.Json.Value
import ExportQuery.Text.Numeral

namespace ExportQuery.Json

open ExportQuery.Decimal ExportQuery.Text

/-- The parts of a number: sign, digits, digits of the fraction, sign and digits of the exponent. -/
structure Numeral where
  negative : Bool
  whole : Text
  fraction : Option Text
  exponent : Option (Bool × Text)
  deriving DecidableEq, Repr

/-- How many numbers a word of 64 bits can hold. -/
def wordLimit : Nat := 0x10000000000000000

/-- Appends digits while the number fits a word; also how many digits are left over. -/
def leadingDigits : Nat → Text → Nat × Nat
  | n, [] => (n, 0)
  | n, c :: more =>
    if 10 * n + digitValue c < wordLimit then leadingDigits (10 * n + digitValue c) more else (n, more.length + 1)

theorem leadingDigits_bound (n : Nat) (ds : Text) (h : n < wordLimit) : (leadingDigits n ds).1 < wordLimit := by
  induction ds generalizing n with
  | nil => exact h
  | cons c ds ih =>
    unfold leadingDigits
    split
    · exact ih _ ‹_›
    · exact h

/-- The largest power of ten below the largest double. -/
def maxTenPower : Nat := 308

def tenPower (k : Nat) : Magnitude := (Magnitude.nearest? (Nat.pow 10 k) 1).getD .zero

/-- The magnitude times a power of ten, rounded once, or for large negative powers once per
    308 places. -/
def timesTen? (f : Magnitude) (power : Int) : Option Magnitude :=
  if power.natAbs ≤ maxTenPower then
    if 0 ≤ power then f.mul? (tenPower power.natAbs) else f.div? (tenPower power.natAbs)
  else if f.isZero then some f
  else if 0 ≤ power then none
  else
    match f.div? (tenPower maxTenPower) with
    | none => none
    | some g => timesTen? g (power + maxTenPower)
termination_by power.natAbs
decreasing_by simp only [maxTenPower] at *; omega

/-- Exponents above this are not computed. -/
def maxExponentDigits : Nat := 0x7fffffff

def double? (negative : Bool) (significand : Nat) (power : Int) : Option Number := do
  let f ← Magnitude.nearest? significand 1
  let g ← timesTen? f power
  pure (.double ⟨negative, g⟩)

def Numeral.number? (x : Numeral) : Option Number :=
  let (whole, dropped) := leadingDigits 0 x.whole
  if x.fraction.isNone && x.exponent.isNone && dropped == 0 then
    if !x.negative then some (.integer whole)
    else if whole == 0 || wordLimit / 2 < whole then double? true whole 0
    else some (.integer (-(whole : Int)))
  else
    let fraction := x.fraction.getD []
    let (significand, unread) := leadingDigits whole fraction
    let power : Int := (dropped : Int) - (fraction.length - unread : Nat)
    match x.exponent with
    | none => double? x.negative significand power
    | some (negative, digits) =>
      let e := digitsValue digits
      if maxExponentDigits < e then
        if significand != 0 && !negative then none else some (.double ⟨x.negative, .zero⟩)
      else double? x.negative significand (if negative then power - e else power + e)

end ExportQuery.Json
