/-
  ExportQuery.Decimal.Double — double precision numbers as exact dyadic fractions.

  A magnitude is m · 2^e with m < 2^53 and e ≥ -1074; m ≥ 2^52 unless e = -1074. A quotient
  of natural numbers goes to the nearest magnitude, a tie to the even m; from
  (2^53 - 1/2) · 2^971 on there is none. Products and quotients of magnitudes are rounded once.
-/

namespace ExportQuery.Decimal

/-- The quotient rounded to the nearest number, a tie to the even one. -/
def roundDiv (n d : Nat) : Nat :=
  let q := n / d
  let r := n % d
  if 2 * r < d then q else if d < 2 * r then q + 1 else if q % 2 = 0 then q else q + 1

/-- `coefficient · 2^exponent`. -/
structure Magnitude where
  coefficient : Nat
  exponent : Int
  deriving DecidableEq, Repr

structure Double where
  negative : Bool
  magnitude : Magnitude
  deriving DecidableEq, Repr

/-- 2^52, the least coefficient of 53 bits. -/
def minNormal : Nat := 0x10000000000000

def minExponent : Int := -1074

def maxExponent : Int := 971

namespace Magnitude

def zero : Magnitude := ⟨0, minExponent⟩

def isZero (f : Magnitude) : Bool := f.coefficient == 0

/-- Numerator and denominator of `n / d · 2^k`. -/
def scale (n d : Nat) (k : Int) : Nat × Nat := if 0 ≤ k then (n <<< k.toNat, d) else (n, d <<< (-k).toNat)

/-- The exponent at which `n / d` has 53 bits, or the least exponent. -/
def exponentOf (n d : Nat) : Int :=
  let e := max ((Nat.log2 n : Int) - Nat.log2 d - 53) minExponent
  let (a, b) := scale n d (-e)
  if 2 * minNormal ≤ a / b then e + 1 else e

/-- The magnitude nearest to `n / d`; none when that is too large. -/
def nearest? (n d : Nat) : Option Magnitude :=
  if n = 0 then some zero
  else
    let e := exponentOf n d
    let (a, b) := scale n d (-e)
    let m := roundDiv a b
    let f : Magnitude := if m = 2 * minNormal then ⟨minNormal, e + 1⟩ else ⟨m, e⟩
    if maxExponent < f.exponent then none else some f

def mul? (f g : Magnitude) : Option Magnitude :=
  let (n, d) := scale (f.coefficient * g.coefficient) 1 (f.exponent + g.exponent)
  nearest? n d

def div? (f g : Magnitude) : Option Magnitude :=
  let (n, d) := scale f.coefficient g.coefficient (f.exponent - g.exponent)
  nearest? n d

end Magnitude

end ExportQuery.Decimal
