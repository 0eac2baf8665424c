/-
  ExportQuery.Decimal.Shortest — the shortest decimal that reads back as a magnitude.

  The reals that round to a magnitude form an interval around it, ends included exactly when
  the coefficient is even. Of the decimals in it those with the fewest digits are taken, and
  of these the nearest, a tie going to the even one. If the grid of k digits meets the
  interval, it does so at a neighbour of the magnitude, so only two points of each grid are
  tried; seventeen digits always suffice.
-/

import ExportQuery.Decimal.Double
import ExportQuery.Text.Numeral

namespace ExportQuery.Decimal

open ExportQuery.Text

/-- `digits · 10^power`. -/
structure Scientific where
  digits : Nat
  power : Int
  deriving DecidableEq, Repr

def scaleTen (n d : Nat) (k : Int) : Nat × Nat := if 0 ≤ k then (n * Nat.pow 10 k.toNat, d) else (n, d * Nat.pow 10 (-k).toNat)

/-- The power of ten at the first digit of `n / d`. -/
def leadingPower (n d : Nat) : Int :=
  if d ≤ n then (decimal (n / d)).length - 1 else -((decimal ((d + n - 1) / n - 1)).length : Int)

/-- Bounds of the reals that round to a magnitude, in quarters of its unit. -/
def Magnitude.bounds (f : Magnitude) : Nat × Nat :=
  let below := if f.coefficient = minNormal && minExponent < f.exponent then 1 else 2
  (4 * f.coefficient - below, 4 * f.coefficient + 2)

def Scientific.roundsTo (x : Scientific) (f : Magnitude) : Bool :=
  let (low, high) := f.bounds
  let (n, d) := scaleTen x.digits 1 x.power
  let (a, b) := Magnitude.scale n d (2 - f.exponent)
  if f.coefficient % 2 = 0 then low * b ≤ a && a ≤ high * b else low * b < a && a < high * b

/-- The neighbour of the magnitude `n / d` on the grid of `10^power` that is nearest to it among
    those that round to it. -/
def onGrid? (f : Magnitude) (n d : Nat) (power : Int) : Option Scientific :=
  let (a, b) := scaleTen n d (-power)
  let low : Scientific := ⟨a / b, power⟩
  let high : Scientific := ⟨a / b + 1, power⟩
  match low.roundsTo f, high.roundsTo f with
  | true, true => some ⟨roundDiv a b, power⟩
  | true, false => some low
  | false, true => some high
  | false, false => none

def Scientific.stripped (fuel : Nat) (x : Scientific) : Scientific :=
  match fuel with
  | 0 => x
  | fuel + 1 => if x.digits % 10 = 0 then stripped fuel ⟨x.digits / 10, x.power + 1⟩ else x

/-- The shortest decimal of a magnitude other than zero. -/
def Magnitude.shortest (f : Magnitude) : Scientific :=
  let (n, d) := scale f.coefficient 1 f.exponent
  let first := leadingPower n d
  match (List.range 17).findSome? fun k : Nat => onGrid? f n d (first - k) with
  | some x => x.stripped 17
  | none => ⟨f.coefficient, 0⟩

end ExportQuery.Decimal
