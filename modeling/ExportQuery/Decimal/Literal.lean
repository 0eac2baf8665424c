/-
  ExportQuery.Decimal.Literal — decimal fractions as doubles, rounded once.

  Fractions from 10^309 on are larger than all doubles, those below 10^-330 are nearer to
  zero than to the least double; the others are scaled exactly before they are rounded.
-/

import ExportQuery.Decimal.Double

namespace ExportQuery.Decimal

def places (n : Nat) : Nat := (Nat.toDigits 10 n).length

/-- The magnitude nearest to `digits · 10^power`; none beyond the doubles. -/
def nearestDecimal? (digits : Nat) (power : Int) : Option Magnitude :=
  if digits = 0 then some .zero
  else if 309 < places digits + power then none
  else if places digits + power < -330 then some .zero
  else if 0 ≤ power then Magnitude.nearest? (digits * Nat.pow 10 power.toNat) 1
  else Magnitude.nearest? digits (Nat.pow 10 (-power).toNat)

end ExportQuery.Decimal
