/-
  ExportQuery.Text.Numeral — numbers written in decimal digits.

  `decimal` writes a number without leading zeros; `readDecimal?` reads a text of ASCII
  digits, leading zeros allowed, and refuses the empty text.

  - `isDigit_decimal`: only digits are written.
-/

import ExportQuery.Text.Blank

namespace ExportQuery.Text

/-- The decimal digits of `n`, most significant first. -/
def decimal (n : Nat) : Text := Nat.toDigits 10 n

def digitValue (c : Char) : Nat := c.toNat - '0'.toNat

/-- The number that a run of digits denotes. -/
def digitsValue (ds : Text) : Nat := ds.foldl (fun n c => 10 * n + digitValue c) 0

def readDecimal? (s : Text) : Option Nat :=
  if s.isEmpty || !s.all Char.isDigit then none else some (digitsValue s)

/-- `n` in at least `width` digits, zeros in front. -/
def padded (width n : Nat) : Text := List.replicate (width - (decimal n).length) '0' ++ decimal n

def hexValue? (c : Char) : Option Nat :=
  if c.isDigit then some (c.toNat - '0'.toNat)
  else if 'a' ≤ c && c ≤ 'f' then some (c.toNat - 'a'.toNat + 10)
  else if 'A' ≤ c && c ≤ 'F' then some (c.toNat - 'A'.toNat + 10)
  else none

theorem isDigit_decimal (n : Nat) : ∀ c ∈ decimal n, c.isDigit = true :=
  fun _ h => Nat.isDigit_of_mem_toDigits (by decide) (by decide) h

theorem decimal_ne_nil (n : Nat) : decimal n ≠ [] := by
  unfold decimal
  have := Nat.length_toDigits_pos (b := 10) (n := n)
  intro h
  simp [h] at this

end ExportQuery.Text
