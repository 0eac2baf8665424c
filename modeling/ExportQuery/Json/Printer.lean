/-
  ExportQuery.Json.Printer — values as compact JSON text.

  No blanks; members in their order. In strings the quote, the backslash and the control
  characters below U+0020 are escaped, all else stands as it is. Doubles are written by the
  shortest digits that read back: with a point and at least one digit after it while the power
  of the first digit is between -5 and 15, with a signed exponent otherwise.
-/

import ExportQuery.Json.Value
import ExportQuery.Decimal.Shortest

namespace ExportQuery.Json

open ExportQuery.Text ExportQuery.Decimal

/-! ## Numbers -/

/-- The powers of the first digit at which a double is written without an exponent. -/
def plainPowers : Int × Int := (-5, 15)

def zeros (n : Nat) : Text := List.replicate n '0'

/-- The digits with a point before `digits · 10^power`'s fraction. -/
def plain (digits : Text) (power : Int) : Text :=
  if 0 ≤ power then digits ++ zeros power.toNat ++ ".0".toList
  else
    let places := (-power).toNat
    if places < digits.length then
      digits.take (digits.length - places) ++ '.' :: digits.drop (digits.length - places)
    else "0.".toList ++ zeros (places - digits.length) ++ digits

/-- The digits with a point after the first, and the exponent. -/
def scientific (digits : Text) (exponent : Int) : Text :=
  let mantissa := match digits with
    | [] => []
    | [d] => [d]
    | d :: more => d :: '.' :: more
  mantissa ++ 'e' :: (if 0 ≤ exponent then '+' else '-') :: decimal exponent.natAbs

def magnitudeText (f : Magnitude) : Text :=
  if f.isZero then "0.0".toList
  else
    let x := f.shortest
    let digits := decimal x.digits
    let leading := x.power + (digits.length : Int) - 1
    if plainPowers.1 ≤ leading ∧ leading ≤ plainPowers.2 then plain digits x.power else scientific digits leading

def Number.text : Number → Text
  | .integer n => if n < 0 then '-' :: decimal n.natAbs else decimal n.natAbs
  | .double x => (if x.negative then ['-'] else []) ++ magnitudeText x.magnitude

/-! ## Strings -/

def hexDigit (n : Nat) : Char := if n < 10 then Char.ofNat ('0'.toNat + n) else Char.ofNat ('a'.toNat + (n - 10))

def escape (c : Char) : Text :=
  match c with
  | '"' => ['\\', '"']
  | '\\' => ['\\', '\\']
  | '\x08' => ['\\', 'b']
  | '\x0c' => ['\\', 'f']
  | '\n' => ['\\', 'n']
  | '\r' => ['\\', 'r']
  | '\t' => ['\\', 't']
  | c => if c.toNat < 0x20 then "\\u00".toList ++ [hexDigit (c.toNat / 16), hexDigit (c.toNat % 16)] else [c]

def quoted (s : Text) : Text := '"' :: s.flatMap escape ++ ['"']

/-! ## Values -/

mutual

def Value.text : Value → Text
  | .null => "null".toList
  | .bool b => if b then "true".toList else "false".toList
  | .number n => n.text
  | .string s => quoted s
  | .array items => '[' :: itemsText items ++ [']']
  | .object members => '\x7b' :: membersText members ++ ['\x7d']

def itemsText : List Value → Text
  | [] => []
  | [v] => v.text
  | v :: more => v.text ++ ',' :: itemsText more

def membersText : List (Text × Value) → Text
  | [] => []
  | [(name, v)] => quoted name ++ ':' :: v.text
  | (name, v) :: more => quoted name ++ ':' :: v.text ++ ',' :: membersText more

end

end ExportQuery.Json
