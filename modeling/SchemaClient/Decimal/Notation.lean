/-
SchemaClient.Decimal.Notation — how a number is written.

Digits come from `Decimal.shortest`; this module only places the point. Between `10^-5` and `10^16`
a number is written in full with at least one digit after the point, and otherwise as one digit, the
rest of the digits and a signed exponent. `positionalText` writes every number in full.
-/
import SchemaClient.Decimal.Shortest

namespace SchemaClient

/-- The decimal digits of a natural number. -/
def digitsOf (n : Nat) : List Char := Nat.toDigits 10 n

/-- The digits of an integer after its sign. -/
def integerText (n : Int) : List Char :=
  if n < 0 then '-' :: digitsOf n.natAbs else digitsOf n.natAbs

namespace Decimal

/-- The smallest decimal exponent that is written in full. -/
def leastPlain : Int := -5

/-- The greatest decimal exponent that is written in full. -/
def greatestPlain : Int := 15

/-- `d.ddde±x`, without the point when there is one digit only. -/
def scientific (digits : List Char) (exponent : Int) : List Char :=
  let mantissa := match digits with
    | first :: second :: rest => first :: '.' :: second :: rest
    | short => short
  mantissa ++ 'e' :: (if exponent < 0 then '-' else '+') :: digitsOf exponent.natAbs

/-- The digits in full: zeros fill the gap to the point on either side. -/
def plain (digits : List Char) (exponent : Int) : List Char :=
  let whole := exponent + 1
  if whole ≤ 0 then
    '0' :: '.' :: (List.replicate (-whole).toNat '0' ++ digits)
  else
    let count := whole.toNat
    let fraction := digits.drop count
    (digits ++ List.replicate (count - digits.length) '0').take count ++
      '.' :: (if fraction.isEmpty then ['0'] else fraction)

/-- The exponent of the first digit. -/
def leading (d : Decimal) : Int := d.exponent + (digitsOf d.digits).length - 1

/-- The decimal with all its digits around the point. -/
def positional (d : Decimal) : List Char :=
  if d.digits = 0 then ['0', '.', '0'] else plain (digitsOf d.digits) d.leading

/-- The written form of a decimal. -/
def text (d : Decimal) : List Char :=
  if d.digits = 0 ∨ (leastPlain ≤ d.leading ∧ d.leading ≤ greatestPlain) then d.positional
  else scientific (digitsOf d.digits) d.leading

end Decimal

/-- A minus sign in front of the text of a negative number. -/
def signed (x : Float) (magnitude : List Char) : List Char :=
  if x.toBits >>> 63 == 1 then '-' :: magnitude else magnitude

/-- The written form of a finite number. -/
def floatText (x : Float) : List Char := signed x (Decimal.shortest (.ofBits x.toBits)).text

/-- A number with all its digits around the point, however many they are. -/
def positionalText (x : Float) : List Char :=
  if x.isNaN then ['N', 'a', 'N']
  else if x.isInf then signed x ['i', 'n', 'f']
  else signed x (Decimal.shortest (.ofBits x.toBits)).positional

example : floatText 1.0 = ['1', '.', '0'] := by decide +kernel
example : floatText (-0.0) = ['-', '0', '.', '0'] := by decide +kernel
example : floatText 1e16 = ['1', 'e', '+', '1', '6'] := by decide +kernel
example : floatText 0.00001 = ['0', '.', '0', '0', '0', '0', '1'] := by decide +kernel
example : floatText 1.5e-7 = ['1', '.', '5', 'e', '-', '7'] := by decide +kernel
example : positionalText 1.5e-7 = "0.00000015".toList := by decide +kernel

end SchemaClient
