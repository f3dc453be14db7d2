/-
SchemaClient.Decimal.Reading — numbers from their decimal digits.

A decimal `digits * 10^exponent` can be read in two ways. `Decimal.scaled` takes one binary64
multiplication or division by a power of ten, which is what JSON texts are read with: fast, and off
by one unit now and then. `Decimal.rounded` gives the nearest number, which is what configuration
files are read with.
-/

namespace SchemaClient

namespace Decimal

/-- The greatest power of ten that is a finite number. -/
def greatestPower : Nat := 308

/-- The binary64 number nearest to `10^n`. -/
def powerOfTen (n : Nat) : Float := Float.ofScientific 1 false n

/-- `x / 10^308`, `times` times, as long as something is left of it. -/
def lowered : (times : Nat) → (x : Float) → Float
  | 0, x => x
  | times + 1, x => if x == 0.0 then x else lowered times (x / powerOfTen greatestPower)

/-- `digits * 10^exponent` by one multiplication or division; exponents below the smallest power of
ten divide by that power first. `none` if the number is too large. A significand has at most 20
digits, so nothing is left of it after three divisions and the count of divisions needs no more. -/
def scaled (digits : Nat) (exponent : Int) : Option Float :=
  let x := Float.ofNat digits
  if 0 ≤ exponent then
    if exponent.toNat ≤ greatestPower then
      let y := x * powerOfTen exponent.toNat
      if y.isInf then none else some y
    else if x == 0.0 then some x else none
  else
    let depth := exponent.natAbs
    let times := (depth - 1) / greatestPower
    let y := lowered (min times 4) x
    if y == 0.0 then some y else some (y / powerOfTen (depth - times * greatestPower))

/-- No number but zero is as small as `10^-400`, and none as great as `10^400` is finite. -/
def remote : Nat := 400

/-- The number nearest to `digits * 10^exponent`; too large a number is infinite. Exponents that
leave no choice are not worked out. -/
def rounded (digits : Nat) (exponent : Int) : Float :=
  if digits = 0 ∨ exponent + digits.log2 < -(remote : Int) then 0.0
  else if remote < exponent then 1.0 / 0.0
  else Float.ofScientific digits (exponent < 0) exponent.natAbs

end Decimal

end SchemaClient
