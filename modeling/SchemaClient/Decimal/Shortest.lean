/-
SchemaClient.Decimal.Shortest — shortest decimals.

A finite binary64 number is `m * 2^q` for a natural `m` and an integer `q`. Every real number in a
small interval around it rounds back to it, and the ends belong to that interval exactly when `m`
is even. Among the decimals in the interval the printer wants the ones with the fewest digits and,
of those, the one nearest to the number itself.

Counting digits is not needed to find it. All numbers of the interval have the same magnitude, so
the fewest digits belong to the *coarsest* grid `10^k` with a point in the interval, and if a grid
has a point there, so has one of the two neighbours of the number on that grid.
-/

namespace SchemaClient

/-- A finite binary64 number without its sign: `significand * 2^exponent`. -/
structure Binary where
  significand : Nat
  exponent : Int
  /-- The number below is closer than the number above: `significand` is a power of two that opens
  a new range of exponents. -/
  opensRange : Bool
  deriving Repr, DecidableEq

namespace Binary

/-- The leading bit of a significand, which the encoding leaves out. -/
def leadingBit : Nat := 0x10000000000000

/-- The magnitude that the 63 low bits of a finite binary64 number stand for. -/
def ofBits (bits : UInt64) : Binary :=
  let fraction := (bits &&& 0xFFFFFFFFFFFFF).toNat
  let exponent := ((bits >>> 52) &&& 0x7FF).toNat
  if exponent = 0 then ⟨fraction, -1074, false⟩
  else ⟨leadingBit + fraction, (exponent : Int) - 1075, fraction == 0 && exponent != 1⟩

end Binary

/-- `digits * 10^exponent`. -/
structure Decimal where
  digits : Nat
  exponent : Int
  deriving Repr, DecidableEq

namespace Decimal

/-- The point of the grid `10^k` nearest to `b` among those that round back to `b`, if there is
one; of two equally near points the even one. Everything is scaled to naturals: `value / unit` is
`b / 10^k`. -/
def onGrid? (b : Binary) (k : Int) : Option Decimal :=
  let scale := Nat.pow 2 (b.exponent - 2).toNat * Nat.pow 10 (-k).toNat
  let unit := Nat.pow 2 (2 - b.exponent).toNat * Nat.pow 10 k.toNat
  let value := 4 * b.significand * scale
  let low := (4 * b.significand - (if b.opensRange then 1 else 2)) * scale
  let high := (4 * b.significand + 2) * scale
  let inside (point : Nat) : Bool :=
    if b.significand % 2 = 0 then low ≤ point * unit && point * unit ≤ high
    else low < point * unit && point * unit < high
  let below := value / unit
  let above := below + 1
  let toBelow := value - below * unit
  let toAbove := above * unit - value
  match inside below, inside above with
  | false, false => none
  | true, false => some ⟨below, k⟩
  | false, true => some ⟨above, k⟩
  | true, true =>
    if toBelow < toAbove || (toBelow == toAbove && below % 2 == 0) then some ⟨below, k⟩
    else some ⟨above, k⟩

/-- An exponent `k` with `b < 10^k`, at most two too large. -/
def ceiling (b : Binary) : Int :=
  ((b.significand.log2 + 1 : Nat) + b.exponent) * 30103 / 100000 + 1

/-- The shortest decimal that rounds to `b`. Seventeen digits are always enough, so the search over
the grids below `ceiling b` is never empty-handed. -/
def shortest (b : Binary) : Decimal :=
  if b.significand = 0 then ⟨0, 0⟩
  else ((List.range 21).findSome? fun (n : Nat) => onGrid? b (ceiling b - n)).getD ⟨0, 0⟩

example : shortest (.ofBits (0.1 : Float).toBits) = ⟨1, -1⟩ := by decide +kernel
example : shortest (.ofBits (100.0 : Float).toBits) = ⟨1, 2⟩ := by decide +kernel
example : shortest (.ofBits 1) = ⟨5, -324⟩ := by decide +kernel
example : shortest (.ofBits 0x7FEFFFFFFFFFFFFF) = ⟨17976931348623157, 292⟩ := by decide +kernel

end Decimal

end SchemaClient
