/-
SchemaClient.Url.Address — hosts that are numbers.

* `Ipv4` — an address of 32 bits, written as up to four numbers between points. The last of them
  fills the bytes that the others leave. A number may be hexadecimal after `0x`, or octal after `0`.
* `Ipv6` — an address of eight pieces of 16 bits, written between colons. Two colons in a row
  stand for as many zero pieces as are missing, and the last two pieces may be written as a version 4
  address.
-/
import SchemaClient.Decimal.Notation
import SchemaClient.Text.Parts
import SchemaClient.Text.Reading

namespace SchemaClient

namespace Url

/-! ## Version 4 -/

namespace Ipv4

/-- The number that a part of an address is. -/
def number? (part : List Char) : Option Nat :=
  match part with
  | '0' :: x :: rest =>
    if x = 'x' ∨ x = 'X' then if rest.isEmpty then some 0 else numberIn? 16 rest
    else numberIn? 8 (x :: rest)
  | digits => numberIn? 10 digits

/-- The parts of a host without the empty one behind a final point. -/
def parts (host : List Char) : List (List Char) :=
  let all := partsAt (· == '.') host
  if 1 < all.length ∧ all.getLast? = some [] then all.dropLast else all

/-- Whether a host has to be an address: its last part is a number, or consists of digits. -/
def isMeant (host : List Char) : Bool :=
  match (parts host).getLast? with
  | some last => (number? last).isSome || (!last.isEmpty && last.all Char.isDigit)
  | none => false

/-- The address of a host, as a number. -/
def ofHost? (host : List Char) : Option Nat := do
  let numbers ← (parts host).mapM number?
  let last ← numbers.getLast?
  let leading := numbers.dropLast
  if leading.length < 4 ∧ leading.all (· < 256) ∧ last < Nat.pow 256 (4 - leading.length) then
    some (leading.foldl (fun n byte => n * 256 + byte) 0 * Nat.pow 256 (4 - leading.length) + last)
  else none

/-- An address as four bytes between points. -/
def text (address : Nat) : List Char :=
  let byte (place : Nat) : List Char := digitsOf (address / Nat.pow 256 place % 256)
  byte 3 ++ '.' :: byte 2 ++ '.' :: byte 1 ++ '.' :: byte 0

example : ofHost? "0x7f.1".toList = some 2130706433 := by decide +kernel
example : text 2130706433 = "127.0.0.1".toList := by decide +kernel
example : ofHost? "256.1.1.1".toList = none := by decide +kernel

end Ipv4

/-! ## Version 6 -/

namespace Ipv6

/-- A byte in decimal, without leading zeros. -/
def byte? (digits : List Char) : Option Nat :=
  if digits.head? = some '0' ∧ 1 < digits.length then none
  else (numberIn? 10 digits).filter (· < 256)

/-- The pieces that the part of an address between two colons stands for; only the last part may be
a version 4 address. -/
def pieces? (isLast : Bool) (part : List Char) : Option (List Nat) :=
  if part.contains '.' then
    match isLast, (partsAt (· == '.') part).mapM byte? with
    | true, some [a, b, c, d] => some [a * 256 + b, c * 256 + d]
    | _, _ => none
  else if part.length ≤ 4 then (numberIn? 16 part).map ([·]) else none

/-- The pieces of parts that stand between colons; `final` if the address ends with them. -/
def all? (final : Bool) : List (List Char) → Option (List Nat)
  | [] => some []
  | [last] => pieces? final last
  | part :: rest => do some ((← pieces? false part) ++ (← all? final rest))

/-- The pieces of a text between colons; an empty text has none. -/
def run? (final : Bool) (text : List Char) : Option (List Nat) :=
  if text.isEmpty then some [] else all? final (partsAt (· == ':') text)

/-- A text before and after its first two colons in a row. -/
def atGap? : List Char → Option (List Char × List Char)
  | ':' :: ':' :: rest => some ([], rest)
  | c :: rest => (atGap? rest).map fun (before, after) => (c :: before, after)
  | [] => none

/-- The eight pieces of an address. -/
def ofText? (text : List Char) : Option (List Nat) :=
  match atGap? text with
  | some (before, after) => do
    let front ← run? false before
    let back ← run? true after
    if front.length + back.length < 8 then
      some (front ++ List.replicate (8 - front.length - back.length) 0 ++ back)
    else none
  | none => (all? true (partsAt (· == ':') text)).filter (·.length == 8)

/-- How many of the first pieces are zero. -/
def zeros (pieces : List Nat) : Nat := (pieces.takeWhile (· == 0)).length

/-- Where the longest run of zero pieces begins and how long it is; the first of equal ones. -/
def longestGap (pieces : List Nat) : Nat × Nat :=
  (List.range pieces.length).foldl (fun best start =>
    let length := zeros (pieces.drop start)
    if best.2 < length then (start, length) else best) (0, 0)

def hexText (piece : Nat) : List Char := Nat.toDigits 16 piece

/-- Pieces between colons. -/
def joined (pieces : List Nat) : List Char := List.intercalate [':'] (pieces.map hexText)

/-- An address with two colons for its longest run of at least two zero pieces. -/
def text (pieces : List Nat) : List Char :=
  let (start, length) := longestGap pieces
  if length < 2 then joined pieces
  else joined (pieces.take start) ++ [':', ':'] ++ joined (pieces.drop (start + length))

example : ofText? "::1".toList = some [0, 0, 0, 0, 0, 0, 0, 1] := by decide +kernel
example : (ofText? "1:0:0:0:2::192.0.2.1".toList).map text = some "1::2:0:c000:201".toList := by
  decide +kernel

end Ipv6

end Url

end SchemaClient
