/-
SchemaClient.Url.Punycode — domain labels in ASCII.

A label that is not ASCII is written with its ASCII characters first, then a hyphen if there were
any, then for each other character, in ascending order, how far it is from the one before: the
distance counts the places at which each smaller code point could have been put in. A distance is a
number in base 36 whose digits have thresholds, which adapt to the size of the distances seen so far.
-/
import SchemaClient.Text.Reading

namespace SchemaClient

namespace Punycode

/-- The threshold of the digit at a place, between one and 26. -/
def threshold (bias place : Nat) : Nat := max 1 (min 26 (36 * (place + 1) - bias))

/-- Divide a distance down until it is small; the number of divisions comes with it. -/
def scaleDown (distance : Nat) : Nat × Nat :=
  if 455 < distance then
    let (least, divisions) := scaleDown (distance / 35)
    (least, divisions + 1)
  else (distance, 0)
termination_by distance

/-- The bias after a distance has been read or written; `count` characters have been placed. -/
def adapt (distance count : Nat) (isFirst : Bool) : Nat :=
  let halved := if isFirst then distance / 700 else distance / 2
  let (least, divisions) := scaleDown (halved + halved / count)
  36 * divisions + 36 * least / (least + 38)

/-- Where the next character goes: the distances so far are summed up in `bias`, and `count`
characters have been placed, of which `basic` are ASCII. -/
structure Progress where
  bias : Nat := 72
  count : Nat
  isFirst : Bool := true

/-- The progress after one more distance. -/
def Progress.next (p : Progress) (distance : Nat) : Progress :=
  ⟨adapt distance (p.count + 1) p.isFirst, p.count + 1, false⟩

/-! ## Writing -/

def digitOf (value : Nat) : Char :=
  if value < 26 then Char.ofNat ('a'.toNat + value) else Char.ofNat ('0'.toNat + value - 26)

/-- The digits of a distance from a place on. -/
def distanceDigits (bias place distance : Nat) : List Char :=
  let t := threshold bias place
  if distance < t then [digitOf distance]
  else digitOf (t + (distance - t) % (36 - t)) ::
    distanceDigits bias (place + 1) ((distance - t) / (36 - t))
termination_by distance
decreasing_by
  have h : 1 ≤ threshold bias place := Nat.le_max_left ..
  exact Nat.lt_of_le_of_lt (Nat.div_le_self ..) (by omega)

/-- Write the distance to each place of one code point in a label; `distance` is how far the last
character put in is already left behind. -/
def writePlaces (codePoint : Nat) :
    (label : List Nat) → (distance : Nat) → Progress → List Char × Nat × Progress
  | [], distance, p => ([], distance, p)
  | c :: rest, distance, p =>
    if c < codePoint then writePlaces codePoint rest (distance + 1) p
    else if c = codePoint then
      let (digits, after) := writePlaces codePoint rest 0 (p.next distance)
      (distanceDigits p.bias 0 distance ++ digits, after)
    else writePlaces codePoint rest distance p

/-- Write the places of code points in ascending order, the last one written being before `from`. -/
def writeAll (label : List Nat) :
    (codePoints : List Nat) → (start distance : Nat) → Progress → List Char
  | [], _, _, _ => []
  | codePoint :: rest, start, distance, p =>
    let passed := (codePoint - start) * (p.count + 1)
    let (digits, distance, p) := writePlaces codePoint label (distance + passed) p
    digits ++ writeAll label rest (codePoint + 1) (distance + 1) p

/-- The ASCII form of a label. -/
def encode (label : List Char) : List Char :=
  let basic := label.filter (·.toNat < 0x80)
  let codePoints := label.map Char.toNat
  let others := (codePoints.filter (0x80 ≤ ·)).eraseDups.mergeSort
  basic ++ (if basic.isEmpty then [] else ['-']) ++
    writeAll codePoints others 0x80 0 { count := basic.length }

/-! ## Reading -/

def valueOf? (c : Char) : Option Nat :=
  if c.isDigit then some (c.toNat - '0'.toNat + 26)
  else if c.isAlpha then some (c.toLower.toNat - 'a'.toNat)
  else none

/-- Read a distance: its value and the rest of the text. -/
def readDistance (bias : Nat) : (place weight : Nat) → List Char → Option (Nat × List Char)
  | _, _, [] => none
  | place, weight, c :: rest => do
    let value ← valueOf? c
    let t := threshold bias place
    if value < t then some (value * weight, rest)
    else
      let (more, rest) ← readDistance bias (place + 1) (weight * (36 - t)) rest
      some (value * weight + more, rest)

/-- Put characters into a label, distance by distance. Each distance takes at least one digit, so
there are no more of them than `fuel` if that is the length of the text. -/
def readAll (fuel : Nat) (codePoint place : Nat) (p : Progress) (label text : List Char) :
    Option (List Char) :=
  match fuel, text with
  | _, [] => some label
  | 0, _ => none
  | fuel + 1, text => do
    let (distance, rest) ← readDistance p.bias 0 1 text
    let slots := p.count + 1
    let codePoint := codePoint + (place + distance) / slots
    let place := (place + distance) % slots
    if codePoint.isValidChar then
      readAll fuel codePoint (place + 1) (p.next distance)
        (label.insertIdx place (Char.ofNat codePoint)) rest
    else none

/-- The label that an ASCII form stands for. -/
def decode? (text : List Char) : Option (List Char) :=
  let digits := (text.reverse.takeWhile (· != '-')).reverse
  let basic := (text.take (text.length - digits.length)).dropLast
  readAll digits.length 0x80 0 { count := basic.length } basic digits

example : encode ['b', 'ü', 'c', 'h', 'e', 'r'] = "bcher-kva".toList := by cbv
example : decode? "bcher-kva".toList = some ['b', 'ü', 'c', 'h', 'e', 'r'] := by cbv
example : encode ['例', 'え'] = "r8jz45g".toList := by cbv

end Punycode

end SchemaClient
