/-
SchemaClient.Json.Lexeme — strings and numbers of a JSON text.

A value that is wanted is read in full; one that is not is only skipped, which is more lenient: the
bytes of a skipped string need not be characters, halves of surrogate pairs may stand alone, and a
number may be as large as it likes.
-/
import SchemaClient.Decimal.Reading
import SchemaClient.Json.Basic
import SchemaClient.Json.Reader

namespace SchemaClient

namespace Json

namespace Reader

/-! ## Strings -/

/-- The value of a hexadecimal digit. -/
def hexValue? (b : UInt8) : Option Nat :=
  let n := b.toNat
  if 0x30 ≤ n ∧ n ≤ 0x39 then some (n - 0x30)
  else if 0x41 ≤ n ∧ n ≤ 0x46 then some (n - 0x41 + 10)
  else if 0x61 ≤ n ∧ n ≤ 0x66 then some (n - 0x61 + 10)
  else none

/-- Four hexadecimal digits. All four are taken before any is looked at. -/
def hexFour : Reader Nat := fun text =>
  match text with
  | a :: b :: c :: d :: rest =>
    match hexValue? a, hexValue? b, hexValue? c, hexValue? d with
    | some a, some b, some c, some d => .ok (((a * 16 + b) * 16 + c) * 16 + d, rest)
    | _, _, _, _ => failHere .escapeInvalid rest
  | _ => failHere .endInString []

def isLeading (unit : Nat) : Bool := 0xD800 ≤ unit && unit ≤ 0xDBFF

def isTrailing (unit : Nat) : Bool := 0xDC00 ≤ unit && unit ≤ 0xDFFF

/-- The byte that the second half of a surrogate pair has to go on with. -/
def pairByte (expected : Char) : Reader Unit := do
  match ← next? with
  | none => failHere .endInString
  | some b => if b = byte expected then pure () else failHere .escapeCutShort

/-- The second half of a surrogate pair, escaped like the first. -/
def secondUnit (first : Nat) : Reader Char := do
  pairByte '\\'
  pairByte 'u'
  let second ← hexFour
  if isTrailing second then
    pure (Char.ofNat ((first - 0xD800) * 0x400 + (second - 0xDC00) + 0x10000))
  else failHere .surrogateAlone

/-- The character that a one-letter escape stands for. -/
def shortEscape? (b : UInt8) : Option Char :=
  [('"', '"'), ('\\', '\\'), ('/', '/'), ('b', '\x08'), ('f', '\x0c'), ('n', '\n'), ('r', '\r'),
    ('t', '\t')].findSome? fun (letter, c) => if b = byte letter then some c else none

/-- The character of an escape whose backslash has been read. -/
def escaped : Reader Char := do
  match ← next? with
  | none => failHere .endInString
  | some b =>
    match shortEscape? b with
    | some c => pure c
    | none =>
      if b = byte 'u' then
        let unit ← hexFour
        if isTrailing unit then failHere .surrogateAlone
        else if isLeading unit then secondUnit unit
        else pure (Char.ofNat unit)
      else failHere .escapeInvalid

/-- What has been read of a string: its characters, last first, and how many bytes lay past the
first byte that is no part of a character, if there was one. -/
structure Draft where
  reversed : List Char := []
  broken : Option Nat := none

/-- Read one character of a string, or its closing quote. Bytes that are no characters are reported
at the closing quote only. -/
def stringStep (draft : Draft) : Reader (Turn Draft String) := do
  match ← next? with
  | none => failHere .endInString
  | some b =>
    if b = byte '"' then
      match draft.broken with
      | none => pure (.done (String.ofList draft.reversed.reverse))
      | some left => throw { cause := .codePointInvalid, left := left }
    else if b = byte '\\' then
      let c ← escaped
      pure (.again { draft with reversed := c :: draft.reversed })
    else if b < 0x20 then failHere .controlCharacter
    else
      let rest ← get
      let head := Utf8.head b rest
      set head.rest
      let broken := if head.isChar then draft.broken else some (draft.broken.getD rest.length)
      pure (.again { reversed := head.shown :: draft.reversed, broken := broken })

/-- A string whose opening quote has been read. -/
def string : Reader String := loop stringStep {}

/-- Skip one byte or one escape of a string, or its closing quote. -/
def skipStringStep (_ : Unit) : Reader (Turn Unit Unit) := do
  match ← peek? with
  | none => failHere .endInString
  | some b =>
    if b < 0x20 then failHere .controlCharacter
    skip
    if b = byte '"' then pure (.done ())
    else if b = byte '\\' then
      match ← next? with
      | none => failHere .endInString
      | some b =>
        if b = byte 'u' then let _ ← hexFour; pure (.again ())
        else if (shortEscape? b).isSome then pure (.again ())
        else failHere .escapeInvalid
    else pure (.again ())

/-- Skip a string whose opening quote has been read. -/
def skipString : Reader Unit := loop skipStringStep ()

/-! ## Numbers -/

def isDigit (b : UInt8) : Bool := 0x30 ≤ b && b ≤ 0x39

def digitValue (b : UInt8) : Nat := b.toNat - 0x30

def isExponentMark (b : UInt8) : Bool := b == byte 'e' || b == byte 'E'

/-- Digits collected into a significand of 64 bits: how many of them were kept, and how many came
once the next one would not fit. -/
structure Significand where
  value : Nat
  kept : Nat := 0
  dropped : Nat := 0

/-- Take one more digit, or drop it if one was dropped before or it does not fit. -/
def Significand.push (s : Significand) (digit : UInt8) : Significand :=
  if s.dropped = 0 ∧ s.value * 10 + digitValue digit < UInt64.size then
    ⟨s.value * 10 + digitValue digit, s.kept + 1, 0⟩
  else { s with dropped := s.dropped + 1 }

/-- The greatest exponent that is read; past it a number is either zero or out of range. -/
def greatestExponent : Nat := UInt32.size / 2 - 1

/-- One more digit of an exponent; `none` is an exponent past the greatest one. -/
def exponentStep (value : Nat) : Reader (Turn Nat (Option Nat)) := do
  match ← peek? with
  | none => pure (.done (some value))
  | some b =>
    if isDigit b then
      skip
      let value := value * 10 + digitValue b
      pure (if value ≤ greatestExponent then .again value else .done none)
    else pure (.done (some value))

/-- The number with the sign, significand and decimal exponent, unless it is too large. -/
def realNumber (negative : Bool) (significand : Nat) (exponent : Int) : Reader Number :=
  match Decimal.scaled significand exponent with
  | none => failHere .numberOutOfRange
  | some x => pure (.float (if negative then -x else x))

/-- The number after its exponent mark. -/
def exponentPart (negative : Bool) (significand : Nat) (exponent : Int) : Reader Number := do
  let sign ← peek?
  if sign = some (byte '+') ∨ sign = some (byte '-') then skip
  match ← next? with
  | none => failHere .endInValue
  | some b =>
    if ¬ isDigit b then failHere .numberInvalid
    else
      match ← loop exponentStep (digitValue b) with
      | some written =>
        realNumber negative significand
          (if sign = some (byte '-') then exponent - written else exponent + written)
      | none =>
        if significand ≠ 0 ∧ sign ≠ some (byte '-') then failHere .numberOutOfRange
        else
          let _ ← takeWhile isDigit
          pure (.float (if negative then -0.0 else 0.0))

/-- The number after its point; `exponent` counts the digits dropped before it. -/
def fractionPart (negative : Bool) (significand exponent : Nat) : Reader Number := do
  let digits ← takeWhile isDigit
  let after ← peek?
  if digits.isEmpty then
    failPast (if after.isSome then .numberInvalid else .endInValue)
  else
    let s := digits.foldl Significand.push { value := significand }
    let exponent : Int := exponent - s.kept
    if after.any isExponentMark then do skip; exponentPart negative s.value exponent
    else realNumber negative s.value exponent

/-- The number that consists of its integer digits only. Minus zero is not an integer. -/
def wholeNumber (negative : Bool) (s : Significand) : Reader Number :=
  if s.dropped ≠ 0 then realNumber negative s.value s.dropped
  else if ¬ negative then pure (.int s.value)
  else if s.value = 0 ∨ UInt64.size / 2 < s.value then pure (.float (-(Float.ofNat s.value)))
  else pure (.int (-(s.value : Int)))

/-- A number whose sign has been read. -/
def number (negative : Bool) : Reader Number := do
  match ← next? with
  | none => failHere .endInValue
  | some first =>
    if ¬ isDigit first then failHere .numberInvalid
    else
      let more ← if first = byte '0' then pure [] else takeWhile isDigit
      let after ← peek?
      if after.any isDigit then failPast .numberInvalid
      else
        let s := more.foldl Significand.push { value := digitValue first }
        if after = some (byte '.') then do skip; fractionPart negative s.value s.dropped
        else if after.any isExponentMark then do skip; exponentPart negative s.value s.dropped
        else wholeNumber negative s

/-- Skip an exponent, if there is one. -/
def skipExponent : Reader Unit := do
  let mark ← peek?
  if mark.any isExponentMark then
    skip
    let sign ← peek?
    if sign = some (byte '+') ∨ sign = some (byte '-') then skip
    let digit ← next?
    if digit.any isDigit then let _ ← takeWhile isDigit else failHere .numberInvalid

/-- Skip a number whose sign has been read. -/
def skipNumber : Reader Unit := do
  let first ← next?
  if ¬ first.any isDigit then failHere .numberInvalid
  if first ≠ some (byte '0') then let _ ← takeWhile isDigit
  let after ← peek?
  if after.any isDigit then failPast .numberInvalid
  if after = some (byte '.') then
    skip
    let digits ← takeWhile isDigit
    if digits.isEmpty then failPast .numberInvalid
  skipExponent

end Reader

end Json

end SchemaClient
