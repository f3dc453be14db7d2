/-
SchemaClient.Yaml.Tag — names, tags and directives.

A tag is written in full between angle brackets, or as a handle and a suffix. The handle stands for
what a directive says it begins with; two handles are known from the start.
-/
import SchemaClient.Text.Utf8
import SchemaClient.Yaml.Scalar

namespace SchemaClient

namespace Yaml

/-- A tag as it is written: the handle, empty for a tag in full, and what follows it. -/
structure WrittenTag where
  handle : String
  suffix : String
  deriving DecidableEq, Repr

/-- What a directive line says. -/
inductive Directive where
  | version (major minor : Nat)
  | handle (name stands : String)
  deriving DecidableEq, Repr

/-! ## Names -/

/-- What may follow a name. -/
def endsName (text : List Char) : Bool :=
  endsWord text || text.head?.any fun c => c ∈ ['?', ':', ',', ']', '}', '%', '@', '\x60']

/-- The name of an anchor, whose mark has been read. -/
def anchorName : Scan String := do
  let name ← Scan.takeWhile isNameChar
  if name.isEmpty || !endsName (← Scan.rest) then Scan.fail
  return String.ofList name

/-! ## Tags -/

def isTagChar (c : Char) : Bool :=
  isNameChar c || c ∈ [';', '/', '?', ':', '@', '&', '=', '+', '$', '.', '%', '!', '~', '*', '\'',
    '(', ')']

/-- The byte of an escape in a tag. -/
def escapedByte : Scan UInt8 := do
  match ← Scan.rest with
  | '%' :: a :: b :: _ =>
    match hexValue? a, hexValue? b with
    | some a, some b =>
      Scan.skip 3
      return (a * 16 + b).toUInt8
    | _, _ => Scan.fail
  | _ => Scan.fail

/-- How many bytes a character has whose first byte is given. -/
def utf8Length? (byte : UInt8) : Option Nat :=
  if byte < 0x80 then some 1
  else if byte < 0xC0 then none
  else if byte < 0xE0 then some 2
  else if byte < 0xF0 then some 3
  else if byte < 0xF8 then some 4
  else none

/-- The characters of escapes that follow each other and make up one character. -/
def escapedChar : Scan (List Char) := do
  let first ← escapedByte
  let some length := utf8Length? first | Scan.fail
  let more ← (List.range (length - 1)).mapM fun _ => escapedByte
  unless more.all (fun byte => 0x80 ≤ byte && byte < 0xC0) do Scan.fail
  return (Utf8.lossy (first :: more)).toList

/-- Read a part of a tag. -/
def tagStep (fits : Char → Bool) (read : List Char) : Scan (Turn (List Char) (List Char)) := do
  if ← Scan.sees (· == '%') then return .again (read ++ (← escapedChar))
  let some c := (← Scan.rest).head? | return .done read
  if fits c then
    Scan.skip 1
    return .again (read ++ [c])
  return .done read

/-- The characters of a tag; inside angle brackets and in directives there may be more of them. -/
def tagChars (wide : Bool) : Scan (List Char) :=
  Scan.loop (tagStep fun c => isTagChar c || (wide && c ∈ [',', '[', ']'])) []

/-- A handle: an exclamation mark, a name, and a second exclamation mark if there is one. -/
def tagHandle : Scan (List Char) := do
  unless ← Scan.sees (· == '!') do Scan.fail
  Scan.skip 1
  let name ← Scan.takeWhile isNameChar
  if ← Scan.sees (· == '!') then
    Scan.skip 1
    return '!' :: name ++ ['!']
  return '!' :: name

/-- A tag that is written with a handle or without one. -/
def shortTag : Scan WrittenTag := do
  let handle ← tagHandle
  if 1 < handle.length ∧ handle.getLast? = some '!' then
    let suffix ← tagChars false
    if suffix.isEmpty then Scan.fail
    return ⟨String.ofList handle, String.ofList suffix⟩
  let suffix := handle.drop 1 ++ (← tagChars false)
  if suffix.isEmpty then return ⟨"", "!"⟩
  return ⟨"!", String.ofList suffix⟩

/-- A tag in full. -/
def fullTag : Scan WrittenTag := do
  Scan.skip 2
  let suffix ← tagChars true
  if suffix.isEmpty || !(← Scan.sees (· == '>')) then Scan.fail
  Scan.skip 1
  return ⟨"", String.ofList suffix⟩

/-- A tag; within brackets a comma may follow it directly. -/
def tag (inFlow : Bool) : Scan WrittenTag := do
  let written ← if (← Scan.rest)[1]? = some '<' then fullTag else shortTag
  let rest ← Scan.rest
  unless endsWord rest || (inFlow && rest.head? = some ',') do Scan.fail
  return written

/-! ## Directives -/

/-- A number of at most nine digits. -/
def versionPart : Scan Nat := do
  let digits ← Scan.takeWhile Char.isDigit
  if digits.isEmpty || 9 < digits.length then Scan.fail
  return digits.foldl (fun n c => n * 10 + (c.toNat - '0'.toNat)) 0

def versionDirective : Scan Directive := do
  let major ← versionPart
  unless ← Scan.sees (· == '.') do Scan.fail
  Scan.skip 1
  return .version major (← versionPart)

def handleDirective : Scan Directive := do
  let handle ← tagHandle
  unless handle.getLast? = some '!' do Scan.fail
  unless ← Scan.sees isSpaceOrTab do Scan.fail
  let _ ← Scan.takeWhile isSpaceOrTab
  let stands ← tagChars true
  if stands.isEmpty || !endsWord (← Scan.rest) then Scan.fail
  return .handle (String.ofList handle) (String.ofList stands)

/-- A directive line, whose percent sign has been read. -/
def directive : Scan Directive := do
  let name ← Scan.takeWhile isNameChar
  unless endsWord (← Scan.rest) do Scan.fail
  let _ ← Scan.takeWhile isSpaceOrTab
  let said ← match String.ofList name with
    | "YAML" => versionDirective
    | "TAG" => handleDirective
    | _ => Scan.fail
  Scan.endLine
  return said

/-- What the two handles stand for that are known from the start. -/
def standardHandles : List (String × String) := [("!", "!"), ("!!", "tag:yaml.org,2002:")]

/-- A tag without its handle. -/
def WrittenTag.resolve? (written : WrittenTag) (handles : List (String × String)) :
    Option String :=
  if written.handle.isEmpty then some written.suffix
  else (handles.lookup written.handle).map (· ++ written.suffix)

end Yaml

end SchemaClient
