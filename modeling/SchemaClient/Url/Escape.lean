/-
SchemaClient.Url.Escape — escapes in URLs.

A byte that may not stand in a URL is written as a percent sign and two upper-case hexadecimal
digits. Which characters may stand as they are depends on the place: `pathKeeps` says it for
the segments of a path, `queryText` writes the texts of a query, where a space becomes a plus sign.
-/
import SchemaClient.Text.Reading
import SchemaClient.Text.Utf8

namespace SchemaClient

namespace Url

/-- An upper-case hexadecimal digit. -/
def upperHex (n : Nat) : Char := (Nat.digitChar (n % 16)).toUpper

/-- A byte as a percent sign and two digits. -/
def escape (byte : UInt8) : List Char := ['%', upperHex (byte.toNat / 16), upperHex byte.toNat]

/-- A text with the bytes of all characters escaped that are not kept. -/
def escaped (keeps : Char → Bool) (text : List Char) : List Char :=
  text.flatMap fun c => if keeps c then [c] else (Utf8.encode c.toString).flatMap escape

/-- The byte of the escape that a character and the rest of a text begin with. -/
def escape? (c : Char) (rest : List Char) : Option UInt8 :=
  match rest with
  | a :: b :: _ =>
    if c = '%' then do some ((← hexValue? a) * 16 + (← hexValue? b)).toUInt8 else none
  | _ => none

/-- The bytes of a text; an escape is the byte that it stands for. -/
def unescaped (text : List Char) : Bytes :=
  match text with
  | [] => []
  | c :: rest =>
    match escape? c rest with
    | some byte => byte :: unescaped (rest.drop 2)
    | none => Utf8.encode c.toString ++ unescaped rest
termination_by text.length

/-- The characters that a segment of a path keeps. -/
def pathKeeps (c : Char) : Bool :=
  '\x20' < c && c < '\x7f' && c ∉ ['"', '#', '%', '/', '<', '>', '?', '\\', '\x60', '{', '}']

/-- The characters that a text of a query keeps. -/
def queryKeeps (c : Char) : Bool := c.isAlphanum || c ∈ ['*', '-', '.', '_']

/-- A text of a query. -/
def queryText (text : List Char) : List Char :=
  text.flatMap fun c => if c = ' ' then ['+'] else escaped queryKeeps [c]

end Url

end SchemaClient
