/-
SchemaClient.Url.Domain — domain names.

A domain name is compared without regard to case and written in ASCII. Letters become small, wide
forms become plain ones, ideographic full stops become points and characters without a look of their
own vanish; then each label that is not ASCII is written with `xn--` in front of its ASCII form.
Spaces, control characters and the marks that separate the parts of a URL are in no domain name.
-/
import SchemaClient.Text.LetterCase
import SchemaClient.Text.Parts
import SchemaClient.Text.Utf8
import SchemaClient.Url.Punycode

namespace SchemaClient

namespace Domain

/-- What a label begins with that is the ASCII form of another one. -/
def asciiMark : List Char := ['x', 'n', '-', '-']

/-- Ranges of characters outside ASCII that no domain name has. -/
def excludedRanges : List (Nat × Nat) :=
  [(0x80, 0xA0), (0xA8, 0xA8), (0xAF, 0xAF), (0xB4, 0xB4), (0xB8, 0xB8), (0x2D8, 0x2DD),
    (0x37A, 0x37A), (0x384, 0x385), (0x61C, 0x61C), (0x1680, 0x1680), (0x180E, 0x180E),
    (0x2000, 0x200A), (0x200C, 0x200F), (0x2017, 0x2017), (0x2024, 0x2026), (0x2028, 0x202F),
    (0x203C, 0x203C), (0x203E, 0x203E), (0x2047, 0x2049), (0x205F, 0x205F), (0x2061, 0x2063),
    (0x2065, 0x206F), (0x2FF0, 0x2FFF), (0x3000, 0x3000), (0xD800, 0xF8FF), (0xFDD0, 0xFDEF),
    (0xFFF0, 0xFFFF), (0xE0000, 0xE00FF), (0xE01F0, 0x10FFFF)]

/-- Ranges of characters that vanish from a domain name. -/
def vanishingRanges : List (Nat × Nat) :=
  [(0xAD, 0xAD), (0x34F, 0x34F), (0x180B, 0x180D), (0x180F, 0x180F), (0x200B, 0x200B),
    (0x2060, 0x2060), (0x2064, 0x2064), (0xFE00, 0xFE0F), (0xFEFF, 0xFEFF), (0xE0100, 0xE01EF)]

def isIn (ranges : List (Nat × Nat)) (c : Char) : Bool :=
  ranges.any fun (first, last) => first ≤ c.toNat && c.toNat ≤ last

/-- The plain form of a wide character. -/
def narrowed (c : Char) : Char :=
  if 0xFF01 ≤ c.toNat ∧ c.toNat ≤ 0xFF5E then Char.ofNat (c.toNat - 0xFEE0) else c

/-- What a character of a domain name becomes; `none` if no domain name has it. -/
def folded (c : Char) : Option (List Char) :=
  if isIn vanishingRanges c then some []
  else if isIn excludedRanges c then none
  else if c = '。' ∨ c = '｡' then some ['.']
  else some [smallLetter (narrowed c)]

def isAscii (c : Char) : Bool := c.toNat < 0x80

/-- The ASCII characters that no domain name has. -/
def isForbidden (c : Char) : Bool :=
  c ≤ ' ' || c == '\x7f' ||
    c ∈ ['#', '%', '/', ':', '<', '>', '?', '@', '[', '\\', ']', '^', '|']

/-- A label in ASCII. A label that already is the ASCII form of another one has to be that of a
label which is not ASCII and has no character that would become another. -/
def label? (label : List Char) : Option (List Char) :=
  if asciiMark.isPrefixOf label then
    match Punycode.decode? (label.drop asciiMark.length) with
    | some hidden =>
      if !hidden.all isAscii && hidden.all (fun c => folded c == some [c]) then some label else none
    | none => none
  else if label.all isAscii then some label
  else some (asciiMark ++ Punycode.encode label)

/-- The domain name that bytes are, in ASCII. -/
def ofBytes? (bytes : Bytes) : Option (List Char) := do
  let text ← Utf8.decode? bytes
  let folded ← text.toList.mapM folded
  let labels ← (partsAt (· == '.') folded.flatten).mapM label?
  let name := List.intercalate ['.'] labels
  if name.any isForbidden then none else some name

end Domain

end SchemaClient
