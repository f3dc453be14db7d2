/-
SchemaClient.Yaml.Cursor — reading a YAML text from front to back.

A cursor is the characters that are left and the mark of the first of them. Five characters break
lines; a carriage return and a line feed after it are one break. What the text of a break is depends
on the character: the two of Unicode stay what they are, any other reads as a line feed.

* `Scan` — a computation that takes something off the front of the text, or finds it ill-formed.
* `Gap` — the blanks and breaks between two words, and what they amount to when lines are joined.
-/
import SchemaClient.Text.Reading
import SchemaClient.Yaml.Fault

namespace SchemaClient

namespace Yaml

/-! ## Characters -/

def isSpaceOrTab (c : Char) : Bool := c == ' ' || c == '\t'

def isBreak (c : Char) : Bool :=
  c == '\n' || c == '\r' || c == '\u0085' || c == '\u2028' || c == '\u2029'

/-- Whether a text ends, or goes on with a blank or a break. -/
def endsWord (text : List Char) : Bool := text.head?.all fun c => isSpaceOrTab c || isBreak c

/-- Whether a character may stand in a text: no control characters, except tabs and breaks, and no
noncharacters. -/
def isAllowed (c : Char) : Bool :=
  let n := c.toNat
  n == 0x09 || n == 0x0A || n == 0x0D || (0x20 ≤ n && n ≤ 0x7E) || n == 0x85 ||
    (0xA0 ≤ n && n ≤ 0xFFFD) || 0x10000 ≤ n

/-- Whether a character may stand in the name of an anchor, a handle or a directive. -/
def isNameChar (c : Char) : Bool := c.isAlphanum || c == '_' || c == '-'

/-- The text of a break. -/
def breakText (c : Char) : Char := if c == '\u2028' || c == '\u2029' then c else '\n'

/-- What follows a break, whose first character is `c`. -/
def afterBreak (c : Char) (rest : List Char) : List Char :=
  match c, rest with
  | '\r', '\n' :: rest => rest
  | _, rest => rest

/-- Whether a text begins with a line that marks the start or the end of a document. -/
def beginsWithMarker (text : List Char) : Bool :=
  (['-', '-', '-'].isPrefixOf text || ['.', '.', '.'].isPrefixOf text) && endsWord (text.drop 3)

/-! ## Cursors -/

/-- What is left of a text, the mark of its first character, and how many characters lie before. -/
structure Cursor where
  rest : List Char
  mark : Mark := ⟨0, 0⟩
  index : Nat := 0

/-- Takes an `α` off the front of a text, or finds the text ill-formed. -/
abbrev Scan (α : Type) := StateT Cursor (Except Fault) α

namespace Scan

def fail {α : Type} : Scan α := throw .illFormed

/-- Repeat a step until it is finished. Each repetition has to have read something. -/
def loop {σ α : Type} (step : σ → Scan (Turn σ α)) (state : σ) : Scan α :=
  loopOn (·.rest.length) (fun _ => .illFormed) step state

/-- What is left of the text. -/
def rest : Scan (List Char) := do return (← get).rest

def mark : Scan Mark := do return (← get).mark

/-- Whether what is left begins with a character that fits. -/
def sees (fits : Char → Bool) : Scan Bool := do return (← rest).head?.any fits

/-- Pass over characters of one line. -/
def skip (count : Nat) : Scan Unit :=
  modify fun c => ⟨c.rest.drop count, ⟨c.mark.line, c.mark.column + count⟩, c.index + count⟩

/-- Take the characters of this line up to the first one that does not fit. -/
def takeWhile (fits : Char → Bool) : Scan (List Char) := do
  let taken := (← rest).takeWhile fun c => fits c && !isBreak c
  skip taken.length
  return taken

/-- Take a break. -/
def takeBreak : Scan Char := do
  let cursor ← get
  match cursor.rest with
  | [] => fail
  | c :: rest =>
    let after := afterBreak c rest
    set { cursor with
      rest := after
      mark := ⟨cursor.mark.line + 1, 0⟩
      index := cursor.index + cursor.rest.length - after.length }
    return breakText c

/-- Pass over a comment, if there is one. -/
def skipComment : Scan Unit := do
  if ← sees (· == '#') then let _ ← takeWhile fun _ => true

/-- Pass over what may follow at the end of a line, and over the line's break. -/
def endLine : Scan Unit := do
  let _ ← takeWhile isSpaceOrTab
  skipComment
  if ← sees isBreak then let _ ← takeBreak
  else unless (← rest).isEmpty do fail

end Scan

/-! ## Gaps -/

/-- The blanks before the first break, and the breaks. -/
structure Gap where
  blanks : List Char := []
  breaks : List Char := []

namespace Gap

/-- What a gap amounts to: blanks on one line stay, a single line feed becomes a space, and of
several breaks the first is dropped if it is a line feed. -/
def text (gap : Gap) : List Char :=
  match gap.breaks with
  | [] => gap.blanks
  | ['\n'] => [' ']
  | '\n' :: more => more
  | breaks => breaks

/-- Read one character of a gap. In a line after the first, a tab before the column `indent` is an
error. -/
def step (indent : Nat) (gap : Gap) : Scan (Turn Gap Gap) := do
  if ← Scan.sees isSpaceOrTab then
    if gap.breaks.isEmpty then
      return .again { gap with blanks := gap.blanks ++ (← Scan.takeWhile isSpaceOrTab) }
    else
      if (← Scan.mark).column < indent ∧ (← Scan.sees (· == '\t')) then Scan.fail
      Scan.skip 1
      return .again gap
  else if ← Scan.sees isBreak then
    return .again { gap with breaks := gap.breaks ++ [← Scan.takeBreak] }
  else return .done gap

/-- Read a gap. -/
def read (indent : Nat) : Scan Gap := Scan.loop (step indent) {}

end Gap

end Yaml

end SchemaClient
