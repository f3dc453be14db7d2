/-
SchemaClient.Yaml.Scalar — the three ways to write a scalar.

* plain — words without quotation marks; how far they go depends on where the scalar stands.
* quoted — between single or double quotation marks; only the latter know escapes.
* block — the lines below a `|` or a `>` that are indented further than what they belong to.

Lines that a scalar runs over are joined, except in a block of the first kind.
-/
import SchemaClient.Text.Reading
import SchemaClient.Yaml.Cursor

namespace SchemaClient

namespace Yaml

/-- How a scalar is written. -/
inductive Style where
  | plain
  | quoted
  | literal
  | folded
  deriving DecidableEq, Repr

/-! ## Plain scalars -/

def isFlowMark (c : Char) : Bool := c == ',' || c == '[' || c == ']' || c == '{' || c == '}'

/-- One word of a plain scalar and what follows it. It ends before a blank, before a colon that a
blank follows and, within brackets, before a bracket or a comma; there a colon must not be followed
by one of those, nor by a question mark. -/
def plainWord (inFlow : Bool) (text : List Char) : Option (List Char × List Char) :=
  match text with
  | [] => some ([], [])
  | c :: rest =>
    if isSpaceOrTab c || isBreak c then some ([], text)
    else if inFlow && c == ':' && rest.head?.any (fun d => isFlowMark d || d == '?') then none
    else if (c == ':' && endsWord rest) || (inFlow && isFlowMark c) then some ([], text)
    else (plainWord inFlow rest).map fun (word, after) => (c :: word, after)

/-- What has been read of a plain scalar, and the gap after it. -/
structure PlainDraft where
  text : List Char := []
  gap : Gap := {}

/-- Read a word of a plain scalar and the gap after it. -/
def plainStep (inFlow : Bool) (indent : Nat) (draft : PlainDraft) :
    Scan (Turn PlainDraft PlainDraft) := do
  let rest ← Scan.rest
  if (← Scan.mark).column = 0 ∧ beginsWithMarker rest then return .done draft
  if rest.head? = some '#' then return .done draft
  let some (word, _) := plainWord inFlow rest | Scan.fail
  if word.isEmpty then return .done draft
  Scan.skip word.length
  let text := draft.text ++ draft.gap.text ++ word
  let gap ← Gap.read indent
  let ended := gap.blanks.isEmpty && gap.breaks.isEmpty
  if ended || (!inFlow && (← Scan.mark).column < indent) then return .done ⟨text, gap⟩
  return .again ⟨text, gap⟩

/-- A plain scalar, and whether a break follows it. -/
def plainScalar (inFlow : Bool) (indent : Nat) : Scan (String × Bool) := do
  let draft ← Scan.loop (plainStep inFlow indent) {}
  return (String.ofList draft.text, !draft.gap.breaks.isEmpty)

/-! ## Quoted scalars -/

/-- The character of a one-letter escape. -/
def shortEscape? : Char → Option Char
  | '0' => some '\x00'
  | 'a' => some '\x07'
  | 'b' => some '\x08'
  | 't' => some '\t'
  | '\t' => some '\t'
  | 'n' => some '\n'
  | 'v' => some '\x0b'
  | 'f' => some '\x0c'
  | 'r' => some '\r'
  | 'e' => some '\x1b'
  | ' ' => some ' '
  | '"' => some '"'
  | '/' => some '/'
  | '\\' => some '\\'
  | 'N' => some '\u0085'
  | '_' => some '\u00a0'
  | 'L' => some '\u2028'
  | 'P' => some '\u2029'
  | _ => none

/-- How many hexadecimal digits follow an escape. -/
def escapeLength? : Char → Option Nat
  | 'x' => some 2
  | 'u' => some 4
  | 'U' => some 8
  | _ => none

/-- The character with the code point that hexadecimal digits give. -/
def codePoint? (digits : List Char) : Option Char := do
  let value ← numberIn? 16 digits
  if value.isValidChar then some (Char.ofNat value) else none

/-- The character of an escape whose backslash has been read. -/
def escaped : Scan Char := do
  let some letter := (← Scan.rest).head? | Scan.fail
  Scan.skip 1
  match shortEscape? letter, escapeLength? letter with
  | some c, _ => return c
  | none, some length =>
    let digits := (← Scan.rest).take length
    let some c := (if digits.length = length then codePoint? digits else none) | Scan.fail
    Scan.skip length
    return c
  | none, none => Scan.fail

/-- Read a part of a quoted scalar: a character, an escape, a gap, or the closing mark. -/
def quotedStep (double : Bool) (read : List Char) : Scan (Turn (List Char) String) := do
  let quotationMark := if double then '"' else '\''
  let rest ← Scan.rest
  if (← Scan.mark).column = 0 ∧ beginsWithMarker rest then Scan.fail
  match rest with
  | [] => Scan.fail
  | c :: after =>
    if isSpaceOrTab c || isBreak c then
      return .again ((← Gap.read 0).text.reverse ++ read)
    else if c = quotationMark then
      if !double && after.head? = some quotationMark then
        Scan.skip 2
        return .again (quotationMark :: read)
      else
        Scan.skip 1
        return .done (String.ofList read.reverse)
    else
      Scan.skip 1
      if double && c = '\\' then
        if after.head?.any isBreak then
          let _ ← Scan.takeBreak
          return .again ((← Gap.read 0).breaks.reverse ++ read)
        else return .again ((← escaped) :: read)
      else return .again (c :: read)

/-- A quoted scalar whose opening mark has been read. -/
def quotedScalar (double : Bool) : Scan String := Scan.loop (quotedStep double) []

/-! ## Block scalars -/

/-- What becomes of the breaks at the end of a block. -/
inductive Chomping where
  | strip
  | clip
  | keep
  deriving DecidableEq, Repr

/-- The mark for the breaks at the end of a block, if there is one. -/
def chomping? : Scan (Option Chomping) := do
  match (← Scan.rest).head? with
  | some '+' => Scan.skip 1; return some .keep
  | some '-' => Scan.skip 1; return some .strip
  | _ => return none

/-- The digit that gives the indentation of a block, if there is one. -/
def increment? : Scan (Option Nat) := do
  match (← Scan.rest).head? with
  | some c =>
    if c = '0' then Scan.fail
    else if c.isDigit then
      Scan.skip 1
      return some (c.toNat - '0'.toNat)
    else return none
  | none => return none

/-- The two marks after the `|` or `>` of a block, in either order. -/
def blockHeader : Scan (Chomping × Option Nat) := do
  match ← chomping? with
  | some chomping => return (chomping, ← increment?)
  | none =>
    match ← increment? with
    | some increment => return ((← chomping?).getD .clip, some increment)
    | none => return (.clip, none)

/-- What has been read between two lines of a block: the breaks, and the greatest column reached. -/
structure Margin where
  breaks : List Char := []
  greatest : Nat := 0

/-- Read the indentation of a line and, if the line is empty, its break. -/
def marginStep (indent : Option Nat) (margin : Margin) : Scan (Turn Margin Margin) := do
  let column := (← Scan.mark).column
  let spaces := ((← Scan.rest).takeWhile (· == ' ')).length
  Scan.skip (match indent with
    | none => spaces
    | some indent => min spaces (indent - column))
  let column := (← Scan.mark).column
  let margin := { margin with greatest := max column margin.greatest }
  if indent.all (column < ·) ∧ (← Scan.sees (· == '\t')) then Scan.fail
  if ← Scan.sees isBreak then
    return .again { margin with breaks := margin.breaks ++ [← Scan.takeBreak] }
  return .done margin

/-- Read the margin before a line of a block. -/
def margin (indent : Option Nat) : Scan Margin := Scan.loop (marginStep indent) {}

/-- What has been read of a block: its text, the break of its last line, the breaks of the empty
lines since, and whether the last line began with a blank. -/
structure BlockDraft where
  text : List Char := []
  lineBreak : List Char := []
  emptyLines : List Char := []
  blank : Bool := false

/-- The text of a block up to a line; `blank` says whether the line begins with a blank. In a folded
block the break between two lines that do not is dropped, or is a space. -/
def BlockDraft.joined (draft : BlockDraft) (folded blank : Bool) : List Char :=
  if folded && draft.lineBreak == ['\n'] && !draft.blank && !blank then
    draft.text ++ (if draft.emptyLines.isEmpty then [' '] else draft.emptyLines)
  else draft.text ++ draft.lineBreak ++ draft.emptyLines

/-- Read a line of a block and the margin after it. -/
def blockStep (folded : Bool) (indent : Nat) (draft : BlockDraft) :
    Scan (Turn BlockDraft BlockDraft) := do
  if (← Scan.mark).column ≠ indent ∨ (← Scan.rest).isEmpty then return .done draft
  let blank ← Scan.sees isSpaceOrTab
  let line ← Scan.takeWhile fun _ => true
  let lineBreak ← if ← Scan.sees isBreak then pure [← Scan.takeBreak] else pure []
  return .again {
    text := draft.joined folded blank ++ line
    lineBreak := lineBreak
    emptyLines := (← margin (some indent)).breaks
    blank := blank }

/-- The text of a block at its end. -/
def BlockDraft.finished (draft : BlockDraft) : Chomping → List Char
  | .strip => draft.text
  | .clip => draft.text ++ draft.lineBreak
  | .keep => draft.text ++ draft.lineBreak ++ draft.emptyLines

/-- A block scalar whose `|` or `>` has been read, below something that begins in column `outer`; at
the outermost level that is the column before the first. Unless the header says how far the block is
indented, its first line that is not empty does. -/
def blockScalar (folded : Bool) (outer : Int) : Scan String := do
  let (chomping, increment) ← blockHeader
  Scan.endLine
  let given := increment.map (outer.toNat + ·)
  let first ← margin given
  let indent := given.getD (max first.greatest (max (outer + 1).toNat 1))
  let draft ← Scan.loop (blockStep folded indent) { emptyLines := first.breaks }
  return String.ofList (draft.finished chomping)

end Yaml

end SchemaClient
