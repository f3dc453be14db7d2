/-
SchemaClient.Yaml.Token — the tokens of a YAML text.

Indentation becomes explicit: where a block collection begins there is a token for its start, and
where a line is indented less than the collection there is one for its end.

A key is recognised only by the colon after it. So the place of anything that might turn out to be a
key is remembered, for each level of brackets: if a colon follows in the same line and not too far
away, the token of a key is put in at that place, and before it the start of the mapping that the
key is the first of. Something in the first column of a mapping has to turn out to be a key.
-/
import SchemaClient.Yaml.Tag

namespace SchemaClient

namespace Yaml

inductive Token.Kind where
  | streamEnd
  | directive (said : Directive)
  | documentStart
  | documentEnd
  | blockSequenceStart
  | blockMappingStart
  | blockEnd
  | flowSequenceStart
  | flowSequenceEnd
  | flowMappingStart
  | flowMappingEnd
  | blockEntry
  | flowEntry
  | key
  | value
  | aliasOf (name : String)
  | anchor (name : String)
  | tag (written : WrittenTag)
  | scalar (text : String) (style : Style)
  deriving DecidableEq, Repr

/-- A token and the marks of its first character and of the one after its last. -/
structure Token where
  kind : Token.Kind
  start : Mark
  stop : Mark
  deriving DecidableEq, Repr

/-- Something that may turn out to be a key. -/
structure Candidate where
  /-- Whether it has to. -/
  required : Bool
  /-- How many tokens come before it. -/
  before : Nat
  mark : Mark
  index : Nat

/-- What has been read, and what is open. -/
structure Tokenizer where
  cursor : Cursor
  /-- The tokens so far, the last one first. -/
  reversed : List Token := []
  /-- The columns of the block collections that are open, the innermost first. -/
  indents : List Nat := []
  candidate : Option Candidate := none
  /-- The candidates outside the brackets that are open, the innermost first. -/
  outer : List (Option Candidate) := []
  /-- Whether a key may begin here. -/
  keyAllowed : Bool := true

/-- Makes tokens out of the front of a text, or finds the text ill-formed. -/
abbrev Tokenize (α : Type) := StateT Tokenizer (Except Fault) α

namespace Tokenize

def fail {α : Type} : Tokenize α := throw .illFormed

/-- Read from the text. -/
def scan {α : Type} (reading : Scan α) : Tokenize α := do
  let t ← get
  let (value, cursor) ← reading t.cursor
  set { t with cursor := cursor }
  return value

/-- Whether brackets are open. -/
def inFlow : Tokenize Bool := do return !(← get).outer.isEmpty

/-- Add a token at the end. -/
def push (kind : Token.Kind) (start stop : Mark) : Tokenize Unit :=
  modify fun t => { t with reversed := ⟨kind, start, stop⟩ :: t.reversed }

/-- Put a token in after the first `before` ones. -/
def insert (before : Nat) (kind : Token.Kind) (mark : Mark) : Tokenize Unit :=
  modify fun t =>
    let after := t.reversed.length - before
    { t with reversed := t.reversed.take after ++ ⟨kind, mark, mark⟩ :: t.reversed.drop after }

/-- Add the token of a mark of `width` characters and pass over them. -/
def pushMark (kind : Token.Kind) (width : Nat) : Tokenize Unit := do
  let start ← scan Scan.mark
  scan (Scan.skip width)
  push kind start (← scan Scan.mark)

/-- Say whether a key may begin after what was just read. -/
def allowKey (allowed : Bool) : Tokenize Unit := modify fun t => { t with keyAllowed := allowed }

/-! ## Candidates for keys -/

/-- The column of the innermost block collection, or the one before the first. -/
def indent : Tokenize Int := do
  match (← get).indents with
  | [] => return -1
  | column :: _ => return column

/-- Give up on the candidate of the innermost level. -/
def dropCandidate : Tokenize Unit := do
  if (← get).candidate.any (·.required) then fail
  modify fun t => { t with candidate := none }

/-- Remember what begins here as a candidate. -/
def nominate : Tokenize Unit := do
  let t ← get
  if t.keyAllowed then
    let required := t.outer.isEmpty && (← indent) == t.cursor.mark.column
    dropCandidate
    modify fun t => { t with
      candidate := some ⟨required, t.reversed.length, t.cursor.mark, t.cursor.index⟩ }

/-- Whether a candidate is too far behind: in an earlier line, or more than 1024 characters. -/
def Candidate.isStale (cursor : Cursor) (candidate : Candidate) : Bool :=
  candidate.mark.line < cursor.mark.line || candidate.index + 1024 < cursor.index

/-- Give up on the candidates of all levels that are too far behind. -/
def dropStale : Tokenize Unit := do
  let t ← get
  let stale (candidate : Option Candidate) : Bool := candidate.any (Candidate.isStale t.cursor)
  let keep (candidate : Option Candidate) : Option Candidate :=
    if stale candidate then none else candidate
  if (t.candidate :: t.outer).any fun c => stale c && c.any (·.required) then fail
  set { t with candidate := keep t.candidate, outer := t.outer.map keep }

/-! ## Block collections -/

/-- Begin a block collection in a column by putting its token in place, unless one is open there
already or brackets are. -/
def openBlock (column : Nat) (place : Tokenize Unit) : Tokenize Unit := do
  if !(← inFlow) && (← indent) < column then
    modify fun t => { t with indents := column :: t.indents }
    place

/-- Begin a block collection with the token here. -/
def openBlockHere (kind : Token.Kind) : Tokenize Unit := do
  let mark ← scan Scan.mark
  openBlock mark.column (push kind mark mark)

/-- End the block collections that begin after a column. -/
def closeBlocks (column : Int) : Tokenize Unit := do
  if !(← inFlow) then
    let t ← get
    let ended := t.indents.takeWhile fun (begun : Nat) => column < begun
    let blockEnd : Token := ⟨.blockEnd, t.cursor.mark, t.cursor.mark⟩
    set { t with
      indents := t.indents.drop ended.length
      reversed := List.replicate ended.length blockEnd ++ t.reversed }

/-! ## The tokens -/

/-- The mark of the byte order. -/
def byteOrderMark : Char := '\uFEFF'

/-- Pass over blanks, comments and breaks up to the next token. A tab is a blank only where no key
may begin. A mark of the byte order at the beginning of a line is passed over, but takes up a
column. -/
def gapStep (_ : Unit) : Tokenize (Turn Unit Unit) := do
  if (← scan Scan.mark).column = 0 ∧ (← scan (Scan.sees (· == byteOrderMark))) then
    scan (Scan.skip 1)
  let tabsAllowed := (← inFlow) || !(← get).keyAllowed
  let _ ← scan (Scan.takeWhile fun c => c == ' ' || (tabsAllowed && c == '\t'))
  scan Scan.skipComment
  if ← scan (Scan.sees isBreak) then
    let _ ← scan Scan.takeBreak
    if !(← inFlow) then allowKey true
    return .again ()
  return .done ()

/-- Repeat a step until it is finished. Each repetition has to have read something. -/
def loop {σ α : Type} (step : σ → Tokenize (Turn σ α)) (state : σ) : Tokenize α :=
  loopOn (·.cursor.rest.length) (fun _ => .illFormed) step state

/-- End of the text: everything that is open ends there. -/
def streamEnd : Tokenize Unit := do
  let mark ← scan Scan.mark
  if mark.column ≠ 0 then
    modify fun t => { t with cursor := { t.cursor with mark := ⟨mark.line + 1, 0⟩ } }
  closeBlocks (-1)
  dropCandidate
  let mark ← scan Scan.mark
  push .streamEnd mark mark

/-- A directive line. -/
def directiveLine : Tokenize Unit := do
  closeBlocks (-1)
  dropCandidate
  allowKey false
  let start ← scan Scan.mark
  scan (Scan.skip 1)
  let said ← scan directive
  push (.directive said) start (← scan Scan.mark)

/-- The start or the end of a document. -/
def documentMarker (kind : Token.Kind) : Tokenize Unit := do
  closeBlocks (-1)
  dropCandidate
  allowKey false
  pushMark kind 3

/-- An opening bracket. -/
def openFlow (kind : Token.Kind) : Tokenize Unit := do
  nominate
  modify fun t => { t with candidate := none, outer := t.candidate :: t.outer }
  allowKey true
  pushMark kind 1

/-- A closing bracket. -/
def closeFlow (kind : Token.Kind) : Tokenize Unit := do
  dropCandidate
  modify fun t =>
    match t.outer with
    | [] => t
    | candidate :: outer => { t with candidate := candidate, outer := outer }
  allowKey false
  pushMark kind 1

/-- A comma within brackets. -/
def flowEntry : Tokenize Unit := do
  dropCandidate
  allowKey true
  pushMark .flowEntry 1

/-- The dash before an item of a block sequence. -/
def blockEntry : Tokenize Unit := do
  if !(← inFlow) then
    unless (← get).keyAllowed do fail
    openBlockHere .blockSequenceStart
  dropCandidate
  allowKey true
  pushMark .blockEntry 1

/-- The question mark before a key of any form. -/
def keyMark : Tokenize Unit := do
  if !(← inFlow) then
    unless (← get).keyAllowed do fail
    openBlockHere .blockMappingStart
  dropCandidate
  allowKey !(← inFlow)
  pushMark .key 1

/-- The colon before a value. If there is a candidate, it was a key. -/
def valueMark : Tokenize Unit := do
  match (← get).candidate with
  | some candidate =>
    insert candidate.before .key candidate.mark
    openBlock candidate.mark.column (insert candidate.before .blockMappingStart candidate.mark)
    modify fun t => { t with candidate := none }
    allowKey false
  | none =>
    if !(← inFlow) then
      unless (← get).keyAllowed do fail
      openBlockHere .blockMappingStart
    allowKey !(← inFlow)
  pushMark .value 1

/-- Something that may turn out to be a key, or the beginning of one. -/
def keyPart (reading : Scan Token.Kind) : Tokenize Unit := do
  nominate
  allowKey false
  let start ← scan Scan.mark
  let kind ← scan reading
  push kind start (← scan Scan.mark)

/-- A block scalar. -/
def block (folded : Bool) : Tokenize Unit := do
  dropCandidate
  allowKey true
  let start ← scan Scan.mark
  scan (Scan.skip 1)
  let text ← scan (blockScalar folded (← indent))
  push (.scalar text (if folded then .folded else .literal)) start (← scan Scan.mark)

/-- A plain scalar. Where it ends at a break, a key may follow. -/
def plain : Tokenize Unit := do
  nominate
  allowKey false
  let start ← scan Scan.mark
  let (text, broken) ← scan (plainScalar (← inFlow) ((← indent) + 1).toNat)
  if broken then allowKey true
  push (.scalar text .plain) start (← scan Scan.mark)

/-- The characters that no plain scalar begins with, unless they are a dash, a question mark or a
colon that no blank follows. -/
def isIndicator (c : Char) : Bool :=
  isFlowMark c || c ∈ ['-', '?', ':', '#', '&', '*', '!', '|', '>', '\'', '"', '%', '@', '\x60']

/-- Whether a plain scalar begins here. A question mark or a colon begins none within brackets. -/
def beginsPlain (inFlow : Bool) (c : Char) (rest : List Char) : Bool :=
  !(isSpaceOrTab c || isBreak c || isIndicator c) ||
    (c == '-' && !rest.head?.any isSpaceOrTab) ||
    (!inFlow && (c == '?' || c == ':') && !endsWord rest)

/-- The next token, or all tokens at the end. -/
def step (_ : Unit) : Tokenize (Turn Unit Unit) := do
  loop gapStep ()
  dropStale
  let mark ← scan Scan.mark
  closeBlocks mark.column
  let inFlow ← inFlow
  match ← scan Scan.rest with
  | [] =>
    streamEnd
    return .done ()
  | c :: rest =>
    let marker := decide (mark.column = 0) && beginsWithMarker (c :: rest)
    let blankFollows := endsWord rest
    if mark.column = 0 ∧ c = '%' then directiveLine
    else if marker && c == '-' then documentMarker .documentStart
    else if marker then documentMarker .documentEnd
    else if c = '[' then openFlow .flowSequenceStart
    else if c = '{' then openFlow .flowMappingStart
    else if c = ']' then closeFlow .flowSequenceEnd
    else if c = '}' then closeFlow .flowMappingEnd
    else if c = ',' then flowEntry
    else if c = '-' ∧ blankFollows then blockEntry
    else if c = '?' ∧ (inFlow ∨ blankFollows) then keyMark
    else if c = ':' ∧ (inFlow ∨ blankFollows) then valueMark
    else if c = '*' then keyPart do Scan.skip 1; return .aliasOf (← anchorName)
    else if c = '&' then keyPart do Scan.skip 1; return .anchor (← anchorName)
    else if c = '!' then keyPart do return .tag (← tag inFlow)
    else if c = '|' ∧ ¬ inFlow then block false
    else if c = '>' ∧ ¬ inFlow then block true
    else if c = '\'' then keyPart do Scan.skip 1; return .scalar (← quotedScalar false) .quoted
    else if c = '"' then keyPart do Scan.skip 1; return .scalar (← quotedScalar true) .quoted
    else if beginsPlain inFlow c rest then plain
    else fail
    return .again ()

end Tokenize

/-- The tokens of a text. -/
def Token.ofText? (text : List Char) : Except Fault (List Token) := do
  unless text.all isAllowed do throw .illFormed
  let ((), t) ← Tokenize.loop Tokenize.step () { cursor := { rest := text } }
  return t.reversed.reverse

end Yaml

end SchemaClient
