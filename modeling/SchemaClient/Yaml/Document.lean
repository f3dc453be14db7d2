/-
SchemaClient.Yaml.Document — from tokens to the nodes of a document.

The tokens are first read into an OUTLINE, in which aliases still stand for themselves. When the
document is complete, every alias is replaced by the node it stands for. Collections may be nested
128 deep, counted after that, which also puts an end to nodes that contain themselves; and the
replacements may not get out of hand.

* `Outline.ofTokens` — the outline of a document and the anchors in it.
* `Document.ofText` — the document that a text is, if it is one.
-/
import SchemaClient.Yaml.Node
import SchemaClient.Yaml.Token

namespace SchemaClient

namespace Yaml

/-- A node whose aliases still stand for themselves, each with the number it is filed under. -/
inductive Outline where
  | aliasOf (number : Nat)
  | scalar (mark : Mark) (value : Scalar)
  | sequence (mark : Mark) (tag : Option String) (items : List Outline)
  | mapping (mark : Mark) (tag : Option String) (entries : List (Outline × Outline))

/-- What is left of the tokens, and what has come up so far. -/
structure Reading where
  tokens : List Token
  /-- What the handles of tags stand for. -/
  handles : List (String × String) := standardHandles
  /-- The numbers of the names of anchors. An anchor is filed under the count of names that have
  come up before it, so if its own is one of them, the next new name will have the same number. -/
  numbers : Table Nat := []
  /-- For each number the node with the anchor, as a position in the order of anchors; the last one
  first. -/
  filed : List (Nat × Nat) := []
  /-- How many anchors have come up. -/
  anchors : Nat := 0
  /-- The nodes with anchors, by position. -/
  anchored : List (Nat × Outline) := []

/-- Reads something off the front of the tokens, or finds the text ill-formed. -/
abbrev Read (α : Type) := StateT Reading (Except Fault) α

namespace Read

def fail {α : Type} : Read α := throw .illFormed

/-- Repeat a step until it is finished. Each repetition has to have read something. -/
def loop {σ α : Type} (step : σ → Read (Turn σ α)) (state : σ) : Read α :=
  loopOn (·.tokens.length) (fun _ => .illFormed) step state

/-- The next token, left where it is. -/
def peek : Read Token := do
  match (← get).tokens with
  | [] => fail
  | token :: _ => return token

/-- Pass over the next token. -/
def skip : Read Unit := modify fun r => { r with tokens := r.tokens.tail }

/-- Whether the next token is of one of the kinds. -/
def sees (kinds : List Token.Kind) : Read Bool := do return (← peek).kind ∈ kinds

/-! ## Properties -/

/-- Where a node stands. -/
inductive Place where
  | block
  /-- A key or a value in a block mapping: a sequence need not be indented further. -/
  | blockEntry
  | flow
  deriving DecidableEq

/-- The anchor and the tag of a node. -/
structure Properties where
  anchor : Option String := none
  tag : Option WrittenTag := none

/-- Read an anchor, if there is one. -/
def anchor? (p : Properties) : Read Properties := do
  match (← peek).kind with
  | .anchor name => skip; return { p with anchor := some name }
  | _ => return p

/-- Read a tag, if there is one. -/
def tag? (p : Properties) : Read Properties := do
  match (← peek).kind with
  | .tag written => skip; return { p with tag := some written }
  | _ => return p

/-- The anchor and the tag of a node, in either order. -/
def properties : Read Properties := do
  match (← peek).kind with
  | .tag _ => anchor? (← tag? {})
  | _ => tag? (← anchor? {})

/-- The tag in full. -/
def fullTag (p : Properties) : Read (Option String) := do
  match p.tag with
  | none => return none
  | some written =>
    let some tag := written.resolve? (← get).handles | fail
    return some tag

/-- File an anchor that comes up; the position is where its node is to be put. -/
def file (name : String) : Read Nat :=
  modifyGet fun r =>
    let number := r.numbers.length
    (r.anchors, { r with
      numbers := Table.put r.numbers name number
      filed := (number, r.anchors) :: r.filed
      anchors := r.anchors + 1 })

/-! ## Nodes -/

/-- A node without characters. -/
def emptyAt (mark : Mark) : Outline := .scalar mark ⟨"", .plain, none⟩

/-- A node, or an empty one at `mark` if one of the kinds follows. -/
def nodeUnless (kinds : List Token.Kind) (mark : Mark) (node : Read Outline) : Read Outline := do
  if ← sees kinds then return emptyAt mark else node

/-- A node, or an empty one at the next token if that is of one of the kinds. -/
def nodeOrEmpty (kinds : List Token.Kind) (node : Read Outline) : Read Outline := do
  nodeUnless kinds (← peek).start node

section

-- `node` reads a node inside the collection, `pair` an entry that is a mapping by itself
variable (node : Place → Read Outline) (pair : Read Outline)

/-- An item of a block sequence, or its end. -/
def blockItem (read : List Outline) : Read (Turn (List Outline) (List Outline)) := do
  let token ← peek
  skip
  match token.kind with
  | .blockEntry =>
    return .again (read ++ [← nodeUnless [.blockEntry, .blockEnd] token.stop (node .block)])
  | .blockEnd => return .done read
  | _ => fail

/-- An item of a sequence that is not indented further than its key, or the end of it. -/
def looseItem (read : List Outline) : Read (Turn (List Outline) (List Outline)) := do
  let token ← peek
  match token.kind with
  | .blockEntry =>
    skip
    return .again (read ++
      [← nodeUnless [.blockEntry, .key, .value, .blockEnd] token.stop (node .block)])
  | _ => return .done read

/-- An entry of a block mapping, or its end. -/
def blockEntry (read : List (Outline × Outline)) :
    Read (Turn (List (Outline × Outline)) (List (Outline × Outline))) := do
  let token ← peek
  skip
  match token.kind with
  | .key =>
    let ends : List Token.Kind := [.key, .value, .blockEnd]
    let key ← nodeUnless ends token.stop (node .blockEntry)
    let token ← peek
    if token.kind = .value then
      skip
      return .again (read ++ [(key, ← nodeUnless ends token.stop (node .blockEntry))])
    return .again (read ++ [(key, emptyAt token.start)])
  | .blockEnd => return .done read
  | _ => fail

/-- The comma between two entries within brackets. -/
def comma (first : Bool) : Read Unit := do
  if !first then
    if ← sees [.flowEntry] then skip else fail

/-- The value after a key within brackets that `close` ends. -/
def flowValue (close : Token.Kind) : Read Outline := do
  if ← sees [.value] then
    skip
    nodeOrEmpty [.flowEntry, close] (node .flow)
  else return emptyAt (← peek).start

/-- An entry of a flow mapping, or its end. -/
def flowEntry (read : List (Outline × Outline)) :
    Read (Turn (List (Outline × Outline)) (List (Outline × Outline))) := do
  if !(← sees [.flowMappingEnd]) then comma read.isEmpty
  if ← sees [.flowMappingEnd] then
    skip
    return .done read
  if ← sees [.key] then
    skip
    let key ← nodeOrEmpty [.value, .flowEntry, .flowMappingEnd] (node .flow)
    return .again (read ++ [(key, ← flowValue node .flowMappingEnd)])
  let key ← node .flow
  return .again (read ++ [(key, emptyAt (← peek).start)])

/-- An item of a flow sequence, or its end. -/
def flowItem (read : List Outline) : Read (Turn (List Outline) (List Outline)) := do
  if !(← sees [.flowSequenceEnd]) then comma read.isEmpty
  if ← sees [.flowSequenceEnd] then
    skip
    return .done read
  if ← sees [.key] then return .again (read ++ [← pair])
  return .again (read ++ [← node .flow])

/-- An item of a flow sequence that is an entry of a mapping. An entry without a key is cut off
before its value. -/
def flowPair : Read Outline := do
  let mark := (← peek).start
  skip
  let token ← peek
  if token.kind ∈ [.value, .flowEntry, .flowSequenceEnd] then
    skip
    return .mapping mark none [(emptyAt token.stop, ← flowValue node .flowSequenceEnd)]
  let key ← node .flow
  return .mapping mark none [(key, ← flowValue node .flowSequenceEnd)]

/-- What a node consists of, at its mark and with its tag. `room` says whether a collection may be
opened. -/
def content (room : Bool) (place : Place) (mark : Mark) (p : Properties) : Read Outline := do
  let tag ← fullTag p
  let token ← peek
  let collection (body : Read Outline) : Read Outline := do
    unless room do fail
    skip
    body
  if place = .blockEntry ∧ token.kind = .blockEntry then
    unless room do fail
    return .sequence mark tag (← loop (looseItem node) [])
  match token.kind with
  | .scalar text style =>
    skip
    return .scalar mark ⟨text, style, tag.filter (· != "!")⟩
  | .flowSequenceStart =>
    collection do return .sequence mark tag (← loop (flowItem node pair) [])
  | .flowMappingStart =>
    collection do return .mapping mark tag (← loop (flowEntry node) [])
  | .blockSequenceStart =>
    if place = .flow then fail
    collection do return .sequence mark tag (← loop (blockItem node) [])
  | .blockMappingStart =>
    if place = .flow then fail
    collection do return .mapping mark tag (← loop (blockEntry node) [])
  | _ =>
    if p.anchor.isSome || tag.isSome then return .scalar mark ⟨"", .plain, tag⟩
    fail

/-- A node: an alias, or properties and content. -/
def nodeWith (room : Bool) (place : Place) : Read Outline := do
  let token ← peek
  match token.kind with
  | .aliasOf name =>
    let some number := Table.find? (← get).numbers name | fail
    skip
    return .aliasOf number
  | _ =>
    let p ← properties
    match p.anchor with
    | none => content node pair room place token.start p
    | some name =>
      let position ← file name
      let outline ← content node pair room place token.start p
      modify fun r => { r with anchored := (position, outline) :: r.anchored }
      return outline

end

/-- A node with at most a number of levels of collections. -/
def node : (levels : Nat) → Place → Read Outline
  | 0 => nodeWith (fun _ => fail) fail false
  | 1 => nodeWith (node 0) fail true
  | levels + 2 => nodeWith (node (levels + 1)) (flowPair (node levels)) true

/-! ## Documents -/

/-- How deep collections may be nested. -/
def greatestDepth : Nat := 128

/-- The directives of a document: the versions it may be of, and the handles it defines. -/
def directiveStep (seen : List Directive) : Read (Turn (List Directive) (List Directive)) := do
  match (← peek).kind with
  | .directive said =>
    let repeated (other : Directive) : Bool :=
      match said, other with
      | .version _ _, .version _ _ => true
      | .handle a _, .handle b _ => a == b
      | _, _ => false
    let supported : Bool :=
      match said with
      | .version major minor => major == 1 && (minor == 1 || minor == 2)
      | .handle _ _ => true
    if seen.any repeated || !supported then fail
    skip
    return .again (seen ++ [said])
  | _ => return .done seen

/-- What comes before the content of a document that is marked as one. -/
def documentHead : Read Unit := do
  let said ← loop directiveStep []
  unless ← sees [.documentStart] do fail
  skip
  let handles := said.filterMap fun
    | .handle name stands => some (name, stands)
    | .version _ _ => none
  modify fun r => { r with handles := handles ++ standardHandles }

/-- Pass over the marks of a document's end. -/
def documentEnd (_ : Unit) : Read (Turn Unit Unit) := do
  if ← sees [.documentEnd] then
    skip
    return .again ()
  return .done ()

/-- The only document, if there is one. -/
def document : Read (Option Outline) := do
  match (← peek).kind with
  | .streamEnd => return none
  | kind =>
    let isMarked := match kind with
      | .directive _ => true
      | .documentStart => true
      | _ => false
    if isMarked then documentHead
    let token ← peek
    let isEmpty := match token.kind with
      | .directive _ => true
      | .documentStart => true
      | .documentEnd => true
      | .streamEnd => true
      | _ => false
    let outline ← if isMarked && isEmpty then pure (emptyAt token.start)
      else node greatestDepth .block
    loop documentEnd ()
    unless ← sees [.streamEnd] do fail
    return some outline

end Read

/-! ## Aliases -/

namespace Outline

/-- How many times a node can be entered or left, aliases counting once. -/
def size : Outline → Nat
  | aliasOf _ => 1
  | scalar _ _ => 1
  | sequence _ _ items => sizes items + 2
  | mapping _ _ entries => entrySizes entries + 2
where
  sizes : List Outline → Nat
    | [] => 0
    | item :: rest => size item + sizes rest
  entrySizes : List (Outline × Outline) → Nat
    | [] => 0
    | (key, value) :: rest => size key + size value + entrySizes rest

/-- The step that paths write for an entry. -/
def step : Outline → Json.Step
  | scalar _ value => .key value.text
  | _ => .unknown

/-- A computation that may still follow some number of aliases. -/
abbrev Expanding (α : Type) := StateT Nat (Except Fault) α

/-- A node that is no alias: itself, or the one that an alias stands for. -/
def follow (nodes : Nat → Option Outline) (outline : Outline) : Expanding Outline := do
  match outline with
  | aliasOf number =>
    match ← get, nodes number with
    | left + 1, some target =>
      set left
      return target
    | _, _ => throw .illFormed
  | other => return other

/-- A node that is no alias, whose parts `inner` expands. -/
def expandWith (inner : Outline → Expanding Node) : Outline → Expanding Node
  | aliasOf _ => throw .illFormed
  | scalar mark value => return .scalar mark value
  | sequence mark tag items => return .sequence mark tag (← items.mapM inner)
  | mapping mark tag entries => do
    let entries ← entries.mapM fun (key, value) =>
      return (step key, ← inner key, ← inner value)
    return .mapping mark tag entries

/-- Whether a node is a collection. -/
def isCollection : Outline → Bool
  | sequence _ _ _ => true
  | mapping _ _ _ => true
  | _ => false

/-- A node with all aliases replaced and at most a number of levels of collections. -/
def expand (nodes : Nat → Option Outline) : (levels : Nat) → Outline → Expanding Node
  | 0, outline => do
    let outline ← follow nodes outline
    if outline.isCollection then throw .illFormed
    expandWith (fun _ => throw .illFormed) outline
  | levels + 1, outline => do expandWith (expand nodes levels) (← follow nodes outline)

end Outline

/-- The document that a text is; a text without one is read as empty. -/
def Document.ofText (text : String) : Except Fault Node := do
  let tokens ← Token.ofText? text.toList
  let (outline, reading) ← Read.document { tokens := tokens }
  let outline := outline.getD (Read.emptyAt ⟨0, 0⟩)
  let nodes (number : Nat) : Option Outline :=
    (reading.filed.lookup number).bind fun position => reading.anchored.lookup position
  let (node, _) ← Outline.expand nodes Read.greatestDepth outline (100 * outline.size)
  return node

end Yaml

end SchemaClient
