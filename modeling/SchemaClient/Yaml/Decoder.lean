/-
SchemaClient.Yaml.Decoder — decoding YAML documents.

A decoder takes a node that is already there in full. Scalars are read by what is wanted: whatever
its characters could mean, a scalar is a text where a text is wanted. A plain scalar without
characters is a table or a record without entries.
-/
import SchemaClient.DataFormat
import SchemaClient.Yaml.Document

namespace SchemaClient

namespace Yaml

/-- Decodes a node, or says where it has the wrong form. -/
def Decoder (α : Type) := Node → Except Fault α

/-- A fault as seen from the node that `step` leads down from. -/
def Fault.under (step : Json.Step) : Fault → Fault
  | mismatch m path mark => mismatch m (step :: path) mark
  | other => other

namespace Node

/-- What a node is, as messages name it. -/
def found : Node → Found
  | sequence _ _ _ => .sequence
  | mapping _ _ _ => .map
  | scalar _ value =>
    match value.meaning? with
    | some .null => .unit
    | some (.bool b) => .bool b
    | some (.int n) => .integer n
    | some (.float x) => .float x
    | some (.text s) => .text s
    | none => .text value.text

/-- The scalar that a node is, if it may be of a standard type. -/
def typed? (node : Node) (type : String) : Option String :=
  match node with
  | scalar _ value => if value.mayBe type then some value.text else none
  | _ => none

/-- Whether a node is a plain scalar without characters. -/
def isVoid : Node → Bool
  | scalar _ value => value.style == .plain && value.text.isEmpty
  | _ => false

/-- The entries of a node that is a mapping or nothing. -/
def entries? : Node → Option (List (Json.Step × Node × Node))
  | mapping _ _ entries => some entries
  | node => if node.isVoid then some [] else none

/-- Whether a node says that there is no value: a plain scalar that is null, unless it has a tag that
says otherwise. A plain scalar that is only tagged as null says neither. -/
def isAbsent? : Node → Option Bool
  | scalar _ ⟨text, .plain, none⟩ => some (text.isEmpty || isNullWord text)
  | scalar _ ⟨text, .plain, some tag⟩ =>
    if tag = Scalar.standardTag "null" then (if isNullWord text then some true else none)
    else some false
  | _ => some false

end Node

namespace Decoder

/-- A mismatch at a node. -/
def mismatch {α : Type} (node : Node) (m : Mismatch) : Except Fault α :=
  .error (.mismatch m [] node.mark)

def wrongType {α : Type} (node : Node) (expected : String) : Except Fault α :=
  mismatch node (.wrongType node.found expected)

/-- Decode a node that `step` leads down to. -/
def under {α : Type} (step : Json.Step) (decoder : Decoder α) (node : Node) : Except Fault α :=
  (decoder node).mapError (·.under step)

def text : Decoder String
  | .scalar _ value => .ok value.text
  | node => wrongType node "a string"

def switch : Decoder Bool := fun node =>
  match (node.typed? "bool").bind boolWord? with
  | some value => .ok value
  | none => wrongType node "a boolean"

/-- An integer that the size type has. Signs are no part of sizes, so an integer with a minus has the
wrong type, and one that is too large the wrong value. -/
def size (type : SizeType) : Decoder Nat := fun node =>
  match ((node.typed? "int").bind natural?).filter (· < SizeType.u64.bound) with
  | some n =>
    if n < type.bound then .ok n
    else mismatch node (.wrongValue (.integer n) type.name)
  | none => wrongType node type.name

def real : Decoder Float := fun node =>
  match (node.typed? "float").bind real? with
  | some x => .ok x
  | none => wrongType node "f64"

def optional {α : Type} (decoder : Decoder α) : Decoder (Option α) := fun node =>
  match node.isAbsent? with
  | some true => .ok none
  | some false => some <$> decoder node
  | none => mismatch node (.wrongValue node.found "null")

/-- Read entries one after the other into a table. -/
def tableEntries {α : Type} (decoder : Decoder α) (table : Table α) :
    List (Json.Step × Node × Node) → Except Fault (Table α)
  | [] => .ok table
  | (step, key, value) :: rest => do
    let key ← text key
    let value ← under step decoder value
    tableEntries decoder (Table.put table key value) rest

/-- A mapping whose values are all of one type. -/
def table {α : Type} (decoder : Decoder α) : Decoder (Table α) := fun node =>
  match node.entries? with
  | some entries => tableEntries decoder [] entries
  | none => wrongType node "a map"

/-- Read entries one after the other into a record; `seen` are the fields that have come up. -/
def recordEntries {α : Type} (shape : RecordShape Decoder α) (node : Node) (seen : List String)
    (record : α) : List (Json.Step × Node × Node) → Except Fault α
  | [] =>
    match shape.fields.find? fun field => field.required && !seen.contains field.name with
    | some field => mismatch node (.missingField field.name)
    | none => .ok record
  | (step, key, value) :: rest => do
    let name ← match key with
      | .scalar _ value => pure value.text
      | key => wrongType key "field identifier"
    match shape.fields.find? (·.name == name) with
    | none =>
      if shape.strict then mismatch key (.unknownField name (shape.fields.map (·.name)))
      else recordEntries shape node seen record rest
    | some field =>
      if seen.contains name then mismatch node (.duplicateField name)
      else
        let set ← under step field.read value
        recordEntries shape node (name :: seen) (set record) rest

/-- A record, as a mapping. -/
def record {α : Type} (shape : RecordShape Decoder α) : Decoder α := fun node =>
  match node.entries? with
  | some entries => recordEntries shape node [] shape.start entries
  | none => wrongType node ("struct " ++ shape.name)

instance : DataFormat Decoder where
  map f decoder := fun node => f <$> decoder node
  text := text
  switch := switch
  size := size
  real := real
  optional := optional
  table := table
  record := record

/-- The value that a text is. What is wrong with a document is only said if the document means
something; otherwise it counts as ill-formed. -/
def read {α : Type} (decoder : Decoder α) (text : String) : Except Fault α := do
  let document ← Document.ofText text
  match decoder document with
  | .ok value => .ok value
  | .error fault => .error (if document.isLoadable then fault else .illFormed)

end Decoder

end Yaml

end SchemaClient
