/-
SchemaClient.Schema.Lowering — from a schema to the validator it describes.

Lowering is a function of the schema and of what is known about resource types. What it wants
declared on the way is only recorded, as a list of DEMANDS in the order they come up; a fault ends
the list. Whoever runs the lowering fulfils the demands in that order.

Base64 text, objects about which nothing is said and references to resource types have validators of
their own; any other node is read by its keywords, in the order literal values, combinators, kinds.

* `Schema.lower` — the lowering of a whole schema.
* `Lowering` — demands together with a result or a fault.
-/
import SchemaClient.Declaration
import SchemaClient.Json.Basic
import SchemaClient.Schema.Keywords
import SchemaClient.Schema.Reference

namespace SchemaClient

/-- A declaration that a schema cannot do without. -/
inductive Demand where
  | base64Content
  | storageObject
  | resourceType (name : String)
  deriving DecidableEq, Repr

/-- What is wrong with a node. -/
inductive Malformation where
  | typeKeyword (found : Json)
  | itemsKeyword (found : Json)
  | propertiesKeyword (found : Json)
  | schemaList (found : Json)

def Malformation.message : Malformation → String
  | typeKeyword found => "`type` must be a string or an array, found " ++ found.text
  | itemsKeyword found => "`items` must be a schema or a list of schemas, found " ++ found.text
  | propertiesKeyword found => "`properties` must be an object, found " ++ found.text
  | schemaList found => "expected a list of schemas, found " ++ found.text

/-- A malformed node and where it stands. -/
structure SchemaFault where
  pointer : Pointer
  malformation : Malformation

/-- A result or a fault, with everything demanded until then. -/
structure Lowering (α : Type) where
  demands : List Demand
  result : Except SchemaFault α

namespace Lowering

variable {α β : Type}

/-- Go on with a result; the demands of what follows come after. -/
def andThen (first : Lowering α) (next : α → Lowering β) : Lowering β :=
  match first.result with
  | .error fault => ⟨first.demands, .error fault⟩
  | .ok value => ⟨first.demands ++ (next value).demands, (next value).result⟩

instance : Monad Lowering where
  pure value := ⟨[], .ok value⟩
  bind := andThen

/-- Ask for a declaration. -/
def demand (d : Demand) : Lowering Unit := ⟨[d], .ok ()⟩

/-- Give up on a malformed node. -/
def malformed (pointer : Pointer) (malformation : Malformation) : Lowering α :=
  ⟨[], .error ⟨pointer, malformation⟩⟩

end Lowering

/-- What is known about resource types: which there are, and which of them have instances. -/
structure Registry where
  known : String → Bool
  hasInstances : String → Bool

namespace Keywords

open Lowering

/-! ## Modifiers -/

/-- Attach the node's description. -/
def describe (k : Keywords) (validator : Validator) : Validator :=
  match k.description? with
  | some description => .described validator description
  | none => validator

/-- Let the validator accept null if the node says so and it does not yet. -/
def acceptNull (k : Keywords) (validator : Validator) : Validator :=
  match validator with
  | .null => .null
  | .nullable inner => .nullable inner
  | other => if k.isNullable then .nullable other else other

/-- Attach the node's modifiers: nullability, description, default. -/
def decorate (k : Keywords) (validator : Validator) : Validator :=
  let described := k.describe (k.acceptNull validator)
  match k.default with
  | some default => .defaulted described default
  | none => described

/-! ## Literal values -/

/-- The validator of one value; lists and objects are not compared. -/
def literal : Json → Validator
  | .null => .null
  | .arr _ => .any
  | .obj _ => .any
  | value => .literal value

/-- The validator of a set of values. -/
def enumeration (members : List Json) : Validator :=
  match members.mapM Json.asString? with
  | some texts =>
    match Schema.distinct texts with
    | [] => .never
    | [only] => .literal (.str only)
    | several => .enumeration several
  | none => .choice (members.map literal)

/-! ## Subschemas

`sub` lowers a subschema of the node at the pointer it is given. -/

/-- Lower one after the other. -/
def lowerEach (sub : Json → Pointer → Lowering Validator) (pointer : Pointer) (index : Nat) :
    List Json → Lowering (List Validator)
  | [] => pure []
  | schema :: rest => do
    let first ← sub schema (pointer ++ [toString index])
    let others ← lowerEach sub pointer (index + 1) rest
    pure (first :: others)

/-- Lower a list of schemas. -/
def lowerList (sub : Json → Pointer → Lowering Validator) (pointer : Pointer) :
    Json → Lowering (List Validator)
  | .arr schemas => lowerEach sub pointer 0 schemas
  | found => malformed pointer (.schemaList found)

/-- Lower the properties of an object. -/
def lowerProperties (sub : Json → Pointer → Lowering Validator) (pointer : Pointer)
    (required : List String) : Entries → Lowering (List (Property Validator))
  | [] => pure []
  | (name, schema) :: rest => do
    let validator ← sub schema (pointer ++ ["properties", name])
    let others ← lowerProperties sub pointer required rest
    pure (⟨name, validator, required.contains name⟩ :: others)

/-! ## Kinds -/

/-- The validator of a list. -/
def lowerArray (k : Keywords) (sub : Json → Pointer → Lowering Validator) (pointer : Pointer) :
    Lowering Validator := do
  let array (item : Validator) : Validator :=
    .array item (k.minItems.bind Json.asSize?) (k.maxItems.bind Json.asSize?)
  match k.items with
  | some (.arr items) => .tuple <$> lowerList sub (pointer ++ ["items"]) (.arr items)
  | some (.obj item) => array <$> sub (.obj item) (pointer ++ ["items"])
  | some (.bool item) => array <$> sub (.bool item) (pointer ++ ["items"])
  | some .null => pure (array .any)
  | none => pure (array .any)
  | some found => malformed pointer (.itemsKeyword found)

/-- The properties that an object declares. -/
def declaredProperties (k : Keywords) (sub : Json → Pointer → Lowering Validator)
    (pointer : Pointer) : Lowering (List (Property Validator)) :=
  match k.properties with
  | some (.obj properties) => lowerProperties sub pointer k.requiredNames properties
  | some .null => pure []
  | none => pure []
  | some found => malformed pointer (.propertiesKeyword found)

/-- What an object does with other keys. -/
def undeclared (k : Keywords) (sub : Json → Pointer → Lowering Validator) (pointer : Pointer) :
    Lowering (Undeclared Validator) :=
  match k.additionalProperties with
  | some (.bool true) => pure .loose
  | some (.bool false) => pure .strict
  | some (.obj rest) => .catchall <$> sub (.obj rest) (pointer ++ ["additionalProperties"])
  | _ => pure .strip

/-- The validator of an object. One without declared properties is a record, unless it says that
other keys are kept or refused. -/
def lowerObject (k : Keywords) (sub : Json → Pointer → Lowering Validator) (pointer : Pointer) :
    Lowering Validator := do
  let properties ← k.declaredProperties sub pointer
  let undeclared ← k.undeclared sub pointer
  pure (match properties, undeclared with
    | [], .catchall value => .record value
    | [], .strip => .record .any
    | properties, undeclared => .object properties undeclared)

/-- The validator of a kind. A kind that is none of the seven accepts anything. -/
def lowerKind (k : Keywords) (sub : Json → Pointer → Lowering Validator) (pointer : Pointer) :
    String → Lowering Validator
  | "string" => pure (.string (k.formatText?.bind TextFormat.ofName?)
      (k.pattern.bind Json.asString?) (k.minLength.bind Json.asSize?)
      (k.maxLength.bind Json.asSize?))
  | "number" => pure (.number false k.limits)
  | "integer" => pure (.number true k.limits)
  | "boolean" => pure .bool
  | "null" => pure .null
  | "array" => k.lowerArray sub pointer
  | "object" => k.lowerObject sub pointer
  | _ => pure .any

/-- The validators of several kinds. -/
def lowerKinds (k : Keywords) (sub : Json → Pointer → Lowering Validator) (pointer : Pointer) :
    List String → Lowering (List Validator)
  | [] => pure []
  | kind :: rest => do
    let first ← k.lowerKind sub pointer kind
    let others ← k.lowerKinds sub pointer rest
    pure (first :: others)

/-- The validator of a list of kinds: null among them makes the choice of the others nullable. -/
def lowerKindList (k : Keywords) (sub : Json → Pointer → Lowering Validator) (pointer : Pointer)
    (kinds : List String) : Lowering Validator := do
  let alternatives ← k.lowerKinds sub pointer (kinds.filter (· != "null"))
  if kinds.contains "null" then
    match alternatives with
    | [] => pure .null
    | alternatives => pure (.nullable (.choice alternatives))
  else pure (.choice alternatives)

/-- The validator of a node by its kinds: one, a list of them, or one that is inferred. -/
def lowerByKind (k : Keywords) (sub : Json → Pointer → Lowering Validator) (pointer : Pointer) :
    Lowering Validator :=
  match k.declaredType with
  | some (.str kind) => k.lowerKind sub pointer kind
  | some (.arr kinds) => k.lowerKindList sub pointer (kinds.filterMap Json.asString?)
  | some found => malformed pointer (.typeKeyword found)
  | none =>
    if k.properties.isSome then k.lowerKind sub pointer "object"
    else if k.items.isSome then k.lowerKind sub pointer "array"
    else pure .any

/-- The validator of a node without its modifiers. -/
def lowerShape (k : Keywords) (sub : Json → Pointer → Lowering Validator) (pointer : Pointer) :
    Lowering Validator :=
  match k.const, k.enum, k.anyOf, k.oneOf, k.allOf with
  | some value, _, _, _, _ => pure (literal value)
  | none, some (.arr members), _, _, _ => pure (enumeration members)
  | none, _, some arms, _, _ => .choice <$> lowerList sub (pointer ++ ["anyOf"]) arms
  | none, _, none, some arms, _ => .choice <$> lowerList sub (pointer ++ ["oneOf"]) arms
  | none, _, none, none, some parts => do
    match ← lowerList sub (pointer ++ ["allOf"]) parts with
    | [only] => pure only
    | parts => pure (.intersection parts)
  | none, _, none, none, none =>
    if k.reference.isSome then pure .any else k.lowerByKind sub pointer

/-! ## Nodes -/

/-- The validator of an argument that takes a resource. -/
def lowerResource (registry : Registry) (resourceType : String) : Lowering Validator :=
  if Schema.isStorageObject resourceType then do
    demand .storageObject
    pure (.ref Declaration.storageObject.name)
  else if registry.known resourceType then do
    demand (.resourceType resourceType)
    pure (.ref (if registry.hasInstances resourceType then unionName resourceType
      else typeName resourceType))
  else pure .any

/-- The validator of a node. -/
def lower (registry : Registry) (loose : Bool) (sub : Json → Pointer → Lowering Validator)
    (pointer : Pointer) (node : Keywords) : Lowering Validator :=
  let k := node.tidied
  if k.isBase64 then do
    demand .base64Content
    pure (k.decorate (.ref Declaration.base64Content.name))
  else if k.isEmptyObject then pure (k.decorate (.record .any))
  else
    let k := k.selected
    match Schema.resourceTypeOf k.type k.format with
    | some resourceType => k.describe <$> lowerResource registry resourceType
    | none =>
      let k := if loose then k.loosened else k
      k.decorate <$> k.lowerShape sub pointer

end Keywords

namespace Schema

/-- Lower a schema of at most a number of levels at a pointer. -/
def lowerWithin (registry : Registry) : (levels : Nat) → (loose : Bool) → Json → Pointer →
    Lowering Validator
  | _, _, .bool true, _ => pure .any
  | _, _, .bool false, _ => pure .never
  | levels + 1, loose, .obj node, pointer =>
    (Keywords.ofEntries node).lower registry loose (lowerWithin registry levels false) pointer
  | _, _, _, _ => pure .any

/-- The validator that a schema describes. With `loose` the outermost object keeps keys that it does
not declare. A schema has no more levels than its height. -/
def lower (registry : Registry) (loose : Bool) (schema : Json) : Lowering Validator :=
  lowerWithin registry schema.height loose schema []

end Schema

end SchemaClient
