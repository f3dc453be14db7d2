/-
SchemaClient.Schema.Keywords — the keywords of a schema node.

An object schema is read once into a record of the keywords that mean something here; whatever is
done to a node before it is lowered is then an update of this record, never of the schema itself.

A keyword that is there with the value null is not the same as one that is missing: `const: null`
is a literal, and `anyOf: null` is malformed.
-/
import SchemaClient.Validator.Basic

namespace SchemaClient

/-- The values of a node's keywords. -/
structure Keywords where
  type : Option Json
  format : Option Json
  /-- What `originalType` gives. -/
  optionKind : Option Json
  contentEncoding : Option Json
  const : Option Json
  enum : Option Json
  default : Option Json
  description : Option Json
  nullable : Option Json
  anyOf : Option Json
  oneOf : Option Json
  allOf : Option Json
  reference : Option Json
  properties : Option Json
  patternProperties : Option Json
  additionalProperties : Option Json
  required : Option Json
  items : Option Json
  minItems : Option Json
  maxItems : Option Json
  pattern : Option Json
  minLength : Option Json
  maxLength : Option Json
  minimum : Option Json
  maximum : Option Json
  exclusiveMinimum : Option Json
  exclusiveMaximum : Option Json
  multipleOf : Option Json

namespace Keywords

/-- The keywords of a node with these entries. -/
def ofEntries (entries : Entries) : Keywords where
  type := Table.find? entries "type"
  format := Table.find? entries "format"
  optionKind := Table.find? entries "originalType"
  contentEncoding := Table.find? entries "contentEncoding"
  const := Table.find? entries "const"
  enum := Table.find? entries "enum"
  default := Table.find? entries "default"
  description := Table.find? entries "description"
  nullable := Table.find? entries "nullable"
  anyOf := Table.find? entries "anyOf"
  oneOf := Table.find? entries "oneOf"
  allOf := Table.find? entries "allOf"
  reference := Table.find? entries "$ref"
  properties := Table.find? entries "properties"
  patternProperties := Table.find? entries "patternProperties"
  additionalProperties := Table.find? entries "additionalProperties"
  required := Table.find? entries "required"
  items := Table.find? entries "items"
  minItems := Table.find? entries "minItems"
  maxItems := Table.find? entries "maxItems"
  pattern := Table.find? entries "pattern"
  minLength := Table.find? entries "minLength"
  maxLength := Table.find? entries "maxLength"
  minimum := Table.find? entries "minimum"
  maximum := Table.find? entries "maximum"
  exclusiveMinimum := Table.find? entries "exclusiveMinimum"
  exclusiveMaximum := Table.find? entries "exclusiveMaximum"
  multipleOf := Table.find? entries "multipleOf"

/-! ## Kinds -/

/-- The seven kinds of value that a `type` can name. -/
def kinds : List String :=
  ["string", "number", "integer", "boolean", "array", "object", "null"]

/-- The `type` of a node; null reads as absent. -/
def declaredType (k : Keywords) : Option Json :=
  match k.type with
  | some .null => none
  | type => type

/-- The one kind that a node declares, or `object` when it only gives properties. -/
def kind? (k : Keywords) : Option String :=
  match k.declaredType with
  | some (.str kind) => some kind
  | some _ => none
  | none => if k.properties.isSome then some "object" else none

/-- The text of a node's `format`. -/
def formatText? (k : Keywords) : Option String := k.format.bind Json.asString?

/-! ## Adjusting

A default that is null or that the node's own `enum` refuses is no default, and an `enum` of null
does not constrain text. -/

/-- Drop a default of null. -/
def dropNullDefault (k : Keywords) : Keywords :=
  match k.default with
  | some .null => { k with default := none }
  | _ => k

/-- Drop a default that is not one of the values of the `enum`. -/
def dropForeignDefault (k : Keywords) : Keywords :=
  match k.enum, k.default with
  | some (.arr members), some default =>
    if members.any (·.same default) then k else { k with default := none }
  | _, _ => k

/-- Drop an `enum` of null from a text. -/
def dropNullEnum (k : Keywords) : Keywords :=
  match k.enum with
  | some .null => if k.kind? = some "string" then { k with enum := none } else k
  | _ => k

/-- The keywords without those that say nothing. -/
def tidied (k : Keywords) : Keywords := k.dropNullDefault.dropForeignDefault.dropNullEnum

/-- Whether the node is text with base64 content. -/
def isBase64 (k : Keywords) : Bool :=
  k.kind? == some "string" && k.contentEncoding.bind Json.asString? == some "base64"

/-- Whether a keyword's value says something about the shape of an object: null does not, nor does
an empty object. -/
def saysSomething : Option Json → Bool
  | none => false
  | some .null => false
  | some (.obj entries) => !entries.isEmpty
  | some _ => true

/-- Whether the node is an object about which nothing is said. -/
def isEmptyObject (k : Keywords) : Bool :=
  k.kind? == some "object" &&
    !([k.properties, k.additionalProperties, k.patternProperties, k.format, k.anyOf, k.oneOf,
      k.allOf].any saysSomething)

/-- What `format` begins with on a select whose options are computed. -/
def dynamicSelectMark : List Char := "dynselect-".toList

/-- Whether the node is a select whose options are computed. -/
def isDynamicSelect (k : Keywords) : Bool :=
  match k.formatText? with
  | some format => dynamicSelectMark.isPrefixOf format.toList
  | none => false

/-- A select takes values of the kind that its `originalType` names; without one that is a kind, its
own `type` and `properties` mean nothing. -/
def selected (k : Keywords) : Keywords :=
  if k.isDynamicSelect then
    match k.optionKind.bind Json.asString? with
    | some kind =>
      if kinds.contains kind then { k with format := none, type := some (.str kind) }
      else { k with format := none, type := none, properties := none }
    | none => { k with format := none, type := none, properties := none }
  else k

/-- Let an object keep keys that it does not declare. -/
def loosened (k : Keywords) : Keywords :=
  if k.kind? = some "object" then { k with additionalProperties := some (.bool true) } else k

/-! ## Reading single keywords -/

/-- The description, unless it is empty. -/
def description? (k : Keywords) : Option String :=
  match k.description with
  | some (.str text) => if text.isEmpty then none else some text
  | _ => none

/-- Whether the node says that it may be null. -/
def isNullable (k : Keywords) : Bool := k.nullable.bind Json.asBool? == some true

/-- The names of the properties that have to be there. -/
def requiredNames (k : Keywords) : List String :=
  match k.required with
  | some (.arr names) => names.filterMap Json.asString?
  | _ => []

/-- A keyword that is true. -/
def isOn (keyword : Option Json) : Bool := keyword.bind Json.asBool? == some true

/-- The node's limits on numbers. An exclusive limit is a number of its own or, in the older
spelling, `true`, which makes the inclusive one exclusive. -/
def limits (k : Keywords) : Bounds where
  min := if isOn k.exclusiveMinimum then none else k.minimum.bind Json.asNumber?
  max := if isOn k.exclusiveMaximum then none else k.maximum.bind Json.asNumber?
  exclusiveMin :=
    if isOn k.exclusiveMinimum then k.minimum.bind Json.asNumber?
    else k.exclusiveMinimum.bind Json.asNumber?
  exclusiveMax :=
    if isOn k.exclusiveMaximum then k.maximum.bind Json.asNumber?
    else k.exclusiveMaximum.bind Json.asNumber?
  multipleOf := k.multipleOf.bind Json.asNumber?

end Keywords

end SchemaClient
