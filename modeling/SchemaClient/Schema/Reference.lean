/-
SchemaClient.Schema.Reference — the resource types that schemas refer to.

* `resourceType?` — the resource type that an object node asks for, by its `format`.
* `isStorageObject` — the types that stand for files rather than for resources of the catalog.
* `visited` — every object node that can be reached through subschema keywords, parents first.
* `resourceTypes` — every resource type a schema refers to, in the order of first mention.
-/
import SchemaClient.Json.Basic

namespace SchemaClient

/-- The text after `mark`, if it begins with it. -/
def after? (mark : List Char) (text : String) : Option String :=
  if mark.isPrefixOf text.toList then some (String.ofList (text.toList.drop mark.length)) else none

namespace Schema

/-- What `format` begins with on an argument that takes a resource. -/
def resourceMark : List Char := "resource-".toList

/-- The resource type named by a `type` and a `format`. -/
def resourceTypeOf (type format : Option Json) : Option String :=
  match type.bind Json.asString? with
  | some "object" => (format.bind Json.asString?).bind (after? resourceMark)
  | _ => none

/-- The resource type that a node asks for. -/
def resourceType? (node : Entries) : Option String :=
  resourceTypeOf (Table.find? node "type") (Table.find? node "format")

/-- Whether a resource type is one of the spellings of a storage object: case and underscores do not
matter. Outside ASCII no letter is the upper case of one of these. -/
def isStorageObject (resourceType : String) : Bool :=
  (resourceType.toList.filter (· != '_')).map Char.toLower == "s3object".toList

/-! ## Visiting subschemas -/

/-- The keywords whose value is one subschema. -/
def singleKeywords : List String := ["items", "additionalProperties", "not", "contains"]

/-- The keywords whose value is a list of subschemas. -/
def listKeywords : List String := ["anyOf", "oneOf", "allOf", "items"]

/-- The keywords whose value is an object of subschemas. -/
def tableKeywords : List String := ["properties", "patternProperties", "definitions", "$defs"]

/-- The values that a node holds under subschema keywords, in the order they are visited. -/
def subschemas (node : Entries) : List Json :=
  singleKeywords.filterMap (Table.find? node) ++
    listKeywords.flatMap (fun key => ((Table.find? node key).bind Json.asArray?).getD []) ++
    tableKeywords.flatMap fun key =>
      (((Table.find? node key).bind Json.asObject?).getD []).map (·.2)

/-- The object nodes down to a number of levels. -/
def visitedWithin : (levels : Nat) → Json → List Entries
  | levels + 1, .obj node => node :: (subschemas node).flatMap (visitedWithin levels)
  | _, _ => []

/-- Every object node of a schema. A schema has no more levels than its height. -/
def visited (schema : Json) : List Entries := visitedWithin schema.height schema

/-- Keep the first of equal texts. -/
def distinct (texts : List String) : List String :=
  texts.foldl (fun seen text => if seen.contains text then seen else seen ++ [text]) []

/-- Every resource type that a schema refers to, in the order of first mention. -/
def resourceTypes (schema : Json) : List String :=
  distinct ((visited schema).filterMap resourceType?)

end Schema

end SchemaClient
