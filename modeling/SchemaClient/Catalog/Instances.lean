/-
SchemaClient.Catalog.Instances — the resources of a workspace by their type.

* `InstanceIndex` — for each resource type the paths of its instances, types and paths in the order
  of the listing.
* `ofListing` — the index of a listing; resources of types that the catalog does not have are left
  out.
* `default?` — the instance that stands in when none is named: the configured one, which has to
  exist, or the only one there is.
-/
import SchemaClient.Catalog.Basic
import SchemaClient.Schema.Reference

namespace SchemaClient

/-- The paths of the instances of each resource type. -/
abbrev InstanceIndex := Table (List String)

namespace InstanceIndex

/-- Add a resource at the end of its type's instances. -/
def add (index : InstanceIndex) (resource : ResourceInstance) : InstanceIndex :=
  Table.alter index resource.resourceType fun paths => paths.getD [] ++ [resource.path]

/-- The index of some resources. -/
def ofList (resources : List ResourceInstance) : InstanceIndex := resources.foldl add []

/-- The index of a listing, without the resources of unknown types. -/
def ofListing (catalog : TypeCatalog) (listing : Listing ResourceInstance) :
    Except Error InstanceIndex :=
  listing.complete.map fun resources =>
    ofList (resources.filter fun resource => Table.has catalog resource.resourceType)

/-- The paths of a type's instances. -/
def paths (index : InstanceIndex) (resourceType : String) : List String :=
  (Table.find? index resourceType).getD []

/-- What references to instances begin with. -/
def referenceMark : List Char := "$res:".toList

/-- The reference to an instance. -/
def reference (path : String) : String := String.ofList (referenceMark ++ path.toList)

/-- A path without the mark of a reference. -/
def bare (path : String) : String := (after? referenceMark path).getD path

/-- The default instance of a type. A configured path may be written as a reference; a configured
null means that there is no default. -/
def default? (index : InstanceIndex) (configured : Table (Option String)) (resourceType : String) :
    Except Error (Option String) :=
  let paths := index.paths resourceType
  match Table.find? configured resourceType, paths with
  | some (some path), _ =>
    if paths.contains (bare path) then .ok (some (bare path))
    else .error (.invalidResourceDefault resourceType (bare path) paths)
  | some none, _ => .ok none
  | none, [only] => .ok (some only)
  | none, _ => .ok none

end InstanceIndex

end SchemaClient
