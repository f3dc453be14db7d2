/-
SchemaClient.Catalog.Basic — what a workspace offers.

* `ResourceType`, `ResourceInstance`, `Artifact` — the items of its four listings.
* `Listing` — what a listing yielded, and the error that ended it, if one did.
* `Source` — a workspace that can be listed, in some monad: a value in memory, or a server.
* `MemoryCatalog` — a workspace in memory, whose listings can be made to fail.
-/
import SchemaClient.Error
import SchemaClient.Json.Basic

namespace SchemaClient

/-- A named description of values that can be stored as resources. -/
structure ResourceType where
  name : String
  schema : Option Json := none
  description : Option String := none
  deriving DecidableEq, Repr

/-- A stored resource. -/
structure ResourceInstance where
  path : String
  resourceType : String
  deriving DecidableEq, Repr

/-- A script or a flow, with the schema of its arguments. -/
structure Artifact where
  path : String
  schema : Option Json := none
  deriving DecidableEq, Repr

/-- The resource types by name. -/
abbrev TypeCatalog := Table ResourceType

/-- The catalog of a list of types: of types of one name the first keeps its place and the last its
content. -/
def TypeCatalog.ofList (types : List ResourceType) : TypeCatalog :=
  types.foldl (fun catalog type => Table.put catalog type.name type) []

/-- The items a listing yielded, and the error that ended it early. -/
structure Listing (α : Type) where
  items : List α
  failure : Option Error := none

/-- The items, unless the listing failed. -/
def Listing.complete {α : Type} (listing : Listing α) : Except Error (List α) :=
  match listing.failure with
  | none => .ok listing.items
  | some error => .error error

/-- A workspace whose content can be listed. -/
structure Source (m : Type → Type) where
  resourceTypes : m (Except Error TypeCatalog)
  /-- The resources, of one type or of all. -/
  resources : Option String → m (Listing ResourceInstance)
  scripts : m (Listing Artifact)
  flows : m (Listing Artifact)

/-! ## Workspaces in memory -/

/-- The four listings. -/
inductive ListingKind where
  | resourceTypes
  | resources
  | scripts
  | flows
  deriving DecidableEq, Repr

def ListingKind.label : ListingKind → String
  | resourceTypes => "resource types"
  | resources => "resources"
  | scripts => "scripts"
  | flows => "flows"

/-- A workspace in memory; the listings in `failing` fail. -/
structure MemoryCatalog where
  types : List ResourceType := []
  resources : List ResourceInstance := []
  scripts : List Artifact := []
  flows : List Artifact := []
  failing : List ListingKind := []

namespace MemoryCatalog

/-- Give the first type of a name a description. -/
def described (types : List ResourceType) (name description : String) : List ResourceType :=
  match types with
  | [] => []
  | type :: rest =>
    if type.name = name then { type with description := some description } :: rest
    else type :: described rest name description

/-- The error of a listing that fails. -/
def failure (kind : ListingKind) : Error := .catalog kind.label "injected failure"

/-- The listing of some items. -/
def listing {α : Type} (catalog : MemoryCatalog) (kind : ListingKind) (items : List α) :
    Listing α :=
  if catalog.failing.contains kind then ⟨[], some (failure kind)⟩ else ⟨items, none⟩

/-- The workspace as a source, in any monad. -/
def source (catalog : MemoryCatalog) {m : Type → Type} [Monad m] : Source m where
  resourceTypes :=
    pure ((catalog.listing .resourceTypes catalog.types).complete.map TypeCatalog.ofList)
  resources resourceType :=
    let wanted (resource : ResourceInstance) : Bool :=
      match resourceType with
      | none => true
      | some type => resource.resourceType == type
    pure (catalog.listing .resources (catalog.resources.filter wanted))
  scripts := pure (catalog.listing .scripts catalog.scripts)
  flows := pure (catalog.listing .flows catalog.flows)

end MemoryCatalog

end SchemaClient
