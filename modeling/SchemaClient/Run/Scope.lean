/-
SchemaClient.Run.Scope — declaring what schemas demand.

A run knows its resource types and its configuration from the start; that is its SCOPE. Lowering a
schema in it leaves demands, and fulfilling a demand makes declarations:

* the two shared validators have fixed texts;
* a resource type `T` gets `<T>_type` for its own values and, if it has instances, `<T>_references`
  for references to them and `<T>_resource` for either.

The schema of a resource type may demand other resource types, and itself again. A demand that is
being fulfilled is claimed, so it is not entered again: `declare` carries the types whose
declarations are NOT being built, and takes one of them out for each level it goes down.
-/
import SchemaClient.Config.Basic
import SchemaClient.Run.Ledger
import SchemaClient.Schema.Lowering

namespace SchemaClient

namespace Table

variable {α : Type}

/-- The value of a name, and the table without it. -/
def take? (table : Table α) (name : String) : Option (α × Table α) :=
  match table with
  | [] => none
  | (n, value) :: rest =>
    if n = name then some (value, rest)
    else (take? rest name).map fun (found, others) => (found, (n, value) :: others)

theorem length_of_take? {table others : Table α} {name : String} {value : α}
    (h : take? table name = some (value, others)) : others.length < table.length := by
  induction table generalizing others with
  | nil => simp [take?] at h
  | cons entry rest ih =>
    obtain ⟨n, v⟩ := entry
    simp only [take?] at h
    split at h
    · simp_all
    · obtain ⟨⟨found, below⟩, hfound, heq⟩ := Option.map_eq_some_iff.1 h
      simp only [Prod.mk.injEq] at heq
      obtain ⟨rfl, rfl⟩ := heq
      simpa using ih hfound

end Table

/-- What is fixed for a run. -/
structure Scope where
  catalog : TypeCatalog
  config : Config
  outputRoot : String

namespace Scope

/-- What lowering needs to know. -/
def registry (scope : Scope) (ledger : Ledger) : Registry where
  known := Table.has scope.catalog
  hasInstances := ledger.hasInstances

/-- The error of a malformed schema. -/
def schemaError (fault : SchemaFault) : Error :=
  .invalidSchema fault.pointer.text fault.malformation.message

/-- The description that a resource type adds to its validator: its own, unless the schema has
one. -/
def addedDescription? (type : ResourceType) : Option String :=
  let described : Bool :=
    match (type.schema.bind (·.member? "description")).bind Json.asString? with
    | some text => !text.isEmpty
    | none => false
  match type.description with
  | some text => if text.isEmpty || described then none else some text
  | none => none

/-- The validator of references to instances, with the default among them. -/
def references (paths : List String) (default : Option String) : Validator :=
  let all : Validator :=
    match paths.map InstanceIndex.reference with
    | [only] => .literal (.str only)
    | several => .enumeration several
  match default with
  | some path => .defaulted all (.str (InstanceIndex.reference path))
  | none => all

/-- The declarations of a resource type whose own validator has this text. -/
def typeDeclarations (scope : Scope) (index : InstanceIndex) (resourceType typeSource : String) :
    Except Error (List Declaration) :=
  let own : Declaration := ⟨typeName resourceType, typeSource⟩
  match index.paths resourceType with
  | [] => .ok [own]
  | paths => do
    let default ← index.default? scope.config.resources.defaults resourceType
    .ok [own, ⟨referencesName resourceType, (references paths default).source⟩,
      ⟨unionName resourceType,
        "z.union([" ++ referencesName resourceType ++ ", " ++ typeName resourceType ++ "])"⟩]

/-- The identity under which a resource type is declared. -/
def typeIdentity (resourceType : String) : String := "resource-type:" ++ resourceType

/-- Fulfil a demand. `idle` has the resource types that are not being declared further out. -/
def declare (scope : Scope) (idle : TypeCatalog) (demand : Demand) : Work Unit :=
  match demand with
  | .base64Content => Work.once "base64-content" (pure [Declaration.base64Content])
  | .storageObject => Work.once "s3-object" (pure [Declaration.storageObject])
  | .resourceType name => Work.once (typeIdentity name) do
    let ledger ← get
    let some index := ledger.index | throw (.instancesUnresolved name)
    match h : Table.take? idle name with
    | none => scope.typeDeclarations index name Validator.any.source
    | some (type, others) =>
      have := Table.length_of_take? h
      let own ← match type.schema with
        | none => pure Validator.any.source
        | some schema => do
          let lowering := Schema.lower (scope.registry ledger) false schema
          lowering.demands.forM (declare scope others)
          match lowering.result with
          | .ok validator => pure validator.source
          | .error fault => throw (schemaError fault)
      let described := match addedDescription? type with
        | some text => own ++ ".describe(" ++ quote text ++ ")"
        | none => own
      scope.typeDeclarations index name described
termination_by idle.length

/-- The validator of a schema, with everything it demands declared. -/
def validator (scope : Scope) (loose : Bool) (schema : Json) : Work Validator := do
  let lowering := Schema.lower (scope.registry (← get)) loose schema
  lowering.demands.forM (scope.declare scope.catalog)
  match lowering.result with
  | .ok validator => pure validator
  | .error fault => throw (schemaError fault)

/-- The source text of a schema's validator, with everything it demands declared. -/
def transform (scope : Scope) (loose : Bool) (schema : Json) : Work String := do
  pure (← scope.validator loose schema).source

/-- Declare a resource type, whether or not the catalog has it. -/
def declareType (scope : Scope) (resourceType : String) : Work Unit :=
  scope.declare scope.catalog (.resourceType resourceType)

/-- Declare a resource type and refer to it. -/
def reference (scope : Scope) (resourceType : String) : Work Validator := do
  scope.declareType resourceType
  let ledger ← get
  pure (.ref (if ledger.hasInstances resourceType then unionName resourceType
    else typeName resourceType))

/-- The instance index, from the first listing of the resources that succeeds. -/
def instances {m : Type → Type} [Monad m] (scope : Scope) (source : Source m) :
    StateT Ledger m (Except Error InstanceIndex) := fun ledger =>
  match ledger.index with
  | some index => pure (.ok index, ledger)
  | none => do
    match InstanceIndex.ofListing scope.catalog (← source.resources none) with
    | .ok index => pure (.ok index, { ledger with index := some index })
    | .error error => pure (.error error, ledger)

end Scope

end SchemaClient
