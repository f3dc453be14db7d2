/-
SchemaClient.Section.Resources — the section of the stored resources.

Its text is the accessor, the table from paths to validators, the type of all resource types in
ascending order of their names, and the table of default instances.
-/
import SchemaClient.Run.Scope
import SchemaClient.Section.Basic

namespace SchemaClient

namespace Section

/-- The name under which the hook is imported. -/
def hookName : String := "postProcessResource"

/-- The accessor; with a hook every fetched value passes through it. -/
def resourceAccessor (hooked : Bool) : String :=
  "export const getResource = async <Path extends keyof typeof resourceToType>(
  path: Path,
): Promise<z.infer<(typeof resourceToType)[Path]>> => \x7b
  const schema = resourceToType[path];
" ++ (if hooked then "  const data = await postProcessResource(await wmill.getResource(path), path);
" else "  const data = await wmill.getResource(path);
") ++ "
  return schema.parse(data);
\x7d;
"

/-- Check every configured path, of types with instances or without. -/
def checkConfigured (index : InstanceIndex) (configured : Table (Option String)) :
    Table (Option String) → Except Error Unit
  | [] => .ok ()
  | (_, none) :: rest => checkConfigured index configured rest
  | (resourceType, some _) :: rest => do
    let _ ← index.default? configured resourceType
    checkConfigured index configured rest

/-- Declare the types that have instances; the defaults of those that have one. -/
def declareIndexed (scope : Scope) (index : InstanceIndex) :
    List String → Work (Table String)
  | [] => pure []
  | resourceType :: rest => do
    scope.declareType resourceType
    let default ← index.default? scope.config.resources.defaults resourceType
    let others ← declareIndexed scope index rest
    match default with
    | some path => pure ((resourceType, path) :: others)
    | none => pure others

/-- An entry of a table in the generated text. -/
def tableEntry (key value : String) : String := quote key ++ ": " ++ value ++ ","

/-- The section's lines. -/
def resourceLines (scope : Scope) (index : InstanceIndex) (defaults : Table String) :
    List String :=
  [resourceAccessor scope.config.resources.postProcess.isSome,
    "const resourceToType = lazyObject(() => (\x7b"] ++
  index.flatMap (fun (resourceType, paths) =>
    paths.map fun path => tableEntry path (typeName resourceType)) ++
  ["\x7d as const));", "export type ResourceTypes = \x7b"] ++
  ((Table.names index).mergeSort fun a b => decide (a ≤ b)).map (fun resourceType =>
    tableEntry resourceType ("z.infer<typeof " ++ typeName resourceType ++ ">")) ++
  ["\x7d;", "export const resourceDefaults = \x7b"] ++
  defaults.map (fun (resourceType, path) => tableEntry resourceType (quote path)) ++
  ["\x7d as const;"]

/-- Declare what the section refers to and compose its lines. -/
def composeResources (scope : Scope) (index : InstanceIndex) : Work (List String) := do
  let configured := scope.config.resources.defaults
  checkConfigured index configured configured
  let defaults ← declareIndexed scope index (Table.names index)
  pure (resourceLines scope index defaults)

end Section

end SchemaClient
