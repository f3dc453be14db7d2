/-
SchemaClient.Section.Runnables — the sections of what can be run: scripts and flows.

Either section is the accessors, a declaration for every artifact that has a schema, and the table
from paths to declarations. The instance index is needed as soon as one of the schemas refers to a
resource type of the catalog.
-/
import SchemaClient.Run.Scope
import SchemaClient.Section.Resources

namespace SchemaClient

/-- What tells the two sections apart. -/
structure RunnableSection where
  /-- The name of the table, which the names of the declarations begin with. -/
  table : String
  accessors : String
  options : RunnableOptions

namespace RunnableSection

/-- An accessor that checks the arguments and hands them on. -/
def accessor (name table argument call : String) : String :=
  "export const " ++ name ++ " = <Path extends keyof typeof " ++ table ++ ">(
  " ++ argument ++ ": Path,
  args: z.input<(typeof " ++ table ++ ")[Path]>,
) => \x7b
  const schema = " ++ table ++ "[" ++ argument ++ "];

  return wmill." ++ name ++ "(" ++ call ++ ", schema.parse(args));
\x7d;
"

def scripts (config : Config) : RunnableSection where
  table := "scripts"
  accessors :=
    accessor "runScript" "scripts" "scriptPath" "scriptPath, null" ++ "\n" ++
      accessor "runScriptAsync" "scripts" "scriptPath" "scriptPath, null"
  options := config.scripts

def flows (config : Config) : RunnableSection where
  table := "flows"
  accessors :=
    accessor "runFlow" "flows" "flowPath" "flowPath" ++ "\n" ++
      accessor "runFlowAsync" "flows" "flowPath" "flowPath"
  options := config.flows

/-- Whether one of the schemas refers to a resource type of the catalog. -/
def needsInstances (catalog : TypeCatalog) (artifacts : List Artifact) : Bool :=
  (artifacts.filterMap (·.schema)).any fun schema =>
    (Schema.resourceTypes schema).any fun resourceType =>
      !Schema.isStorageObject resourceType && Table.has catalog resourceType

/-- Say which artifact a malformed schema belongs to. -/
def locate (path : String) : Error → Error
  | .invalidSchema location message => .invalidSchema (path ++ location) message
  | error => error

/-- The name of an artifact's declaration. -/
def declarationName (self : RunnableSection) (path : String) : String :=
  identifier (self.table ++ "_" ++ path)

/-- The declarations of the artifacts that have a schema, by path. -/
def declarations (self : RunnableSection) (scope : Scope) :
    List Artifact → Work (List (String × Declaration))
  | [] => pure []
  | artifact :: rest =>
    match artifact.schema with
    | none => self.declarations scope rest
    | some schema => do
      let source ← (scope.transform self.options.looseArgs schema).adapt (locate artifact.path)
      let others ← self.declarations scope rest
      pure ((artifact.path, ⟨self.declarationName artifact.path, source⟩) :: others)

/-- The section's lines. -/
def lines (self : RunnableSection) (declarations : List (String × Declaration)) : List String :=
  [self.accessors] ++ declarations.map (fun (_, declaration) => declaration.render) ++
  ["const " ++ self.table ++ " = lazyObject(() => (\x7b"] ++
  declarations.map (fun (path, declaration) => Section.tableEntry path declaration.name) ++
  ["\x7d as const));"]

/-- Declare what the schemas demand and compose the section's lines. -/
def compose (self : RunnableSection) (scope : Scope) (artifacts : List Artifact) :
    Work (List String) := do
  pure (self.lines (← self.declarations scope artifacts))

end RunnableSection

end SchemaClient
