/-
SchemaClient.CommandLine.Run — a run of the program.

A generation reads the configuration that belongs to the working directory, finds the workspace,
opens the output and writes the generated file to it. What the user should know is noted on the way;
where something fails, the run ends with the whole chain of its causes. The output is created before
anything is asked of the server, so it is empty if the server does not answer.

* `CommandLine.generation` — a generation.
* `CommandLine.run` — a run of the program on any arguments.
-/
import SchemaClient.Catalog.Client
import SchemaClient.CommandLine.Help
import SchemaClient.Config.Discovery
import SchemaClient.Generation.Run
import SchemaClient.Workspace.Store

namespace SchemaClient

namespace CommandLine

/-- What the program is started with. -/
structure Invocation where
  arguments : List String
  environment : Table String := []
  /-- The working directory. -/
  directory : String
  /-- The home directory of the account, for when no variable gives one. -/
  accountHome : Option String := none

/-- What a run says: on the standard output, and in notes for the user. -/
structure Console where
  output : Bytes := []
  notes : List String := []

/-- What a run leaves besides files. -/
structure Ending where
  exitCode : Nat
  console : Console := {}

/-! ## Steps of a generation -/

/-- A run under way: it says things, and may fail with a chain of causes. -/
abbrev Session (m : Type → Type) := ExceptT (List String) (StateT Console m)

/-- An error with all that is behind it. -/
def chain (error : Error) : List String := error.message :: error.causes

section

variable {m : Type → Type} [Monad m] {α : Type}

def note (text : String) : Session m Unit :=
  modify fun console => { console with notes := console.notes ++ [text] }

/-- Put bytes on the standard output. -/
def put (bytes : Bytes) : Session m Unit :=
  modify fun console => { console with output := console.output ++ bytes }

/-- Do something that may fail; `context` is what the user learns first if it does. -/
def attempt (act : m (Except Error α)) (context : List String := []) : Session m α := do
  match ← (act : m (Except Error α)) with
  | .ok value => return value
  | .error error => throw (context ++ chain error)

/-- Do something with files that may fail. -/
def attemptIo (act : m (Except IoFault α)) (context : List String := []) : Session m α := do
  match ← (act : m (Except IoFault α)) with
  | .ok value => return value
  | .error fault => throw (context ++ [fault.message])

end

/-- The options, completed from variables. -/
def Options.completed (options : Options) (environment : Table String) : Options :=
  { options with
    remote := options.remote <|> environment.find? "WM_REMOTE"
    workspaceId := options.workspaceId <|> environment.find? "WM_WORKSPACE"
    token := options.token <|> environment.find? "WM_TOKEN" }

/-- Where the store of credentials is: in the directory for settings, which a variable can name, or
else among temporary files. -/
def storeDirectory (inv : Invocation) : String :=
  let home := ((inv.environment.find? "HOME").filter (· != "")) <|> inv.accountHome
  let named := (inv.environment.find? "XDG_CONFIG_HOME").filter Path.isAbsolute
  let temporary := (inv.environment.find? "TMPDIR").getD "/tmp"
  let settings := named <|> home.map (Path.join · ".config")
  Path.join (settings.getD temporary) "windmill"

/-- A path without what changes nothing, except for a slash at the end. -/
def tidied (path : String) : String :=
  let text := Path.ofComponents (Path.components path)
  if path.toList.getLast? = some '/' ∧ text ≠ "/" then text ++ "/" else text

/-- The workspace on a remote that is given in full. -/
def explicitWorkspace (options : Options) (remote : String) : Except (List String) Workspace :=
  match options.workspaceId, options.token with
  | some workspaceId, some token =>
    .ok { remote := remote, workspaceId := workspaceId,
          name := options.workspace.getD workspaceId, token := token }
  | _, _ => .error ["--remote needs both --workspace-id and --token"]

section

variable {m : Type → Type} [Monad m]

/-- The workspace to generate for: on the remote that is given, or from the store. -/
def chooseWorkspace (files : FileReader m) (inv : Invocation) (options : Options) (quiet : Bool) :
    Session m Workspace := do
  match options.remote with
  | some remote => explicitWorkspace options remote
  | none =>
    let store := storeDirectory inv
    if options.workspace.isNone && !quiet then
      if let some active ← attempt (WorkspaceStore.active? files store) then
        note ("⚠️ Workspace name not provided, defaulting to \"" ++ active ++ "\"")
    attempt (WorkspaceStore.find files store options.workspace) ["looked in " ++ store]

/-- Note the sections that the configuration leaves out. -/
def noteDisabled (config : Config) : Session m Unit := do
  unless config.scripts.enabled do note "⚠️ Script generation is disabled in config"
  unless config.flows.enabled do note "⚠️ Flow generation is disabled in config"

/-- What is noted when a section announces a phase. -/
def phaseNote (kind : SectionKind) : Phase → String
  | .fetching => kind.label ++ ": fetching"
  | .transforming => kind.label ++ ": transforming"
  | .emitting => kind.label ++ ": emitting"
  | .done => kind.label ++ ": done"
  | .errored message => kind.label ++ ": failed (" ++ message ++ ")"

/-- The bytes that a generation has written. -/
def written (generation : Generation) : Bytes :=
  match generation.outlet with
  | .sink sink => sink.content
  | .buffer text => Utf8.encode text

/-- Say how a generation came out. -/
def conclude (report : Report) : Session m Unit := do
  for (kind, error) in report.failures do
    note ("✗ " ++ kind.label ++ ": " ++ error.message)
  unless report.isSuccess do
    throw [toString report.failures.length ++ " section(s) failed to generate"]

/-- Generate to the standard output. -/
def generateToOutput (source : Source m) (config : Config) (directory : String) :
    Session m Report := do
  let generation ← (generate source config directory (.sink {}) : m Generation)
  put (written generation)
  attempt (pure generation.result)

/-- Generate into a file. -/
def generateToFile (files : FileStore m) (source : Source m) (config : Config) (path : String)
    (directory : String) : Session m Report := do
  let parent := (Path.parent? path).getD directory
  attemptIo (files.makeDirectories parent)
  let context := ["failed to create " ++ path]
  attemptIo (files.write path []) context
  let generation ← (generate source config parent (.sink {}) : m Generation)
  attemptIo (files.write path (written generation)) context
  for (kind, phase) in generation.announced do note (phaseNote kind phase)
  attempt (pure generation.result)

/-- A generation. -/
def generation (files : FileStore m) (transport : Transport m) (inv : Invocation)
    (options : Options) : Session m Unit := do
  let some output := options.output | throw ["missing <OUTPUT>; pass `-` to write to stdout"]
  let quiet := output == "-"
  let config ← attempt (Config.load files.toFileReader inv.directory)
  noteDisabled config
  let workspace ← chooseWorkspace files.toFileReader inv options quiet
  let client ← attempt (pure
    (Client.connect workspace.remote workspace.workspaceId workspace.token))
  let source := { client with
    retry := config.fetchRetry, concurrency := config.concurrency }.source transport
  if quiet then
    conclude (← generateToOutput source config inv.directory)
  else
    let path := tidied (Path.join inv.directory output)
    conclude (← generateToFile files source config path inv.directory)
    note ("✓ wrote " ++ output)

/-- A run of the program. -/
def run (files : FileStore m) (transport : Transport m) (inv : Invocation) : m Ending := do
  match parse inv.arguments with
  | .error fault => return ⟨2, { notes := ["error: " ++ fault.message] }⟩
  | .ok .version => return ⟨0, { output := Utf8.encode versionText }⟩
  | .ok (.help topic) => return ⟨0, { output := Utf8.encode (helpText inv.environment topic) }⟩
  | .ok (.generate options) =>
    match ← ((generation files transport inv (options.completed inv.environment)).run).run {} with
    | (.ok (), console) => return ⟨0, console⟩
    | (.error causes, console) =>
      let cause := "error: " ++ String.intercalate ": " causes
      return ⟨1, { console with notes := console.notes ++ [cause] }⟩

end

end CommandLine

end SchemaClient
