/-
SchemaClient.Main — the program.

It works on the files of the computer. It has no network of its own: every request is lost.
-/
import SchemaClient.CommandLine.Run

open SchemaClient

/-- Why an operation on files failed. -/
def faultOf : IO.Error → IoFault
  | .noFileOrDirectory .. => .notFound
  | .alreadyExists .. => .alreadyThere
  | .inappropriateType .. => .notDirectory
  | other => .other (toString other)

/-- Do something with files. -/
def guarded {α : Type} (act : IO α) : IO (Except IoFault α) := do
  match ← act.toBaseIO with
  | .ok value => return .ok value
  | .error error => return .error (faultOf error)

/-- What a path of the computer leads to. -/
def kindOf (path : String) : IO (Option FileKind) := do
  match ← (IO.FS.realPath path).toBaseIO with
  | .error _ => return none
  | .ok real => return some (if ← real.isDir then .directory else .file)

def computerFiles : FileStore IO where
  kind? := kindOf
  read path := do
    if (← kindOf path) == some .directory then return .error .isDirectory
    else return (← guarded (IO.FS.readBinFile path)).map fun bytes => bytes.toList
  makeDirectories path := guarded (IO.FS.createDirAll path)
  write path content := do
    if (← kindOf path) == some .directory then return .error .isDirectory
    else guarded (IO.FS.writeBinFile path ⟨content.toArray⟩)

def noNetwork : Transport IO where
  send _ := return .lost ["no network"]
  wait time := IO.sleep time.toUInt32
  next _ := return 0

/-- The variables that the program looks at. -/
def variableNames : List String :=
  ["HOME", "XDG_CONFIG_HOME", "TMPDIR", "WM_REMOTE", "WM_WORKSPACE", "WM_TOKEN"]

def main (arguments : List String) : IO UInt32 := do
  let environment ← variableNames.filterMapM fun name => do
    return (← IO.getEnv name).map fun value => (name, value)
  let ending ← CommandLine.run computerFiles noNetwork {
    arguments := arguments
    environment := environment
    directory := (← IO.currentDir).toString }
  (← IO.getStdout).write ⟨ending.console.output.toArray⟩
  ending.console.notes.forM fun text => IO.eprintln text
  return ending.exitCode.toUInt32
