/-
SchemaClient.Workspace.Store — workspaces and the store of their credentials.

One file of the store has a workspace on each line, as JSON; lines of at most two bytes are skipped.
Of the lines with one name the last one counts. Another file has the name of the active workspace.

* `Workspace` — where a workspace is and what opens it.
* `WorkspaceStore.parse` — the workspaces in the text of the first file, or its first wrong line.
* `WorkspaceStore.all`, `WorkspaceStore.active?`, `WorkspaceStore.find` — what the store says.
-/
import SchemaClient.Error
import SchemaClient.Files.Basic
import SchemaClient.Json.Decoder
import SchemaClient.Path
import SchemaClient.Text.Parts

namespace SchemaClient

/-- Where a workspace lives, and the token that opens it. -/
structure Workspace where
  remote : String
  workspaceId : String
  /-- The name it goes by in the store of credentials. -/
  name : String
  token : String
  deriving DecidableEq, Repr

open DataFormat in
def Workspace.decoder {D : Type → Type} [DataFormat D] : D Workspace :=
  record {
    name := "Workspace"
    start := ⟨"", "", "", ""⟩
    fields := [
      .mustHave "remote" text fun remote w => { w with remote := remote },
      .mustHave "workspaceId" text fun workspaceId w => { w with workspaceId := workspaceId },
      .mustHave "name" text fun name w => { w with name := name },
      .mustHave "token" text fun token w => { w with token := token }] }

namespace WorkspaceStore

/-- Whether a line is skipped. -/
def isSkipped (line : List Char) : Bool :=
  (Utf8.encode (String.ofList (trimmed line))).length ≤ 2

/-- Read a line, counted from one. -/
def parseLine (path : String) (number : Nat) (line : List Char) : Except Error Workspace :=
  (Json.Decoder.read Workspace.decoder (Utf8.encode (String.ofList line))).mapError fun message =>
    .workspaceStore path ("line " ++ toString number ++ ": " ++ message)

/-- Add the workspaces of lines, the first of which has the given number, to a table. -/
def parseFrom (path : String) (number : Nat) (table : Table Workspace) :
    List (List Char) → Except Error (Table Workspace)
  | [] => .ok table
  | line :: rest =>
    if isSkipped line then parseFrom path (number + 1) table rest
    else do
      let workspace ← parseLine path number line
      parseFrom path (number + 1) (table.put workspace.name workspace) rest

/-- The workspaces in a text, by their names; `path` is where the text comes from. -/
def parse (path text : String) : Except Error (Table Workspace) :=
  parseFrom path 1 [] (linesOf text.toList)

variable {m : Type → Type} [Monad m]

/-- Every workspace of the store in a directory, by its name. -/
def all (files : FileReader m) (directory : String) : m (Except Error (Table Workspace)) := do
  let path := Path.join directory "remotes.ndjson"
  match ← files.readText? path with
  | .error fault => return .error (.io fault)
  | .ok none => return .ok []
  | .ok (some text) => return parse path text

/-- The name of the active workspace. -/
def active? (files : FileReader m) (directory : String) : m (Except Error (Option String)) := do
  match ← files.readText? (Path.join directory "activeWorkspace") with
  | .error fault => return .error (.io fault)
  | .ok text =>
    return .ok (text.bind fun text =>
      let name := trimmed text.toList
      if name.isEmpty then none else some (String.ofList name))

/-- The workspace of a name. -/
def select (name : String) (table : Table Workspace) : Except Error Workspace :=
  match table.find? name with
  | some workspace => .ok workspace
  | none => .error (.workspaceNotFound name)

/-- The workspace of a name, or the active one if no name is given. -/
def find (files : FileReader m) (directory : String) (name : Option String) :
    m (Except Error Workspace) := do
  let wanted ← match name with
    | some name => pure (.ok (some name))
    | none => active? files directory
  match wanted with
  | .error error => return .error error
  | .ok none => return .error (.workspaceNotFound "<active>")
  | .ok (some name) =>
    return (← all files directory).bind (select name)

end WorkspaceStore

end SchemaClient
