/-
SchemaClient.Config.Discovery — the configuration that belongs to a directory.

The search goes from a directory up to the root. It ends at the first directory that has a
configuration file, or that is marked as the directory of a project and has none. Two configuration
files in one directory are an error.

* `Config.search` — the search through directories in order.
* `Config.nearest` — the configuration file that belongs to a directory.
* `Config.load` — the configuration that belongs to a directory; without a file it is the default.
-/
import SchemaClient.Config.Reading
import SchemaClient.Files.Basic

namespace SchemaClient

namespace Config

/-- The names that a configuration file can have. -/
def fileNames : List String := ["windmill-ts.yaml", "windmill-ts.yml"]

/-- What marks the directory of a project. -/
def projectMarks : List String := ["package.json", ".git"]

variable {m : Type → Type} [Monad m]

/-- The configuration files in a directory. -/
def filesIn (files : FileReader m) (directory : String) : m (List String) :=
  (fileNames.map (Path.join directory)).filterM files.isFile

/-- Whether a directory is marked as that of a project. -/
def isProject (files : FileReader m) (directory : String) : m Bool :=
  (projectMarks.map (Path.join directory)).anyM files.isThere

/-- Search directories in order for a configuration file. -/
def search (files : FileReader m) : List String → m (Except Error (Option String))
  | [] => return .ok none
  | directory :: rest => do
    match ← filesIn files directory with
    | [file] => return .ok (some file)
    | [] => if ← isProject files directory then return .ok none else search files rest
    | several => return .error (.ambiguousConfig directory (String.intercalate ", " several))

/-- The configuration file that belongs to a directory. -/
def nearest (files : FileReader m) (directory : String) : m (Except Error (Option String)) :=
  search files (Path.ancestors directory)

/-- The configuration that belongs to a directory. -/
def load (files : FileReader m) (directory : String) : m (Except Error Config) := do
  match ← nearest files directory with
  | .error error => return .error error
  | .ok none => return .ok {}
  | .ok (some file) =>
    match ← files.readText file with
    | .error fault => return .error (.io fault)
    | .ok text => return ofYaml text file

end Config

end SchemaClient
