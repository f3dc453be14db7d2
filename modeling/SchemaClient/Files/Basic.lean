/-
SchemaClient.Files.Basic — access to files.

Files are reached through a `FileReader`, or a `FileStore` where something is to be written, in some
monad: a tree of files in memory, or the files of the computer.

* `IoFault` — why something could not be read or written.
* `FileReader`, `FileStore` — what can be done with files.
-/
import SchemaClient.Text.Utf8

namespace SchemaClient

/-- Why a file or the output could not be read or written. -/
inductive IoFault where
  | notFound
  | alreadyThere
  | isDirectory
  | notDirectory
  /-- The content is no text. -/
  | notText
  /-- The output takes no more. -/
  | full
  /-- The output took nothing of a write. -/
  | nothingTaken
  | other (text : String)
  deriving DecidableEq, Repr

def IoFault.message : IoFault → String
  | notFound => "No such file or directory (os error 2)"
  | alreadyThere => "File exists (os error 17)"
  | isDirectory => "Is a directory (os error 21)"
  | notDirectory => "Not a directory (os error 20)"
  | notText => "stream did not contain valid UTF-8"
  | full => "sink full"
  | nothingTaken => "write zero"
  | other text => text

/-- What a path can lead to. -/
inductive FileKind where
  | file
  | directory
  deriving DecidableEq, Repr

/-- Reading files. -/
structure FileReader (m : Type → Type) where
  /-- What a path leads to, if it leads to anything. -/
  kind? : String → m (Option FileKind)
  /-- The content of the file that a path leads to. -/
  read : String → m (Except IoFault Bytes)

/-- Reading and writing files. -/
structure FileStore (m : Type → Type) extends FileReader m where
  /-- Make a directory, and first those that it should stand in. -/
  makeDirectories : String → m (Except IoFault Unit)
  /-- Give the file at a path a content, whether or not it was there before. -/
  write : String → Bytes → m (Except IoFault Unit)

namespace FileReader

variable {m : Type → Type} [Monad m]

/-- Whether a path leads to a file. -/
def isFile (files : FileReader m) (path : String) : m Bool :=
  return (← files.kind? path) == some .file

/-- Whether a path leads to anything. -/
def isThere (files : FileReader m) (path : String) : m Bool :=
  return (← files.kind? path).isSome

/-- The text of the file that a path leads to. -/
def readText (files : FileReader m) (path : String) : m (Except IoFault String) := do
  match ← files.read path with
  | .error fault => return .error fault
  | .ok bytes =>
    match Utf8.decode? bytes with
    | some text => return .ok text
    | none => return .error .notText

/-- The text of a file that need not be there. -/
def readText? (files : FileReader m) (path : String) : m (Except IoFault (Option String)) := do
  match ← files.readText path with
  | .ok text => return .ok (some text)
  | .error .notFound => return .ok none
  | .error fault => return .error fault

end FileReader

end SchemaClient
