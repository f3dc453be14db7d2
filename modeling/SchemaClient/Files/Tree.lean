/-
SchemaClient.Files.Tree — a tree of files in memory.

A place in the tree is given by the names on the way from the root. A path leads to a place step by
step: each step has to be taken in a directory that is there, and `..` leads back.

* `FileTree.find` — what a path leads to.
* `FileTree.makeDirectories`, `FileTree.write` — the tree after a change.
* `FileTree.reader`, `FileTree.store` — the tree as files to work with.
-/
import SchemaClient.Files.Basic
import SchemaClient.Path

namespace SchemaClient

/-- What is at a place. -/
inductive FileEntry where
  | directory
  | file (content : Bytes)
  deriving DecidableEq, Repr

/-- The names from the root to a place. -/
abbrev Place := List String

/-- What is at each place; the root is a directory. -/
structure FileTree where
  entries : List (Place × FileEntry) := []
  deriving DecidableEq, Repr

namespace FileTree

/-- What is at a place. -/
def entry? (tree : FileTree) (place : Place) : Option FileEntry :=
  if place.isEmpty then some .directory else tree.entries.lookup place

/-- Put an entry at a place. -/
def put (tree : FileTree) (place : Place) (entry : FileEntry) : FileTree :=
  ⟨(place, entry) :: tree.entries.filter (·.1 != place)⟩

/-! ## Paths -/

/-- The place that a component leads to from a directory. -/
def stepFrom (place : Place) : Path.Component → Place
  | .root => []
  | .current => place
  | .up => place.dropLast
  | .named name => place ++ [name]

/-- Whether a step can be taken from a place. -/
def enter (tree : FileTree) (place : Place) : Except IoFault Unit :=
  match tree.entry? place with
  | some .directory => .ok ()
  | some (.file _) => .error .notDirectory
  | none => .error .notFound

/-- The place that components lead to; nothing need be there. -/
def locate (tree : FileTree) (components : List Path.Component) : Except IoFault Place :=
  components.foldlM (fun place component => do
    tree.enter place
    return stepFrom place component) []

/-- Whether a path ends with a slash, so that it means a directory. -/
def meansDirectory (path : String) : Bool := path.toList.getLast? == some '/'

/-- What a path leads to. -/
def find (tree : FileTree) (path : String) : Except IoFault FileEntry := do
  match tree.entry? (← tree.locate (Path.components path)) with
  | none => .error .notFound
  | some (.file content) =>
    if meansDirectory path then .error .notDirectory else .ok (.file content)
  | some .directory => .ok .directory

/-- What kind of entry a path leads to. -/
def kind? (tree : FileTree) (path : String) : Option FileKind :=
  match tree.find path with
  | .ok .directory => some .directory
  | .ok (.file _) => some .file
  | .error _ => none

/-- The content of the file that a path leads to. -/
def read (tree : FileTree) (path : String) : Except IoFault Bytes := do
  match ← tree.find path with
  | .directory => .error .isDirectory
  | .file content => .ok content

/-! ## Changes -/

/-- Make the directory at the end of a path, whose components are given from the last one on. -/
def makeDirectory (tree : FileTree) (reversed : List Path.Component) : Except IoFault FileTree := do
  match reversed with
  | .named name :: above =>
    let parent ← tree.locate above.reverse
    tree.enter parent
    if (tree.entry? (parent ++ [name])).isSome then .error .alreadyThere
    else .ok (tree.put (parent ++ [name]) .directory)
  | other =>
    tree.enter (← tree.locate other.reverse)
    .error .alreadyThere

/-- Whether components, given from the last one on, lead to a directory. -/
def isDirectory (tree : FileTree) (reversed : List Path.Component) : Bool :=
  match tree.locate reversed.reverse with
  | .ok place => tree.entry? place == some .directory
  | .error _ => false

/-- Make a directory and, if they are missing, those above it first. -/
def makeAll (tree : FileTree) : (reversed : List Path.Component) → Except IoFault FileTree
  | [] => .ok tree
  | last :: above =>
    match tree.makeDirectory (last :: above) with
    | .ok made => .ok made
    | .error .notFound => do
      let tree ← tree.makeAll above
      match tree.makeDirectory (last :: above) with
      | .ok made => .ok made
      | .error fault => if tree.isDirectory (last :: above) then .ok tree else .error fault
    | .error fault => if tree.isDirectory (last :: above) then .ok tree else .error fault

def makeDirectories (tree : FileTree) (path : String) : Except IoFault FileTree :=
  tree.makeAll (Path.components path).reverse

/-- Give the file at a path a content. -/
def write (tree : FileTree) (path : String) (content : Bytes) : Except IoFault FileTree := do
  let place ← tree.locate (Path.components path)
  match tree.entry? place with
  | some .directory => .error .isDirectory
  | some (.file _) =>
    if meansDirectory path then .error .notDirectory else .ok (tree.put place (.file content))
  | none =>
    tree.enter place.dropLast
    if meansDirectory path then .error .isDirectory else .ok (tree.put place (.file content))

/-! ## Use -/

/-- Do something that may change the tree. -/
def change (act : FileTree → Except IoFault FileTree) : StateM FileTree (Except IoFault Unit) :=
  fun tree =>
    match act tree with
    | .ok changed => (.ok (), changed)
    | .error fault => (.error fault, tree)

/-- The tree as files to read. -/
def reader {m : Type → Type} [Monad m] (tree : FileTree) : FileReader m where
  kind? path := return tree.kind? path
  read path := return tree.read path

/-- The tree as files to read and write. -/
def store : FileStore (StateM FileTree) where
  kind? path := return (← get).kind? path
  read path := return (← get).read path
  makeDirectories path := change fun tree => tree.makeDirectories path
  write path content := change fun tree => tree.write path content

end FileTree

end SchemaClient
