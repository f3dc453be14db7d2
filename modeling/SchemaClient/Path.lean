/-
SchemaClient.Path — file paths as text.

A path is the text it was given as; nothing here asks the file system. Reading its components drops
what changes nothing: repeated and trailing slashes, and `.` except at the front of a relative path.
`..` stays, because what it leads to depends on the file system.

* `components` — the components of a path.
* `join` — one path after another; an absolute one replaces what stands before it.
* `parent?` — the path without its last component.
* `ancestors` — a path and all that it lies in.
-/
import SchemaClient.Text.Parts

namespace SchemaClient

namespace Path

inductive Component where
  | root
  | current
  | up
  | named (name : String)
  deriving DecidableEq, Repr

/-- A component as it is written. -/
def Component.text : Component → String
  | root => "/"
  | current => "."
  | up => ".."
  | named name => name

/-- The parts between slashes. -/
def parts (path : String) : List String := (partsAt (· == '/') path.toList).map String.ofList

/-- Whether the path begins at the root. -/
def isAbsolute (path : String) : Bool := path.toList.head? == some '/'

/-- The component that a part is, unless it changes nothing. -/
def component? (part : String) : Option Component :=
  if part = "" ∨ part = "." then none else if part = ".." then some .up else some (.named part)

/-- The components of a path. -/
def components (path : String) : List Component :=
  match parts path with
  | [] => []
  | first :: rest =>
    let opening : List Component :=
      if first = "" then (if rest.isEmpty then [] else [.root])
      else if first = "." then [.current]
      else (component? first).toList
    opening ++ rest.filterMap component?

/-- A path followed by another one. -/
def join (base path : String) : String :=
  if isAbsolute path then path
  else if base = "" ∨ base.toList.getLast? = some '/' then base ++ path
  else base ++ "/" ++ path

/-- The path of components, one after the other. -/
def ofComponents (components : List Component) : String :=
  components.foldl (fun path component => join path component.text) ""

/-- Drop trailing parts that are no components. -/
def trimEnd (reversed : List String) : List String :=
  reversed.dropWhile fun part => (component? part).isNone

/-- The path without its last component, as it is written; the root and the empty path have no last
component. -/
def parent? (path : String) : Option String :=
  match parts path with
  | [] => none
  | first :: rest =>
    match trimEnd rest.reverse with
    | [] => if first = "" then none else some ""
    | _ :: before =>
      let kept := (trimEnd before).reverse
      if first = "" ∧ kept.isEmpty then some "/"
      else some (String.intercalate "/" (first :: kept))

/-- The path, the one that it lies in and so on; there are no more of them than `fuel` says. -/
def ancestorsWithin (fuel : Nat) (path : String) : List String :=
  match fuel, parent? path with
  | fuel + 1, some parent => path :: ancestorsWithin fuel parent
  | _, _ => [path]

/-- The path, the one that it lies in and so on, up to the root. Each has at least one part less than
the one before it. -/
def ancestors (path : String) : List String := ancestorsWithin (parts path).length path

example : components "/a//b/./c/" = [.root, .named "a", .named "b", .named "c"] := by decide +kernel
example : components "./a/.." = [.current, .named "a", .up] := by decide +kernel
example : parent? "/a/b/c.yaml" = some "/a/b" := by decide +kernel
example : parent? "a" = some "" := by decide +kernel
example : parent? "/a" = some "/" := by decide +kernel
example : parent? "/" = none := by decide +kernel
example : ancestors "/a/b" = ["/a/b", "/a", "/"] := by decide +kernel

end Path

end SchemaClient
