/-
SchemaClient.Yaml.Fault — what can be wrong with a YAML text.

Either it is not one well-formed document, or a value in it has the wrong form for its place. The
message of the latter names the path to the value, unless it is the whole document, and the place of
the value in the text, unless it is the very beginning.
-/
import SchemaClient.Json.Fault

namespace SchemaClient

namespace Yaml

/-- A place in a text: line and column, both from zero. -/
structure Mark where
  line : Nat
  column : Nat
  deriving DecidableEq, Repr

inductive Fault where
  /-- Not one well-formed document. -/
  | illFormed
  /-- A value of the wrong form. -/
  | mismatch (m : Mismatch) (path : List Json.Step) (mark : Mark)

/-- The words of YAML. -/
def wording : Wording := ⟨"unit value", positionalText⟩

namespace Fault

/-- The path to the value, as messages begin with it. -/
def pathText : List Json.Step → String
  | [] => ""
  | path => Json.pathText path ++ ": "

/-- The place of the value, as messages end with it. -/
def markText (mark : Mark) : String :=
  if mark.line = 0 ∧ mark.column = 0 then ""
  else " at line " ++ toString (mark.line + 1) ++ " column " ++ toString (mark.column + 1)

def message : Fault → String
  | illFormed => "not a well-formed document"
  | mismatch m path mark => pathText path ++ m.message wording ++ markText mark

end Fault

end Yaml

end SchemaClient
