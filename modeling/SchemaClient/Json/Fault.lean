/-
SchemaClient.Json.Fault — what can be wrong with a JSON text.

A fault names its cause, how many bytes of the text lie after its place, and the path of object keys
and list positions down to the value it was found in. Line and column are counted only when the
message is written: the line from one, the column in bytes from the start of the line.
-/
import SchemaClient.Decimal.Notation
import SchemaClient.Text.Shown
import SchemaClient.Text.Utf8

namespace SchemaClient

/-- A kind of value, as messages name it. -/
inductive Found where
  | unit
  | bool (value : Bool)
  | integer (value : Int)
  | float (value : Float)
  | text (value : String)
  | sequence
  | map

/-- How a format words what its messages have in them: its null, and its numbers. -/
structure Wording where
  unit : String
  real : Float → List Char

/-- How a value that was found is named. -/
def Found.describe (wording : Wording) : Found → String
  | unit => wording.unit
  | bool true => "boolean `true`"
  | bool false => "boolean `false`"
  | integer n => "integer `" ++ String.ofList (integerText n) ++ "`"
  | float x => "floating point `" ++ String.ofList (wording.real x) ++ "`"
  | text s => "string " ++ shown s
  | sequence => "sequence"
  | map => "map"

/-- A value that has the wrong form for the place it stands in. -/
inductive Mismatch where
  | wrongType (found : Found) (expected : String)
  | wrongValue (found : Found) (expected : String)
  | wrongLength (length : Nat) (expected : String)
  | missingField (name : String)
  | duplicateField (name : String)
  | unknownField (name : String) (known : List String)

/-- The field names that would have been understood. -/
def knownFields (names : List String) : String :=
  let ticked (name : String) := "`" ++ name ++ "`"
  match names with
  | [] => "there are no fields"
  | [only] => "expected " ++ ticked only
  | [first, second] => "expected " ++ ticked first ++ " or " ++ ticked second
  | many => "expected one of " ++ String.intercalate ", " (many.map ticked)

/-- The message of a mismatch. -/
def Mismatch.message (wording : Wording) : Mismatch → String
  | wrongType found expected =>
    "invalid type: " ++ found.describe wording ++ ", expected " ++ expected
  | wrongValue found expected =>
    "invalid value: " ++ found.describe wording ++ ", expected " ++ expected
  | wrongLength length expected =>
    "invalid length " ++ toString length ++ ", expected " ++ expected
  | missingField name => "missing field `" ++ name ++ "`"
  | duplicateField name => "duplicate field `" ++ name ++ "`"
  | unknownField name known => "unknown field `" ++ name ++ "`, " ++ knownFields known

namespace Json

/-- Why a JSON text could not be read. -/
inductive Cause where
  | endInList
  | endInObject
  | endInString
  | endInValue
  | colonExpected
  | commaOrBracketExpected
  | commaOrBraceExpected
  | wordExpected
  | valueExpected
  | escapeInvalid
  | numberInvalid
  | numberOutOfRange
  | codePointInvalid
  | controlCharacter
  | keyNotString
  | surrogateAlone
  | escapeCutShort
  | trailingComma
  | trailingCharacters
  | tooDeep
  | mismatch (m : Mismatch)

/-- The words of JSON. -/
def wording : Wording := ⟨"null", floatText⟩

def Cause.message : Cause → String
  | endInList => "EOF while parsing a list"
  | endInObject => "EOF while parsing an object"
  | endInString => "EOF while parsing a string"
  | endInValue => "EOF while parsing a value"
  | colonExpected => "expected `:`"
  | commaOrBracketExpected => "expected `,` or `]`"
  | commaOrBraceExpected => "expected `,` or `\x7d`"
  | wordExpected => "expected ident"
  | valueExpected => "expected value"
  | escapeInvalid => "invalid escape"
  | numberInvalid => "invalid number"
  | numberOutOfRange => "number out of range"
  | codePointInvalid => "invalid unicode code point"
  | controlCharacter => "control character (\\u0000-\\u001F) found while parsing a string"
  | keyNotString => "key must be a string"
  | surrogateAlone => "lone leading surrogate in hex escape"
  | escapeCutShort => "unexpected end of hex escape"
  | trailingComma => "trailing comma"
  | trailingCharacters => "trailing characters"
  | tooDeep => "recursion limit exceeded"
  | mismatch m => m.message wording

/-- One step from a value down to a value inside it. -/
inductive Step where
  | key (name : String)
  | index (position : Nat)
  /-- Into an object whose next key could not be read. -/
  | unknown

/-- The path of a value: a dot before each step that is not a position, except at the front. -/
def pathText (path : List Step) : String :=
  match path with
  | [] => "."
  | first :: rest => stepText first ++ String.join (rest.map next)
where
  stepText : Step → String
    | .key name => name
    | .index position => "[" ++ toString position ++ "]"
    | .unknown => "?"
  next : Step → String
    | .index position => "[" ++ toString position ++ "]"
    | step => "." ++ stepText step

/-- What is wrong, how many bytes lie after the place, and the path to the value concerned. -/
structure Fault where
  cause : Cause
  left : Nat
  path : List Step := []

namespace Fault

/-- The fault as seen from the value that `step` leads down from. -/
def under (step : Step) (fault : Fault) : Fault := { fault with path := step :: fault.path }

/-- The line and the column that a number of bytes reaches. -/
def position (read : Bytes) : Nat × Nat :=
  (1 + read.count 0x0A, (read.reverse.takeWhile (· != 0x0A)).length)

/-- The message of a fault in `text`. -/
def message (text : Bytes) (fault : Fault) : String :=
  let (line, column) := position (text.take (text.length - fault.left))
  "at JSON path " ++ pathText fault.path ++ " → " ++ fault.cause.message ++
    " at line " ++ toString line ++ " column " ++ toString column

end Fault

end Json

end SchemaClient
