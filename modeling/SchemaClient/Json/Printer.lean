/-
SchemaClient.Json.Printer — compact JSON text.

No blanks, entries in their order, strings quoted, numbers as `floatText` and `integerText` write
them.
-/
import SchemaClient.Decimal.Notation
import SchemaClient.Json.Basic
import SchemaClient.Text.Quoted

namespace SchemaClient

/-- The written form of a number. -/
def Number.text : Number → String
  | int n => String.ofList (integerText n)
  | float x => String.ofList (floatText x)

namespace Json

mutual

/-- The compact text of a value. -/
def text : Json → String
  | null => "null"
  | bool true => "true"
  | bool false => "false"
  | num n => n.text
  | str s => quote s
  | arr [] => "[]"
  | arr (item :: rest) => "[" ++ text item ++ itemsText rest
  | obj [] => "{}"
  | obj ((key, value) :: rest) => "\x7b" ++ quote key ++ ":" ++ text value ++ entriesText rest

/-- The items after the first one, and the closing bracket. -/
def itemsText : List Json → String
  | [] => "]"
  | item :: rest => "," ++ text item ++ itemsText rest

/-- The entries after the first one, and the closing brace. -/
def entriesText : List (String × Json) → String
  | [] => "\x7d"
  | (key, value) :: rest => "," ++ quote key ++ ":" ++ text value ++ entriesText rest

end

end Json

end SchemaClient
