/-
SchemaClient.Text.Identifier — identifiers.

Any text becomes an identifier: a character that may not stand in one is written as its code point
in hexadecimal between two dollar signs, and an underscore goes in front of a text that would
otherwise be empty, open with a digit or read as a reserved word. The dollar sign itself is not a
plain character, so an escape is never mistaken for text.
-/

namespace SchemaClient

namespace Identifier

/-- The words that may not name anything. -/
def reserved : List String :=
  ["break", "case", "catch", "class", "const", "continue", "debugger", "default", "delete",
   "do", "else", "enum", "export", "extends", "false", "finally", "for", "function", "if",
   "import", "in", "instanceof", "new", "null", "return", "super", "switch", "this", "throw",
   "true", "try", "typeof", "var", "void", "while", "with", "yield", "let", "static",
   "implements", "interface", "package", "private", "protected", "public", "await"]

/-- The characters that stand for themselves: ASCII letters, ASCII digits and the underscore. -/
def isPlain (c : Char) : Bool := c.isAlphanum || c == '_'

/-- A code point in lower-case hexadecimal, without leading zeros. -/
def hex (n : Nat) : List Char := Nat.toDigits 16 n

/-- How one character is written in an identifier. -/
def escape (c : Char) : List Char :=
  if isPlain c then [c] else '$' :: hex c.toNat ++ ['$']

/-- Whether an escaped text needs an underscore in front. -/
def needsGuard (text : List Char) : Bool :=
  match text with
  | [] => true
  | first :: _ => first.isDigit || reserved.contains (String.ofList text)

/-- The characters of the identifier of a text. -/
def ofChars (text : List Char) : List Char :=
  let escaped := text.flatMap escape
  if needsGuard escaped then '_' :: escaped else escaped

end Identifier

/-- The identifier of a text. -/
def identifier (text : String) : String := String.ofList (Identifier.ofChars text.toList)

example : Identifier.ofChars ['f', '/', 'a'] = ['f', '$', '2', 'f', '$', 'a'] := by decide
example : Identifier.ofChars ['3', 'd'] = ['_', '3', 'd'] := by decide
example : Identifier.ofChars [] = ['_'] := by decide

end SchemaClient
