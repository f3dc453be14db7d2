/-
SchemaClient.Text.Quoted — quoted text.

A quoted text stands between double quotes. Inside, the quote and the backslash are escaped, the
control characters that have a short escape use it, every other control character is written as
four hexadecimal digits, and all else stands for itself.
-/

namespace SchemaClient

namespace Quoted

/-- The lower-case hexadecimal digit of a number below sixteen. -/
def hexDigit (n : Nat) : Char := Nat.digitChar (n % 16)

/-- The letter of the short escape that a control character has. -/
def shortLetter? : Char → Option Char
  | '\x08' => some 'b'
  | '\t' => some 't'
  | '\n' => some 'n'
  | '\x0c' => some 'f'
  | '\r' => some 'r'
  | _ => none

/-- How one character is written between the quotes. -/
def escape (c : Char) : List Char :=
  if c = '"' ∨ c = '\\' then ['\\', c]
  else match shortLetter? c with
    | some letter => ['\\', letter]
    | none =>
      if c.toNat < 0x20 then ['\\', 'u', '0', '0', hexDigit (c.toNat / 16), hexDigit c.toNat]
      else [c]

/-- The characters between the quotes. -/
def body (text : List Char) : List Char := text.flatMap escape

end Quoted

/-- A text as a string literal. -/
def quote (text : String) : String :=
  String.ofList ('"' :: Quoted.body text.toList ++ ['"'])

example : Quoted.body ['a', '"', '\n', '\x01', 'é'] =
    ['a', '\\', '"', '\\', 'n', '\\', 'u', '0', '0', '0', '1', 'é'] := by decide

end SchemaClient
