/-
SchemaClient.Text.Utf8 — bytes and text.

A text arrives as bytes. `Utf8.head` takes one character off the front of them, or the longest
start of a character that the following byte breaks off. `Utf8.lossy` reads a whole text that way
and puts the replacement character for every broken part.
-/

namespace SchemaClient

/-- Bytes that are still to be read. -/
abbrev Bytes := List UInt8

namespace Utf8

/-- What the bytes of a text begin with. -/
inductive Head where
  /-- A character and the bytes after it. -/
  | char (c : Char) (rest : Bytes)
  /-- A byte sequence that no character begins with, and the bytes after it. -/
  | broken (rest : Bytes)

/-- The bytes after the first character or broken part. -/
def Head.rest : Head → Bytes
  | char _ rest => rest
  | broken rest => rest

/-- What a first byte promises: how many bytes follow, the range of the next one, and the bits it
contributes to the code point. -/
structure Lead where
  owed : Nat
  low : Nat
  high : Nat
  bits : Nat

/-- The promise of a first byte; `none` for a byte that begins no character. -/
def lead (byte : Nat) : Option Lead :=
  if byte < 0x80 then some ⟨0, 0, 0, byte⟩
  else if byte < 0xC2 then none
  else if byte < 0xE0 then some ⟨1, 0x80, 0xBF, byte - 0xC0⟩
  else if byte < 0xF0 then
    some ⟨2, if byte = 0xE0 then 0xA0 else 0x80, if byte = 0xED then 0x9F else 0xBF, byte - 0xE0⟩
  else if byte < 0xF5 then
    some ⟨3, if byte = 0xF0 then 0x90 else 0x80, if byte = 0xF4 then 0x8F else 0xBF, byte - 0xF0⟩
  else none

/-- Read the bytes that are owed, the first of them between `low` and `high`. -/
def follow (owed low high bits : Nat) (bytes : Bytes) : Head :=
  match owed, bytes with
  | 0, rest => .char (Char.ofNat bits) rest
  | _ + 1, [] => .broken []
  | owed + 1, byte :: rest =>
    if low ≤ byte.toNat ∧ byte.toNat ≤ high then
      follow owed 0x80 0xBF (bits * 64 + byte.toNat % 64) rest
    else .broken (byte :: rest)

/-- The first character or broken part. -/
def head (first : UInt8) (rest : Bytes) : Head :=
  match lead first.toNat with
  | none => .broken rest
  | some l => follow l.owed l.low l.high l.bits rest

theorem follow_rest_le (owed low high bits : Nat) (bytes : Bytes) :
    (follow owed low high bits bytes).rest.length ≤ bytes.length := by
  fun_induction follow owed low high bits bytes with
  | case1 => simp [Head.rest]
  | case2 => simp [Head.rest]
  | case3 _ _ _ _ _ _ _ ih => exact Nat.le_succ_of_le ih
  | case4 => simp [Head.rest]

theorem head_rest_le (first : UInt8) (rest : Bytes) : (head first rest).rest.length ≤ rest.length := by
  unfold head
  split
  · simp [Head.rest]
  · exact follow_rest_le ..

/-- The character that stands for what was read: itself, or U+FFFD for a broken part. -/
def Head.shown : Head → Char
  | char c _ => c
  | broken _ => '\uFFFD'

/-- The characters of a text, each broken part replaced by U+FFFD. -/
def lossyChars (bytes : Bytes) : List Char :=
  match bytes with
  | [] => []
  | first :: rest => (head first rest).shown :: lossyChars (head first rest).rest
termination_by bytes.length
decreasing_by exact Nat.lt_succ_of_le (head_rest_le first rest)

/-- Whether something that was read is a character. -/
def Head.isChar : Head → Bool
  | char _ _ => true
  | broken _ => false

/-- Whether the bytes are nothing but characters. -/
def isValid (bytes : Bytes) : Bool :=
  match bytes with
  | [] => true
  | first :: rest => (head first rest).isChar && isValid (head first rest).rest
termination_by bytes.length
decreasing_by exact Nat.lt_succ_of_le (head_rest_le first rest)

/-- The text of the bytes, each broken part replaced by U+FFFD. -/
def lossy (bytes : Bytes) : String := String.ofList (lossyChars bytes)

/-- The bytes of a text. -/
def encode (text : String) : Bytes := text.toUTF8.toList

/-- The text of the bytes, if they are one. -/
def decode? (bytes : Bytes) : Option String := if isValid bytes then some (lossy bytes) else none

example : lossyChars [0xC3, 0xA9, 0xE2, 0x82, 0x41] = ['é', '\uFFFD', 'A'] := by decide +kernel

end Utf8

end SchemaClient
