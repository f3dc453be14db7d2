/-
SchemaClient.Json.Reader — reading off the front of a text.

A reader takes something off the front of the bytes that are left, or finds a fault.
-/
import SchemaClient.Json.Fault
import SchemaClient.Text.Reading

namespace SchemaClient

namespace Json

/-- Takes an `α` off the front of the bytes that are left. -/
abbrev Reader (α : Type) := StateT Bytes (Except Fault) α

/-- The byte of an ASCII character. -/
def byte (c : Char) : UInt8 := c.toNat.toUInt8

namespace Reader

/-- A fault at the bytes that are left. -/
def failHere {α : Type} (cause : Cause) : Reader α := fun rest =>
  .error { cause := cause, left := rest.length }

/-- A fault one byte further on, or at the end if nothing is left. -/
def failPast {α : Type} (cause : Cause) : Reader α := fun rest =>
  .error { cause := cause, left := rest.length - 1 }

/-- The next byte, left where it is. -/
def peek? : Reader (Option UInt8) := fun rest => .ok (rest.head?, rest)

/-- Take the next byte. -/
def next? : Reader (Option UInt8) := fun rest => .ok (rest.head?, rest.tail)

/-- Pass over the next byte. -/
def skip : Reader Unit := fun rest => .ok ((), rest.tail)

/-- Take the bytes up to the first one that does not fit. -/
def takeWhile (fits : UInt8 → Bool) : Reader Bytes := fun rest =>
  .ok (rest.takeWhile fits, rest.dropWhile fits)

/-- See the faults of a reader as lying below `step`. -/
def under {α : Type} (step : Step) (reader : Reader α) : Reader α := fun rest =>
  (reader rest).mapError (·.under step)

/-- Repeat a step until it is finished. Each repetition has to have read something. -/
def loop {σ α : Type} (step : σ → Reader (Turn σ α)) (state : σ) : Reader α :=
  loopOn List.length (fun rest => { cause := .valueExpected, left := rest.length }) step
    state

/-! ## Blanks and words -/

def isBlank (b : UInt8) : Bool := b == 0x20 || b == 0x0A || b == 0x0D || b == 0x09

/-- The next byte that is no blank, left where it is. -/
def peekWord? : Reader (Option UInt8) := do
  let _ ← takeWhile isBlank
  peek?

/-- Read the letters of a named word. -/
def word : List Char → Reader Unit
  | [] => pure ()
  | c :: more => do
    match ← next? with
    | none => failHere .endInValue
    | some b => if b = byte c then word more else failHere .wordExpected

end Reader

end Json

end SchemaClient
