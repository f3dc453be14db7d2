/-
SchemaClient.DataFormat — data formats.

A configuration can be read from more than one format. What is read is described once, for any
format `D` that can decode texts, switches, sizes, numbers, tables and records; how a value looks
in the format, and what is reported when it has the wrong form, is the format's own business.
-/
import SchemaClient.Table

namespace SchemaClient

/-- One field of a record: whether it has to be there, and what its value does to the record. -/
structure Field (D : Type → Type) (α : Type) where
  name : String
  required : Bool
  read : D (α → α)

/-- A record: the name of its type, its value before any field is read, and its fields. A strict
record has no other fields than these. -/
structure RecordShape (D : Type → Type) (α : Type) where
  name : String
  start : α
  fields : List (Field D α)
  strict : Bool := false

/-- The number of values that a size of a given type has. -/
structure SizeType where
  name : String
  bound : Nat

namespace SizeType

def u32 : SizeType := ⟨"u32", UInt32.size⟩

def u64 : SizeType := ⟨"u64", UInt64.size⟩

def usize : SizeType := ⟨"usize", UInt64.size⟩

end SizeType

/-- A format that values can be decoded from. -/
class DataFormat (D : Type → Type) extends Functor D where
  text : D String
  switch : D Bool
  size : SizeType → D Nat
  real : D Float
  optional {α : Type} : D α → D (Option α)
  table {α : Type} : D α → D (Table α)
  record {α : Type} : RecordShape D α → D α

namespace Field

variable {D : Type → Type} [DataFormat D] {α β : Type}

/-- A field that sets a part of the record when it is there. -/
def mayHave (name : String) (decoder : D β) (set : β → α → α) : Field D α :=
  ⟨name, false, set <$> decoder⟩

/-- A field that has to be there. -/
def mustHave (name : String) (decoder : D β) (set : β → α → α) : Field D α :=
  ⟨name, true, set <$> decoder⟩

end Field

end SchemaClient
