/-
SchemaClient.Json.Decoder — decoding JSON texts.

A decoder reads one value of the form it expects, and complains at the first byte at which the text
can no longer become one. It is told how many brackets may still be opened, which bounds the nesting
of what it reads. Whatever follows the value is left alone.

A record is an object with its fields as keys, or a list of its fields in their order.
-/
import SchemaClient.DataFormat
import SchemaClient.Json.Lexeme

namespace SchemaClient

namespace Json

open Reader

/-- Reads a value; the number says how many brackets may be opened for it. -/
def Decoder (α : Type) := Nat → Reader α

namespace Decoder

/-- How many brackets may be open at a time. -/
def greatestDepth : Nat := 127

/-- The next byte of the value to be read. -/
def start : Reader UInt8 := do
  match ← peekWord? with
  | none => failPast .endInValue
  | some b => pure b

/-- Read what stands where another type of value was expected, and say so. -/
def wrongType {α : Type} (expected : String) : Reader α := do
  let mismatch (found : Found) : Reader α := failHere (.mismatch (.wrongType found expected))
  let wrongNumber (n : Number) : Reader α :=
    match n with
    | .int value => mismatch (.integer value)
    | .float value => mismatch (.float value)
  let b ← start
  if b = byte 'n' then do skip; word ['u', 'l', 'l']; mismatch .unit
  else if b = byte 't' then do skip; word ['r', 'u', 'e']; mismatch (.bool true)
  else if b = byte 'f' then do skip; word ['a', 'l', 's', 'e']; mismatch (.bool false)
  else if b = byte '-' then do skip; wrongNumber (← number true)
  else if isDigit b then wrongNumber (← number false)
  else if b = byte '"' then do skip; mismatch (.text (← string))
  else if b = byte '[' then mismatch .sequence
  else if b = byte '{' then mismatch .map
  else failPast .valueExpected

/-! ## Lists and objects -/

/-- Open a bracket, if one more may be opened. -/
def nested {α : Type} (depth : Nat) (body : Nat → Reader α) : Reader α :=
  match depth with
  | 0 => failPast .tooDeep
  | depth + 1 => do skip; body depth

/-- Whether another item follows in a list; `false` at its closing bracket. -/
def itemFollows (first : Bool) : Reader Bool := do
  match ← peekWord? with
  | none => failPast .endInList
  | some b =>
    if b = byte ']' then pure false
    else if first then pure true
    else if b = byte ',' then
      skip
      match ← peekWord? with
      | none => failPast .endInValue
      | some b => if b = byte ']' then failPast .trailingComma else pure true
    else failPast .commaOrBracketExpected

/-- Whether another key follows in an object; `false` at its closing brace. -/
def keyFollows (first : Bool) : Reader Bool := do
  match ← peekWord? with
  | none => failPast .endInObject
  | some b =>
    if b = byte '}' then pure false
    else if first then
      if b = byte '"' then pure true else failPast .keyNotString
    else if b = byte ',' then
      skip
      match ← peekWord? with
      | none => failPast .endInValue
      | some b =>
        if b = byte '"' then pure true
        else if b = byte '}' then failPast .trailingComma
        else failPast .keyNotString
    else failPast .commaOrBraceExpected

/-- Pass over the colon between key and value. -/
def colon : Reader Unit := do
  match ← peekWord? with
  | none => failPast .endInObject
  | some b => if b = byte ':' then skip else failPast .colonExpected

/-- One item of a list, or its end. -/
def itemStep {α : Type} (item : Reader α) : Nat × List α → Reader (Turn (Nat × List α) (List α))
  | (index, reversed) => do
    if ← itemFollows (index == 0) then
      let value ← item.under (.index index)
      pure (.again (index + 1, value :: reversed))
    else
      skip
      pure (.done reversed.reverse)

/-- The items of a list whose bracket has been read. -/
def items {α : Type} (item : Reader α) : Reader (List α) := loop (itemStep item) (0, [])

/-- One entry of an object, or its end. -/
def entryStep {σ : Type} (entry : String → σ → Reader σ) : Bool × σ → Reader (Turn (Bool × σ) σ)
  | (first, state) => do
    if ← (keyFollows first).under .unknown then
      skip
      let key ← string.under .unknown
      pure (.again (false, ← entry key state))
    else
      skip
      pure (.done state)

/-- What the entries of an object whose brace has been read make of a state. After its key an entry
reads the colon and the value. -/
def entries {σ : Type} (entry : String → σ → Reader σ) (state : σ) : Reader σ :=
  loop (entryStep entry) (true, state)

/-- An entry's value, after its key. -/
def valueOf {α : Type} (key : String) (value : Reader α) : Reader α := do
  colon
  value.under (.key key)

/-! ## Any value -/

/-- Read a value that is neither a list nor an object, or read it with `list` or `object`. -/
def valueWith (list object : Reader Json) : Reader Json := do
  let b ← start
  if b = byte 'n' then do skip; word ['u', 'l', 'l']; pure .null
  else if b = byte 't' then do skip; word ['r', 'u', 'e']; pure (.bool true)
  else if b = byte 'f' then do skip; word ['a', 'l', 's', 'e']; pure (.bool false)
  else if b = byte '-' then do skip; .num <$> number true
  else if isDigit b then .num <$> number false
  else if b = byte '"' then do skip; .str <$> string
  else if b = byte '[' then list
  else if b = byte '{' then object
  else failPast .valueExpected

/-- Any value. Of entries with the same key the first keeps its place and the last its value. -/
def value : Decoder Json
  | 0 => valueWith (failPast .tooDeep) (failPast .tooDeep)
  | depth + 1 =>
    valueWith
      (do skip; .arr <$> items (value depth))
      (do
        skip
        .obj <$> entries (fun key read => do pure (Table.put read key (← valueOf key (value depth)))) [])

/-! ## Skipping -/

/-- What the value to be skipped stands in: the brackets that are open, the innermost first, and
whether the innermost one was just opened. -/
structure Open where
  isObject : Bool
  outer : List Bool

/-- After a value, or after an opening bracket if `fresh`: close brackets until another value is to
follow, and pass over its key. `none` when no bracket is left open. -/
def skipToNext (fresh : Bool) (isObject : Bool) (outer : List Bool) : Reader (Option Open) := do
  match ← peekWord? with
  | none => failPast (if isObject then .endInObject else .endInList)
  | some b =>
    if b = byte ',' ∧ ¬ fresh then
      skip
      entryKey
    else if b = byte (if isObject then '}' else ']') then
      skip
      match outer with
      | [] => pure none
      | isObject :: outer => skipToNext false isObject outer
    else if fresh then entryKey
    else failPast (if isObject then .commaOrBraceExpected else .commaOrBracketExpected)
termination_by outer.length
where
  /-- Pass over the key of an entry. -/
  entryKey : Reader (Option Open) := do
    if isObject then
      match ← peekWord? with
      | none => failPast .endInObject
      | some b =>
        if b = byte '"' then skip else failPast .keyNotString
      skipString
      match ← peekWord? with
      | none => failPast .endInObject
      | some b => if b = byte ':' then skip else failPast .colonExpected
    pure (some ⟨isObject, outer⟩)

/-- Skip one scalar or one opening bracket, and whatever closes after it. -/
def skipStep (opened : Option Open) : Reader (Turn (Option Open) Unit) := do
  let after : Reader (Turn (Option Open) Unit) := do
    match opened with
    | none => pure (.done ())
    | some o =>
      match ← skipToNext false o.isObject o.outer with
      | none => pure (.done ())
      | some o => pure (.again (some o))
  let enter (isObject : Bool) : Reader (Turn (Option Open) Unit) := do
    skip
    let outer := match opened with
      | none => []
      | some o => o.isObject :: o.outer
    match ← skipToNext true isObject outer with
    | none => pure (.done ())
    | some o => pure (.again (some o))
  let b ← start
  if b = byte 'n' then do skip; word ['u', 'l', 'l']; after
  else if b = byte 't' then do skip; word ['r', 'u', 'e']; after
  else if b = byte 'f' then do skip; word ['a', 'l', 's', 'e']; after
  else if b = byte '-' then do skip; skipNumber; after
  else if isDigit b then do skipNumber; after
  else if b = byte '"' then do skip; skipString; after
  else if b = byte '[' then enter false
  else if b = byte '{' then enter true
  else failPast .valueExpected

/-- Skip any value, however deeply it is nested. -/
def skipValue : Reader Unit := loop skipStep none

/-! ## Typed values -/

/-- A list of values. -/
def list {α : Type} (item : Decoder α) : Decoder (List α) := fun depth => do
  if (← start) = byte '[' then nested depth fun depth => items (item depth)
  else wrongType "a sequence"

/-- A number, handed on to `use`. -/
def numberWith {α : Type} (expected : String) (use : Number → Reader α) : Reader α := do
  let b ← start
  if b = byte '-' then do skip; use (← number true)
  else if isDigit b then use (← number false)
  else wrongType expected

def text : Decoder String := fun _ => do
  if (← start) = byte '"' then do skip; string else wrongType "a string"

def switch : Decoder Bool := fun _ => do
  let b ← start
  if b = byte 't' then do skip; word ['r', 'u', 'e']; pure true
  else if b = byte 'f' then do skip; word ['a', 'l', 's', 'e']; pure false
  else wrongType "a boolean"

/-- An integer that the size type has. -/
def size (type : SizeType) : Decoder Nat := fun _ =>
  numberWith type.name fun
    | .int n =>
      if 0 ≤ n ∧ n < type.bound then pure n.toNat
      else failHere (.mismatch (.wrongValue (.integer n) type.name))
    | .float x => failHere (.mismatch (.wrongType (.float x) type.name))

def real : Decoder Float := fun _ =>
  numberWith "f64" fun
    | .int n => pure (Float.ofInt n)
    | .float x => pure x

/-- A value or null. -/
def optional {α : Type} (decoder : Decoder α) : Decoder (Option α) := fun depth => do
  match ← peekWord? with
  | none => some <$> decoder depth
  | some b =>
    if b = byte 'n' then do skip; word ['u', 'l', 'l']; pure none
    else some <$> decoder depth

/-- An object whose values are all of one type. -/
def table {α : Type} (decoder : Decoder α) : Decoder (Table α) := fun depth => do
  if (← start) = byte '{' then
    nested depth fun depth =>
      entries (fun key read => do pure (Table.put read key (← valueOf key (decoder depth)))) []
  else wrongType "a map"

/-! ## Records -/

/-- Complain about an object after its key, past its closing brace if that is what follows. -/
def rejectEntry {α : Type} (m : Mismatch) : Reader α := do
  if (← peekWord?) = some (byte '}') then skip
  failHere (.mismatch m)

/-- The first field that has to be there and is not. -/
def missing? {D : Type → Type} {α : Type} (fields : List (Field D α)) (seen : List String) :
    Option String :=
  (fields.find? fun field => field.required && !seen.contains field.name).map (·.name)

/-- One entry of a record: the fields seen so far and the record as they leave it. -/
def recordEntry {α : Type} (shape : RecordShape Decoder α) (depth : Nat) (key : String) :
    List String × α → Reader (List String × α)
  | (seen, record) =>
    match shape.fields.find? (·.name == key) with
    | none =>
      if shape.strict then
        (rejectEntry (.unknownField key (shape.fields.map (·.name)))).under (.key key)
      else do
        valueOf key skipValue
        pure (seen, record)
    | some field =>
      if seen.contains key then rejectEntry (.duplicateField key)
      else do
        let set ← valueOf key (field.read depth)
        pure (key :: seen, set record)

/-- A record as an object whose brace has been read. -/
def recordObject {α : Type} (shape : RecordShape Decoder α) (depth : Nat) : Reader α := do
  let (seen, record) ← entries (recordEntry shape depth) ([], shape.start)
  match missing? shape.fields seen with
  | some name => failHere (.mismatch (.missingField name))
  | none => pure record

/-- The end of a list that is to have no more items. -/
def listEnd : Reader Unit := do
  match ← peekWord? with
  | none => failPast .endInList
  | some b =>
    if b = byte ']' then skip
    else if b = byte ',' then
      skip
      match ← peekWord? with
      | some b => failPast (if b = byte ']' then .trailingComma else .trailingCharacters)
      | none => failPast .trailingCharacters
    else failPast .trailingCharacters

/-- The form of a record as a list, as messages name it. -/
def listForm (name : String) (count : Nat) : String :=
  "struct " ++ name ++ " with " ++ toString count ++ (if count = 1 then " element" else " elements")

/-- The fields of a record in their order, as far as the list goes. -/
def recordItems {α : Type} (shape : RecordShape Decoder α) (depth : Nat) (index : Nat)
    (fields : List (Field Decoder α)) (record : α) : Reader α :=
  match fields with
  | [] => do
    listEnd
    pure record
  | field :: rest => do
    if ← itemFollows (index == 0) then
      let set ← (field.read depth).under (.index index)
      recordItems shape depth (index + 1) rest (set record)
    else
      skip
      match (field :: rest).findIdx? (·.required) with
      | some ahead =>
        failHere (.mismatch (.wrongLength (index + ahead) (listForm shape.name shape.fields.length)))
      | none => pure record

/-- A record. -/
def record {α : Type} (shape : RecordShape Decoder α) : Decoder α := fun depth => do
  let b ← start
  if b = byte '[' then nested depth fun depth => recordItems shape depth 0 shape.fields shape.start
  else if b = byte '{' then nested depth fun depth => recordObject shape depth
  else wrongType ("struct " ++ shape.name)

instance : DataFormat Decoder where
  map f decoder := fun depth => f <$> decoder depth
  text := text
  switch := switch
  size := size
  real := real
  optional := optional
  table := table
  record := record

/-- The value at the front of a text. -/
def run {α : Type} (decoder : Decoder α) (text : Bytes) : Except Fault α :=
  (decoder greatestDepth text).map (·.1)

/-- The value at the front of a text, or the message that says why there is none. -/
def read {α : Type} (decoder : Decoder α) (text : Bytes) : Except String α :=
  (decoder.run text).mapError (·.message text)

end Decoder

end Json

end SchemaClient
