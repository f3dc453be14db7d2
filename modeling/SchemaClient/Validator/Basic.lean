/-
SchemaClient.Validator.Basic — what a generated validator accepts.

A `Validator` is the meaning that a schema is reduced to before any source text is written: a closed
set of forms, each with exactly the data that its text needs. Names of other declarations appear as
`ref` only.

Some forms have preferred spellings, which the functions here keep to: a choice between one
alternative is that alternative, and a choice between none accepts nothing (`Validator.choice`).
-/
import SchemaClient.Json.Basic

namespace SchemaClient

/-- The kinds of text that have a validator of their own. -/
inductive TextFormat where
  | email
  | url
  | uuid
  | dateTime
  | date
  | time
  deriving DecidableEq, Repr

/-- The text format that a schema's `format` names. -/
def TextFormat.ofName? : String → Option TextFormat
  | "email" => some email
  | "uri" => some url
  | "url" => some url
  | "uuid" => some uuid
  | "date-time" => some dateTime
  | "date" => some date
  | "time" => some time
  | _ => none

/-- The limits on a number; each is optional. -/
structure Bounds where
  min : Option Number := none
  max : Option Number := none
  exclusiveMin : Option Number := none
  exclusiveMax : Option Number := none
  multipleOf : Option Number := none
  deriving DecidableEq, Repr

/-- A declared key of an object, with the validator of its value. -/
structure Property (α : Type) where
  name : String
  validator : α
  required : Bool
  deriving Repr

/-- What an object does with keys that it does not declare. -/
inductive Undeclared (α : Type) where
  /-- Accept and drop them. -/
  | strip
  /-- Accept and keep them. -/
  | loose
  /-- Refuse them. -/
  | strict
  /-- Their values have to pass a validator. -/
  | catchall (validator : α)
  deriving Repr

inductive Validator where
  | any
  | never
  | null
  | bool
  | number (integer : Bool) (bounds : Bounds)
  | string (format : Option TextFormat) (pattern : Option String) (minLength maxLength : Option Nat)
  /-- One of several texts. -/
  | enumeration (members : List String)
  /-- Exactly this value. -/
  | literal (value : Json)
  | array (item : Validator) (minItems maxItems : Option Nat)
  | tuple (items : List Validator)
  | object (properties : List (Property Validator)) (undeclared : Undeclared Validator)
  /-- Any keys, with values that pass a validator. -/
  | record (value : Validator)
  | union (alternatives : List Validator)
  | intersection (parts : List Validator)
  /-- Another declaration, by name. -/
  | ref (name : String)
  | nullable (inner : Validator)
  | described (inner : Validator) (description : String)
  | defaulted (inner : Validator) (default : Json)
  deriving Repr

namespace Validator

instance : Inhabited Validator := ⟨any⟩

/-- A choice between alternatives. -/
def choice : List Validator → Validator
  | [] => never
  | [only] => only
  | alternatives => union alternatives

/-- Whether a missing value is replaced by a default: such a validator is never made optional. -/
def hasDefault : Validator → Bool
  | defaulted _ _ => true
  | described inner _ => inner.hasDefault
  | _ => false

/-- Text without any constraint. -/
def plainText : Validator := string none none none none

end Validator

end SchemaClient
