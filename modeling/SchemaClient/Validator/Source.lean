/-
SchemaClient.Validator.Source — the Zod expression of a validator.

* `Validator.source` — the expression, on one line. Everything that comes from outside (texts,
  patterns, keys, literals, defaults) is printed by `quote` or `Json.text`.
* Constraints and modifiers are method calls that follow the expression they apply to, in a fixed
  order.
* An intersection of several parts nests to the left: the first two are intersected first.
-/
import SchemaClient.Json.Printer
import SchemaClient.Validator.Basic

namespace SchemaClient

namespace Validator

/-- A method call with an optional argument; without the argument there is no call. -/
def call? {α : Type} (method : String) (print : α → String) : Option α → String
  | none => ""
  | some argument => "." ++ method ++ "(" ++ print argument ++ ")"

/-- The validator of a text format. -/
def formatSource : Option TextFormat → String
  | none => "z.string()"
  | some .email => "z.email()"
  | some .url => "z.url()"
  | some .uuid => "z.uuid()"
  | some .dateTime => "z.iso.datetime()"
  | some .date => "z.iso.date()"
  | some .time => "z.iso.time()"

/-- The limits on a number, as method calls. -/
def boundsSource (bounds : Bounds) : String :=
  call? "gte" Number.text bounds.min ++ call? "gt" Number.text bounds.exclusiveMin ++
    call? "lte" Number.text bounds.max ++ call? "lt" Number.text bounds.exclusiveMax ++
    call? "multipleOf" Number.text bounds.multipleOf

/-- A size, as it is written. -/
def sizeText (n : Nat) : String := String.ofList (digitsOf n)

/-- The two limits on a length or a count, as method calls. -/
def limitsSource (min max : Option Nat) : String :=
  call? "min" sizeText min ++ call? "max" sizeText max

/-- The constructor of an object. -/
def objectConstructor {α : Type} : Undeclared α → String
  | .loose => "z.looseObject"
  | .strict => "z.strictObject"
  | .strip => "z.object"
  | .catchall _ => "z.object"

/-- What marks a property whose key may be missing. -/
def optionalMark (property : Property Validator) : String :=
  if !property.required && !property.validator.hasDefault then ".optional()" else ""

mutual

/-- The expression of a validator. -/
def source : Validator → String
  | any => "z.any()"
  | never => "z.never()"
  | null => "z.null()"
  | bool => "z.boolean()"
  | number integer bounds =>
    "z.number()" ++ (if integer then ".int()" else "") ++ boundsSource bounds
  | string format pattern minLength maxLength =>
    formatSource format ++
      call? "regex" (fun text => "new RegExp(" ++ quote text ++ ")") pattern ++
      limitsSource minLength maxLength
  | enumeration members => "z.enum([" ++ String.intercalate ", " (members.map quote) ++ "])"
  | literal .null => "z.null()"
  | literal value => "z.literal(" ++ value.text ++ ")"
  | array item minItems maxItems =>
    "z.array(" ++ source item ++ ")" ++ limitsSource minItems maxItems
  | tuple items => "z.tuple([" ++ sources items ++ "])"
  | object properties undeclared =>
    objectConstructor undeclared ++ "(" ++ shape properties ++ ")" ++ catchallSource undeclared
  | record value => "z.record(z.string(), " ++ source value ++ ")"
  | union [] => "z.never()"
  | union [only] => source only
  | union (first :: second :: rest) =>
    "z.union([" ++ source first ++ ", " ++ source second ++ moreSources rest ++ "])"
  | intersection [] => "z.any()"
  | intersection (first :: rest) => intersected (source first) rest
  | ref name => name
  | nullable inner => source inner ++ ".nullable()"
  | described inner description => source inner ++ ".describe(" ++ quote description ++ ")"
  | defaulted inner default => source inner ++ ".prefault(" ++ default.text ++ ")"

/-- Expressions, separated by commas. -/
def sources : List Validator → String
  | [] => ""
  | first :: rest => source first ++ moreSources rest

/-- Expressions that follow another one. -/
def moreSources : List Validator → String
  | [] => ""
  | next :: rest => ", " ++ source next ++ moreSources rest

/-- The intersection of an expression with further parts, one after the other. -/
def intersected (left : String) : List Validator → String
  | [] => left
  | part :: rest => intersected ("z.intersection(" ++ left ++ ", " ++ source part ++ ")") rest

/-- The keys of an object with their expressions. -/
def shape : List (Property Validator) → String
  | [] => "{}"
  | ⟨name, validator, required⟩ :: rest =>
    "\x7b " ++ quote name ++ ": " ++ source validator ++ optionalMark ⟨name, validator, required⟩ ++
      moreShape rest

/-- The keys after the first one, and the closing brace. -/
def moreShape : List (Property Validator) → String
  | [] => " \x7d"
  | ⟨name, validator, required⟩ :: rest =>
    ", " ++ quote name ++ ": " ++ source validator ++ optionalMark ⟨name, validator, required⟩ ++
      moreShape rest

/-- What holds for the values of undeclared keys. -/
def catchallSource : Undeclared Validator → String
  | .catchall validator => ".catchall(" ++ source validator ++ ")"
  | .strip => ""
  | .loose => ""
  | .strict => ""

end

end Validator

end SchemaClient
