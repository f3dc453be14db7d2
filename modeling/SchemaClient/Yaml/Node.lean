/-
SchemaClient.Yaml.Node — the nodes of a YAML document.

A node is a scalar, a sequence or a mapping, each with its tag and the mark where it begins. A
mapping keeps its entries in order, keys that come twice included; with each entry goes the step that
paths write for it, which only keys written as scalars have a name for.

* `Scalar.meaning?` — what a scalar stands for: null, a truth value, a number or a text.
* `Node.isLoadable` — whether a node means something throughout: its scalars fit their tags, its
  integers fit 64 bits, and no mapping has a key twice.
-/
import SchemaClient.Decimal.Reading
import SchemaClient.Json.Basic
import SchemaClient.Yaml.Scalar

namespace SchemaClient

namespace Yaml

/-- A scalar: its characters, how it is written, and its tag. -/
structure Scalar where
  text : String
  style : Style
  tag : Option String := none
  deriving DecidableEq, Repr

inductive Node where
  | scalar (mark : Mark) (value : Scalar)
  | sequence (mark : Mark) (tag : Option String) (items : List Node)
  | mapping (mark : Mark) (tag : Option String) (entries : List (Json.Step × Node × Node))

namespace Node

/-- Where a node begins. -/
def mark : Node → Mark
  | scalar mark _ => mark
  | sequence mark _ _ => mark
  | mapping mark _ _ => mark

end Node

/-! ## Plain scalars -/

/-- What a scalar stands for. -/
inductive Meaning where
  | null
  | bool (value : Bool)
  | int (value : Int)
  | float (value : Float)
  | text (value : String)

def isNullWord (text : String) : Bool := text ∈ ["null", "Null", "NULL", "~"]

def boolWord? (text : String) : Option Bool :=
  if text ∈ ["true", "True", "TRUE"] then some true
  else if text ∈ ["false", "False", "FALSE"] then some false
  else none

/-- The bases that are written with a mark in front of the digits. -/
def baseMarks : List (List Char × Nat) := [(['0', 'x'], 16), (['0', 'o'], 8), (['0', 'b'], 2)]

/-- The number that digits give, after the mark of their base if they have one. -/
def naturalDigits? (text : List Char) : Option Nat :=
  (baseMarks.findSome? fun (mark, base) =>
    if mark.isPrefixOf text then numberIn? base (text.drop mark.length) else none)
  <|> numberIn? 10 text

/-- Whether digits are only a text, because they begin with a zero. -/
def isZeroPadded (text : List Char) : Bool :=
  1 < text.length && text.head? == some '0' && text.all Char.isDigit

/-- The number without a sign, or with a plus, that a text is. -/
def natural? (text : String) : Option Nat :=
  match text.toList with
  | '+' :: digits => if isZeroPadded digits then none else naturalDigits? digits
  | digits => if isZeroPadded digits then none else naturalDigits? digits

/-- The integer that a text is. One that does not fit 128 bits, with a sign or without, is none. -/
def integer? (text : String) : Option Int :=
  let value : Option Int := match text.toList with
    | '-' :: digits => if isZeroPadded digits then none else (naturalDigits? digits).map (-·)
    | _ => (natural? text).map Int.ofNat
  value.filter fun n => -(Nat.pow 2 127 : Nat) ≤ n && n < (Nat.pow 2 128 : Nat)

/-- The exponent at the end of a decimal number. -/
def exponent? (text : List Char) : Option Int :=
  match text with
  | [] => some 0
  | c :: rest =>
    if c = 'e' ∨ c = 'E' then
      match rest with
      | '-' :: digits => (numberIn? 10 digits).map (-·)
      | '+' :: digits => (numberIn? 10 digits).map Int.ofNat
      | digits => (numberIn? 10 digits).map Int.ofNat
    else none

/-- The decimal number that a text without a sign is. -/
def decimal? (text : List Char) : Option Float := do
  let whole := text.takeWhile Char.isDigit
  let after := text.dropWhile Char.isDigit
  let (fraction, after) := match after with
    | '.' :: rest => (rest.takeWhile Char.isDigit, rest.dropWhile Char.isDigit)
    | rest => ([], rest)
  let value ← numberIn? 10 (whole ++ fraction)
  let exponent ← exponent? after
  let number := Decimal.rounded value (exponent - fraction.length)
  if number.isFinite then some number else none

/-- The number that a text is; integers written in decimal are numbers as well. -/
def real? (text : String) : Option Float :=
  let infinity : Float := 1.0 / 0.0
  let unsigned? (text : List Char) : Option Float :=
    if String.ofList text ∈ [".inf", ".Inf", ".INF"] then some infinity else decimal? text
  if text ∈ [".nan", ".NaN", ".NAN"] then some (0.0 / 0.0)
  else match text.toList with
    | '-' :: rest => (unsigned? rest).map (-·)
    | '+' :: rest => unsigned? rest
    | rest => unsigned? rest

namespace Scalar

/-- What the characters of a plain scalar stand for. -/
def plainMeaning (text : String) : Meaning :=
  if text.isEmpty || isNullWord text then .null
  else match boolWord? text with
    | some value => .bool value
    | none =>
      match integer? text with
      | some value => .int value
      | none =>
        let digits := match text.toList with
          | '-' :: rest => rest
          | '+' :: rest => rest
          | rest => rest
        if isZeroPadded digits then .text text
        else match real? text with
          | some value => .float value
          | none => .text text

/-- The tag of a type that every document knows. -/
def standardTag (name : String) : String := "tag:yaml.org,2002:" ++ name

/-- Whether a tag is a document's own. -/
def isLocalTag (tag : String) : Bool := tag.toList.head? == some '!'

/-- Whether a plain scalar, or a literal one tagged as such, can be of a standard type. -/
def mayBe (scalar : Scalar) (type : String) : Bool :=
  scalar.style == .plain || (scalar.style == .literal && scalar.tag == some (standardTag type))

/-- Whether an integer fits 64 bits, with a sign or without one. -/
def fits (value : Int) : Bool := Int64.minValue.toInt ≤ value && value < UInt64.size

/-- What a scalar stands for by its tag and style; nothing if it does not fit its tag. Quoted and
block scalars are texts, unless a standard tag says otherwise, and so are plain ones with a tag that
is not the document's own. -/
def meaning? (scalar : Scalar) : Option Meaning :=
  let byStyle : Meaning :=
    if scalar.style = .plain then plainMeaning scalar.text else .text scalar.text
  match scalar.tag with
  | none => some byStyle
  | some tag =>
    if tag = standardTag "bool" then (boolWord? scalar.text).map .bool
    else if tag = standardTag "int" then (integer? scalar.text).map .int
    else if tag = standardTag "float" then (real? scalar.text).map .float
    else if tag = standardTag "null" then if isNullWord scalar.text then some .null else none
    else if isLocalTag tag then some byStyle
    else some (.text scalar.text)

end Scalar

/-! ## Sameness -/

namespace Meaning

/-- The same value; numbers that are not numbers are the same. -/
def same : Meaning → Meaning → Bool
  | null, null => true
  | bool a, bool b => a == b
  | int a, int b => a == b
  | float a, float b => a == b || (a.isNaN && b.isNaN)
  | text a, text b => a == b
  | _, _ => false

end Meaning

namespace Node

/-- A tag of the document's own; other tags make no difference. -/
def localTag (tag : Option String) : Option String := tag.filter Scalar.isLocalTag

mutual

/-- The same value. The entries of mappings are compared without regard to their order. -/
def same : Node → Node → Bool
  | scalar _ a, scalar _ b =>
    localTag a.tag == localTag b.tag &&
      (match a.meaning?, b.meaning? with
        | some a, some b => a.same b
        | _, _ => false)
  | sequence _ s as, sequence _ t bs => localTag s == localTag t && sameItems as bs
  | mapping _ s as, mapping _ t bs =>
    localTag s == localTag t && as.length == bs.length && sameEntries as bs
  | _, _ => false

def sameItems : List Node → List Node → Bool
  | [], [] => true
  | a :: as, b :: bs => same a b && sameItems as bs
  | _, _ => false

/-- Each of the first entries is among the others. -/
def sameEntries : List (Json.Step × Node × Node) → List (Json.Step × Node × Node) → Bool
  | [], _ => true
  | (_, key, value) :: rest, others =>
    others.any (fun (_, k, v) => same key k && same value v) && sameEntries rest others

end

/-- Whether a key is among the keys of entries. -/
def hasKey (key : Node) (entries : List (Json.Step × Node × Node)) : Bool :=
  entries.any fun (_, other, _) => same key other

mutual

/-- Whether a node means something throughout. -/
def isLoadable : Node → Bool
  | scalar _ value =>
    match value.meaning? with
    | none => false
    | some (.int n) => Scalar.fits n
    | some _ => true
  | sequence _ _ items => areLoadable items
  | mapping _ _ entries => entriesLoadable entries

def areLoadable : List Node → Bool
  | [] => true
  | item :: rest => item.isLoadable && areLoadable rest

/-- Whether the keys and values of entries mean something, and no key comes again. -/
def entriesLoadable : List (Json.Step × Node × Node) → Bool
  | [] => true
  | (_, key, value) :: rest =>
    key.isLoadable && value.isLoadable && !hasKey key rest && entriesLoadable rest

end

end Node

end Yaml

end SchemaClient
