/-
SchemaClient.Json.Basic — JSON values.

Objects keep the order of their entries. A lookup finds the first entry of a key; the reader makes
objects whose keys are distinct, so that there is never a second one.

Two numbers are the same value when both are integers and equal or both are binary64 and equal as
such (`0.0` and `-0.0` are, `1` and `1.0` are not). Objects are compared without regard to the
order of their entries.

A pointer leads to a place inside a value: it is the keys and positions on the way down. In text each
step follows a slash; a slash or a tilde inside a step is escaped, so that the text says where the
steps begin.
-/
import SchemaClient.Table

namespace SchemaClient

/-- A JSON number: a literal with neither fraction nor exponent that fits 64 bits stays an integer,
any other is the binary64 number it reads as. -/
inductive Number where
  | int (value : Int)
  | float (value : Float)
  deriving DecidableEq, Repr

namespace Number

/-- The same number in the same representation. -/
def same : Number → Number → Bool
  | int a, int b => a == b
  | float a, float b => a == b
  | _, _ => false

/-- The number as a size, if it is an integer that can be one. -/
def asSize? : Number → Option Nat
  | int n => if 0 ≤ n then some n.toNat else none
  | float _ => none

end Number

inductive Json where
  | null
  | bool (value : Bool)
  | num (value : Number)
  | str (value : String)
  | arr (items : List Json)
  | obj (entries : List (String × Json))
  deriving Repr

/-- The entries of an object, in order. -/
abbrev Entries := Table Json

namespace Json

instance : Inhabited Json := ⟨.null⟩

def asString? : Json → Option String
  | str s => some s
  | _ => none

def asBool? : Json → Option Bool
  | bool b => some b
  | _ => none

def asArray? : Json → Option (List Json)
  | arr items => some items
  | _ => none

def asObject? : Json → Option Entries
  | obj entries => some entries
  | _ => none

def asNumber? : Json → Option Number
  | num n => some n
  | _ => none

/-- The value as a size (a length or a count), if it is one. -/
def asSize? (json : Json) : Option Nat := json.asNumber?.bind Number.asSize?

/-- The member of an object. -/
def member? (json : Json) (key : String) : Option Json :=
  match json with
  | obj entries => Table.find? entries key
  | _ => none

mutual

/-- How deep values are nested: scalars have height zero. -/
def height : Json → Nat
  | arr items => itemsHeight items + 1
  | obj entries => entriesHeight entries + 1
  | _ => 0

/-- The height of the highest item. -/
def itemsHeight : List Json → Nat
  | [] => 0
  | item :: rest => max item.height (itemsHeight rest)

/-- The height of the highest value among the entries. -/
def entriesHeight : List (String × Json) → Nat
  | [] => 0
  | (_, value) :: rest => max value.height (entriesHeight rest)

end

mutual

/-- Whether two values are equal, to the order of entries. -/
def decEq : (a b : Json) → Decidable (a = b)
  | null, null => isTrue rfl
  | bool a, bool b => decidable_of_iff (a = b) (by simp)
  | num a, num b => decidable_of_iff (a = b) (by simp)
  | str a, str b => decidable_of_iff (a = b) (by simp)
  | arr a, arr b => have := decEqItems a b; decidable_of_iff (a = b) (by simp)
  | obj a, obj b => have := decEqEntries a b; decidable_of_iff (a = b) (by simp)
  | null, bool _ | null, num _ | null, str _ | null, arr _ | null, obj _ => isFalse (by simp)
  | bool _, null | bool _, num _ | bool _, str _ | bool _, arr _ | bool _, obj _ => isFalse (by simp)
  | num _, null | num _, bool _ | num _, str _ | num _, arr _ | num _, obj _ => isFalse (by simp)
  | str _, null | str _, bool _ | str _, num _ | str _, arr _ | str _, obj _ => isFalse (by simp)
  | arr _, null | arr _, bool _ | arr _, num _ | arr _, str _ | arr _, obj _ => isFalse (by simp)
  | obj _, null | obj _, bool _ | obj _, num _ | obj _, str _ | obj _, arr _ => isFalse (by simp)

def decEqItems : (a b : List Json) → Decidable (a = b)
  | [], [] => isTrue rfl
  | a :: as, b :: bs =>
    have := decEq a b
    have := decEqItems as bs
    decidable_of_iff (a = b ∧ as = bs) (by simp)
  | [], _ :: _ | _ :: _, [] => isFalse (by simp)

def decEqEntries : (a b : List (String × Json)) → Decidable (a = b)
  | [], [] => isTrue rfl
  | (key, value) :: rest, (key', value') :: rest' =>
    have := decEq value value'
    have := decEqEntries rest rest'
    decidable_of_iff (key = key' ∧ value = value' ∧ rest = rest') (by simp [and_assoc])
  | [], _ :: _ | _ :: _, [] => isFalse (by simp)

end

instance : DecidableEq Json := decEq

mutual

/-- The same value. Objects are the same when they have equally many entries and each entry of the
one has the same value in the other. -/
def same : Json → Json → Bool
  | null, null => true
  | bool a, bool b => a == b
  | num a, num b => a.same b
  | str a, str b => a == b
  | arr a, arr b => sameItems a b
  | obj a, obj b => a.length == b.length && sameEntries a b
  | _, _ => false

def sameItems : List Json → List Json → Bool
  | [], [] => true
  | a :: as, b :: bs => a.same b && sameItems as bs
  | _, _ => false

/-- Each entry of the first object has the same value in the second. -/
def sameEntries : List (String × Json) → Entries → Bool
  | [], _ => true
  | (key, value) :: rest, other =>
    (match Table.find? other key with
      | some found => value.same found
      | none => false) && sameEntries rest other

end

end Json

/-! ## Places inside a value -/

/-- The steps from a value down to a place inside it; a position in a list is written in decimal. -/
abbrev Pointer := List String

namespace Pointer

/-- A step, with tilde and slash escaped. -/
def escape (step : List Char) : List Char :=
  step.flatMap fun c => if c = '~' then ['~', '0'] else if c = '/' then ['~', '1'] else [c]

/-- The text of a pointer from the root of a document. -/
def text (pointer : Pointer) : String :=
  String.ofList ('#' :: pointer.flatMap fun step => '/' :: escape step.toList)

end Pointer

end SchemaClient
