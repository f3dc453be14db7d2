/-
SchemaClient.Proofs.Validator.Canonical — the validators that schemas are lowered to.

Of several ways to put the same thing, lowering has one that it keeps to: a choice between one
alternative is that alternative, null is not made nullable, an empty description is none. A canonical
validator is put in that way at every place in it.

* `Validator.Canonical` — the canonical validators, by their form.
* `Validator.Compositional` — the properties that pass from the parts of a validator to the whole.
* `Validator.Canonical.named_of_mem_references` — the names in a canonical validator.
-/
import SchemaClient.Proofs.Lowering.References

namespace SchemaClient

/-- A value that a validator of one value is made for. -/
def Json.IsLiteral : Json → Prop
  | bool _ => True
  | num _ => True
  | str _ => True
  | _ => False

namespace Validator

/-- A validator that is put in the preferred way at every place; `named` are the names it may refer
to. -/
inductive Canonical (named : String → Prop) : Validator → Prop where
  | any : Canonical named any
  | never : Canonical named never
  | null : Canonical named null
  | bool : Canonical named bool
  | number (integer : Bool) (bounds : Bounds) : Canonical named (number integer bounds)
  | string (format : Option TextFormat) (pattern : Option String) (minLength maxLength : Option Nat) :
      Canonical named (string format pattern minLength maxLength)
  | enumeration {members : List String} (hmany : 2 ≤ members.length) (hdistinct : members.Nodup) :
      Canonical named (enumeration members)
  | literal {value : Json} (hliteral : value.IsLiteral) : Canonical named (literal value)
  | array {item : Validator} (hitem : Canonical named item) (minItems maxItems : Option Nat) :
      Canonical named (array item minItems maxItems)
  | tuple {items : List Validator} (hitems : ∀ item ∈ items, Canonical named item) :
      Canonical named (tuple items)
  | object {properties : List (Property Validator)} {undeclared : Undeclared Validator}
      (hproperties : ∀ property ∈ properties, Canonical named property.validator)
      (hundeclared : ∀ rest, undeclared = .catchall rest → Canonical named rest)
      (hbare : properties = [] → undeclared = .loose ∨ undeclared = .strict) :
      Canonical named (object properties undeclared)
  | record {value : Validator} (hvalue : Canonical named value) : Canonical named (record value)
  | union {alternatives : List Validator} (hmany : 2 ≤ alternatives.length)
      (halternatives : ∀ alternative ∈ alternatives, Canonical named alternative) :
      Canonical named (union alternatives)
  | intersection {parts : List Validator} (hmany : parts.length ≠ 1)
      (hparts : ∀ part ∈ parts, Canonical named part) : Canonical named (intersection parts)
  | ref {name : String} (hname : named name) : Canonical named (ref name)
  | nullable {inner : Validator} (hinner : Canonical named inner) (hnull : inner ≠ null)
      (hnullable : ∀ deeper, inner ≠ nullable deeper) : Canonical named (nullable inner)
  | described {inner : Validator} {description : String} (hinner : Canonical named inner)
      (hdescription : description ≠ "") : Canonical named (described inner description)
  | defaulted {inner : Validator} {default : Json} (hinner : Canonical named inner)
      (hdefault : default ≠ .null) : Canonical named (defaulted inner default)

/-- A property that passes from the parts of a validator to the whole, where that is put in the
preferred way. `keyed` is what is known about the keys of an object. -/
structure Compositional (keyed : List String → Prop) (p : Validator → Prop) : Prop where
  bare : keyed []
  any : p any
  never : p never
  null : p null
  bool : p bool
  number (integer : Bool) (bounds : Bounds) : p (number integer bounds)
  string (format : Option TextFormat) (pattern : Option String) (minLength maxLength : Option Nat) :
    p (string format pattern minLength maxLength)
  enumeration {members : List String} : 2 ≤ members.length → members.Nodup →
    p (enumeration members)
  literal {value : Json} : value.IsLiteral → p (literal value)
  array {item : Validator} : p item → ∀ minItems maxItems, p (array item minItems maxItems)
  tuple {items : List Validator} : (∀ item ∈ items, p item) → p (tuple items)
  object {properties : List (Property Validator)} {undeclared : Undeclared Validator} :
    keyed (properties.map (·.name)) → (∀ property ∈ properties, p property.validator) →
      (∀ rest, undeclared = .catchall rest → p rest) →
      (properties = [] → undeclared = .loose ∨ undeclared = .strict) →
      p (object properties undeclared)
  record {value : Validator} : p value → p (record value)
  union {alternatives : List Validator} : 2 ≤ alternatives.length →
    (∀ alternative ∈ alternatives, p alternative) → p (union alternatives)
  intersection {parts : List Validator} : parts.length ≠ 1 → (∀ part ∈ parts, p part) →
    p (intersection parts)
  nullable {inner : Validator} : p inner → inner ≠ .null → (∀ deeper, inner ≠ nullable deeper) →
    p (nullable inner)
  described {inner : Validator} {description : String} : p inner → description ≠ "" →
    p (described inner description)
  defaulted {inner : Validator} {default : Json} : p inner → default ≠ .null →
    p (defaulted inner default)

/-- To be canonical is such a property, whatever the keys of an object. -/
theorem compositional_canonical (named : String → Prop) :
    Compositional (fun _ => True) (Canonical named) where
  bare := trivial
  any := .any
  never := .never
  null := .null
  bool := .bool
  number := .number
  string := .string
  enumeration := .enumeration
  literal := .literal
  array h minItems maxItems := .array h minItems maxItems
  tuple := .tuple
  object _ hproperties hundeclared hbare := .object hproperties hundeclared hbare
  record := .record
  union := .union
  intersection := .intersection
  nullable := .nullable
  described := .described
  defaulted := .defaulted

/-- A validator that has a property and may be made nullable: it is neither null nor nullable. -/
structure Nonnull (p : Validator → Prop) (v : Validator) : Prop where
  holds : p v
  ne_null : v ≠ null
  ne_nullable : ∀ deeper, v ≠ nullable deeper

/-! ## Names -/

theorem mem_listReferences {vs : List Validator} {name : String} :
    name ∈ listReferences vs ↔ ∃ v ∈ vs, name ∈ v.references := by
  induction vs with
  | nil => simp [listReferences]
  | cons first rest ih => simp [listReferences, ih]

theorem mem_propertyReferences {properties : List (Property Validator)} {name : String} :
    name ∈ propertyReferences properties ↔
      ∃ property ∈ properties, name ∈ property.validator.references := by
  induction properties with
  | nil => simp [propertyReferences]
  | cons first rest ih =>
    obtain ⟨_, validator, _⟩ := first
    simp [propertyReferences, ih]

variable {named : String → Prop}

/-- A canonical validator refers to permitted names only. -/
theorem Canonical.named_of_mem_references {v : Validator} (h : Canonical named v) :
    ∀ name ∈ v.references, named name := by
  have hlist : ∀ {vs : List Validator},
      (∀ v ∈ vs, ∀ name ∈ v.references, named name) → ∀ name ∈ listReferences vs, named name := by
    intro vs hvs name hname
    obtain ⟨v, hv, hname⟩ := mem_listReferences.mp hname
    exact hvs v hv name hname
  induction h with
  | any => simp [references]
  | never => simp [references]
  | null => simp [references]
  | bool => simp [references]
  | number => simp [references]
  | string => simp [references]
  | enumeration => simp [references]
  | literal => simp [references]
  | array _ _ _ ih => exact ih
  | tuple _ ih => exact hlist ih
  | @object properties undeclared _ _ _ ihproperties ihundeclared =>
    intro name hname
    rcases List.mem_append.mp hname with hname | hname
    · obtain ⟨property, hproperty, hname⟩ := mem_propertyReferences.mp hname
      exact ihproperties property hproperty name hname
    · cases undeclared with
      | catchall rest => exact ihundeclared rest rfl name hname
      | strip => cases hname
      | loose => cases hname
      | strict => cases hname
  | record _ ih => exact ih
  | union _ _ ih => exact hlist ih
  | intersection _ _ ih => exact hlist ih
  | ref hname =>
    intro name hmem
    rw [List.mem_singleton.mp hmem]
    exact hname
  | nullable _ _ _ ih => exact ih
  | described _ _ ih => exact ih
  | defaulted _ _ ih => exact ih

/-- A choice has a property that its alternatives have. -/
theorem Compositional.choice {keyed : List String → Prop} {p : Validator → Prop}
    (hp : Compositional keyed p) {alternatives : List Validator}
    (h : ∀ alternative ∈ alternatives, p alternative) : p (Validator.choice alternatives) := by
  match alternatives with
  | [] => exact hp.never
  | [only] => exact h only List.mem_cons_self
  | first :: second :: rest => exact hp.union (by simp) h

/-- Several parts as one: a single part is itself. -/
def gathered : List Validator → Validator
  | [only] => only
  | parts => intersection parts

theorem canonical_gathered {parts : List Validator}
    (h : ∀ part ∈ parts, Canonical named part) : Canonical named (gathered parts) := by
  match parts with
  | [] => exact .intersection (by simp) h
  | [only] => exact h only List.mem_cons_self
  | first :: second :: rest => exact .intersection (by simp) h

end Validator

end SchemaClient
