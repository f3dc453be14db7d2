/-
SchemaClient.Proofs.Validator.Regular — what holds at every place in a validator.

Who writes a validator relies on how it was made: a union has several alternatives, null is not made
nullable, no object has a key twice. Each of these is said of one form and its data, without a look at
its parts, and asked of every validator that occurs in a given one.

* `Validator.Part`, `Validator.Contains` — the validators that occur in a validator.
* `Validator.Regular` — what is asked of a validator by its form.
* `Validator.compositional_regular` — asked of all that occurs in a validator, it passes from the
  parts to the whole.
-/
import Mathlib.Logic.Relation
import SchemaClient.Proofs.Validator.Canonical

namespace SchemaClient

namespace Validator

/-- A validator and one of those that it is put together from. -/
inductive Part : Validator → Validator → Prop where
  | item {item : Validator} {minItems maxItems : Option Nat} :
      Part (array item minItems maxItems) item
  | listed {items : List Validator} {item : Validator} : item ∈ items → Part (tuple items) item
  | property {properties : List (Property Validator)} {undeclared : Undeclared Validator}
      {property : Property Validator} : property ∈ properties →
        Part (object properties undeclared) property.validator
  | rest {properties : List (Property Validator)} {rest : Validator} :
      Part (object properties (.catchall rest)) rest
  | value {value : Validator} : Part (record value) value
  | alternative {alternatives : List Validator} {alternative : Validator} :
      alternative ∈ alternatives → Part (union alternatives) alternative
  | part {parts : List Validator} {part : Validator} : part ∈ parts → Part (intersection parts) part
  | nullable {inner : Validator} : Part (nullable inner) inner
  | described {inner : Validator} {description : String} : Part (described inner description) inner
  | defaulted {inner : Validator} {default : Json} : Part (defaulted inner default) inner

/-- A validator and one that occurs in it, at whatever depth; it occurs in itself. -/
def Contains : Validator → Validator → Prop := Relation.ReflTransGen Part

/-- What is asked of a validator by its form: its members, its keys, what its modifiers are around and
what they say; `named` are the names that it may refer to. -/
def Regular (named : String → Prop) : Validator → Prop
  | enumeration members => 2 ≤ members.length ∧ members.Nodup
  | literal value => value.IsLiteral
  | union alternatives => 2 ≤ alternatives.length
  | intersection parts => parts.length ≠ 1
  | nullable inner => inner ≠ null ∧ ∀ deeper, inner ≠ nullable deeper
  | described _ description => description ≠ ""
  | defaulted _ default => default ≠ .null
  | object properties undeclared =>
    (properties.map (·.name)).Nodup ∧
      (properties = [] → undeclared = .loose ∨ undeclared = .strict)
  | ref name => named name
  | _ => True

/-- All that occurs in a validator is regular. -/
def Sound (named : String → Prop) (v : Validator) : Prop := ∀ w, v.Contains w → w.Regular named

variable {named : String → Prop}

/-- A validator that is regular itself and whose parts are sound is sound. -/
theorem Sound.of_parts {v : Validator} (hself : v.Regular named)
    (hparts : ∀ w, v.Part w → w.Sound named) : v.Sound named := by
  intro w hw
  rcases Relation.ReflTransGen.cases_head hw with rfl | ⟨part, hpart, hrest⟩
  · exact hself
  · exact hparts part hpart w hrest

/-- A validator without parts is sound if it is regular. -/
theorem Sound.of_regular {v : Validator} (hself : v.Regular named) (hparts : ∀ w, ¬ v.Part w) :
    v.Sound named := .of_parts hself fun w hw => absurd hw (hparts w)

theorem compositional_regular (named : String → Prop) :
    Compositional List.Nodup (Sound named) where
  bare := .nil
  any := .of_regular trivial fun _ h => nomatch h
  never := .of_regular trivial fun _ h => nomatch h
  null := .of_regular trivial fun _ h => nomatch h
  bool := .of_regular trivial fun _ h => nomatch h
  number _ _ := .of_regular trivial fun _ h => nomatch h
  string _ _ _ _ := .of_regular trivial fun _ h => nomatch h
  enumeration hmany hdistinct := .of_regular ⟨hmany, hdistinct⟩ fun _ h => nomatch h
  literal hliteral := .of_regular hliteral fun _ h => nomatch h
  array hitem _ _ := .of_parts trivial fun w hw => by
    cases hw
    exact hitem
  tuple hitems := .of_parts trivial fun w hw => by
    cases hw with
    | listed hmem => exact hitems w hmem
  object hkeys hproperties hundeclared hbare := .of_parts ⟨hkeys, hbare⟩ fun w hw => by
    cases hw with
    | property hmem => exact hproperties _ hmem
    | rest => exact hundeclared w rfl
  record hvalue := .of_parts trivial fun w hw => by
    cases hw
    exact hvalue
  union hmany halternatives := .of_parts hmany fun w hw => by
    cases hw with
    | alternative hmem => exact halternatives w hmem
  intersection hmany hparts := .of_parts hmany fun w hw => by
    cases hw with
    | part hmem => exact hparts w hmem
  nullable hinner hnull hnullable := .of_parts ⟨hnull, hnullable⟩ fun w hw => by
    cases hw
    exact hinner
  described hinner hdescription := .of_parts hdescription fun w hw => by
    cases hw
    exact hinner
  defaulted hinner hdefault := .of_parts hdefault fun w hw => by
    cases hw
    exact hinner

end Validator

end SchemaClient
