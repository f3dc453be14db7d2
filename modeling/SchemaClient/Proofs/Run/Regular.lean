/-
SchemaClient.Proofs.Run.Regular — every validator of a run is regular, at every place in it.

* `Scope.Declarable` — the names of the declarations that a validator may refer to.
* `Scope.validator_regular` — what holds of all that occurs in a validator that comes out in a run.
* `Scope.validator_regular_of_sent` — it holds of the validator of every schema that a server sends.
-/
import SchemaClient.Proofs.Json.Distinct
import SchemaClient.Proofs.Lowering.Canonical
import SchemaClient.Proofs.Sharing.Transforming
import SchemaClient.Proofs.Validator.Regular

namespace SchemaClient

namespace Scope

open Validator

/-- The names of the two shared declarations, and for each resource type of the catalog those of its
own values and of its values and references. -/
def Declarable (scope : Scope) (name : String) : Prop :=
  name = "base64Content" ∨ name = "s3Object" ∨
    ∃ resourceType, Table.has scope.catalog resourceType = true ∧
      (name = typeName resourceType ∨ name = unionName resourceType)

theorem declarable_reference {scope : Scope} {index : Option InstanceIndex} {d : Demand}
    (hknown : ∀ name, d = .resourceType name → (scope.registryAt index).known name = true) :
    scope.Declarable (d.reference (scope.registryAt index)) := by
  cases d with
  | base64Content => exact Or.inl rfl
  | storageObject => exact Or.inr (Or.inl rfl)
  | resourceType name =>
    refine Or.inr (Or.inr ⟨name, hknown name rfl, ?_⟩)
    unfold Demand.reference
    dsimp only
    split
    · exact Or.inr rfl
    · exact Or.inl rfl

theorem regular_of_result {scope : Scope} {loose : Bool} {schema : Json} {index : Option InstanceIndex}
    {v : Validator} (hdistinct : schema.Distinct)
    (h : (Schema.lower (scope.registryAt index) loose schema).result = .ok v) :
    ∀ w, v.Contains w → w.Regular scope.Declarable := by
  refine Schema.of_lower (compositional_regular scope.Declarable) (fun d hknown => ?_) hdistinct h
  exact .of_regular (declarable_reference hknown) fun _ h => nomatch h

/-- Whatever schema without a key twice is lowered, in whatever state of a run and loosely or not, all
that occurs in the validator that comes out is regular, and the names that it refers to are those of
the shared declarations and of the resource types of the catalog. Schemas are decoded from answers, and
a value that is decoded has no key twice. -/
theorem validator_regular {scope : Scope} {loose : Bool} {schema : Json} {ledger : Ledger}
    {v : Validator} (hdistinct : schema.Distinct)
    (h : (scope.validator loose schema ledger).1 = .ok v) :
    ∀ w, v.Contains w → w.Regular scope.Declarable :=
  regular_of_result hdistinct (result_of_validator_ok h)

/-- The schemas that come to be lowered in a run are those that a server sends, so that all that occurs
in their validators is regular. -/
theorem validator_regular_of_sent {scope : Scope} {loose : Bool} {schema : Json} {ledger : Ledger}
    {v : Validator} (hsent : Json.Sent schema)
    (h : (scope.validator loose schema ledger).1 = .ok v) :
    ∀ w, v.Contains w → w.Regular scope.Declarable :=
  regular_of_result hsent.distinct (result_of_validator_ok h)

/-- A schema with repeated members, kinds next to null, a reference among alternatives and a say about
other keys. -/
def mixedSchema : Json :=
  .obj [("type", .str "object"), ("properties", .obj [
      ("color", .obj [("enum", .arr [.str "red", .str "blue", .str "red"]), ("default", .str "red")]),
      ("size", .obj [("type", .arr [.str "integer", .str "null"]), ("nullable", .bool true),
        ("default", .null)]),
      ("from", .obj [("anyOf", .arr [.obj [("const", .bool true)],
          .obj [("type", .str "object"), ("format", .str "resource-db")]]),
        ("nullable", .bool true), ("description", .str "where from")])]),
    ("additionalProperties", .obj [("allOf", .arr [.bool true])])]

theorem distinct_mixedSchema : mixedSchema.Distinct := by
  have htext : ∀ text, (Json.str text).Distinct := fun _ => Json.distinct_scalar rfl rfl
  have hbool : ∀ value, (Json.bool value).Distinct := fun _ => Json.distinct_scalar rfl rfl
  have hnull : Json.null.Distinct := Json.distinct_scalar rfl rfl
  simp [mixedSchema, Json.distinct_obj_iff, Json.distinct_arr_iff, Table.names, htext, hbool, hnull]

/-- What it is lowered to. -/
def mixedValidator : Validator :=
  .object [⟨"color", .defaulted (.enumeration ["red", "blue"]) (.str "red"), false⟩,
    ⟨"size", .nullable (.number true {}), false⟩,
    ⟨"from", .described (.nullable (.union [.literal (.bool true), .ref "db_resource"])) "where from",
      false⟩] (.catchall .any)

theorem validator_regular_mixed :
    mixedSchema.Distinct ∧
      (circular.validator false mixedSchema circularStart).1 = .ok mixedValidator ∧
      ∀ w, mixedValidator.Contains w → w.Regular circular.Declarable := by
  have hvalidator : (circular.validator false mixedSchema circularStart).1 = .ok mixedValidator :=
    validator_of_isOk (by decide +kernel) (by rfl)
  exact ⟨distinct_mixedSchema, hvalidator, validator_regular distinct_mixedSchema hvalidator⟩

end Scope

end SchemaClient
