/-
SchemaClient.Proofs.Run.Expressions — when two schemas have the same expression.

A run reduces a schema to a validator and writes that as an expression. Whatever the two schemas, and
whatever is known and has been declared when each of them is looked at, the expressions are the same
exactly if the validators are alike: nothing but what `Validator.Identified` lists is lost in writing.

* `Scope.canonical_of_validator_ok` — the validators of a run are canonical.
* `Scope.source_eq_iff_alike` — their expressions tell them apart.
-/
import SchemaClient.Proofs.Emission.Constants
import SchemaClient.Proofs.Lowering.Canonical
import SchemaClient.Proofs.Sharing.Transforming
import SchemaClient.Proofs.Validator.Unambiguous

namespace SchemaClient

/-- What a demand is referred to by is a name that a declaration may have. -/
theorem Demand.named_reference (registry : Registry) (d : Demand) :
    Validator.Named (d.reference registry) := by
  refine ⟨d.valid_reference registry, ?_⟩
  rw [← Constant.name_ofDemand]
  refine Constant.name_ne_z ?_
  cases d <;> trivial

namespace Scope

open Validator

variable {scope scope' : Scope} {loose loose' : Bool} {schema schema' : Json}
  {ledger ledger' : Ledger} {a b : Validator}

theorem canonical_of_validator_ok (h : (scope.validator loose schema ledger).1 = .ok a) :
    Canonical Named a := by
  have hnamed := Demand.named_reference (scope.registryAt ledger.index)
  exact Schema.canonical_of_lower (hnamed .base64Content) (hnamed .storageObject)
    (fun name _ => hnamed (.resourceType name)) (result_of_validator_ok h)

/-- The validators of two schemas, in any two states of any runs, are written alike if and only if
they are equal up to the differences that do not show. -/
theorem source_eq_iff_alike (ha : (scope.validator loose schema ledger).1 = .ok a)
    (hb : (scope'.validator loose' schema' ledger').1 = .ok b) : a.source = b.source ↔ Alike a b :=
  ⟨(canonical_of_validator_ok ha).determined b (canonical_of_validator_ok hb), Alike.source_eq⟩

/-- Parts with parts of their own. -/
def nestedSchema : Json :=
  .obj [("allOf", .arr [.obj [("allOf", .arr [.obj [("type", .str "string")],
    .obj [("type", .str "number")]])], .obj [("type", .str "boolean")]])]

/-- The same in one list of parts. -/
def flatSchema : Json :=
  .obj [("allOf", .arr [.obj [("type", .str "string")], .obj [("type", .str "number")],
    .obj [("type", .str "boolean")]])]

theorem source_eq_iff_alike_nested :
    (circular.validator false nestedSchema circularStart).1 =
        .ok (intersection [intersection [plainText, number false {}], bool]) ∧
      (circular.validator true flatSchema {}).1 =
        .ok (intersection [plainText, number false {}, bool]) ∧
      (intersection [intersection [plainText, number false {}], bool]).source =
        (intersection [plainText, number false {}, bool]).source := by
  have hnested : (circular.validator false nestedSchema circularStart).1 =
      .ok (intersection [intersection [plainText, number false {}], bool]) := by rfl
  have hflat : (circular.validator true flatSchema {}).1 =
      .ok (intersection [plainText, number false {}, bool]) := by rfl
  exact ⟨hnested, hflat, (source_eq_iff_alike hnested hflat).mpr
    (.of_identified (.nested plainText (number false {}) [] [bool]))⟩

end Scope

end SchemaClient
