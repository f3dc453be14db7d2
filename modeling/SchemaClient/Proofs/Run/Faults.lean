/-
SchemaClient.Proofs.Run.Faults — malformed schemas in a run without resource types.

Where there are no resource types, nothing but the schema itself can keep it from having a
validator. The error then says where it is malformed, and the location resolves in the schema to a
value that cannot stand there.

* `Schema.MalformedAt` — a location of a malformed value.
* `Schema.malformedAt_of_flawAlong` — where a flaw is told, there is such a value.
* `Scope.schemaError_of_empty` — without resource types every error is a fault of the schema.
* `Scope.validator_located` — the errors have such locations, and a schema without flaws has a
  validator.
-/
import SchemaClient.Proofs.Lowering.Faults
import SchemaClient.Proofs.Sharing.Failures

namespace SchemaClient

namespace Pointer

/-- A step without special characters is written as it is. -/
theorem text_append_singleton {step : String} (h : escape step.toList = step.toList)
    (pointer : Pointer) : text (pointer ++ [step]) = text pointer ++ "/" ++ step := by
  rw [← String.toList_inj]
  simp [text, h]

end Pointer

namespace Schema

/-! ## Malformed values -/

/-- A location of a value that is malformed: of a node with a `type`, `items` or `properties` that
cannot be read, or of what a node has in place of a list of schemas. -/
inductive MalformedAt (schema : Json) (location : String) : Malformation → Prop where
  | node {node : Entries} {malformation : Malformation} :
      schema.Resolves location (.obj node) → (Keywords.ofEntries node).Flaw [] malformation →
        MalformedAt schema location malformation
  | list {above keyword : String} {node : Entries} {found : Json} :
      schema.Resolves above (.obj node) →
        (Keywords.ofEntries node).Flaw [keyword] (.schemaList found) →
          location = above ++ "/" ++ keyword → schema.Resolves location found →
            MalformedAt schema location (.schemaList found)

theorem malformedAt_of_flawAlong {schema : Json} {pointer : Pointer} {malformation : Malformation}
    (h : FlawAlong (Subschema schema) pointer malformation) :
    MalformedAt schema pointer.text malformation := by
  obtain @⟨pointer, steps, node, malformation, hnode, hflaw⟩ := h
  have hleads := hnode.leads
  by_cases hhere : steps = []
  · subst hhere
    rw [List.append_nil]
    exact .node hleads.resolves hflaw
  · cases hflaw with
    | @combinator keyword found hmem hgenuine =>
      obtain ⟨hkeyword, hfound⟩ := Keywords.find?_of_mem_combinators hmem
      have hescape : ∀ keyword ∈ ["anyOf", "oneOf", "allOf"],
          Pointer.escape keyword.toList = keyword.toList := by decide
      exact .list hleads.resolves (.combinator hmem hgenuine)
        (Pointer.text_append_singleton (hescape keyword hkeyword) pointer)
        (hleads.append (.entry (Table.mem_of_find? hfound) .here)).resolves
    | _ => exact absurd rfl hhere

end Schema

namespace Scope

/-! ## Without resource types -/

variable {config : Config} {outputRoot : String} {loose : Bool} {schema : Json} {ledger : Ledger}

/-- Without resource types no other error comes up than that of the schema itself. -/
theorem schemaError_of_empty {error : Error}
    (h : (validator ⟨[], config, outputRoot⟩ loose schema ledger).1 = .error error) :
    ∃ fault, (Schema.lower (registryAt ⟨[], config, outputRoot⟩ ledger.index) loose schema).result =
      .error fault ∧ error = schemaError fault := by
  rw [validator_eq_fulfil] at h
  rcases fulfil_error (Prod.ext h rfl) with hresult | ⟨need, hneed, c, cause, hreach, hfails, -⟩
  · simp only [Plan.ofLowering] at hresult
    cases hlower : (Schema.lower (registryAt ⟨[], config, outputRoot⟩ ledger.index) loose
        schema).result with
    | ok validator =>
      rw [hlower] at hresult
      cases hresult
    | error fault =>
      rw [hlower] at hresult
      exact ⟨fault, rfl, (Except.error.inj hresult).symm⟩
  · -- what fails is a resource type, and there is none
    obtain ⟨name, rfl, -⟩ := plan_error hfails
    obtain ⟨demand, hdemand, rfl⟩ := List.mem_map.mp hneed
    obtain ⟨loose', other, hother⟩ := exists_demand_of_reaches hdemand hreach
    cases (Schema.mem_resourceTypes_of_demand hother).2.1

/-- Without resource types the error of a schema is the location of a malformed value in it, and
what is wrong with this value. If nothing is wrong with any of its subschemas, it has a
validator. -/
theorem validator_located (config : Config) (outputRoot : String) (loose : Bool) (schema : Json)
    (ledger : Ledger) :
    (∀ error, (validator ⟨[], config, outputRoot⟩ loose schema ledger).1 = .error error →
      ∃ location malformation, error = .invalidSchema location malformation.message ∧
        Schema.MalformedAt schema location malformation) ∧
    ((∀ pointer malformation, ¬ Schema.FlawAlong (Schema.Subschema schema) pointer malformation) →
      ∃ result, (validator ⟨[], config, outputRoot⟩ loose schema ledger).1 = .ok result) := by
  constructor
  · intro error h
    obtain ⟨fault, hlower, rfl⟩ := schemaError_of_empty h
    exact ⟨_, _, rfl, Schema.malformedAt_of_flawAlong (Schema.flawAlong_of_lower hlower)⟩
  · intro hsound
    cases hresult : (validator ⟨[], config, outputRoot⟩ loose schema ledger).1 with
    | ok result => exact ⟨result, rfl⟩
    | error error =>
      obtain ⟨fault, hlower, -⟩ := schemaError_of_empty hresult
      exact absurd (Schema.flawAlong_of_lower hlower) (hsound _ _)

/-- A schema with a number where there should be a list of schemas, below keys that have to be
escaped. -/
def mistaken : Json :=
  .obj [("properties", .obj [("a/b", .obj [("items", .arr [.obj [("properties", .obj
    [("~", .obj [("anyOf", .num (.int 3))])])]])])])]

/-- A schema without flaws. -/
def sound : Json := .obj [("type", .str "string")]

/-- It has no subschemas but itself. -/
theorem eq_of_subschema_sound {pointer : Pointer} {found : Json}
    (h : Schema.Subschema sound pointer found) : found = sound := by
  induction h with
  | here => rfl
  | child _ hchild ih =>
    cases ih
    cases hchild with
    | items h => cases h
    | rest h => cases h
    | listed hmem _ =>
      simp [Keywords.combinators, Keywords.ofEntries, Table.find?] at hmem
    | property h _ => cases h

theorem not_flawAlong_sound (pointer : Pointer) (malformation : Malformation) :
    ¬ Schema.FlawAlong (Schema.Subschema sound) pointer malformation := by
  rintro ⟨hnode, hflaw⟩
  cases eq_of_subschema_sound hnode
  cases hflaw with
  | type h hgenuine =>
    cases h
    exact hgenuine (by decide)
  | items h _ => cases h
  | properties h _ => cases h
  | combinator hmem _ => simp [Keywords.combinators, Keywords.ofEntries, Table.find?] at hmem

/-- The location of the number leads to it; the schema without flaws has a validator. -/
theorem validator_located_mistaken :
    (validator ⟨[], {}, ""⟩ false mistaken {}).1 = .error (.invalidSchema
      "#/properties/a~1b/items/0/properties/~0/anyOf" "expected a list of schemas, found 3") ∧
    (∃ malformation, Schema.MalformedAt mistaken "#/properties/a~1b/items/0/properties/~0/anyOf"
      malformation) ∧
    (∀ pointer malformation, ¬ Schema.FlawAlong (Schema.Subschema sound) pointer malformation) ∧
    ∃ result, (validator ⟨[], {}, ""⟩ false sound {}).1 = .ok result := by
  have herror : (validator ⟨[], {}, ""⟩ false mistaken {}).1 = .error (.invalidSchema
      "#/properties/a~1b/items/0/properties/~0/anyOf" "expected a list of schemas, found 3") := by
    with_unfolding_all rfl
  obtain ⟨location, malformation, heq, hmalformed⟩ :=
    (validator_located {} "" false mistaken {}).1 _ herror
  obtain ⟨rfl, -⟩ := Error.invalidSchema.inj heq
  exact ⟨herror, ⟨malformation, hmalformed⟩, not_flawAlong_sound,
    (validator_located {} "" false sound {}).2 not_flawAlong_sound⟩

end Scope

end SchemaClient
