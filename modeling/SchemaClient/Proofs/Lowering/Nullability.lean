/-
SchemaClient.Proofs.Lowering.Nullability — nodes that say that they may be null.

Of a node that says `nullable: true` one expects a validator that accepts null. Whatever a node is
lowered to in the end passes through its modifiers, which see to that, with one exception: a reference
to a resource type gets the description of the node and no other modifier.

* `Validator.undecorated`, `Validator.IsNullable` — a validator that accepts null as one can see
  without its description and its default.
* `Scope.nullable_iff` — the nodes that are lowered to such a validator.
* `Scope.nullable_reference` — a reference that is not.
-/
import SchemaClient.Proofs.Sharing.Transforming

namespace SchemaClient

namespace Validator

/-- The validator without the descriptions and the defaults around it. -/
def undecorated : Validator → Validator
  | described inner _ => inner.undecorated
  | defaulted inner _ => inner.undecorated
  | validator => validator

/-- The validator is that of null, or accepts null beside other values. -/
def IsNullable : Validator → Prop
  | null => True
  | nullable _ => True
  | _ => False

end Validator

namespace Keywords

open Lowering Validator

variable {registry : Registry} {sub : Json → Pointer → Lowering Validator} {pointer : Pointer}
  {k : Keywords} {loose : Bool}

/-! ## Modifiers -/

theorem undecorated_describe (v : Validator) : (k.describe v).undecorated = v.undecorated := by
  unfold describe
  split <;> rfl

theorem undecorated_decorate (v : Validator) :
    (k.decorate v).undecorated = (k.acceptNull v).undecorated := by
  unfold decorate
  simp only
  split
  · exact undecorated_describe _
  · exact undecorated_describe _

/-- What a node that may be null is lowered to with all its modifiers accepts null. -/
theorem isNullable_decorate (h : k.isNullable = true) (v : Validator) :
    (k.decorate v).undecorated.IsNullable := by
  rw [undecorated_decorate]
  unfold acceptNull
  split
  · trivial
  · trivial
  · rw [if_pos h]
    trivial

theorem isNullable_finish (h : k.isNullable = true) (v : Validator) :
    (k.finish v).undecorated.IsNullable := by
  have htidied : k.tidied.isNullable = k.isNullable := by
    obtain ⟨default, enum, htidied⟩ := k.tidied_eq
    rw [htidied]
    rfl
  exact isNullable_decorate (htidied.trans h) v

/-! ## Resources -/

theorem exists_of_resourceTypeOf {type format : Option Json} {resourceType : String}
    (h : Schema.resourceTypeOf type format = some resourceType) :
    type = some (.str "object") ∧
      ∃ text, format = some (.str text) ∧ Schema.resourceMark.isPrefixOf text.toList = true := by
  unfold Schema.resourceTypeOf at h
  split at h
  · rename_i hobject
    obtain ⟨found, rfl, hfound⟩ := Option.bind_eq_some_iff.mp hobject
    obtain ⟨text, htext, hafter⟩ := Option.bind_eq_some_iff.mp h
    obtain ⟨other, rfl, hother⟩ := Option.bind_eq_some_iff.mp htext
    cases found with
    | str kind =>
      cases hfound
      cases other with
      | str text' =>
        cases hother
        refine ⟨rfl, text, rfl, ?_⟩
        unfold after? at hafter
        split at hafter
        · assumption
        · cases hafter
      | _ => cases hother
    | _ => cases hfound
  · cases h

/-- A node that asks for a resource is neither text nor empty nor a select, so that nothing comes
before the reference. -/
theorem lower_resource {resourceType : String}
    (h : Schema.resourceTypeOf k.type k.format = some resourceType) :
    k.lower registry loose sub pointer =
      k.describe <$> lowerResource registry resourceType := by
  obtain ⟨htype, format, hformat, hmark⟩ := exists_of_resourceTypeOf h
  have hkind : k.kind? = some "object" := by rw [kind?, declaredType, htype]
  have hbase64 : k.isBase64 = false := by
    rw [isBase64, hkind]
    rfl
  have hempty : k.isEmptyObject = false := by
    simp [isEmptyObject, hformat, saysSomething]
  have hselect : k.isDynamicSelect = false := by
    rw [isDynamicSelect, formatText?, hformat]
    obtain ⟨rest, hrest⟩ := List.isPrefixOf_iff_prefix.mp hmark
    simp only [Option.bind_some, Json.asString?, ← hrest]
    rfl
  have hselected : k.selected = k := by
    rw [selected, hselect]
    rfl
  rw [lower_eq, hbase64, hempty, hselected, h]
  rfl

/-- A reference to a resource is not nullable. -/
theorem not_isNullable_lowerResource {resourceType : String} {v : Validator}
    (h : (lowerResource registry resourceType).result = .ok v) : ¬ v.undecorated.IsNullable := by
  unfold lowerResource at h
  split at h
  · cases h
    exact id
  · split at h
    · cases h
      exact id
    · cases h
      exact id

/-! ## Nodes -/

/-- Any other node is lowered to something with all its modifiers. -/
theorem exists_finish_of_lower {v : Validator}
    (hresource : Schema.resourceTypeOf k.type k.format = none)
    (h : (k.lower registry loose sub pointer).result = .ok v) : ∃ inner, v = k.finish inner := by
  rw [lower_eq] at h
  split at h
  · cases h
    exact ⟨_, rfl⟩
  split at h
  · cases h
    exact ⟨_, rfl⟩
  split at h
  · rename_i heq
    rw [resourceTypeOf_selected heq] at hresource
    cases hresource
  · obtain ⟨inner, -, rfl⟩ := exists_of_map_ok h
    exact ⟨inner, rfl⟩

/-- A node that may be null is lowered to a validator that accepts null if and only if it does not
ask for a resource. -/
theorem isNullable_lower_iff {v : Validator} (hnullable : k.isNullable = true)
    (h : (k.lower registry loose sub pointer).result = .ok v) :
    v.undecorated.IsNullable ↔ Schema.resourceTypeOf k.type k.format = none := by
  cases hresource : Schema.resourceTypeOf k.type k.format with
  | none =>
    obtain ⟨inner, rfl⟩ := exists_finish_of_lower hresource h
    exact iff_of_true (isNullable_finish hnullable inner) rfl
  | some resourceType =>
    rw [lower_resource hresource] at h
    obtain ⟨inner, hinner, rfl⟩ := exists_of_map_ok h
    refine iff_of_false ?_ (fun h => nomatch h)
    rw [undecorated_describe]
    exact not_isNullable_lowerResource hinner

end Keywords

namespace Scope

open Validator

/-- In a run, a node that says that it may be null is lowered to a validator that accepts null,
whatever else it says and whatever resource types there are, unless it asks for a resource; then it is
not. -/
theorem nullable_iff {scope : Scope} {loose : Bool} {node : Entries} {ledger : Ledger}
    {v : Validator} (hnullable : Table.find? node "nullable" = some (.bool true))
    (h : (scope.validator loose (.obj node) ledger).1 = .ok v) :
    v.undecorated.IsNullable ↔ Schema.resourceType? node = none := by
  have hkeyword : (Keywords.ofEntries node).isNullable = true := by
    change ((Table.find? node "nullable").bind Json.asBool? == some true) = true
    rw [hnullable]
    rfl
  exact Keywords.isNullable_lower_iff hkeyword (result_of_validator_ok h)

/-- Text in base64 that may be null, with a default. -/
def nullableFile : Entries :=
  [("type", .str "string"), ("contentEncoding", .str "base64"), ("nullable", .bool true),
    ("default", .str "")]

theorem nullable_iff_file :
    Table.find? nullableFile "nullable" = some (.bool true) ∧
      (circular.validator true (.obj nullableFile) circularStart).1 =
        .ok (.defaulted (.nullable (.ref "base64Content")) (.str "")) ∧
      (Validator.defaulted (.nullable (.ref "base64Content")) (.str "")).undecorated.IsNullable := by
  have hvalidator : (circular.validator true (.obj nullableFile) circularStart).1 =
      .ok (.defaulted (.nullable (.ref "base64Content")) (.str "")) :=
    validator_of_isOk (by decide +kernel) (by rfl)
  exact ⟨rfl, hvalidator, (nullable_iff (by rfl) hvalidator).mpr (by rfl)⟩

/-- A reference that may be null. -/
def nullableReference : Entries :=
  [("type", .str "object"), ("format", .str "resource-db"), ("nullable", .bool true)]

/-- A reference that may be null is lowered to one that does not accept null. -/
theorem nullable_reference :
    Table.find? nullableReference "nullable" = some (.bool true) ∧
      (circular.validator false (.obj nullableReference) circularStart).1 =
        .ok (.ref "db_resource") ∧
      ¬ (Validator.ref "db_resource").undecorated.IsNullable := by
  exact ⟨rfl, validator_of_isOk (by decide +kernel) (by rfl), id⟩

end Scope

end SchemaClient
