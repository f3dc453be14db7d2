/-
SchemaClient.Proofs.Lowering.Forms — what a node is lowered by.

A node is first adjusted: what says nothing is dropped, a select takes the kind of its options, and
the outermost object may be loosened. Then the first of these decides: its values, its first
combinator, a reference, its kinds. The adjustments touch a few keywords only, so that each of these
can be told from the node as it stands.

* `Keywords.values?`, `Keywords.combinator?`, `Keywords.ByKind` — what decides.
* `Keywords.lowerShape_eq` — a node without its modifiers, by what decides.
* `Keywords.lower_eq` — a node, by what it is replaced with and else by its keywords.
* `Keywords.Shaped` — the node is not replaced.
-/
import SchemaClient.Proofs.Validator.Acceptance
import SchemaClient.Schema.Lowering

namespace SchemaClient

namespace Keywords

open Lowering Validator

variable {registry : Registry} {sub : Json → Pointer → Lowering Validator} {pointer : Pointer}
  {k : Keywords}

/-! ## Shapes -/

/-- The validator of the values that a node gives. -/
def values? (k : Keywords) : Option Validator :=
  match k.const, k.enum with
  | some value, _ => some (literal value)
  | none, some (.arr members) => some (enumeration members)
  | none, _ => none

/-- The first combinator of a node, and what stands under it. -/
def combinator? (k : Keywords) : Option (String × Json) :=
  match k.anyOf, k.oneOf, k.allOf with
  | some found, _, _ => some ("anyOf", found)
  | none, some found, _ => some ("oneOf", found)
  | none, none, some found => some ("allOf", found)
  | none, none, none => none

/-- What the validators under a combinator are put together to. -/
def combined (keyword : String) (parts : List Validator) : Validator :=
  if keyword = "allOf" then conjunction parts else choice parts

/-- The kind that is inferred where none is declared. -/
def inferredKind? (k : Keywords) : Option String :=
  if k.properties.isSome then some "object" else if k.items.isSome then some "array" else none

/-- The kinds that a node is lowered as if its kinds decide. -/
def shapeKinds (k : Keywords) : List String :=
  match k.declaredType with
  | some (.str kind) => [kind]
  | some (.arr kinds) => (kinds.filterMap Json.asString?).filter (· != "null")
  | some _ => []
  | none => k.inferredKind?.toList

/-- The node is lowered by its kinds: no values, no combinators, no reference. -/
structure ByKind (k : Keywords) : Prop where
  const : k.const = none
  enum : ∀ members, k.enum ≠ some (.arr members)
  anyOf : k.anyOf = none
  oneOf : k.oneOf = none
  allOf : k.allOf = none
  reference : k.reference = none

theorem values?_eq_none :
    k.values? = none ↔ k.const = none ∧ ∀ members, k.enum ≠ some (.arr members) := by
  unfold values?
  split
  · rename_i h
    simp [h]
  · rename_i hconst henum
    simp [henum]
  · rename_i hconst henum
    simpa [hconst] using henum

theorem combinator?_eq_none :
    k.combinator? = none ↔ k.anyOf = none ∧ k.oneOf = none ∧ k.allOf = none := by
  unfold combinator?
  split <;> simp_all

theorem byKind_iff :
    k.ByKind ↔ k.values? = none ∧ k.combinator? = none ∧ k.reference = none := by
  rw [values?_eq_none, combinator?_eq_none]
  exact ⟨fun h => ⟨⟨h.const, h.enum⟩, ⟨h.anyOf, h.oneOf, h.allOf⟩, h.reference⟩,
    fun ⟨⟨hconst, henum⟩, ⟨hanyOf, honeOf, hallOf⟩, hreference⟩ =>
      ⟨hconst, henum, hanyOf, honeOf, hallOf, hreference⟩⟩

/-- The values of a node decide, then its first combinator, then a reference, then its kinds. -/
theorem lowerShape_eq :
    k.lowerShape sub pointer =
      match k.values?, k.combinator? with
      | some validator, _ => pure validator
      | none, some (keyword, found) =>
        combined keyword <$> lowerList sub (pointer ++ [keyword]) found
      | none, none => if k.reference.isSome then pure .any else k.lowerByKind sub pointer := by
  unfold lowerShape
  split
  · rename_i hconst
    rw [values?, hconst]
  · rename_i hconst henum
    rw [values?, hconst, henum]
  · rename_i hconst hanyOf henum
    rw [values?_eq_none.mpr ⟨hconst, henum⟩, combinator?, hanyOf]
    rfl
  · rename_i hconst hanyOf honeOf henum
    rw [values?_eq_none.mpr ⟨hconst, henum⟩, combinator?, hanyOf, honeOf]
    rfl
  · rename_i hconst hanyOf honeOf hallOf henum
    rw [values?_eq_none.mpr ⟨hconst, henum⟩, combinator?, hanyOf, honeOf, hallOf]
    refine congrArg (lowerList sub (pointer ++ ["allOf"]) _ >>= ·) (funext fun found => ?_)
    rcases found with _ | ⟨only, _ | ⟨next, rest⟩⟩ <;> rfl
  · rename_i hconst hanyOf honeOf hallOf henum
    rw [values?_eq_none.mpr ⟨hconst, henum⟩, combinator?, hanyOf, honeOf, hallOf]

/-- Nodes with the same values, combinator and reference are lowered alike, if they are when their
kinds decide. -/
theorem lowerShape_eq_of_byKind {k' : Keywords} (hvalues : k.values? = k'.values?)
    (hcombinator : k.combinator? = k'.combinator?) (hreference : k.reference = k'.reference)
    (h : k.ByKind → k.lowerByKind sub pointer = k'.lowerByKind sub pointer) :
    k.lowerShape sub pointer = k'.lowerShape sub pointer := by
  rw [lowerShape_eq, lowerShape_eq, ← hvalues, ← hcombinator, ← hreference]
  split
  · rfl
  · rfl
  · rename_i hnone hnone'
    split
    · rfl
    · rename_i hreference
      refine h (byKind_iff.mpr ⟨hnone, hnone', ?_⟩)
      simpa using hreference

theorem lowerShape_of_byKind (h : k.ByKind) :
    k.lowerShape sub pointer = k.lowerByKind sub pointer := by
  obtain ⟨hvalues, hcombinator, hreference⟩ := byKind_iff.mp h
  rw [lowerShape_eq, hvalues, hcombinator, hreference]
  rfl

/-- A node of one kind, an object, is lowered as an object. -/
theorem lowerByKind_of_kind (h : k.kind? = some "object") :
    k.lowerByKind sub pointer = k.lowerObject sub pointer := by
  unfold kind? at h
  unfold lowerByKind
  cases hdeclared : k.declaredType with
  | some found =>
    rw [hdeclared] at h
    cases found with
    | str kind =>
      cases h
      rfl
    | _ => cases h
  | none =>
    rw [hdeclared] at h
    simp only at h ⊢
    split at h
    · rename_i hproperties
      rw [if_pos hproperties]
      rfl
    · cases h

theorem lowerByKind_of_declaredType (h : k.declaredType = none) :
    k.lowerByKind sub pointer =
      match k.inferredKind? with
      | some kind => k.lowerKind sub pointer kind
      | none => pure .any := by
  unfold lowerByKind inferredKind?
  rw [h]
  dsimp only
  split
  · rfl
  · split <;> rfl

section

variable {k' : Keywords} {sub' : Json → Pointer → Lowering Validator}

theorem lowerKinds_eq_of_lowerKind
    (h : ∀ kind, k.lowerKind sub pointer kind = k'.lowerKind sub' pointer kind)
    (kinds : List String) : k.lowerKinds sub pointer kinds = k'.lowerKinds sub' pointer kinds := by
  induction kinds with
  | nil => rfl
  | cons kind rest ih => rw [lowerKinds, lowerKinds, h, ih]

/-- Nodes of the same kinds are lowered by them alike, if they are as each kind. -/
theorem lowerByKind_eq_of_lowerKind (htype : k.declaredType = k'.declaredType)
    (hinferred : k.declaredType = none → k.inferredKind? = k'.inferredKind?)
    (h : ∀ kind, k.lowerKind sub pointer kind = k'.lowerKind sub' pointer kind) :
    k.lowerByKind sub pointer = k'.lowerByKind sub' pointer := by
  cases hdeclared : k.declaredType with
  | none =>
    rw [lowerByKind_of_declaredType hdeclared,
      lowerByKind_of_declaredType (htype.symm.trans hdeclared), hinferred hdeclared]
    cases k'.inferredKind? with
    | none => rfl
    | some kind => exact h kind
  | some found =>
    unfold lowerByKind
    rw [← htype, hdeclared]
    cases found with
    | str kind => exact h kind
    | arr kinds => simp only [lowerKindList, lowerKinds_eq_of_lowerKind h]
    | _ => rfl

end

/-! ## Adjusting -/

/-- Tidying a node touches its `default` and its `enum` only. -/
theorem tidied_eq (k : Keywords) :
    ∃ default enum, k.tidied = { k with default := default, enum := enum } := by
  have hnull : ∃ default, k.dropNullDefault = { k with default := default } := by
    unfold dropNullDefault
    split
    · exact ⟨none, rfl⟩
    · exact ⟨k.default, rfl⟩
  have hforeign : ∀ k : Keywords, ∃ default,
      k.dropForeignDefault = { k with default := default } := by
    intro k
    unfold dropForeignDefault
    split
    · split
      · exact ⟨k.default, rfl⟩
      · exact ⟨none, rfl⟩
    · exact ⟨k.default, rfl⟩
  have henum : ∀ k : Keywords, ∃ enum, k.dropNullEnum = { k with enum := enum } := by
    intro k
    unfold dropNullEnum
    split
    · split
      · exact ⟨none, rfl⟩
      · exact ⟨k.enum, rfl⟩
    · exact ⟨k.enum, rfl⟩
  obtain ⟨first, hfirst⟩ := hnull
  obtain ⟨second, hsecond⟩ := hforeign { k with default := first }
  obtain ⟨enum, henum⟩ := henum { k with default := second }
  exact ⟨second, enum, by rw [tidied, hfirst, hsecond, henum]⟩

/-- Tidying a node drops an `enum` of null at most. -/
theorem enum_tidied (k : Keywords) :
    k.tidied.enum = k.enum ∨ k.enum = some .null ∧ k.tidied.enum = none := by
  have hnull : k.dropNullDefault.enum = k.enum := by
    unfold dropNullDefault
    split <;> rfl
  have hforeign : ∀ k : Keywords, k.dropForeignDefault.enum = k.enum := by
    intro k
    unfold dropForeignDefault
    split
    · split <;> rfl
    · rfl
  have hdrop : ∀ k : Keywords,
      k.dropNullEnum.enum = k.enum ∨ k.enum = some .null ∧ k.dropNullEnum.enum = none := by
    intro k
    unfold dropNullEnum
    split
    · rename_i heq
      split
      · exact Or.inr ⟨heq, rfl⟩
      · exact Or.inl rfl
    · exact Or.inl rfl
  have htidied := hdrop k.dropNullDefault.dropForeignDefault
  rwa [hforeign, hnull] at htidied

theorem enum_of_tidied {members : List Json} :
    k.tidied.enum = some (.arr members) ↔ k.enum = some (.arr members) := by
  rcases k.enum_tidied with h | ⟨hnull, hnone⟩
  · rw [h]
  · rw [hnull, hnone]
    simp

theorem values?_congr {k' : Keywords} (hconst : k.const = k'.const)
    (henum : ∀ members, k.enum = some (.arr members) ↔ k'.enum = some (.arr members)) :
    k.values? = k'.values? := by
  cases hvalue : k'.const with
  | some value => rw [values?, values?, hconst, hvalue]
  | none =>
    by_cases h : ∃ members, k'.enum = some (.arr members)
    · obtain ⟨members, hmembers⟩ := h
      rw [values?, values?, hconst, hvalue, hmembers, (henum members).mpr hmembers]
    · have hnone : ∀ members, k'.enum ≠ some (.arr members) := fun members hm => h ⟨members, hm⟩
      rw [values?_eq_none.mpr ⟨hvalue, hnone⟩, values?_eq_none]
      exact ⟨hconst.trans hvalue, fun members hm => hnone members ((henum members).mp hm)⟩

theorem values?_tidied (k : Keywords) : k.tidied.values? = k.values? := by
  refine values?_congr ?_ fun _ => enum_of_tidied
  obtain ⟨default, enum, h⟩ := k.tidied_eq
  rw [h]

/-- The resource type that a node asks for once it has been adjusted is the one that it asks for as
it stands: a select whose options are computed asks for none. -/
theorem resourceTypeOf_selected {k : Keywords} {resourceType : String}
    (h : Schema.resourceTypeOf k.selected.type k.selected.format = some resourceType) :
    Schema.resourceTypeOf k.type k.format = some resourceType := by
  have hnone : ∀ type, Schema.resourceTypeOf type none = none := by
    intro type; unfold Schema.resourceTypeOf; split <;> rfl
  unfold selected at h
  split at h
  · split at h
    · split at h <;> simp [hnone] at h
    · simp [hnone] at h
  · exact h

/-- The node that is lowered by its keywords: what a select leaves, loosened if it is the outermost
one. -/
def adjusted (k : Keywords) (loose : Bool) : Keywords :=
  if loose then k.selected.loosened else k.selected

/-- A validator with the modifiers of the node, without those that say nothing. -/
def finish (k : Keywords) (validator : Validator) : Validator := k.tidied.decorate validator

theorem selected_with (k : Keywords) (default enum : Option Json) :
    ({ k with default := default, enum := enum } : Keywords).selected =
      { k.selected with default := default, enum := enum } := by
  have hselect : ({ k with default := default, enum := enum } : Keywords).isDynamicSelect =
      k.isDynamicSelect := rfl
  unfold selected
  rw [hselect]
  split
  · dsimp only
    split
    · split <;> rfl
    · rfl
  · rfl

theorem adjusted_with (k : Keywords) (default enum : Option Json) (loose : Bool) :
    ({ k with default := default, enum := enum } : Keywords).adjusted loose =
      { k.adjusted loose with default := default, enum := enum } := by
  unfold adjusted
  rw [selected_with]
  split
  · generalize k.selected = s
    have hkind : ({ s with default := default, enum := enum } : Keywords).kind? = s.kind? := rfl
    unfold loosened
    rw [hkind]
    split <;> rfl
  · rfl

/-- What an adjusted node says otherwise is what kind of value it is for and which keys it has. -/
theorem adjusted_eq (k : Keywords) (loose : Bool) :
    ∃ type format properties rest, k.adjusted loose =
      { k with
        type := type
        format := format
        properties := properties
        additionalProperties := rest } := by
  have hselected : ∃ type format properties, k.selected =
      { k with type := type, format := format, properties := properties } := by
    unfold selected
    split
    · split
      · split
        · exact ⟨_, _, k.properties, rfl⟩
        · exact ⟨_, _, _, rfl⟩
      · exact ⟨_, _, _, rfl⟩
    · exact ⟨k.type, k.format, k.properties, rfl⟩
  obtain ⟨type, format, properties, hselected⟩ := hselected
  unfold adjusted
  split
  · unfold loosened
    split
    · exact ⟨type, format, properties, some (.bool true), by rw [hselected]⟩
    · exact ⟨type, format, properties, k.additionalProperties, hselected⟩
  · exact ⟨type, format, properties, k.additionalProperties, hselected⟩

/-- The modifiers of a node are what they are before it is adjusted. -/
theorem decorate_adjusted (k : Keywords) (loose : Bool) :
    (k.adjusted loose).decorate = k.decorate := by
  obtain ⟨type, format, properties, rest, h⟩ := k.adjusted_eq loose
  rw [h]
  rfl

theorem values?_adjusted (k : Keywords) (loose : Bool) :
    (k.adjusted loose).values? = k.values? := by
  obtain ⟨type, format, properties, rest, h⟩ := k.adjusted_eq loose
  rw [h]
  rfl

theorem combinator?_adjusted (k : Keywords) (loose : Bool) :
    (k.adjusted loose).combinator? = k.combinator? := by
  obtain ⟨type, format, properties, rest, h⟩ := k.adjusted_eq loose
  rw [h]
  rfl

theorem reference_adjusted (k : Keywords) (loose : Bool) :
    (k.adjusted loose).reference = k.reference := by
  obtain ⟨type, format, properties, rest, h⟩ := k.adjusted_eq loose
  rw [h]

theorem byKind_adjusted : (k.adjusted loose).ByKind ↔ k.ByKind := by
  rw [byKind_iff, byKind_iff, values?_adjusted, combinator?_adjusted, reference_adjusted]

theorem lowerShape_tidied (k : Keywords) (loose : Bool) :
    (k.tidied.adjusted loose).lowerShape sub pointer =
      (k.adjusted loose).lowerShape sub pointer := by
  have hvalues : (k.tidied.adjusted loose).values? = (k.adjusted loose).values? := by
    rw [values?_adjusted, values?_adjusted, values?_tidied]
  obtain ⟨default, enum, h⟩ := k.tidied_eq
  rw [h, adjusted_with] at hvalues ⊢
  exact lowerShape_eq_of_byKind hvalues rfl rfl fun _ =>
    lowerByKind_eq_of_lowerKind rfl (fun _ => rfl) fun _ => rfl

/-- A node as a whole. Whether it is replaced by something else, and by what, is told from the node
as it stands. -/
theorem lower_eq (registry : Registry) (loose : Bool) :
    k.lower registry loose sub pointer =
      if k.isBase64 then (do
        demand .base64Content
        pure (k.finish (.ref Declaration.base64Content.name)))
      else if k.isEmptyObject then pure (k.finish (.record .any))
      else match Schema.resourceTypeOf k.selected.type k.selected.format with
        | some resourceType => k.describe <$> lowerResource registry resourceType
        | none => k.finish <$> (k.adjusted loose).lowerShape sub pointer := by
  obtain ⟨default, enum, htidied⟩ := k.tidied_eq
  have hbase64 : k.tidied.isBase64 = k.isBase64 := by rw [htidied]; rfl
  have hempty : k.tidied.isEmptyObject = k.isEmptyObject := by rw [htidied]; rfl
  have hresource : Schema.resourceTypeOf k.tidied.selected.type k.tidied.selected.format =
      Schema.resourceTypeOf k.selected.type k.selected.format := by
    rw [htidied, selected_with]
  have hdescribe : k.tidied.selected.describe = k.describe := by
    obtain ⟨type, format, properties, rest, hadjusted⟩ := k.tidied.adjusted_eq false
    have hselected : k.tidied.selected = k.tidied.adjusted false := rfl
    rw [hselected, hadjusted, htidied]
    rfl
  have hadjusted : (if loose = true then k.tidied.selected.loosened else k.tidied.selected) =
      k.tidied.adjusted loose := rfl
  unfold lower
  simp only [hbase64, hempty, hresource, hdescribe, hadjusted, decorate_adjusted,
    lowerShape_tidied]
  rfl

/-- The node is not replaced by something else but lowered by its keywords. -/
structure Shaped (k : Keywords) : Prop where
  notBase64 : k.isBase64 = false
  notEmpty : k.isEmptyObject = false
  notResource : Schema.resourceTypeOf k.selected.type k.selected.format = none

theorem Shaped.lower_eq (h : k.Shaped) (registry : Registry) (loose : Bool) :
    k.lower registry loose sub pointer =
      k.finish <$> (k.adjusted loose).lowerShape sub pointer := by
  rw [Keywords.lower_eq, h.notBase64, h.notEmpty, h.notResource]
  rfl

/-- A node that is replaced by something else is so whether its other keys are kept or not. -/
theorem lower_eq_of_not_shaped (h : ¬ k.Shaped) (registry : Registry) (loose loose' : Bool) :
    k.lower registry loose sub pointer = k.lower registry loose' sub pointer := by
  rw [lower_eq, lower_eq]
  split
  · rfl
  · rename_i hbase64
    split
    · rfl
    · rename_i hempty
      split
      · rfl
      · rename_i hresource
        exact absurd ⟨by simpa using hbase64, by simpa using hempty, hresource⟩ h

end Keywords

end SchemaClient
