/-
SchemaClient.Proofs.Lowering.Looseness — what it changes to lower a schema loosely.

The outermost node of a schema may be told to keep keys that it does not declare. That is done to
the node after everything else has been done to it, and it is one keyword of that node alone. So it
shows only where the keyword is read: if the node is lowered by its kind, and the kind is an object.
The properties of the object are lowered as they are without it.

* `Validator.Loosened` — the same modifiers around an object, and around one that keeps other keys.
* `Keywords.OrdinaryObject` — the objects that are lowered as such.
* `Keywords.lower_loose` — a node that is lowered loosely.
* `Scope.looseness_outermost` — the same for a schema in the course of a run.
-/
import SchemaClient.Proofs.Lowering.Parts
import SchemaClient.Proofs.Sharing.Transforming

namespace SchemaClient

/-- The second validator is the first, except that the object within its modifiers keeps the keys
that it does not declare. An object without properties may have been a record. -/
inductive Validator.Loosened : Validator → Validator → Prop where
  | object (properties : List (Property Validator)) (undeclared : Undeclared Validator) :
      Loosened (.object properties undeclared) (.object properties .loose)
  | record (value : Validator) : Loosened (.record value) (.object [] .loose)
  | nullable {v w : Validator} : Loosened v w → Loosened (.nullable v) (.nullable w)
  | described {v w : Validator} (description : String) : Loosened v w →
      Loosened (.described v description) (.described w description)
  | defaulted {v w : Validator} (default : Json) : Loosened v w →
      Loosened (.defaulted v default) (.defaulted w default)

namespace Keywords

open Lowering Validator

variable {registry : Registry} {sub : Json → Pointer → Lowering Validator} {pointer : Pointer}
  {k : Keywords}

/-! ## Modifiers -/

theorem loosened_describe {v w : Validator} (h : Loosened v w) :
    Loosened (k.describe v) (k.describe w) := by
  unfold describe
  split
  · exact h.described _
  · exact h

theorem loosened_acceptNull {v w : Validator} (h : Loosened v w) :
    Loosened (k.acceptNull v) (k.acceptNull w) := by
  -- an object or a record is not nullable yet, and modifiers are on both sides
  have hother : Loosened (if k.isNullable then .nullable v else v)
      (if k.isNullable then .nullable w else w) := by
    split
    · exact h.nullable
    · exact h
  cases h with
  | nullable h => exact h.nullable
  | object => exact hother
  | record => exact hother
  | described => exact hother
  | defaulted => exact hother

/-- What modifies a node's validator modifies either. -/
theorem loosened_decorate {v w : Validator} (h : Loosened v w) :
    Loosened (k.decorate v) (k.decorate w) := by
  have hdescribed := loosened_describe (k := k) (loosened_acceptNull (k := k) h)
  unfold decorate
  simp only
  split
  · exact hdescribed.defaulted _
  · exact hdescribed

/-! ## Other keys -/

/-- The node with another say about keys that it does not declare. -/
def withRest (k : Keywords) (rest : Option Json) : Keywords :=
  { k with additionalProperties := rest }

theorem loosened_of_kind (h : k.kind? = some "object") :
    k.loosened = k.withRest (some (.bool true)) := by
  rw [loosened, if_pos h]
  rfl

theorem loosened_of_kind_ne (h : k.kind? ≠ some "object") : k.loosened = k := by
  rw [loosened, if_neg h]

theorem kind?_withRest (rest : Option Json) : (k.withRest rest).kind? = k.kind? := rfl

theorem ByKind.withRest (h : k.ByKind) (rest : Option Json) : (k.withRest rest).ByKind :=
  ⟨h.const, h.enum, h.anyOf, h.oneOf, h.allOf, h.reference⟩

/-- An object that is lowered either way has the same properties. -/
theorem loosened_lowerObject {v w : Validator} (hv : (k.lowerObject sub pointer).result = .ok v)
    (hw : ((k.withRest (some (.bool true))).lowerObject sub pointer).result = .ok w) :
    Loosened v w := by
  obtain ⟨properties, undeclared, hproperties, -, rfl⟩ := of_lowerObject_ok hv
  obtain ⟨properties', undeclared', hproperties', hundeclared', rfl⟩ := of_lowerObject_ok hw
  obtain rfl : properties = properties' := Except.ok.inj (hproperties.symm.trans hproperties')
  obtain rfl : .loose = undeclared' := Except.ok.inj hundeclared'
  cases properties with
  | nil => cases undeclared <;> first | exact .record _ | exact .object _ _
  | cons first rest => exact .object _ _

/-! ## Nodes -/

/-- What is lowered by a node's keywords comes out the same or loosened, and loosened if the node is
an object that is lowered by its kind. -/
theorem lowerShape_loosened {v w : Validator} (hv : (k.lowerShape sub pointer).result = .ok v)
    (hw : (k.loosened.lowerShape sub pointer).result = .ok w) :
    (w = v ∨ Loosened v w) ∧ (k.kind? = some "object" → k.ByKind → Loosened v w) := by
  by_cases hkind : k.kind? = some "object"
  · rw [loosened_of_kind hkind] at hw
    by_cases hbyKind : k.ByKind
    · have hloosened : Loosened v w := by
        rw [lowerShape_of_byKind hbyKind, lowerByKind_of_kind hkind] at hv
        rw [lowerShape_of_byKind (hbyKind.withRest _),
          lowerByKind_of_kind ((kind?_withRest _).trans hkind)] at hw
        exact loosened_lowerObject hv hw
      exact ⟨Or.inr hloosened, fun _ _ => hloosened⟩
    · have hshape : k.lowerShape sub pointer =
          (k.withRest (some (.bool true))).lowerShape sub pointer :=
        lowerShape_eq_of_byKind rfl rfl rfl fun h => absurd h hbyKind
      rw [← hshape, hv] at hw
      cases hw
      exact ⟨Or.inl rfl, fun _ h => absurd h hbyKind⟩
  · rw [loosened_of_kind_ne hkind, hv] at hw
    cases hw
    exact ⟨Or.inl rfl, fun h => absurd h hkind⟩

/-- A node that says by its `type` that it is an object, and about which nothing else decides how it
is lowered. -/
structure OrdinaryObject (k : Keywords) : Prop where
  type : k.type = some (.str "object")
  notEmpty : k.isEmptyObject = false
  notResource : Schema.resourceTypeOf k.type k.format = none
  notSelect : k.isDynamicSelect = false
  byKind : k.ByKind

theorem OrdinaryObject.kind_eq (h : k.OrdinaryObject) : k.kind? = some "object" := by
  rw [kind?, declaredType, h.type]

theorem OrdinaryObject.not_base64 (h : k.OrdinaryObject) : k.isBase64 = false := by
  rw [isBase64, h.kind_eq]
  rfl

theorem OrdinaryObject.selected_eq (h : k.OrdinaryObject) : k.selected = k := by
  rw [selected, h.notSelect]
  rfl

theorem OrdinaryObject.shaped (h : k.OrdinaryObject) : k.Shaped :=
  ⟨h.not_base64, h.notEmpty, h.selected_eq.symm ▸ h.notResource⟩

theorem OrdinaryObject.adjusted_eq (h : k.OrdinaryObject) : k.adjusted false = k :=
  h.selected_eq

/-- A node that is lowered with and without regard to other keys comes out the same or loosened, and
an ordinary object comes out loosened. -/
theorem lower_loose {v w : Validator} (hv : (k.lower registry false sub pointer).result = .ok v)
    (hw : (k.lower registry true sub pointer).result = .ok w) :
    (w = v ∨ Loosened v w) ∧ (k.OrdinaryObject → Loosened v w) := by
  by_cases hshaped : k.Shaped
  · rw [hshaped.lower_eq] at hv hw
    obtain ⟨a, ha, rfl⟩ := exists_of_map_ok hv
    obtain ⟨b, hb, rfl⟩ := exists_of_map_ok hw
    obtain ⟨hcases, hordinary⟩ := lowerShape_loosened ha hb
    refine ⟨?_, fun h => loosened_decorate (hordinary ?_ ?_)⟩
    · rcases hcases with rfl | hloosened
      · exact Or.inl rfl
      · exact Or.inr (loosened_decorate hloosened)
    · rw [h.adjusted_eq]
      exact h.kind_eq
    · rw [h.adjusted_eq]
      exact h.byKind
  · rw [lower_eq_of_not_shaped hshaped registry true false, hv] at hw
    cases hw
    exact ⟨Or.inl rfl, fun h => absurd h.shaped hshaped⟩

end Keywords

namespace Scope

open Keywords Validator

/-- If a schema can be lowered with and without regard to other keys, from one state of a run, it
comes out the same, or the outermost object is loosened and nothing else: the modifiers around it and
its properties are the same. It is loosened if the schema is an ordinary object. -/
theorem looseness_outermost {scope : Scope} {schema : Json} {ledger : Ledger} {v w : Validator}
    (hv : (scope.validator false schema ledger).1 = .ok v)
    (hw : (scope.validator true schema ledger).1 = .ok w) :
    (w = v ∨ Loosened v w) ∧
      ∀ node, schema = .obj node → (Keywords.ofEntries node).OrdinaryObject → Loosened v w := by
  have hv := result_of_validator_ok hv
  have hw := result_of_validator_ok hw
  cases schema with
  | obj node =>
    obtain ⟨hcases, hordinary⟩ := Keywords.lower_loose hv hw
    refine ⟨hcases, fun other hother h => hordinary ?_⟩
    cases hother
    exact h
  | bool value =>
    cases value <;> cases hv <;> cases hw <;> exact ⟨Or.inl rfl, fun _ h => nomatch h⟩
  | _ => cases hv; cases hw; exact ⟨Or.inl rfl, fun _ h => nomatch h⟩

/-- An object with an object in it, which may be null and is described. -/
def outermost : Entries :=
  [("type", .str "object"), ("nullable", .bool true), ("description", .str "arguments"),
    ("properties", .obj [("inner", .obj [("type", .str "object"),
      ("properties", .obj [("x", .obj [("type", .str "string")])])])]),
    ("required", .arr [.str "inner"])]

theorem ordinaryObject_outermost : (Keywords.ofEntries outermost).OrdinaryObject where
  type := rfl
  notEmpty := by decide
  notResource := by rfl
  notSelect := by rfl
  byKind :=
    { const := rfl
      enum := fun _ h => nomatch h
      anyOf := rfl
      oneOf := rfl
      allOf := rfl
      reference := rfl }

/-- What stands within the outermost object. -/
def outermostInner : List (Property Validator) :=
  [⟨"inner", .object [⟨"x", .plainText, false⟩] .strip, true⟩]

theorem looseness_outermost_nested :
    (circular.validator false (.obj outermost) circularStart).1 =
        .ok (.described (.nullable (.object outermostInner .strip)) "arguments") ∧
      (circular.validator true (.obj outermost) circularStart).1 =
        .ok (.described (.nullable (.object outermostInner .loose)) "arguments") ∧
      Loosened (.described (.nullable (.object outermostInner .strip)) "arguments")
        (.described (.nullable (.object outermostInner .loose)) "arguments") := by
  have hstrict : (circular.validator false (.obj outermost) circularStart).1 =
      .ok (.described (.nullable (.object outermostInner .strip)) "arguments") := by rfl
  have hloose : (circular.validator true (.obj outermost) circularStart).1 =
      .ok (.described (.nullable (.object outermostInner .loose)) "arguments") := by rfl
  exact ⟨hstrict, hloose,
    (looseness_outermost hstrict hloose).2 outermost rfl ordinaryObject_outermost⟩

end Scope

end SchemaClient
