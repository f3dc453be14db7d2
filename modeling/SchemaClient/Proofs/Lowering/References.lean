/-
SchemaClient.Proofs.Lowering.References — the declarations that a validator refers to.

* `Validator.references` — the names of other declarations in a validator, from left to right.
* `Schema.references_of_lower` — a lowered schema refers to exactly what lowering asked for, in the
  order of asking: nothing that was asked for is dropped, and no name comes from anywhere else.
-/
import SchemaClient.Proofs.Lowering.Demands

namespace SchemaClient

namespace Validator

mutual

/-- The names of other declarations in a validator, from left to right. -/
def references : Validator → List String
  | ref name => [name]
  | array item _ _ => references item
  | tuple items => listReferences items
  | object properties undeclared =>
    propertyReferences properties ++ undeclaredReferences undeclared
  | record value => references value
  | union alternatives => listReferences alternatives
  | intersection parts => listReferences parts
  | nullable inner => references inner
  | described inner _ => references inner
  | defaulted inner _ => references inner
  | _ => []

def listReferences : List Validator → List String
  | [] => []
  | first :: rest => references first ++ listReferences rest

def propertyReferences : List (Property Validator) → List String
  | [] => []
  | ⟨_, validator, _⟩ :: rest => references validator ++ propertyReferences rest

def undeclaredReferences : Undeclared Validator → List String
  | .catchall validator => references validator
  | .strip => []
  | .loose => []
  | .strict => []

end

theorem references_choice (alternatives : List Validator) :
    (choice alternatives).references = listReferences alternatives := by
  match alternatives with
  | [] => rfl
  | [only] => simp [choice, listReferences]
  | _ :: _ :: _ => rfl

end Validator

/-- The name by which a validator refers to what it demands. -/
def Demand.reference (registry : Registry) : Demand → String
  | .base64Content => Declaration.base64Content.name
  | .storageObject => Declaration.storageObject.name
  | .resourceType name =>
    if registry.hasInstances name then unionName name else typeName name

namespace Lowering

variable {α β γ : Type}

/-- The result refers to exactly what was asked for. -/
def Faithful (registry : Registry) (references : α → List String) (x : Lowering α) : Prop :=
  ∀ a, x.result = .ok a → references a = x.demands.map (·.reference registry)

section

variable {registry : Registry} {refs : α → List String} {refs' : β → List String}
  {refs'' : γ → List String} {x : Lowering α} {y : Lowering β}

theorem Faithful.pure {a : α} (h : refs a = []) : Faithful registry refs (Pure.pure a) := by
  rintro b ⟨⟩
  simpa using h

theorem Faithful.malformed (pointer : Pointer) (malformation : Malformation) :
    Faithful registry refs (malformed pointer malformation) :=
  fun _ h => nomatch h

/-- Something made of a result without asking for more. -/
theorem Faithful.bind_pure (hx : Faithful registry refs x) {f : α → Lowering β}
    (hf : ∀ a, ∃ b, f a = Pure.pure b ∧ refs' b = refs a) : Faithful registry refs' (x >>= f) := by
  intro b hb
  cases h : x.result with
  | error fault => rw [bind_of_error h] at hb; cases hb
  | ok a =>
    obtain ⟨c, hc, hrefs⟩ := hf a
    rw [bind_of_ok h, hc] at hb ⊢
    cases hb
    simp [hrefs, hx a h]

theorem Faithful.map (hx : Faithful registry refs x) {g : α → β} (hg : ∀ a, refs' (g a) = refs a) :
    Faithful registry refs' (g <$> x) :=
  hx.bind_pure fun a => ⟨g a, rfl, hg a⟩

/-- Two lowerings one after the other, put together. -/
theorem Faithful.both (hx : Faithful registry refs x) (hy : Faithful registry refs' y)
    {g : α → β → γ} (hg : ∀ a b, refs'' (g a b) = refs a ++ refs' b) :
    Faithful registry refs'' (do let a ← x; let b ← y; return g a b) := by
  intro c hc
  cases h : x.result with
  | error fault => rw [bind_of_error h] at hc; cases hc
  | ok a =>
    rw [bind_of_ok h] at hc ⊢
    change (g a <$> y).result = .ok c at hc
    rw [result_map] at hc
    cases hy' : y.result with
    | error fault => rw [hy'] at hc; cases hc
    | ok b =>
      rw [hy'] at hc
      cases hc
      change _ = (x.demands ++ (g a <$> y).demands).map _
      rw [demands_map, List.map_append, hg, hx a h, hy b hy']

end

end Lowering

namespace Keywords

open Lowering Validator

theorem references_literal (value : Json) : (literal value).references = [] := by
  cases value <;> rfl

theorem listReferences_literals (values : List Json) :
    listReferences (values.map literal) = [] := by
  induction values with
  | nil => rfl
  | cons value rest ih => simp [listReferences, references_literal, ih]

theorem references_enumeration (members : List Json) : (enumeration members).references = [] := by
  unfold enumeration
  split
  · split <;> rfl
  · rw [references_choice, listReferences_literals]

theorem references_decorate (k : Keywords) (validator : Validator) :
    (k.decorate validator).references = validator.references := by
  have hnull : (k.acceptNull validator).references = validator.references := by
    unfold acceptNull
    split
    · rfl
    · rfl
    · split <;> rfl
  have hdescribe : ∀ v : Validator, (k.describe v).references = v.references := by
    intro v
    unfold describe
    split <;> rfl
  unfold decorate
  simp only
  split
  · rw [references, hdescribe, hnull]
  · rw [hdescribe, hnull]

/-! ## One node -/

theorem lowerResource_faithful (registry : Registry) (name : String) :
    Faithful registry references (lowerResource registry name) := by
  unfold lowerResource
  split
  · rintro validator ⟨⟩; rfl
  · split
    · rintro validator ⟨⟩; rfl
    · exact .pure rfl

section

variable {registry : Registry} {sub : Json → Pointer → Lowering Validator}
  (h : ∀ schema pointer, Faithful registry references (sub schema pointer))

include h

theorem lowerEach_faithful (schemas : List Json) (pointer : Pointer) (index : Nat) :
    Faithful registry listReferences (lowerEach sub pointer index schemas) := by
  induction schemas generalizing index with
  | nil => exact .pure rfl
  | cons schema rest ih => exact (h schema _).both (ih (index + 1)) fun _ _ => rfl

theorem lowerList_faithful (found : Json) (pointer : Pointer) :
    Faithful registry listReferences (lowerList sub pointer found) := by
  cases found with
  | arr schemas => exact lowerEach_faithful h schemas pointer 0
  | _ => exact .malformed _ _

theorem lowerProperties_faithful (properties : Entries) (pointer : Pointer)
    (required : List String) :
    Faithful registry propertyReferences (lowerProperties sub pointer required properties) := by
  induction properties with
  | nil => exact .pure rfl
  | cons entry rest ih =>
    obtain ⟨name, schema⟩ := entry
    exact (h schema _).both ih fun _ _ => rfl

variable (k : Keywords) (pointer : Pointer)

theorem lowerArray_faithful : Faithful registry references (k.lowerArray sub pointer) := by
  unfold lowerArray
  split
  · exact (lowerList_faithful h _ _).map fun _ => rfl
  · exact (h _ _).map fun _ => rfl
  · exact (h _ _).map fun _ => rfl
  · exact .pure rfl
  · exact .pure rfl
  · exact .malformed _ _

theorem declaredProperties_faithful :
    Faithful registry propertyReferences (k.declaredProperties sub pointer) := by
  unfold declaredProperties
  split
  · exact lowerProperties_faithful h _ _ _
  · exact .pure rfl
  · exact .pure rfl
  · exact .malformed _ _

theorem undeclared_faithful :
    Faithful registry undeclaredReferences (k.undeclared sub pointer) := by
  unfold undeclared
  split
  · exact .pure rfl
  · exact .pure rfl
  · exact (h _ _).map fun _ => rfl
  · exact .pure rfl

theorem lowerObject_faithful : Faithful registry references (k.lowerObject sub pointer) := by
  refine (declaredProperties_faithful h k pointer).both (undeclared_faithful h k pointer) ?_
  intro properties undeclared
  split <;> simp [references, propertyReferences, undeclaredReferences]

theorem lowerKind_faithful (kind : String) :
    Faithful registry references (k.lowerKind sub pointer kind) := by
  unfold lowerKind
  split
  · exact .pure rfl
  · exact .pure rfl
  · exact .pure rfl
  · exact .pure rfl
  · exact .pure rfl
  · exact lowerArray_faithful h k pointer
  · exact lowerObject_faithful h k pointer
  · exact .pure rfl

theorem lowerKinds_faithful (kinds : List String) :
    Faithful registry listReferences (k.lowerKinds sub pointer kinds) := by
  induction kinds with
  | nil => exact .pure rfl
  | cons kind rest ih => exact (lowerKind_faithful h k pointer kind).both ih fun _ _ => rfl

theorem lowerKindList_faithful (kinds : List String) :
    Faithful registry references (k.lowerKindList sub pointer kinds) := by
  refine (lowerKinds_faithful h k pointer _).bind_pure fun alternatives => ?_
  split
  · cases alternatives with
    | nil => exact ⟨_, rfl, rfl⟩
    | cons first rest => exact ⟨_, rfl, references_choice (first :: rest)⟩
  · exact ⟨_, rfl, references_choice alternatives⟩

theorem lowerByKind_faithful : Faithful registry references (k.lowerByKind sub pointer) := by
  unfold lowerByKind
  split
  · exact lowerKind_faithful h k pointer _
  · exact lowerKindList_faithful h k pointer _
  · exact .malformed _ _
  · split
    · exact lowerKind_faithful h k pointer _
    · split
      · exact lowerKind_faithful h k pointer _
      · exact .pure rfl

theorem lowerShape_faithful : Faithful registry references (k.lowerShape sub pointer) := by
  unfold lowerShape
  split
  · exact .pure (references_literal _)
  · exact .pure (references_enumeration _)
  · exact (lowerList_faithful h _ _).map references_choice
  · exact (lowerList_faithful h _ _).map references_choice
  · refine (lowerList_faithful h _ _).bind_pure fun parts => ?_
    split
    · exact ⟨_, rfl, (List.append_nil _).symm⟩
    · exact ⟨_, rfl, rfl⟩
  · split
    · exact .pure rfl
    · exact lowerByKind_faithful h k pointer

/-- The validator of a node refers to what the node asks for, if those of its subschemas do. -/
theorem lower_faithful (loose : Bool) :
    Faithful registry references (k.lower registry loose sub pointer) := by
  unfold lower
  simp only
  split
  · intro validator hv
    cases hv
    rw [references_decorate]; rfl
  · split
    · exact .pure (references_decorate _ _)
    · split
      · refine (lowerResource_faithful registry _).map fun v => ?_
        unfold describe
        split <;> rfl
      · exact (lowerShape_faithful h _ pointer).map fun v => references_decorate _ v

end

end Keywords

namespace Schema

open Lowering

/-- A lowered schema refers to exactly what lowering asked for, in the order of asking. -/
theorem references_of_lower {registry : Registry} {loose : Bool} {schema : Json}
    {validator : Validator} (h : (lower registry loose schema).result = .ok validator) :
    validator.references =
      (lower registry loose schema).demands.map (·.reference registry) := by
  have hlevels : ∀ levels loose schema pointer, Faithful registry Validator.references
      (lowerWithin registry levels loose schema pointer) := by
    intro levels
    induction levels with
    | zero =>
      intro loose schema pointer
      cases schema with
      | bool value => cases value <;> exact .pure rfl
      | _ => exact .pure rfl
    | succ levels ih =>
      intro loose schema pointer
      cases schema with
      | bool value => cases value <;> exact .pure rfl
      | obj node => exact Keywords.lower_faithful (ih false) _ pointer loose
      | _ => exact .pure rfl
  exact hlevels schema.height loose schema [] validator h

end Schema

end SchemaClient
