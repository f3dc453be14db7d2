/-
SchemaClient.Proofs.Lowering.Faults — where lowering a schema fails.

Lowering carries the pointer of the node it is at and gives up with it. Every node it comes to it
comes to through the keywords that hold subschemas, so that the pointer of a fault leads back to a
node of the schema, and there the fault is found as it was told. What is known about resource types
changes neither whether lowering fails nor where.

* `Schema.Subschema` — a subschema, and the pointer that leads to it.
* `Schema.FlawAlong`, `Schema.FaultAt` — the malformed places of a schema.
* `Schema.flawAlong_of_lower` — a fault is a flaw of the node that its pointer leads to.
* `Schema.WellFormed`, `Schema.wellFormed_of_lower` — a schema can be lowered whatever is known.
-/
import SchemaClient.Proofs.Json.Pointer
import SchemaClient.Proofs.Lowering.Traversal

namespace SchemaClient

namespace Lowering

/-- Both lowerings come to a result, or both give up with the same fault, which is an allowed one. -/
def failsAlike (allowed : SchemaFault → Prop) : Congruence where
  Rel x y := (∃ a b, x.result = .ok a ∧ y.result = .ok b) ∨
    ∃ fault, allowed fault ∧ x.result = .error fault ∧ y.result = .error fault
  Exact := False
  Allowed := allowed
  pure _ := Or.inl ⟨_, _, rfl, rfl⟩
  malformed h := Or.inr ⟨_, h, rfl, rfl⟩
  bind {α β x y f g} hxy hfg := by
    rcases hxy with ⟨a, b, hx, hy⟩ | ⟨fault, hallowed, hx, hy⟩
    · rw [bind_of_ok hx, bind_of_ok hy]
      exact hfg a b False.elim
    · rw [bind_of_error hx, bind_of_error hy]
      exact Or.inr ⟨fault, hallowed, rfl, rfl⟩

end Lowering

namespace Keywords

open Lowering

/-- A keyword that combines schemas is an entry of its node. -/
theorem find?_of_mem_combinators {node : Entries} {keyword : String} {found : Json}
    (h : (keyword, some found) ∈ (ofEntries node).combinators) :
    keyword ∈ ["anyOf", "oneOf", "allOf"] ∧ Table.find? node keyword = some found := by
  simp only [combinators, ofEntries, List.mem_cons, Prod.mk.injEq, List.not_mem_nil,
    or_false] at h
  rcases h with ⟨rfl, h⟩ | ⟨rfl, h⟩ | ⟨rfl, h⟩ <;> exact ⟨by decide, h.symm⟩

/-- The steps to a subschema lead to it. -/
theorem Child.leads {node : Entries} {steps : Pointer} {schema : Json}
    (h : (ofEntries node).Child steps schema) : (Json.obj node).LeadsTo steps schema := by
  cases h with
  | items h => exact .entry (Table.mem_of_find? h) .here
  | rest h => exact .entry (Table.mem_of_find? h) .here
  | @listed keyword schemas i _ hmem hi =>
    have hkeyword : Table.find? node keyword = some (.arr schemas) := by
      rcases List.mem_cons.mp hmem with heq | hmem
      · obtain ⟨rfl, h⟩ := Prod.mk.inj heq
        exact h.symm
      · exact (find?_of_mem_combinators hmem).2
    exact .entry (Table.mem_of_find? hkeyword) (.item hi .here)
  | property h hmem => exact .entry (Table.mem_of_find? h) (.entry hmem .here)

/-- What a node demands itself comes to a result. -/
theorem lowerResource_ok (registry : Registry) (name : String) :
    ∃ validator, (lowerResource registry name).result = .ok validator := by
  unfold lowerResource
  split
  · exact ⟨_, rfl⟩
  · split <;> exact ⟨_, rfl⟩

end Keywords

namespace Schema

open Lowering

/-! ## Malformed places -/

/-- A subschema of a schema, and the pointer that leads to it. -/
inductive Subschema (schema : Json) : Pointer → Json → Prop where
  | here : Subschema schema [] schema
  | child {pointer steps : Pointer} {node : Entries} {found : Json} :
      Subschema schema pointer (.obj node) → (Keywords.ofEntries node).Child steps found →
        Subschema schema (pointer ++ steps) found

theorem Subschema.leads {schema found : Json} {pointer : Pointer}
    (h : Subschema schema pointer found) : schema.LeadsTo pointer found := by
  induction h with
  | here => exact .here
  | child _ hchild ih => exact ih.append hchild.leads

/-- A malformed place: a flaw of a node that can be come to by `path`. -/
inductive FlawAlong (path : Pointer → Json → Prop) : Pointer → Malformation → Prop where
  | intro {pointer steps : Pointer} {node : Entries} {malformation : Malformation} :
      path pointer (.obj node) → (Keywords.ofEntries node).Flaw steps malformation →
        FlawAlong path (pointer ++ steps) malformation

theorem FlawAlong.mono {path path' : Pointer → Json → Prop}
    (h : ∀ pointer found, path pointer found → path' pointer found) {pointer : Pointer}
    {malformation : Malformation} (hflaw : FlawAlong path pointer malformation) :
    FlawAlong path' pointer malformation := by
  obtain ⟨hpath, hflaw⟩ := hflaw
  exact ⟨h _ _ hpath, hflaw⟩

/-- The pointer leads to a malformed place in the schema. -/
abbrev FaultAt (schema : Json) : Pointer → Malformation → Prop := FlawAlong schema.LeadsTo

/-! ## Lowering -/

/-- Whatever is known about resource types, a schema is lowered to a validator, or lowering gives up
with the same flaw of the same subschema. The induction is on the levels that are left. -/
theorem lower_failsAlike (registry registry' : Registry) (loose : Bool) (schema : Json) :
    (failsAlike fun fault =>
      FlawAlong (Subschema schema) fault.pointer fault.malformation).Rel
      (lower registry loose schema) (lower registry' loose schema) := by
  have hlevels : ∀ levels loose found pointer, Subschema schema pointer found →
      (failsAlike fun fault => FlawAlong (Subschema schema) fault.pointer fault.malformation).Rel
        (lowerWithin registry levels loose found pointer)
        (lowerWithin registry' levels loose found pointer) := by
    intro levels
    induction levels with
    | zero =>
      intro loose found pointer _
      cases found with
      | bool value => cases value <;> exact (failsAlike _).refl_pure _
      | _ => exact (failsAlike _).refl_pure _
    | succ levels ih =>
      intro loose found pointer hfound
      cases found with
      | bool value => cases value <;> exact (failsAlike _).refl_pure _
      | obj node =>
        refine Keywords.lower_congr _ loose pointer (Or.inl ⟨_, _, rfl, rfl⟩) ?_
          (fun steps sub hchild => ih false sub _ (hfound.child hchild)) fun _ _ hflaw =>
            .intro hfound hflaw
        intro name _
        obtain ⟨validator, h⟩ := Keywords.lowerResource_ok registry name
        obtain ⟨validator', h'⟩ := Keywords.lowerResource_ok registry' name
        exact Or.inl ⟨validator, validator', h, h'⟩
      | _ => exact (failsAlike _).refl_pure _
  exact hlevels schema.height loose schema [] .here

/-- A fault is a flaw of the subschema that its pointer leads to. -/
theorem flawAlong_of_lower {registry : Registry} {loose : Bool} {schema : Json}
    {fault : SchemaFault} (h : (lower registry loose schema).result = .error fault) :
    FlawAlong (Subschema schema) fault.pointer fault.malformation := by
  rcases lower_failsAlike registry registry loose schema with ⟨a, b, ha, -⟩ |
    ⟨other, hflaw, hother, -⟩
  · rw [h] at ha
    cases ha
  · rw [h] at hother
    cases hother
    exact hflaw

/-- The pointer of a fault leads to a malformed place in the schema. -/
theorem faultAt_of_lower {registry : Registry} {loose : Bool} {schema : Json} {fault : SchemaFault}
    (h : (lower registry loose schema).result = .error fault) :
    FaultAt schema fault.pointer fault.malformation :=
  (flawAlong_of_lower h).mono fun _ _ => Subschema.leads

/-- The schema can be lowered, whatever is known about resource types. -/
def WellFormed (schema : Json) : Prop :=
  ∀ registry, ∃ validator, (lower registry false schema).result = .ok validator

theorem wellFormed_of_lower {registry : Registry} {schema : Json} {validator : Validator}
    (h : (lower registry false schema).result = .ok validator) : WellFormed schema := by
  intro registry'
  rcases lower_failsAlike registry registry' false schema with ⟨-, b, -, hb⟩ | ⟨fault, -, hfault, -⟩
  · exact ⟨b, hb⟩
  · rw [h] at hfault
    cases hfault

end Schema

end SchemaClient
