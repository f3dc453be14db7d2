/-
SchemaClient.Proofs.Lowering.Demands — what lowering asks for, and what it depends on.

* `Schema.lower_eq_of_agree` — of what is known about instances, lowering depends only on the
  resource types that it asks for.
* `Schema.mem_resourceTypes_of_demand` — every resource type that lowering asks for is one of the
  types that the schema is seen to refer to without lowering it. A section looks there to decide
  whether it needs the instance index.
-/
import SchemaClient.Proofs.Lowering.Traversal

namespace SchemaClient

namespace Lowering

variable {α β : Type}

theorem demands_subset_bind (x : Lowering α) (f : α → Lowering β) :
    x.demands ⊆ (x >>= f).demands := by
  cases h : x.result with
  | error fault => rw [bind_of_error h]; exact fun _ hd => hd
  | ok a => rw [bind_of_ok h]; exact List.subset_append_left _ _

/-- `y` is `x` as long as everything that `x` asks for is fine. -/
def follows (fine : Demand → Prop) : Congruence where
  Rel x y := (∀ d ∈ x.demands, fine d) → y = x
  Exact := True
  Allowed _ := True
  pure h _ := congrArg Pure.pure (h trivial).symm
  malformed _ _ := rfl
  bind {α β x y f g} hxy hfg hall := by
    have hy : y = x := hxy fun d hd => hall d (demands_subset_bind x f hd)
    subst hy
    cases h : y.result with
    | error fault => rw [bind_of_error h, bind_of_error h]
    | ok a =>
      rw [bind_of_ok h] at hall ⊢
      rw [bind_of_ok h, hfg a a (fun _ => rfl) fun d hd => hall d (List.mem_append_right _ hd)]

/-- Everything that `x` asks for is in `allowed`. -/
def asksWithin (allowed : Demand → Prop) : Congruence where
  Rel x _ := ∀ d ∈ x.demands, allowed d
  Exact := True
  Allowed _ := True
  pure _ _ hd := by simp at hd
  malformed _ _ hd := by simp [malformed] at hd
  bind {α β x y f g} hx hf d hd := by
    cases h : x.result with
    | error fault => rw [bind_of_error h] at hd; exact hx d hd
    | ok a =>
      rw [bind_of_ok h] at hd
      rcases List.mem_append.mp hd with hd | hd
      · exact hx d hd
      · exact hf a a (fun _ => rfl) d hd

end Lowering

namespace Keywords

open Lowering

variable {registry : Registry} {name : String} {d : Demand}

/-- What the validator of a resource argument asks for. -/
theorem demands_lowerResource (registry : Registry) (name : String) :
    (lowerResource registry name).demands =
      if Schema.isStorageObject name then [.storageObject]
      else if registry.known name then [.resourceType name] else [] := by
  unfold lowerResource
  split
  · rfl
  · split <;> rfl

/-- A subschema that a node hands on is one that is seen without lowering the node. -/
theorem Child.mem_subschemas {node : Entries} {steps : Pointer} {schema : Json}
    (h : (ofEntries node).Child steps schema) : schema ∈ Schema.subschemas node := by
  simp only [Schema.subschemas, List.mem_append]
  cases h with
  | items h => exact Or.inl (Or.inl (List.mem_filterMap.mpr ⟨"items", by decide, h⟩))
  | rest h =>
    exact Or.inl (Or.inl (List.mem_filterMap.mpr ⟨"additionalProperties", by decide, h⟩))
  | @listed keyword schemas i _ hmem hi =>
    have hkeyword : keyword ∈ Schema.listKeywords ∧
        Table.find? node keyword = some (.arr schemas) := by
      simp only [combinators, ofEntries, List.mem_cons, Prod.mk.injEq, List.not_mem_nil,
        or_false] at hmem
      rcases hmem with ⟨rfl, h⟩ | ⟨rfl, h⟩ | ⟨rfl, h⟩ | ⟨rfl, h⟩ <;> exact ⟨by decide, h.symm⟩
    refine Or.inl (Or.inr (List.mem_flatMap.mpr ⟨keyword, hkeyword.1, ?_⟩))
    rw [hkeyword.2]
    exact List.mem_of_getElem? hi
  | @property properties name _ h hmem =>
    refine Or.inr (List.mem_flatMap.mpr ⟨"properties", by decide, ?_⟩)
    have hfound : Table.find? node "properties" = some (.obj properties) := h
    rw [hfound]
    exact List.mem_map_of_mem hmem

end Keywords

namespace Schema

open Lowering

/-! ## Dependence on the instances -/

/-- Of what is known about instances, lowering depends only on the types that it asks for. -/
theorem lower_eq_of_agree {registry registry' : Registry} {loose : Bool} {schema : Json}
    (hknown : registry'.known = registry.known)
    (h : ∀ name, .resourceType name ∈ (lower registry loose schema).demands →
      registry'.hasInstances name = registry.hasInstances name) :
    lower registry' loose schema = lower registry loose schema := by
  let fine (d : Demand) : Prop := ∀ name, d = .resourceType name →
    registry'.hasInstances name = registry.hasInstances name
  have hlevels : ∀ levels loose schema pointer, (follows fine).Rel
      (lowerWithin registry levels loose schema pointer)
      (lowerWithin registry' levels loose schema pointer) := by
    intro levels
    induction levels with
    | zero =>
      intro loose schema pointer
      cases schema with
      | bool value => cases value <;> exact (follows fine).refl_pure _
      | _ => exact (follows fine).refl_pure _
    | succ levels ih =>
      intro loose schema pointer
      cases schema with
      | bool value => cases value <;> exact (follows fine).refl_pure _
      | obj node =>
        refine Keywords.lower_congr _ loose pointer (fun _ => rfl) ?_
          (fun steps s _ => ih false s (pointer ++ steps)) fun _ _ _ => trivial
        intro name _ hall
        rw [Keywords.demands_lowerResource] at hall
        by_cases hstorage : isStorageObject name = true
        · simp only [Keywords.lowerResource, if_pos hstorage]
        · by_cases hk : registry.known name = true
          · rw [if_neg hstorage, if_pos hk] at hall
            have hsame := hall (.resourceType name) List.mem_cons_self name rfl
            simp only [Keywords.lowerResource, hknown, hsame]
          · simp only [Keywords.lowerResource, hknown, if_neg hk]
      | _ => exact (follows fine).refl_pure _
  refine hlevels schema.height loose schema [] fun d hd name hname => h name ?_
  exact hname ▸ hd

/-! ## Foreseeing the demands -/

theorem mem_distinct {text : String} {texts : List String} :
    text ∈ distinct texts ↔ text ∈ texts := by
  have hfold : ∀ seen : List String,
      text ∈ texts.foldl (fun seen t => if seen.contains t then seen else seen ++ [t]) seen ↔
        text ∈ seen ∨ text ∈ texts := by
    induction texts with
    | nil => simp
    | cons first rest ih =>
      intro seen
      rw [List.foldl_cons, ih]
      split
      · have hfirst : first ∈ seen := by simpa using ‹seen.contains first = true›
        constructor
        · rintro (h | h)
          · exact Or.inl h
          · exact Or.inr (List.mem_cons_of_mem _ h)
        · rintro (h | h)
          · exact Or.inl h
          · rcases List.mem_cons.mp h with rfl | h
            · exact Or.inl hfirst
            · exact Or.inr h
      · simp only [List.mem_append, List.mem_cons, List.not_mem_nil, false_or, or_assoc]
  simpa [distinct] using hfold []

/-- What a schema may ask for: resource types that one of its nodes refers to, that are known, and
that do not stand for files. -/
def Foreseen (registry : Registry) (nodes : List Entries) : Demand → Prop
  | .resourceType name =>
    name ∈ nodes.filterMap resourceType? ∧ registry.known name = true ∧
      isStorageObject name = false
  | _ => True

theorem Foreseen.mono {registry : Registry} {nodes nodes' : List Entries} (h : nodes ⊆ nodes')
    {d : Demand} (hd : Foreseen registry nodes d) : Foreseen registry nodes' d := by
  cases d with
  | resourceType name => exact ⟨List.filterMap_subset _ h hd.1, hd.2⟩
  | _ => trivial

theorem foreseen_of_demand {registry : Registry} (levels : Nat) :
    ∀ {loose : Bool} {schema : Json} {pointer : Pointer} {d : Demand},
      d ∈ (lowerWithin registry levels loose schema pointer).demands →
        Foreseen registry (visitedWithin levels schema) d := by
  induction levels with
  | zero =>
    intro loose schema pointer d hd
    cases schema with
    | bool value => cases value <;> simp [lowerWithin] at hd
    | _ => simp [lowerWithin] at hd
  | succ levels ih =>
    intro loose schema pointer d hd
    cases schema with
    | bool value => cases value <;> simp [lowerWithin] at hd
    | obj node =>
      have hnode : (asksWithin (Foreseen registry (visitedWithin (levels + 1) (.obj node)))).Rel
          (lowerWithin registry (levels + 1) loose (.obj node) pointer)
          (lowerWithin registry (levels + 1) loose (.obj node) pointer) := by
        refine Keywords.lower_congr _ loose pointer ?_ ?_ ?_ fun _ _ _ => trivial
        · intro d hd
          rw [List.mem_singleton.mp hd]
          trivial
        · intro name hname d hd
          rw [Keywords.demands_lowerResource] at hd
          split at hd
          · rw [List.mem_singleton.mp hd]; trivial
          · split at hd
            · rw [List.mem_singleton.mp hd]
              refine ⟨List.mem_filterMap.mpr ⟨node, List.mem_cons_self, hname⟩, ‹_›, ?_⟩
              simpa using ‹¬isStorageObject name = true›
            · simp at hd
        · intro steps schema hchild d hd
          refine Foreseen.mono ?_ (ih hd)
          intro entries he
          exact List.mem_cons_of_mem _ (List.mem_flatMap.mpr ⟨schema, hchild.mem_subschemas, he⟩)
      exact hnode d hd
    | _ => simp [lowerWithin] at hd

/-- Every resource type that lowering asks for is known, does not stand for files, and is one of the
types that the schema is seen to refer to. -/
theorem mem_resourceTypes_of_demand {registry : Registry} {loose : Bool} {schema : Json}
    {name : String} (h : .resourceType name ∈ (lower registry loose schema).demands) :
    name ∈ resourceTypes schema ∧ registry.known name = true ∧ isStorageObject name = false := by
  obtain ⟨hmem, hrest⟩ := foreseen_of_demand schema.height h
  exact ⟨mem_distinct.mpr hmem, hrest⟩

end Schema

end SchemaClient
