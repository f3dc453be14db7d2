/-
SchemaClient.Proofs.Emission.Section — the parts that a section contributes.

* `Section.parts` — the parts of a section.
* `Section.lines_eq` — their lines are what the section is composed to.
* `Section.references_parts` — they refer to themselves and to what the section demands.
* `Section.mem_demands_artifacts`, `Section.mem_demands_instances` — what a section demands.
-/
import SchemaClient.Proofs.Emission.Part
import SchemaClient.Proofs.Section.Plan

namespace SchemaClient

/-! ## Plans that come to a result -/

namespace Plan

variable {α β : Type} {plan : Plan α}

theorem andThen_ok {next : α → Plan β} {b : β} (h : (plan.andThen next).result = .ok b) :
    ∃ a, plan.result = .ok a ∧ (next a).result = .ok b ∧
      (plan.andThen next).demands = plan.demands ++ (next a).demands := by
  unfold andThen at h ⊢
  cases hresult : plan.result with
  | error error => rw [hresult] at h; cases h
  | ok a =>
    rw [hresult] at h
    exact ⟨a, rfl, h, by simp [demands]⟩

theorem map_ok {f : α → β} {b : β} (h : (plan.map f).result = .ok b) :
    ∃ a, plan.result = .ok a ∧ f a = b := by
  unfold map at h
  cases hresult : plan.result with
  | error error => rw [hresult] at h; cases h
  | ok a => rw [hresult] at h; exact ⟨a, rfl, Except.ok.inj h⟩

theorem adapt_ok {f : Error → Error} {a : α} (h : (plan.adapt f).result = .ok a) :
    plan.result = .ok a := by
  unfold adapt at h
  cases hresult : plan.result with
  | error error => rw [hresult] at h; cases h
  | ok b => rw [hresult] at h; exact h

theorem ofLowering_ok {lowering : Lowering α} {a : α} (h : (ofLowering lowering).result = .ok a) :
    lowering.result = .ok a := by
  unfold ofLowering at h
  cases hresult : lowering.result with
  | error fault => rw [hresult] at h; cases h
  | ok b => rw [hresult] at h; exact congrArg Except.ok (Except.ok.inj h)

end Plan

namespace Section

/-! ## The parts of a section -/

/-- The parts of the section of the resources. -/
def resourceParts (scope : Scope) (index : InstanceIndex) (defaults : Table String) : List Part :=
  [.plain [resourceAccessor scope.config.resources.postProcess.isSome],
    .table "resourceToType" (index.flatMap fun (resourceType, paths) =>
      paths.map fun path => (path, typeName resourceType)),
    .types "ResourceTypes" (((Table.names index).mergeSort fun a b => decide (a ≤ b)).map
      fun resourceType => (resourceType, typeName resourceType)),
    .plain (["export const resourceDefaults = \x7b"] ++
      defaults.map (fun (resourceType, path) => tableEntry resourceType (quote path)) ++
      ["\x7d as const;"])]

/-- The parts of a section of artifacts. -/
def artifactParts (self : RunnableSection) (validators : List (String × Validator)) : List Part :=
  [.plain [self.accessors]] ++
  validators.map (fun (path, validator) => .const (self.declarationName path) validator) ++
  [.table self.table (validators.map fun (path, _) => (path, self.declarationName path))]

/-- The parts of a section. -/
def parts (scope : Scope) (index : Option InstanceIndex) (kind : SectionKind) :
    Material → List Part
  | .instances listed =>
    match (indexedPlan scope listed (Table.names listed)).result with
    | .ok defaults => resourceParts scope listed defaults
    | .error _ => []
  | .artifacts items =>
    let self := RunnableSection.ofKind scope.config kind
    match (self.validatorsPlan scope index items).result with
    | .ok validators => artifactParts self validators
    | .error _ => []

theorem lines_resourceParts (scope : Scope) (index : InstanceIndex) (defaults : Table String) :
    (resourceParts scope index defaults).flatMap Part.lines =
      resourceLines scope index defaults := by
  simp [resourceParts, resourceLines, Part.lines, List.map_flatMap, Function.comp_def]

theorem lines_artifactParts (self : RunnableSection) (validators : List (String × Validator)) :
    (artifactParts self validators).flatMap Part.lines = self.validatorLines validators := by
  have hconsts : (validators.map fun (path, validator) =>
      Part.const (self.declarationName path) validator).flatMap Part.lines =
        validators.map fun (path, validator) => (self.declaration path validator).render := by
    induction validators with
    | nil => rfl
    | cons first rest ih =>
      rw [List.map_cons, List.flatMap_cons, ih]
      rfl
  simp only [artifactParts, List.flatMap_append, hconsts]
  simp [RunnableSection.validatorLines, RunnableSection.lines, Part.lines, Function.comp_def,
    RunnableSection.declaration]

variable {scope : Scope} {index : Option InstanceIndex} {kind : SectionKind} {material : Material}
  {lines : List String}

/-- A section is composed to the lines of its parts. -/
theorem lines_eq (h : (plan scope index kind material).result = .ok lines) :
    lines = (parts scope index kind material).flatMap Part.lines := by
  cases material with
  | instances listed =>
    obtain ⟨_, -, hmap, -⟩ := Plan.andThen_ok h
    obtain ⟨defaults, hdefaults, rfl⟩ := Plan.map_ok hmap
    simp only [parts, hdefaults, lines_resourceParts]
  | artifacts items =>
    obtain ⟨validators, hvalidators, rfl⟩ := Plan.map_ok h
    simp only [parts, hvalidators, lines_artifactParts]

/-! ## What a section demands -/

theorem demands_indexedPlan {listed : InstanceIndex} {types : List String} {defaults : Table String}
    (h : (indexedPlan scope listed types).result = .ok defaults) :
    (indexedPlan scope listed types).demands = types.map .resourceType := by
  induction types generalizing defaults with
  | nil => rfl
  | cons resourceType rest ih =>
    obtain ⟨_, -, hnext, hdemands⟩ := Plan.andThen_ok h
    obtain ⟨default, -, hmap, hdemands'⟩ := Plan.andThen_ok hnext
    obtain ⟨others, hothers, -⟩ := Plan.map_ok hmap
    rw [indexedPlan, hdemands, hdemands', Plan.demands_map, ih hothers]
    rfl

/-- The section of the resources demands the types that have instances. -/
theorem mem_demands_instances {listed : InstanceIndex} {d : Demand}
    (h : (plan scope index kind (.instances listed)).result = .ok lines) :
    d ∈ (plan scope index kind (.instances listed)).demands ↔
      ∃ name ∈ Table.names listed, d = .resourceType name := by
  obtain ⟨_, -, hmap, hdemands⟩ := Plan.andThen_ok h
  obtain ⟨defaults, hdefaults, -⟩ := Plan.map_ok hmap
  change d ∈ (resourcesPlan scope listed).demands ↔ _
  rw [resourcesPlan, hdemands, Plan.demands_map, demands_indexedPlan hdefaults]
  change d ∈ [] ++ _ ↔ _
  simp [eq_comm]

/-- What some artifact demands, with the first of them apart. -/
theorem exists_artifact_cons {artifact : Artifact} {rest : List Artifact} {schema : Json}
    (hschema : artifact.schema = some schema) {P : Json → Prop} :
    (∃ a ∈ artifact :: rest, ∃ other, a.schema = some other ∧ P other) ↔
      P schema ∨ ∃ a ∈ rest, ∃ other, a.schema = some other ∧ P other := by
  simp only [List.mem_cons, exists_eq_or_imp, hschema, Option.some.injEq, exists_eq_left']

/-- The artifacts of a section, one by one: what comes out is one validator for each schema, and
what is demanded is what their lowerings demand. -/
theorem validatorsPlan_ok {self : RunnableSection} {items : List Artifact}
    {validators : List (String × Validator)}
    (h : (self.validatorsPlan scope index items).result = .ok validators) :
    (∀ d, d ∈ (self.validatorsPlan scope index items).demands ↔
      ∃ artifact ∈ items, ∃ schema, artifact.schema = some schema ∧
        d ∈ (Schema.lower (scope.registryAt index) self.options.looseArgs schema).demands) ∧
    ∀ entry ∈ validators, ∀ name ∈ entry.2.references,
      ∃ d ∈ (self.validatorsPlan scope index items).demands,
        d.reference (scope.registryAt index) = name := by
  induction items generalizing validators with
  | nil =>
    cases h
    exact ⟨by simp [RunnableSection.validatorsPlan, Plan.demands, Plan.ofExcept], by simp⟩
  | cons artifact rest ih =>
    cases hschema : artifact.schema with
    | none =>
      simp only [RunnableSection.validatorsPlan, hschema] at h ⊢
      obtain ⟨hdemands, hrefs⟩ := ih h
      refine ⟨fun d => (hdemands d).trans ?_, hrefs⟩
      simp only [List.mem_cons, exists_eq_or_imp, hschema, reduceCtorEq, false_and, exists_false,
        false_or]
    | some schema =>
      simp only [RunnableSection.validatorsPlan, hschema] at h ⊢
      obtain ⟨validator, hvalidator, hmap, hdemands⟩ := Plan.andThen_ok h
      obtain ⟨others, hothers, rfl⟩ := Plan.map_ok hmap
      obtain ⟨hrest, hrefs⟩ := ih hothers
      have hlower := Plan.ofLowering_ok (Plan.adapt_ok hvalidator)
      have hfirst : (self.artifactPlan scope index artifact.path schema).demands =
          (Schema.lower (scope.registryAt index) self.options.looseArgs schema).demands := by
        rw [RunnableSection.artifactPlan, Plan.demands_adapt, Plan.demands_ofLowering]
      rw [hdemands, hfirst, Plan.demands_map]
      constructor
      · intro d
        rw [List.mem_append, hrest, exists_artifact_cons hschema]
      · intro entry hentry name hname
        rcases List.mem_cons.mp hentry with rfl | hentry
        · rw [Schema.references_of_lower hlower] at hname
          obtain ⟨d, hd, rfl⟩ := List.mem_map.mp hname
          exact ⟨d, List.mem_append_left _ hd, rfl⟩
        · obtain ⟨d, hd, hd'⟩ := hrefs entry hentry name hname
          exact ⟨d, List.mem_append_right _ hd, hd'⟩

/-- A section of artifacts demands what lowering their schemas demands. -/
theorem mem_demands_artifacts {items : List Artifact} {d : Demand}
    (h : (plan scope index kind (.artifacts items)).result = .ok lines) :
    d ∈ (plan scope index kind (.artifacts items)).demands ↔
      ∃ artifact ∈ items, ∃ schema, artifact.schema = some schema ∧
        d ∈ (Schema.lower (scope.registryAt index)
          (RunnableSection.ofKind scope.config kind).options.looseArgs schema).demands := by
  obtain ⟨validators, hvalidators, -⟩ := Plan.map_ok h
  exact (validatorsPlan_ok hvalidators).1 d

/-! ## What the parts refer to -/

/-- The parts of a section refer to what the section demands, and to each other. -/
theorem references_parts (h : (plan scope index kind material).result = .ok lines) {name : String}
    (hname : name ∈ (parts scope index kind material).flatMap Part.references) :
    name ∈ (parts scope index kind material).flatMap Part.names ∨
      ∃ d ∈ (plan scope index kind material).demands, scope.Feasible index d →
        name ∈ (scope.parts index d).flatMap Part.names := by
  cases material with
  | instances listed =>
    have hdemand := fun d => mem_demands_instances (d := d) h
    obtain ⟨_, -, hmap, -⟩ := Plan.andThen_ok h
    obtain ⟨defaults, hdefaults, -⟩ := Plan.map_ok hmap
    simp only [parts, hdefaults, resourceParts, List.flatMap_cons, Part.references,
      List.flatMap_nil, List.append_nil, List.nil_append, List.mem_append, List.mem_map,
      List.mem_flatMap, List.mem_mergeSort] at hname
    have htype : ∃ resourceType ∈ Table.names listed, typeName resourceType = name := by
      rcases hname with ⟨entry, ⟨⟨resourceType, paths⟩, hmem, path, hpath, rfl⟩, rfl⟩ |
        ⟨entry, ⟨resourceType, hmem, rfl⟩, rfl⟩
      · exact ⟨resourceType, List.mem_map_of_mem (f := Prod.fst) hmem, rfl⟩
      · exact ⟨resourceType, hmem, rfl⟩
    obtain ⟨resourceType, hmem, rfl⟩ := htype
    refine Or.inr ⟨.resourceType resourceType, (hdemand _).mpr ⟨_, hmem, rfl⟩, fun hfeasible => ?_⟩
    rw [Scope.names_parts_resourceType hfeasible]
    split <;> simp
  | artifacts items =>
    obtain ⟨validators, hvalidators, -⟩ := Plan.map_ok h
    simp only [parts, hvalidators, artifactParts, List.flatMap_append, List.flatMap_cons,
      List.flatMap_nil, Part.references, List.append_nil, List.nil_append, List.mem_append,
      List.mem_map, List.mem_flatMap] at hname
    rcases hname with ⟨part, ⟨entry, hentry, rfl⟩, hname⟩ | ⟨entry, ⟨found, hfound, rfl⟩, rfl⟩
    · obtain ⟨d, hd, rfl⟩ := (validatorsPlan_ok hvalidators).2 entry hentry name hname
      exact Or.inr ⟨d, hd, Scope.reference_mem_names⟩
    · refine Or.inl ?_
      simp only [parts, hvalidators, artifactParts, List.flatMap_append, List.mem_append,
        List.mem_flatMap, List.mem_map]
      exact Or.inl (Or.inr ⟨_, ⟨found, hfound, rfl⟩, List.mem_singleton.mpr rfl⟩)

end Section

end SchemaClient
