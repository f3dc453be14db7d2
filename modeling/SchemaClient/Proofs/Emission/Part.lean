/-
SchemaClient.Proofs.Emission.Part — the parts of the generated file.

The file is written as lines of text. Read as a program it consists of constants, each of which
stands for a validator or for a table of validators, and of text that refers to none of them. A
`Part` is such a piece before it is written down: its lines are the text, and beside them it says
which names it declares and which names it refers to.

* `Part.lines`, `Part.names`, `Part.references` — a part as text and as a program.
* `Scope.parts` — the parts that a demand contributes.
* `Scope.texts_eq` — their lines are the texts that fulfilling the demand defers.
* `Scope.references_parts` — they refer to what the demand wants, and to themselves.
-/
import SchemaClient.Proofs.Lowering.References
import SchemaClient.Proofs.Sharing.Growth
import SchemaClient.Section.Runnables

namespace SchemaClient

/-- A piece of the generated file. -/
inductive Part where
  /-- Text that refers to no constant. -/
  | plain (lines : List String)
  /-- A constant with a fixed text, which refers to no other. -/
  | fixed (declaration : Declaration)
  /-- A constant that stands for a validator. -/
  | const (name : String) (validator : Validator)
  /-- A constant that stands for a table of other constants. -/
  | table (name : String) (entries : List (String × String))
  /-- The type of a table of other constants. -/
  | types (name : String) (entries : List (String × String))

namespace Part

/-- The lines of a part. -/
def lines : Part → List String
  | plain lines => lines
  | fixed declaration => [declaration.render]
  | const name validator => [Declaration.render ⟨name, validator.source⟩]
  | table name entries =>
    ["const " ++ name ++ " = lazyObject(() => (\x7b"] ++
    entries.map (fun (key, value) => Section.tableEntry key value) ++ ["\x7d as const));"]
  | types name entries =>
    ["export type " ++ name ++ " = \x7b"] ++
    entries.map (fun (key, value) => Section.tableEntry key ("z.infer<typeof " ++ value ++ ">")) ++
    ["\x7d;"]

/-- The constants that a part declares. -/
def names : Part → List String
  | plain _ => []
  | fixed declaration => [declaration.name]
  | const name _ => [name]
  | table name _ => [name]
  | types _ _ => []

/-- The constants that a part refers to. -/
def references : Part → List String
  | plain _ => []
  | fixed _ => []
  | const _ validator => validator.references
  | table _ entries => entries.map (·.2)
  | types _ entries => entries.map (·.2)

end Part

namespace Scope

variable (scope : Scope) (index : Option InstanceIndex)

/-- The validator of a resource type's own values. -/
def ownValidator (name : String) : Except Error Validator :=
  match Table.find? scope.catalog name with
  | none => .ok .any
  | some type => (scope.ownPlan index type).result

/-- The parts that belong to the instances of a resource type, if it has any. -/
def instanceParts (known : InstanceIndex) (name : String) : List Part :=
  match known.paths name, known.default? scope.config.resources.defaults name with
  | [], _ => []
  | _, .error _ => []
  | paths, .ok default =>
    [.const (referencesName name) (references paths default),
      .const (unionName name) (.union [.ref (referencesName name), .ref (typeName name)])]

/-- The parts that a demand contributes to the file. -/
def parts : Demand → List Part
  | .base64Content => [.fixed Declaration.base64Content]
  | .storageObject => [.fixed Declaration.storageObject]
  | .resourceType name =>
    match index, scope.ownValidator index name with
    | some known, .ok validator =>
      .const (typeName name) validator :: scope.instanceParts known name
    | _, _ => []

variable {scope index}

/-- What there is to know about a resource type whose declarations can be made. -/
theorem feasible_resourceType {name : String} (h : scope.Feasible index (.resourceType name)) :
    ∃ known validator, index = some known ∧ scope.ownValidator index name = .ok validator ∧
      (scope.plan index (.resourceType name)).result =
        scope.typeDeclarations known name validator.source ∧
      (known.paths name ≠ [] →
        ∃ default, known.default? scope.config.resources.defaults name = .ok default) := by
  obtain ⟨declarations, hresult⟩ := h
  cases index with
  | none => cases hresult
  | some known =>
    have hdefault : ∀ source, scope.typeDeclarations known name source = .ok declarations →
        known.paths name ≠ [] →
          ∃ default, known.default? scope.config.resources.defaults name = .ok default := by
      intro source htype hpaths
      unfold typeDeclarations at htype
      split at htype
      · exact absurd ‹_› hpaths
      · cases hdef : known.default? scope.config.resources.defaults name with
        | error error => rw [hdef] at htype; cases htype
        | ok default => exact ⟨default, rfl⟩
    cases hfind : Table.find? scope.catalog name with
    | none =>
      have hplan : (scope.plan (some known) (.resourceType name)).result =
          scope.typeDeclarations known name Validator.any.source := by
        simp only [plan, hfind, Plan.ofExcept]
      refine ⟨known, .any, rfl, by simp only [ownValidator, hfind], hplan, ?_⟩
      exact hdefault _ (hplan ▸ hresult)
    | some type =>
      have hvalidator : scope.ownValidator (some known) name =
          (scope.ownPlan (some known) type).result := by
        simp only [ownValidator, hfind]
      cases hown : (scope.ownPlan (some known) type).result with
      | error error =>
        simp only [plan, hfind, Plan.andThen, hown] at hresult
        cases hresult
      | ok validator =>
        have hplan : (scope.plan (some known) (.resourceType name)).result =
            scope.typeDeclarations known name validator.source := by
          simp only [plan, hfind, Plan.andThen, hown, Plan.ofExcept]
        exact ⟨known, validator, rfl, hvalidator.trans hown, hplan, hdefault _ (hplan ▸ hresult)⟩

theorem source_union_two (first second : Validator) :
    (Validator.union [first, second]).source =
      "z.union([" ++ first.source ++ ", " ++ second.source ++ Validator.moreSources [] ++ "])" :=
  rfl

theorem source_union_refs (first second : String) :
    (Validator.union [.ref first, .ref second]).source =
      "z.union([" ++ first ++ ", " ++ second ++ "])" := by
  have href : ∀ name, (Validator.ref name).source = name := fun _ => rfl
  have hmore : Validator.moreSources [] = "" := rfl
  rw [source_union_two, href, href, hmore, String.append_empty]

/-- The lines of a demand's parts are the texts that fulfilling it defers. -/
theorem texts_eq {d : Demand} (h : scope.Feasible index d) :
    scope.texts index d = (scope.parts index d).flatMap Part.lines := by
  cases d with
  | base64Content => rfl
  | storageObject => rfl
  | resourceType name =>
    obtain ⟨known, validator, rfl, hown, hresult, hdefault⟩ := feasible_resourceType h
    rw [texts, declarations, hresult]
    simp only [parts, hown, instanceParts, typeDeclarations]
    cases hpaths : known.paths name with
    | nil => rfl
    | cons path rest =>
      obtain ⟨default, hdef⟩ := hdefault (by rw [hpaths]; exact List.cons_ne_nil _ _)
      rw [hdef]
      simp only [bind, Except.bind, List.flatMap_cons, List.flatMap_nil, Part.lines,
        source_union_refs]
      rfl

/-- The names that a resource type declares. -/
theorem names_parts_resourceType {name : String}
    (h : scope.Feasible index (.resourceType name)) :
    (scope.parts index (.resourceType name)).flatMap Part.names =
      if (scope.registryAt index).hasInstances name
        then [typeName name, referencesName name, unionName name] else [typeName name] := by
  obtain ⟨known, validator, rfl, hown, hresult, hdefault⟩ := feasible_resourceType h
  have hinstances : (scope.registryAt (some known)).hasInstances name =
      !(known.paths name).isEmpty := rfl
  rw [hinstances]
  simp only [parts, hown, instanceParts]
  cases hpaths : known.paths name with
  | nil => rfl
  | cons path rest =>
    obtain ⟨default, hdef⟩ := hdefault (by rw [hpaths]; exact List.cons_ne_nil _ _)
    rw [hdef]
    rfl

/-- The name by which a demand is referred to is one that it declares. -/
theorem reference_mem_names {d : Demand} (h : scope.Feasible index d) :
    d.reference (scope.registryAt index) ∈ (scope.parts index d).flatMap Part.names := by
  cases d with
  | base64Content => exact List.mem_singleton.mpr rfl
  | storageObject => exact List.mem_singleton.mpr rfl
  | resourceType name =>
    rw [names_parts_resourceType h, Demand.reference]
    split <;> simp

/-! ## What the parts refer to -/

theorem references_documented (type : ResourceType) (validator : Validator) :
    (documented type validator).references = validator.references := by
  unfold documented
  split <;> rfl

/-- The validator of a resource type's own values refers to what the type wants. -/
theorem references_ownValidator {name : String} {known : InstanceIndex} {validator : Validator}
    (h : scope.ownValidator (some known) name = .ok validator) :
    validator.references = (scope.wanted (some known) (.resourceType name)).map
      (·.reference (scope.registryAt (some known))) := by
  unfold ownValidator at h
  cases hfind : Table.find? scope.catalog name with
  | none =>
    rw [hfind] at h
    cases h
    simp only [wanted, plan, hfind]
    rfl
  | some type =>
    rw [hfind] at h
    simp only [wanted, plan, hfind]
    change (scope.ownPlan (some known) type).result = .ok validator at h
    have hdemands : ((scope.ownPlan (some known) type).andThen fun v => Plan.ofExcept
        (scope.typeDeclarations known name v.source)).demands =
          (scope.ownPlan (some known) type).demands := by
      simp only [Plan.andThen, h, Plan.demands, Plan.ofExcept, List.append_nil]
    rw [hdemands]
    unfold ownPlan at h ⊢
    cases hschema : type.schema with
    | none =>
      rw [hschema] at h
      cases h
      rw [references_documented]
      rfl
    | some schema =>
      rw [hschema] at h
      simp only [Plan.andThen, Plan.ofLowering, Plan.ofExcept, Plan.demands] at h ⊢
      cases hlower : (Schema.lower (scope.registryAt (some known)) false schema).result with
      | error fault =>
        rw [hlower] at h
        cases h
      | ok lowered =>
        rw [hlower] at h
        cases h
        rw [references_documented, Schema.references_of_lower hlower]
        simp only [Except.mapError, List.append_nil, List.map_map, Function.comp_def]

/-- The parts of a demand refer to everything that it wants. -/
theorem reference_mem_references {c d : Demand} (h : scope.Feasible index d)
    (hc : c ∈ scope.wanted index d) :
    c.reference (scope.registryAt index) ∈ (scope.parts index d).flatMap Part.references := by
  cases d with
  | base64Content => cases hc
  | storageObject => cases hc
  | resourceType name =>
    obtain ⟨known, validator, rfl, hown, -, -⟩ := feasible_resourceType h
    simp only [parts, hown, List.flatMap_cons, Part.references, references_ownValidator hown]
    exact List.mem_append_left _ (List.mem_map_of_mem hc)

/-- The parts of a demand refer to what it wants and to each other. -/
theorem references_parts {d : Demand} (h : scope.Feasible index d) {name : String}
    (hname : name ∈ (scope.parts index d).flatMap Part.references) :
    name ∈ (scope.parts index d).flatMap Part.names ∨
      ∃ c ∈ scope.wanted index d, c.reference (scope.registryAt index) = name := by
  cases d with
  | base64Content => cases hname
  | storageObject => cases hname
  | resourceType resourceType =>
    obtain ⟨known, validator, rfl, hown, -, hdefault⟩ := feasible_resourceType h
    rw [names_parts_resourceType h]
    simp only [parts, hown, List.flatMap_cons, Part.references, references_ownValidator hown,
      List.mem_append] at hname
    rcases hname with hname | hname
    · exact Or.inr (List.mem_map.mp hname)
    · refine Or.inl ?_
      have hinstances : (scope.registryAt (some known)).hasInstances resourceType =
          !(known.paths resourceType).isEmpty := rfl
      rw [hinstances]
      unfold instanceParts at hname
      cases hpaths : known.paths resourceType with
      | nil => rw [hpaths] at hname; cases hname
      | cons path rest =>
        obtain ⟨default, hdef⟩ := hdefault (by rw [hpaths]; exact List.cons_ne_nil _ _)
        have hrefs : ∀ paths, (Scope.references paths default).references = [] := by
          intro paths
          unfold Scope.references
          cases default <;> (simp only; split <;> rfl)
        have hunion : (Validator.union [.ref (referencesName resourceType),
            .ref (typeName resourceType)]).references =
              [referencesName resourceType, typeName resourceType] := rfl
        rw [hpaths, hdef] at hname
        simp only [List.flatMap_cons, Part.references, hrefs, hunion, List.flatMap_nil,
          List.nil_append, List.append_nil] at hname
        simp only [List.isEmpty_cons, Bool.not_false, if_true]
        simp only [List.mem_cons, List.not_mem_nil, or_false] at hname ⊢
        rcases hname with rfl | rfl
        · exact Or.inr (Or.inl rfl)
        · exact Or.inl rfl

end Scope

end SchemaClient
