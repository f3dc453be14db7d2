/-
SchemaClient.Proofs.Generation.Deferred — which declarations a file ends with.

If no section fails, the deferred declarations are those of a least set: the types that have
instances, what lowering the schema of an argument demands, and what lowering the schema of a type
in the set demands. Each is declared once, however many schemas refer to it and in whatever cycles.

* `Draft.Needed` — the least set.
* `Scope.mem_wanted_resourceType`, `Scope.names_declarations` — what a type wants and declares.
* `generate_deferred` — the text of a run without failed sections, and its deferred declarations.
-/
import SchemaClient.Proofs.Catalog.Instances
import SchemaClient.Proofs.Generation.Draft

namespace SchemaClient

/-! ## One demand -/

namespace Scope

variable {scope : Scope} {index : Option InstanceIndex}

/-- A resource type wants what lowering its schema demands. -/
theorem mem_wanted_resourceType {known : InstanceIndex} {name : String} {c : Demand} :
    c ∈ scope.wanted (some known) (.resourceType name) ↔
      ∃ type schema, Table.find? scope.catalog name = some type ∧ type.schema = some schema ∧
        c ∈ (Schema.lower (scope.registryAt (some known)) false schema).demands := by
  have hneeds : ∀ {α β : Type} (plan : Plan α) (next : α → Except Error β),
      (plan.andThen fun a => .ofExcept (next a)).demands = plan.demands := by
    intro α β plan next
    unfold Plan.andThen
    cases plan.result <;> simp [Plan.demands, Plan.ofExcept]
  cases hfind : Table.find? scope.catalog name with
  | none => simp [wanted, plan, hfind, Plan.demands, Plan.ofExcept]
  | some type =>
    have hwanted : scope.wanted (some known) (.resourceType name) =
        (scope.ownPlan (some known) type).demands := by
      simp only [wanted, plan, hfind]
      exact hneeds _ _
    rw [hwanted, ownPlan, hneeds]
    cases hschema : type.schema with
    | none => simp [Plan.demands, Plan.ofExcept, hschema]
    | some schema => simp [Plan.demands_ofLowering, hschema]

/-- The names of what a demand declares. -/
theorem names_declarations {d : Demand} (h : scope.Feasible index d) :
    (scope.declarations index d).map (·.name) = (scope.parts index d).flatMap Part.names := by
  cases d with
  | base64Content => rfl
  | storageObject => rfl
  | resourceType name =>
    obtain ⟨known, validator, rfl, hown, hresult, hdefault⟩ := feasible_resourceType h
    rw [declarations, hresult]
    simp only [parts, hown, instanceParts, typeDeclarations]
    cases hpaths : known.paths name with
    | nil => rfl
    | cons path rest =>
      obtain ⟨default, hdef⟩ := hdefault (by rw [hpaths]; exact List.cons_ne_nil _ _)
      rw [hdef]
      rfl

end Scope

/-! ## The least set -/

namespace Draft

variable (draft : Draft)

/-- The demands that a file has to meet, if these are the resources. -/
inductive Needed (resources : Listing ResourceInstance) : Demand → Prop where
  /-- Every type of the catalog that has an instance. -/
  | listed {name : String} : Table.has draft.scope.catalog name = true →
      (∃ r ∈ resources.items, r.resourceType = name) → Needed resources (.resourceType name)
  /-- What lowering the schema of a script or a flow demands. -/
  | argument {kind : SectionKind} {items : List Artifact} {artifact : Artifact} {schema : Json}
      {d : Demand} : draft.written kind = some (.artifacts items) → artifact ∈ items →
      artifact.schema = some schema →
      d ∈ (Schema.lower (draft.scope.registryAt draft.index)
        (RunnableSection.ofKind draft.scope.config kind).options.looseArgs schema).demands →
        Needed resources d
  /-- What lowering the schema of a needed type demands. -/
  | nested {name : String} {type : ResourceType} {schema : Json} {d : Demand} :
      Needed resources (.resourceType name) → Table.find? draft.scope.catalog name = some type →
      type.schema = some schema →
      d ∈ (Schema.lower (draft.scope.registryAt draft.index) false schema).demands →
        Needed resources d

variable {draft} {σ : Type} {source : Source (StateM σ)} {report : Report}
  {resources : Listing ResourceInstance} {index : InstanceIndex}

theorem Needed.of_wanted (hindex : draft.index = some index) {c d : Demand}
    (hd : draft.Needed resources d) (hc : c ∈ draft.scope.wanted draft.index d) :
    draft.Needed resources c := by
  cases d with
  | base64Content => cases hc
  | storageObject => cases hc
  | resourceType name =>
    rw [hindex] at hc
    obtain ⟨type, schema, hfind, hschema, hdemand⟩ := Scope.mem_wanted_resourceType.mp hc
    exact hd.nested hfind hschema (hindex ▸ hdemand)

theorem Needed.of_reaches (hindex : draft.index = some index) {c d : Demand}
    (hd : draft.Needed resources d) (hreach : draft.scope.Reaches draft.index d c) :
    draft.Needed resources c := by
  induction hreach with
  | refl => exact hd
  | tail _ hwanted ih => exact ih.of_wanted hindex hwanted

/-- A type with instances is one of the types in the index. -/
theorem has_instance_iff
    (hlisting : InstanceIndex.ofListing draft.scope.catalog resources = .ok index)
    {name : String} :
    name ∈ Table.names index ↔ Table.has draft.scope.catalog name = true ∧
      ∃ r ∈ resources.items, r.resourceType = name := by
  obtain ⟨-, rfl⟩ := InstanceIndex.ofListing_ok hlisting
  rw [InstanceIndex.mem_names_ofList]
  constructor
  · rintro ⟨r, hr, rfl⟩
    obtain ⟨hmem, hhas⟩ := List.mem_filter.mp hr
    exact ⟨hhas, r, hmem, rfl⟩
  · rintro ⟨hhas, r, hr, rfl⟩
    exact ⟨r, List.mem_filter.mpr ⟨hr, hhas⟩, rfl⟩

theorem paths_ne_nil_iff
    (hlisting : InstanceIndex.ofListing draft.scope.catalog resources = .ok index)
    {name : String} :
    index.paths name ≠ [] ↔ Table.has draft.scope.catalog name = true ∧
      ∃ r ∈ resources.items, r.resourceType = name := by
  rw [← has_instance_iff hlisting]
  obtain ⟨-, rfl⟩ := InstanceIndex.ofListing_ok hlisting
  rw [InstanceIndex.mem_names_ofList, InstanceIndex.paths_ofList_ne_nil]

/-- In a run without failed sections every enabled section is written. -/
theorem OfRun.written_of_enabled (h : draft.OfRun source report)
    (hsuccess : report.isSuccess = true) {kind : SectionKind}
    (henabled : Board.isEnabled draft.scope.config kind = true) :
    ∃ material, draft.written kind = some material := by
  rw [← Option.isSome_iff_exists, h.written_iff]
  obtain ⟨outcome, hmem⟩ := h.reported kind
  cases outcome with
  | generated => exact hmem
  | disabled =>
    rw [(h.disabled_iff kind).mpr hmem] at henabled
    cases henabled
  | failed error =>
    have hfailure : (kind, error) ∈ report.failures := List.mem_filterMap.mpr ⟨_, hmem, rfl⟩
    rw [Report.isSuccess, List.isEmpty_iff] at hsuccess
    rw [hsuccess] at hfailure
    cases hfailure

/-- The section of the resources is written from the instance index. -/
theorem OfRun.written_resources (h : draft.OfRun source report) {material : Material}
    (hwritten : draft.written .resources = some material) :
    ∃ index, draft.index = some index ∧ material = .instances index := by
  obtain ⟨hgathered, hready⟩ := h.gathered _ _ hwritten
  cases material with
  | artifacts items =>
    obtain ⟨listing, hlists, -⟩ := hgathered
    cases hlists
  | instances listed => exact ⟨listed, hready, rfl⟩

/-- If no section failed, what was declared is the least set. -/
theorem OfRun.declared_iff_needed (h : draft.OfRun source report)
    (hsuccess : report.isSuccess = true)
    (hresources : draft.written .resources = some (.instances index))
    (hindex : draft.index = some index)
    (hlisting : InstanceIndex.ofListing draft.scope.catalog resources = .ok index) (d : Demand) :
    d ∈ draft.declared ↔ draft.Needed resources d := by
  constructor
  · intro hd
    obtain ⟨kind, material, hwritten, e, he, hreach⟩ := h.reached hsuccess d hd
    refine Needed.of_reaches hindex ?_ hreach
    obtain ⟨lines, hlines⟩ := h.composed kind material hwritten
    cases material with
    | artifacts items =>
      obtain ⟨artifact, hartifact, schema, hschema, hdemand⟩ :=
        (Section.mem_demands_artifacts hlines).mp he
      exact .argument hwritten hartifact hschema hdemand
    | instances listed =>
      obtain ⟨name, hname, rfl⟩ := (Section.mem_demands_instances hlines).mp he
      have hlisted : draft.index = some listed := (h.gathered _ _ hwritten).2
      rw [hindex] at hlisted
      cases hlisted
      obtain ⟨hhas, hinstance⟩ := (has_instance_iff hlisting).mp hname
      exact .listed hhas hinstance
  · intro hd
    induction hd with
    | listed hhas hinstance =>
      obtain ⟨lines, hlines⟩ := h.composed _ _ hresources
      refine h.demanded _ _ hresources _ ((Section.mem_demands_instances hlines).mpr ⟨_, ?_, rfl⟩)
      exact (has_instance_iff hlisting).mpr ⟨hhas, hinstance⟩
    | argument hwritten hartifact hschema hdemand =>
      obtain ⟨lines, hlines⟩ := h.composed _ _ hwritten
      exact h.demanded _ _ hwritten _
        ((Section.mem_demands_artifacts hlines).mpr ⟨_, hartifact, _, hschema, hdemand⟩)
    | nested _ hfind hschema hdemand ih =>
      refine h.complete hsuccess _ ih _ ?_
      rw [hindex] at hdemand ⊢
      exact Scope.mem_wanted_resourceType.mpr ⟨_, _, hfind, hschema, hdemand⟩

/-- The names that a demand declares: a resource type declares more if it has instances. -/
def declaredNames (index : InstanceIndex) : Demand → List String
  | .base64Content => [Declaration.base64Content.name]
  | .storageObject => [Declaration.storageObject.name]
  | .resourceType name =>
    if index.paths name = [] then [typeName name]
    else [typeName name, referencesName name, unionName name]

/-- What the end of a file should be: one line for each declaration of each needed demand. -/
structure Complete (draft : Draft) (resources : Listing ResourceInstance) (index : InstanceIndex) :
    Prop where
  index_eq : draft.index = some index
  /-- A type has instances if the catalog has it and a resource is of this type. -/
  paths_ne_nil_iff : ∀ name, index.paths name ≠ [] ↔
    Table.has draft.scope.catalog name = true ∧ ∃ r ∈ resources.items, r.resourceType = name
  declared_iff : ∀ d, d ∈ draft.declared ↔ draft.Needed resources d
  nodup : draft.declared.Nodup
  names_eq : ∀ d ∈ draft.declared,
    (draft.scope.declarations draft.index d).map (·.name) = declaredNames index d
  lines_perm : draft.deferredLines.Perm ((draft.declared.flatMap
    (draft.scope.declarations draft.index)).map Declaration.render)
  ascending : (draft.deferredLines.map Utf8.encode).Pairwise (· ≤ ·)

theorem OfRun.complete_of_isSuccess (h : draft.OfRun source report)
    (hsuccess : report.isSuccess = true)
    (hresources : draft.written .resources = some (.instances index))
    (hindex : draft.index = some index)
    (hlisting : InstanceIndex.ofListing draft.scope.catalog resources = .ok index) :
    draft.Complete resources index where
  index_eq := hindex
  paths_ne_nil_iff _ := Draft.paths_ne_nil_iff hlisting
  declared_iff := h.declared_iff_needed hsuccess hresources hindex hlisting
  nodup := h.nodup
  names_eq := by
    intro d hd
    have hfeasible := h.feasible d hd
    rw [Scope.names_declarations hfeasible]
    cases d with
    | base64Content => rfl
    | storageObject => rfl
    | resourceType name =>
      have hinstances : (draft.scope.registryAt (some index)).hasInstances name =
          !(index.paths name).isEmpty := rfl
      rw [Scope.names_parts_resourceType hfeasible, hindex, hinstances, declaredNames]
      cases index.paths name <;> rfl
  lines_perm := by
    have hlines : draft.deferredParts.flatMap Part.lines =
        (draft.declared.flatMap (draft.scope.declarations draft.index)).map Declaration.render := by
      rw [deferredParts, List.flatMap_assoc, List.map_flatMap]
      exact List.flatMap_congr fun d hd => (Scope.texts_eq (h.feasible d hd)).symm
    rw [← hlines]
    exact List.mergeSort_perm _ _
  ascending := (Outlet.pairwise_ascending _).map _ fun _ _ => Utf8.encode_le

end Draft

/-! ## The file -/

section

variable {σ : Type} {schedule : List SectionKind} {source : Source (StateM σ)} {config : Config}
  {outputRoot : String} {outlet : Outlet} {state : σ} {report : Report}

/-- A run in which every enabled section succeeds writes the preamble, then what the sections of the
resources, the scripts and the flows were composed to, then the deferred declarations of the least
set, in ascending order of their bytes. -/
theorem generate_deferred
    (h : (generateWith schedule source config outputRoot outlet state).1.result = .ok report)
    (hsuccess : report.isSuccess = true) :
    ∃ (draft : Draft) (resources : Listing ResourceInstance) (index : InstanceIndex),
      draft.OfRun source report ∧ draft.scope.config = config ∧
      draft.scope.outputRoot = outputRoot ∧
      (∀ kind, (draft.written kind).isSome ↔ Board.isEnabled config kind = true) ∧
      Gives (source.resources none) resources ∧
      InstanceIndex.ofListing draft.scope.catalog resources = .ok index ∧
      draft.Complete resources index ∧
      (generateWith schedule source config outputRoot outlet state).1.outlet.bytes =
        outlet.bytes ++ Utf8.encode draft.text := by
  obtain ⟨draft, hdraft, hconfig, hroot, hbytes⟩ := exists_draft h
  have henabled : Board.isEnabled draft.scope.config .resources = true := rfl
  obtain ⟨material, hwritten⟩ := hdraft.written_of_enabled hsuccess henabled
  obtain ⟨index, hindex, rfl⟩ := hdraft.written_resources hwritten
  obtain ⟨resources, hgives, hlisting⟩ := hdraft.index index hindex
  refine ⟨draft, resources, index, hdraft, hconfig, hroot, fun kind => ⟨fun hkind => ?_,
    fun hkind => ?_⟩, hgives, hlisting,
    hdraft.complete_of_isSuccess hsuccess hwritten hindex hlisting, hbytes⟩
  · exact hconfig ▸ hdraft.enabled kind hkind
  · exact Option.isSome_iff_exists.mpr (hdraft.written_of_enabled hsuccess (hconfig ▸ hkind))

end

/-- A resource type `db` with one instance, whose values may refer to another `db`, and a script
that takes a `db` and a file. -/
def linked : MemoryCatalog :=
  let taking (name type : String) : String × Json :=
    (name, .obj [("type", .str "object"), ("format", .str ("resource-" ++ type))])
  let object (properties : Entries) : Json :=
    .obj [("type", .str "object"), ("properties", .obj properties)]
  { types := [{ name := "db", schema := some (object [taking "parent" "db"]) }]
    resources := [⟨"f/main", "db"⟩]
    scripts := [
      { path := "f/s",
        schema := some (object [taking "arg" "db", taking "file" "s3_object"]) }] }

theorem generate_linked_isSuccess :
    (finalBoard [] (linked.source : Source (StateM Unit))
      ⟨TypeCatalog.ofList linked.types, {}, ""⟩ ()).report.isSuccess = true := by
  decide +kernel

theorem types_linked : (linked.source : Source (StateM Unit)).resourceTypes () =
    (.ok (TypeCatalog.ofList linked.types), ()) := rfl

theorem generate_deferred_linked : ∃ report,
    (generateWith [] (linked.source : Source (StateM Unit)) {} "" (.buffer "") ()).1.result =
      .ok report ∧ report.isSuccess = true ∧
    ∃ (draft : Draft) (resources : Listing ResourceInstance) (index : InstanceIndex),
      Gives ((linked.source : Source (StateM Unit)).resources none) resources ∧
      draft.Complete resources index := by
  have hrun := (generateWith_eq [] (linked.source : Source (StateM Unit)) {} "" (.buffer "")
    types_linked).1
  refine ⟨_, hrun, generate_linked_isSuccess, ?_⟩
  obtain ⟨draft, resources, index, -, -, -, -, hgives, -, hcomplete, -⟩ :=
    generate_deferred hrun generate_linked_isSuccess
  exact ⟨draft, resources, index, hgives, hcomplete⟩

end SchemaClient
