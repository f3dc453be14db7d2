/-
SchemaClient.Proofs.Generation.Attribution — whose schema a section fails over.

The error of a malformed schema says where it is malformed, and a section of artifacts puts before
that the path of the artifact whose validator it was making. The malformed schema need not be that
artifact's: it may belong to a resource type that the artifact refers to, and then the place is one
in the schema of that type, behind the path of the artifact.

* `Error.PointsInto` — a location is a malformed place in a schema, behind a path.
* `RunnableSection.compose_error` — where the errors of a section of artifacts come from.
* `SchemaFailure` — a run that reports such an error.
* `schemaFailures_attributed_iff` — the schema is always that of an artifact exactly when no schema
  of a resource type is malformed.
* `borrowing_not_attributed` — a location that means nothing in any schema of the section.
-/
import SchemaClient.Proofs.Generation.Resolved
import SchemaClient.Proofs.Generation.Schedule
import SchemaClient.Proofs.Lowering.Faults

namespace SchemaClient

/-- The location of an error is a malformed place in the schema, behind the path. -/
def Error.PointsInto (error : Error) (path : String) (schema : Json) : Prop :=
  ∃ pointer malformation, Schema.FaultAt schema pointer malformation ∧
    error = .invalidSchema (path ++ pointer.text) malformation.message

/-- Lowering a schema demands this, directly or through the schemas of other types. -/
def Scope.Involves (scope : Scope) (index : Option InstanceIndex) (loose : Bool) (schema : Json)
    (c : Demand) : Prop :=
  ∃ d ∈ (Schema.lower (scope.registryAt index) loose schema).demands, scope.Reaches index d c

/-! ## Sections of artifacts -/

namespace RunnableSection

variable {self : RunnableSection} {scope : Scope} {index : Option InstanceIndex}
  {items : List Artifact} {error : Error}

/-- What lowering the schema of an artifact fails over is in that schema. -/
theorem artifactPlan_error {path : String} {schema : Json}
    (h : (self.artifactPlan scope index path schema).result = .error error) :
    error.PointsInto path schema := by
  simp only [artifactPlan, Plan.adapt, Plan.ofLowering] at h
  cases hresult : (Schema.lower (scope.registryAt index) self.options.looseArgs schema).result with
  | ok validator =>
    rw [hresult] at h
    cases h
  | error fault =>
    rw [hresult] at h
    cases h
    exact ⟨_, _, Schema.faultAt_of_lower hresult, rfl⟩

theorem validatorsPlan_error (h : (self.validatorsPlan scope index items).result = .error error) :
    ∃ path schema, ⟨path, some schema⟩ ∈ items ∧ error.PointsInto path schema := by
  induction items with
  | nil => cases h
  | cons artifact rest ih =>
    have hrest : (self.validatorsPlan scope index rest).result = .error error →
        ∃ path schema, ⟨path, some schema⟩ ∈ artifact :: rest ∧ error.PointsInto path schema := by
      intro h
      obtain ⟨path, schema, hmem, hpoints⟩ := ih h
      exact ⟨path, schema, List.mem_cons_of_mem _ hmem, hpoints⟩
    obtain ⟨path, schema⟩ := artifact
    cases schema with
    | none => exact hrest h
    | some schema =>
      simp only [validatorsPlan, Plan.result_andThen] at h
      cases hresult : (self.artifactPlan scope index path schema).result with
      | error cause =>
        rw [hresult] at h
        cases h
        exact ⟨path, schema, List.mem_cons_self, artifactPlan_error hresult⟩
      | ok validator =>
        rw [hresult] at h
        exact hrest (error_of_map h)

/-- What a section of artifacts needs it needs for the schema of one of them, whose path it puts
before the location of an error. -/
theorem mem_needs_validatorsPlan {need : Demand × (Error → Error)}
    (h : need ∈ (self.validatorsPlan scope index items).needs) :
    ∃ path schema, ⟨path, some schema⟩ ∈ items ∧ need.2 = locate path ∧
      need.1 ∈ (Schema.lower (scope.registryAt index) self.options.looseArgs schema).demands := by
  induction items with
  | nil => cases h
  | cons artifact rest ih =>
    have hrest : need ∈ (self.validatorsPlan scope index rest).needs →
        ∃ path schema, ⟨path, some schema⟩ ∈ artifact :: rest ∧ need.2 = locate path ∧
          need.1 ∈ (Schema.lower (scope.registryAt index) self.options.looseArgs
            schema).demands := by
      intro h
      obtain ⟨path, schema, hmem, hneed⟩ := ih h
      exact ⟨path, schema, List.mem_cons_of_mem _ hmem, hneed⟩
    obtain ⟨path, schema⟩ := artifact
    cases schema with
    | none => exact hrest h
    | some schema =>
      rcases Plan.mem_needs_andThen h with h | ⟨validator, -, h⟩
      · simp only [artifactPlan, Plan.adapt, Plan.ofLowering, List.map_map] at h
        obtain ⟨d, hd, rfl⟩ := List.mem_map.mp h
        exact ⟨path, schema, List.mem_cons_self, rfl, hd⟩
      · exact hrest h

/-- The error of a section of artifacts points into the schema of one of them, or it is the error of
something that this schema involves, with the path of the artifact before it. -/
theorem compose_error {kind : SectionKind} {before after : Ledger}
    (h : Section.compose scope kind (.artifacts items) before = (.error error, after)) :
    ∃ path schema, ⟨path, some schema⟩ ∈ items ∧ (error.PointsInto path schema ∨
      ∃ c cause, scope.Involves before.index (ofKind scope.config kind).options.looseArgs schema c ∧
        (scope.plan before.index c).result = .error cause ∧ error = locate path cause) := by
  rw [Section.compose_eq_fulfil] at h
  rcases Scope.fulfil_error h with hresult | ⟨need, hneed, c, cause, hreach, hresult, rfl⟩
  · obtain ⟨path, schema, hmem, hpoints⟩ := validatorsPlan_error (error_of_map hresult)
    exact ⟨path, schema, hmem, Or.inl hpoints⟩
  · obtain ⟨path, schema, hmem, hlocate, hd⟩ := mem_needs_validatorsPlan hneed
    exact ⟨path, schema, hmem, Or.inr ⟨c, cause, ⟨need.1, hd, hreach⟩, hresult, by rw [hlocate]⟩⟩

end RunnableSection

/-! ## Runs -/

namespace Board

variable {σ : Type} {source : Source (StateM σ)} {scope : Scope} {board : Board}
  {compositions : List Composition} {kind : SectionKind} {error : Error}

/-- A section of artifacts has failed with what a listing ended in, over the schema of an artifact,
or over something that this schema involves. -/
theorem Sound.failed_cases (hsound : board.Sound source scope compositions)
    (hfinished : board.Finished) (hkind : kind ≠ .resources)
    (houtcome : board.outcome kind = .failed error) :
    source.Raises error ∨ ∃ items path schema, Section.Gathered source kind (.artifacts items) ∧
      ⟨path, some schema⟩ ∈ items ∧ (error.PointsInto path schema ∨
        ∃ c cause, scope.Involves board.ledger.index
            (RunnableSection.ofKind scope.config kind).options.looseArgs schema c ∧
          (scope.plan board.ledger.index c).result = .error cause ∧
          error = RunnableSection.locate path cause) := by
  rcases hsound.outcome_cases hfinished kind with ⟨-, h⟩ | ⟨-, other, hfails, -, h⟩ |
    ⟨c, hc, other, rfl, -, hresult, h⟩ | ⟨c, -, lines, -, -, -, h⟩
  · rw [houtcome] at h; cases h
  · rw [houtcome] at h
    cases h
    exact Or.inl hfails.raises
  · rw [houtcome] at h
    cases h
    have hgathered := hsound.gathered c hc
    obtain ⟨ledger, last, hindex, hcompose⟩ := hsound.composes.exists_compose hc
    rw [hresult] at hcompose
    cases hmaterial : c.material with
    | instances index =>
      rw [hmaterial] at hgathered
      exact absurd hgathered hkind
    | artifacts items =>
      rw [hmaterial] at hgathered hcompose
      obtain ⟨path, schema, hmem, hcases⟩ := RunnableSection.compose_error hcompose
      rw [hindex] at hcases
      exact Or.inr ⟨items, path, schema, hgathered, hmem, hcases⟩
  · rw [houtcome] at h; cases h

end Board

/-- A run on a workspace with these resource types that reports a section of artifacts as failed over
a malformed schema, which is not what one of the listings ended in. -/
structure SchemaFailure (catalog : TypeCatalog) where
  {σ : Type}
  source : Source (StateM σ)
  schedule : List SectionKind
  config : Config
  outputRoot : String
  outlet : Outlet
  state : σ
  report : Report
  kind : SectionKind
  location : String
  message : String
  types : (source.resourceTypes state).1 = .ok catalog
  reported : (generateWith schedule source config outputRoot outlet state).1.result = .ok report
  ofArtifacts : kind ≠ .resources
  failed : (kind, .failed (.invalidSchema location message)) ∈ report
  unraised : ¬ source.Raises (.invalidSchema location message)

namespace SchemaFailure

variable {catalog : TypeCatalog} (failure : SchemaFailure catalog)

def error : Error := .invalidSchema failure.location failure.message

def scope : Scope := ⟨catalog, failure.config, failure.outputRoot⟩

/-- The section lists an artifact with this path and this schema. -/
def Lists (path : String) (schema : Json) : Prop :=
  ∃ items, Section.Gathered failure.source failure.kind (.artifacts items) ∧
    ⟨path, some schema⟩ ∈ items

/-- The run on a workspace whose sections go one after the other, when the scripts fail so. -/
def ofScripts (source : Source (StateM Unit)) {location message : String}
    (htypes : source.resourceTypes () = (.ok catalog, ()))
    (houtcome : (finalBoard [] source ⟨catalog, {}, ""⟩ ()).outcome .scripts =
      .failed (.invalidSchema location message))
    (hunraised : ¬ source.Raises (.invalidSchema location message)) : SchemaFailure catalog where
  source := source
  schedule := []
  config := {}
  outputRoot := ""
  outlet := .buffer ""
  state := ()
  report := (finalBoard [] source ⟨catalog, {}, ""⟩ ()).report
  kind := .scripts
  location := location
  message := message
  types := congrArg Prod.fst htypes
  reported := (generateWith_draft [] source {} "" htypes rfl rfl).1
  ofArtifacts := by decide
  failed := mem_report.mpr houtcome
  unraised := hunraised

/-- The location is the path of an artifact and a malformed place in the schema of this artifact. -/
def Attributed : Prop :=
  ∃ path schema, failure.Lists path schema ∧ failure.error.PointsInto path schema

/-- The location is the path of an artifact and a malformed place in the schema of a resource type
that the schema of this artifact involves. -/
def Borrowed : Prop :=
  ∃ path schema name type inner, failure.Lists path schema ∧
    (∃ index, failure.scope.Involves index
      (RunnableSection.ofKind failure.config failure.kind).options.looseArgs schema
        (.resourceType name)) ∧
    Table.find? catalog name = some type ∧ Schema.isStorageObject name = false ∧
    type.schema = some inner ∧ ¬ Schema.WellFormed inner ∧ failure.error.PointsInto path inner

/-- There is no other way for a section of artifacts to fail over a malformed schema. -/
theorem attributed_or_borrowed : failure.Attributed ∨ failure.Borrowed := by
  obtain ⟨types, next, htypes, hreport⟩ := report_eq_of_ok failure.reported
  obtain rfl : types = catalog := by
    have h := failure.types
    rw [htypes] at h
    exact Except.ok.inj h
  obtain ⟨compositions, hsound, hfinished, -⟩ :=
    finalBoard_sound failure.schedule failure.source failure.scope next
  have houtcome := failure.failed
  rw [hreport, mem_report] at houtcome
  rcases hsound.failed_cases hfinished failure.ofArtifacts houtcome with hraises |
    ⟨items, path, schema, hgathered, hmem, hpoints | ⟨c, cause, hinvolves, hresult, herror⟩⟩
  · exact absurd hraises failure.unraised
  · exact Or.inl ⟨path, schema, ⟨items, hgathered, hmem⟩, hpoints⟩
  · -- of the three ways in which something it involves can fail, one is about a schema
    refine Or.inr ?_
    obtain ⟨name, rfl, ⟨-, rfl⟩ | ⟨known, -, -, other, rfl⟩ |
      ⟨type, inner, fault, hfind, hschema, hfault, rfl⟩⟩ := Scope.plan_error hresult
    · cases herror
    · cases herror
    · obtain ⟨d, hd, hreach⟩ := hinvolves
      refine ⟨path, schema, name, type, inner, ⟨items, hgathered, hmem⟩, ⟨_, d, hd, hreach⟩, hfind,
        Scope.isStorageObject_of_reaches hd hreach, hschema, fun hwell => ?_,
        ⟨fault.pointer, fault.malformation, Schema.faultAt_of_lower hfault, herror⟩⟩
      obtain ⟨validator, hok⟩ := hwell _
      rw [hok] at hfault
      cases hfault

end SchemaFailure

/-! ## When all locations are right -/

/-- The schemas of all resource types can be lowered; those that stand for files are not looked
at. -/
def TypeCatalog.WellFormed (catalog : TypeCatalog) : Prop :=
  ∀ name type schema, Table.find? catalog name = some type → Schema.isStorageObject name = false →
    type.schema = some schema → Schema.WellFormed schema

/-- A type that has been declared has a schema that can be lowered. -/
theorem Scope.wellFormed_of_feasible {scope : Scope} {index : Option InstanceIndex} {name : String}
    {type : ResourceType} {schema : Json} (h : scope.Feasible index (.resourceType name))
    (hfind : Table.find? scope.catalog name = some type) (hschema : type.schema = some schema) :
    Schema.WellFormed schema := by
  obtain ⟨declarations, h⟩ := h
  cases index with
  | none => cases h
  | some known =>
    simp only [plan, hfind, ownPlan, Plan.result_andThen, hschema, Plan.ofLowering] at h
    cases hresult : (Schema.lower (scope.registryAt (some known)) false schema).result with
    | ok validator => exact Schema.wellFormed_of_lower hresult
    | error fault =>
      rw [hresult] at h
      cases h

/-! ### A script that takes one resource -/

/-- The node of a schema that refers to a resource type and says nothing else. -/
def referringNode (name : String) : Entries :=
  [("type", .str "object"), ("format", .str ("resource-" ++ name))]

/-- The schema that refers to a resource type and says nothing else. -/
def referring (name : String) : Json := .obj (referringNode name)

section

variable {name : String}

theorem toList_resourceFormat (name : String) :
    ("resource-" ++ name).toList = Schema.resourceMark ++ name.toList :=
  String.toList_append

theorem resourceTypeOf_referringNode : Schema.resourceTypeOf
    (Keywords.ofEntries (referringNode name)).type
    (Keywords.ofEntries (referringNode name)).format = some name := by
  have hafter : after? Schema.resourceMark ("resource-" ++ name) = some name := by
    rw [after?, toList_resourceFormat,
      if_pos (List.isPrefixOf_iff_prefix.mpr (List.prefix_append _ _)), List.drop_left,
      String.ofList_toList]
  exact hafter

theorem selected_referringNode : (Keywords.ofEntries (referringNode name)).selected =
    Keywords.ofEntries (referringNode name) := by
  have hmark : Keywords.dynamicSelectMark.isPrefixOf ("resource-" ++ name).toList = false := by
    rw [toList_resourceFormat]
    rfl
  have hselect : (Keywords.ofEntries (referringNode name)).isDynamicSelect = false := hmark
  rw [Keywords.selected, hselect]
  rfl

/-- It demands that resource type. -/
theorem demands_referring {registry : Registry} (loose : Bool)
    (hknown : registry.known name = true) (hstorage : Schema.isStorageObject name = false) :
    (Schema.lower registry loose (referring name)).demands = [.resourceType name] := by
  have htidied : (Keywords.ofEntries (referringNode name)).tidied =
      Keywords.ofEntries (referringNode name) := rfl
  change ((Keywords.ofEntries (referringNode name)).lower registry loose
    (Schema.lowerWithin registry 0 false) []).demands = _
  unfold Keywords.lower
  simp only [htidied, selected_referringNode]
  rw [if_neg, if_neg, resourceTypeOf_referringNode]
  · simp only [Lowering.demands_map, Keywords.demands_lowerResource, hknown, hstorage]
    rfl
  · simp [Keywords.isEmptyObject, Keywords.saysSomething, referringNode, Keywords.ofEntries,
      Table.find?]
  · simp [Keywords.isBase64, Keywords.kind?, Keywords.declaredType, referringNode,
      Keywords.ofEntries, Table.find?]

/-- Nothing is wrong with it. -/
theorem not_faultAt_referring {pointer : Pointer} {malformation : Malformation} :
    ¬ Schema.FaultAt (referring name) pointer malformation := by
  rintro ⟨hleads, hflaw⟩
  cases hleads with
  | here =>
    cases hflaw with
    | type h hgenuine =>
      cases h
      simp [Malformation.Genuine, Json.kind] at hgenuine
    | items h => cases h
    | properties h => cases h
    | combinator hmem =>
      simp [Keywords.combinators, Keywords.ofEntries, referringNode, Table.find?] at hmem
  | entry hmem hrest =>
    simp only [referringNode, List.mem_cons, Prod.mk.injEq, List.not_mem_nil, or_false] at hmem
    rcases hmem with ⟨-, rfl⟩ | ⟨-, rfl⟩ <;> cases hrest

/-- A workspace without resources, whose only script has this schema. -/
def probe (catalog : TypeCatalog) (name : String) : Source (StateM Unit) where
  resourceTypes := pure (.ok catalog)
  resources _ := pure ⟨[], none⟩
  scripts := pure ⟨[⟨"f/s", some (referring name)⟩], none⟩
  flows := pure ⟨[], none⟩

variable {catalog : TypeCatalog}

theorem not_raises_probe (error : Error) : ¬ (probe catalog name).Raises error := by
  intro h
  cases h with
  | resourceTypes h => cases h.pure_elim
  | resources h hfailure => rw [h.pure_elim] at hfailure; cases hfailure
  | scripts h hfailure => rw [h.pure_elim] at hfailure; cases hfailure
  | flows h hfailure => rw [h.pure_elim] at hfailure; cases hfailure

theorem items_of_gathered_probe {items : List Artifact}
    (h : Section.Gathered (probe catalog name) .scripts (.artifacts items)) :
    items = [⟨"f/s", some (referring name)⟩] := by
  obtain ⟨listing, hlists, hcomplete⟩ := h
  have hlisting : listing = ⟨[⟨"f/s", some (referring name)⟩], none⟩ := Gives.pure_elim hlists
  subst hlisting
  exact (Except.ok.inj hcomplete).symm

theorem index_of_probe {scope : Scope} {known : InstanceIndex}
    (h : Section.IndexGiven (probe catalog name) scope (.ok known)) : known = [] := by
  obtain ⟨listing, hgives, hlisting⟩ := h
  have hempty : listing = ⟨[], none⟩ := hgives.pure_elim
  subst hempty
  exact (Except.ok.inj hlisting).symm

variable {scope : Scope} {board : Board} {compositions : List Composition}

/-- If the section of its scripts is generated, the type has been declared. -/
theorem feasible_of_probe (hcatalog : scope.catalog = catalog)
    (hsound : board.Sound (probe catalog name) scope compositions) (hfinished : board.Finished)
    (hknown : Table.has catalog name = true) (hstorage : Schema.isStorageObject name = false)
    (houtcome : board.outcome .scripts = .generated) :
    scope.Feasible board.ledger.index (.resourceType name) := by
  obtain ⟨material, hmaterial⟩ :=
    Option.isSome_iff_exists.mp ((hsound.writtenBy_isSome hfinished .scripts).mpr houtcome)
  obtain ⟨c, hc, hkind, rfl, lines, hlines⟩ := writtenBy_eq_some hmaterial
  have hgathered := hsound.gathered c hc
  obtain ⟨made, lost, hgrow, -, hdone, -⟩ := hsound.composes.grows
  have hdemands := (hdone c hc lines hlines).2
  rw [hkind] at hgathered hdemands
  cases hartifacts : c.material with
  | instances index =>
    rw [hartifacts] at hgathered
    cases hgathered
  | artifacts items =>
    rw [hartifacts] at hgathered hdemands
    obtain rfl := items_of_gathered_probe hgathered
    refine hgrow.feasible _ ((hgrow.mem_claimed rfl _).mp (hdemands _ ?_))
    rw [Section.plan, RunnableSection.plan, Plan.demands_map]
    refine Plan.demands_subset_andThen (RunnableSection.artifactPlan _ _ _ _ _) _ ?_
    rw [RunnableSection.artifactPlan, Plan.demands_adapt, Plan.demands_ofLowering,
      demands_referring _ (by rw [← hcatalog] at hknown; exact hknown) hstorage]
    exact List.mem_singleton_self _

/-- The section fails over the schema of the type, if that is malformed. -/
theorem probe_fails (hscope : scope = ⟨catalog, {}, ""⟩) {type : ResourceType} {schema : Json}
    (hfind : Table.find? catalog name = some type) (hstorage : Schema.isStorageObject name = false)
    (hschema : type.schema = some schema) (hmalformed : ¬ Schema.WellFormed schema) :
    ∃ location message, (finalBoard [] (probe catalog name) scope ()).outcome .scripts =
      .failed (.invalidSchema location message) := by
  have hcatalog : scope.catalog = catalog := by rw [hscope]
  obtain ⟨compositions, hsound, hfinished, -⟩ := finalBoard_sound [] (probe catalog name) scope ()
  have hkinds := kinds_finalBoard [] (probe catalog name) scope ()
  generalize finalBoard [] (probe catalog name) scope () = board at hsound hfinished hkinds ⊢
  cases houtcome : board.outcome .scripts with
  | disabled =>
    have henabled : SectionKind.scripts ∈ SectionKind.order.filter (Board.isEnabled {}) := by decide
    rw [hsound.outcome_disabled_iff hfinished, hkinds, hscope] at houtcome
    exact absurd henabled houtcome
  | generated =>
    have hhas : Table.has catalog name = true := by rw [Table.has, hfind]; rfl
    have hfeasible := feasible_of_probe hcatalog hsound hfinished hhas hstorage houtcome
    rw [← hcatalog] at hfind
    exact absurd (Scope.wellFormed_of_feasible hfeasible hfind hschema) hmalformed
  | failed error =>
    rcases hsound.failed_cases hfinished (by decide) houtcome with hraises |
      ⟨items, path, inner, -, -, ⟨pointer, malformation, -, rfl⟩ | ⟨c, cause, -, hresult, rfl⟩⟩
    · exact absurd hraises (not_raises_probe _)
    · exact ⟨_, _, rfl⟩
    · obtain ⟨other, rfl, ⟨-, rfl⟩ | ⟨known, hknown, hpaths, -⟩ | ⟨-, -, fault, -, -, -, rfl⟩⟩ :=
        Scope.plan_error hresult
      · exact absurd (hsound.raises_of_unresolved hfinished houtcome) (not_raises_probe _)
      · obtain rfl := index_of_probe (hsound.index known hknown)
        exact absurd rfl hpaths
      · exact ⟨_, _, rfl⟩

end

/-- On every workspace, whatever the configuration: when the section of the scripts or that of the
flows is reported to have failed over a malformed schema, the location is the path of a listed
artifact and a malformed place in the schema of that artifact, or the path of a listed artifact and a
malformed place in the schema of a resource type that this artifact involves. The first is always so
exactly when the schemas of all resource types that do not stand for files can be lowered. -/
theorem schemaFailures_attributed_iff (catalog : TypeCatalog) :
    (∀ failure : SchemaFailure catalog, failure.Attributed ∨ failure.Borrowed) ∧
      ((∀ failure : SchemaFailure catalog, failure.Attributed) ↔ catalog.WellFormed) := by
  refine ⟨SchemaFailure.attributed_or_borrowed, fun hattributed => ?_, fun hwell failure => ?_⟩
  · intro name type schema hfind hstorage hschema
    by_contra hmalformed
    -- a script that only refers to the type fails over it, and has no malformed place of its own
    obtain ⟨location, message, houtcome⟩ := probe_fails rfl hfind hstorage hschema hmalformed
    obtain ⟨path, inner, ⟨items, hgathered, hmem⟩, pointer, malformation, hfault, -⟩ :=
      hattributed (.ofScripts (probe catalog name) rfl houtcome (not_raises_probe _))
    obtain rfl := items_of_gathered_probe hgathered
    obtain ⟨rfl, rfl⟩ : path = "f/s" ∧ inner = referring name := by simpa using hmem
    exact not_faultAt_referring hfault
  · rcases failure.attributed_or_borrowed with hattributed |
      ⟨-, -, name, type, inner, -, -, hfind, hstorage, hschema, hmalformed, -⟩
    · exact hattributed
    · exact absurd (hwell name type inner hfind hstorage hschema) hmalformed

/-! ## Two workspaces -/

/-- In memory no listing ends in the error of a malformed schema. -/
theorem MemoryCatalog.not_raises_invalidSchema {σ : Type} (workspace : MemoryCatalog)
    (location message : String) :
    ¬ (workspace.source : Source (StateM σ)).Raises (.invalidSchema location message) := by
  intro h
  obtain ⟨kind, hkind⟩ := MemoryCatalog.raises h
  cases hkind

/-- Nor does any on a server. -/
theorem Client.not_raises_invalidSchema {σ : Type} (client : Client)
    (transport : Transport (StateM σ)) (location message : String) :
    ¬ (client.source transport).Raises (.invalidSchema location message) := by
  intro h
  have hrequest := Client.raises h
  cases hrequest

/-- What a section that failed over a malformed schema says. -/
def Outcome.schemaError? : Outcome → Option (String × String)
  | .failed (.invalidSchema location message) => some (location, message)
  | _ => none

theorem Outcome.eq_of_schemaError? {outcome : Outcome} {location message : String}
    (h : outcome.schemaError? = some (location, message)) :
    outcome = .failed (.invalidSchema location message) := by
  unfold schemaError? at h
  split at h
  · cases h
    rfl
  · cases h

theorem malformed_fails :
    (finalBoard [] (malformed.source : Source (StateM Unit)) ⟨[], {}, ""⟩ ()).outcome .scripts =
      .failed (.invalidSchema "f/s#" (Malformation.typeKeyword (.num (.int 3))).message) :=
  Outcome.eq_of_schemaError? (by decide +kernel)

/-- Without resource types the location is in the schema of the script. -/
theorem schemaFailures_attributed_iff_malformed : ∃ failure : SchemaFailure [],
    failure.location = "f/s#" ∧ failure.Attributed := by
  refine ⟨.ofScripts malformed.source rfl malformed_fails
    (malformed.not_raises_invalidSchema _ _), rfl, ?_⟩
  refine (schemaFailures_attributed_iff []).2.mpr (fun name type schema hfind => ?_) _
  cases hfind

/-- A malformed resource type `a`, and a script that takes an `a` and is malformed as well. -/
def borrowing : MemoryCatalog :=
  let object (properties : Entries) : Json :=
    .obj [("type", .str "object"), ("properties", .obj properties)]
  { types := [{ name := "a", schema := some (object [("m", .obj [("type", .num (.int 3))])]) }]
    scripts := [{
      path := "f/s"
      schema := some (object [("arg", referring "a"), ("n", .obj [("type", .num (.int 5))])]) }] }

/-- The board at the end of a run on it. -/
def borrowingBoard : Board :=
  finalBoard [] (borrowing.source : Source (StateM Unit)) ⟨TypeCatalog.ofList borrowing.types, {}, ""⟩
    ()

/-- The script is said to be malformed at a place that is in the schema of `a`; in the schema of the
script nothing has that place. -/
theorem borrowing_not_attributed :
    (generateWith [] (borrowing.source : Source (StateM Unit)) {} "" (.buffer "") ()).1.result =
      .ok borrowingBoard.report ∧
    (SectionKind.scripts, .failed (.invalidSchema "f/s#/properties/m"
      (Malformation.typeKeyword (.num (.int 3))).message)) ∈ borrowingBoard.report ∧
    ∀ path schema, ⟨path, some schema⟩ ∈ borrowing.scripts → ∀ pointer found,
      path ++ pointer.text = "f/s#/properties/m" → ¬ schema.LeadsTo pointer found := by
  refine ⟨(generateWith_draft [] borrowing.source {} "" rfl rfl rfl).1,
    mem_report.mpr (Outcome.eq_of_schemaError? (by decide +kernel)), ?_⟩
  intro path schema hmem pointer found htext hleads
  obtain ⟨rfl, hschema⟩ := Artifact.mk.inj (List.mem_singleton.mp hmem)
  cases hschema
  have hlocation : "f/s#/properties/m" = "f/s" ++ Pointer.text ["properties", "m"] := by
    decide +kernel
  rw [hlocation] at htext
  have hchars := congrArg String.toList htext
  rw [String.toList_append, String.toList_append] at hchars
  obtain rfl : pointer = ["properties", "m"] :=
    Pointer.text_injective (String.toList_inj.mp (List.append_cancel_left hchars))
  cases hleads with
  | entry hentry hrest =>
    simp only [List.mem_cons, Prod.mk.injEq, List.not_mem_nil, or_false] at hentry
    rcases hentry with ⟨hkey, -⟩ | ⟨-, rfl⟩
    · exact absurd hkey (by decide)
    · cases hrest with
      | entry hentry hrest => simp at hentry

end SchemaClient
