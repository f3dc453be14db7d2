/-
SchemaClient.Proofs.Generation.Resources — the resources in the generated file.

The section of the resources writes three tables: from the path of an instance to the validator of its
type, the types that have instances, and from a type to its default. The default of a type also
stands in the declaration of the references to its instances, which comes at the end of the file. It
is worked out there on its own, and may have been before the section gets that far, by another
section that refers to the type.

* `ResourceTables`, `ResourceTables.lines` — the three tables, and the text they are written as.
* `ResourceTables.Agree` — what the tables have to do with the listing and with the declarations.
* `generated_resources` — what a section of resources that was generated has written.
-/
import SchemaClient.Proofs.Catalog.Grouping
import SchemaClient.Proofs.Generation.Draft
import SchemaClient.Proofs.Validator.Acceptance

namespace SchemaClient

namespace Validator

/-- The value that stands in where there is none. -/
def prefault? : Validator → Option Json
  | defaulted _ value => some value
  | _ => none

end Validator

/-! ## References to instances -/

theorem InstanceIndex.reference_injective : Function.Injective InstanceIndex.reference := by
  intro path other h
  have hlist := String.ofList_injective h
  exact String.toList_injective (List.append_cancel_left hlist)

namespace Scope

open Validator

/-- A reference to one of the instances is accepted, and nothing else. -/
theorem accepts_references (i : Interpretation) (paths : List String) (default : Option String)
    (value : Json) :
    (references paths default).Accepts i value ↔
      ∃ path ∈ paths, value = .str (InstanceIndex.reference path) := by
  have hmember : ∀ {members : List String}, members = paths.map InstanceIndex.reference →
      ((enumeration members).Accepts i value ↔
        ∃ path ∈ paths, value = .str (InstanceIndex.reference path)) := by
    rintro _ rfl
    change (∃ text ∈ paths.map InstanceIndex.reference, value = .str text) ↔ _
    simp only [List.mem_map, exists_exists_and_eq_and]
  -- a default takes the place of a missing value, and says nothing of others
  have hdefault : (references paths default).Accepts i value ↔
      (references paths none).Accepts i value := by
    cases default <;> exact Iff.rfl
  rw [hdefault]
  unfold references
  split
  · rename_i only heq
    have hone : (literal (.str only)).Accepts i value ↔ (enumeration [only]).Accepts i value := by
      change value = .str only ↔ ∃ text ∈ [only], value = .str text
      simp
    exact hone.trans (hmember heq.symm)
  · exact hmember rfl

/-- What stands in is the reference to the default. -/
theorem prefault_references (paths : List String) (default : Option String) :
    (references paths default).prefault? =
      default.map fun path => .str (InstanceIndex.reference path) := by
  unfold references
  cases default with
  | some path => rfl
  | none =>
    simp only
    split <;> rfl

variable {scope : Scope} {index : InstanceIndex}

/-- The declarations of a resource type that has instances. -/
theorem declarations_resourceType {name : String}
    (h : scope.Feasible (some index) (.resourceType name)) (hpaths : index.paths name ≠ []) :
    ∃ own default, index.default? scope.config.resources.defaults name = .ok default ∧
      scope.declarations (some index) (.resourceType name) =
        [⟨typeName name, own⟩,
          ⟨referencesName name, (references (index.paths name) default).source⟩,
          ⟨unionName name,
            "z.union([" ++ referencesName name ++ ", " ++ typeName name ++ "])"⟩] := by
  obtain ⟨known, validator, hknown, -, hresult, hdefault⟩ := feasible_resourceType h
  cases hknown
  obtain ⟨default, hdef⟩ := hdefault hpaths
  have htype : scope.typeDeclarations index name validator.source =
      .ok [⟨typeName name, validator.source⟩,
        ⟨referencesName name, (references (index.paths name) default).source⟩,
        ⟨unionName name,
          "z.union([" ++ referencesName name ++ ", " ++ typeName name ++ "])"⟩] := by
    unfold typeDeclarations
    split
    · rename_i hnil
      exact absurd hnil hpaths
    · rw [hdef]
      rfl
  refine ⟨validator.source, default, hdef, ?_⟩
  rw [declarations, hresult, htype]

end Scope

/-! ## The defaults of the section -/

namespace Section

variable {scope : Scope} {index : InstanceIndex}

/-- The table of the defaults has the types that have one, in order. -/
theorem indexedPlan_ok {types : List String} {defaults : Table String}
    (h : (indexedPlan scope index types).result = .ok defaults) :
    (defaults.map Prod.fst).Sublist types ∧ ∀ name path, (name, path) ∈ defaults ↔
      name ∈ types ∧ index.default? scope.config.resources.defaults name = .ok (some path) := by
  induction types generalizing defaults with
  | nil =>
    cases h
    exact ⟨.refl _, by simp⟩
  | cons first rest ih =>
    obtain ⟨_, -, hnext, -⟩ := Plan.andThen_ok h
    obtain ⟨default, hdefault, hmap, -⟩ := Plan.andThen_ok hnext
    obtain ⟨others, hothers, rfl⟩ := Plan.map_ok hmap
    obtain ⟨hsub, hmem⟩ := ih hothers
    have hfirst : index.default? scope.config.resources.defaults first = .ok default := hdefault
    -- the first type adds its own default, and nothing if it has none
    cases default with
    | none =>
      refine ⟨hsub.cons _, fun name path => (hmem name path).trans ?_⟩
      rw [List.mem_cons]
      refine ⟨fun h => ⟨Or.inr h.1, h.2⟩, fun ⟨hname, hpath⟩ => ⟨hname.resolve_left ?_, hpath⟩⟩
      rintro rfl
      rw [hfirst] at hpath
      cases hpath
    | some own =>
      refine ⟨hsub.cons_cons _, fun name path => ?_⟩
      rw [List.mem_cons, List.mem_cons, hmem]
      constructor
      · rintro (heq | ⟨hname, hpath⟩)
        · cases heq
          exact ⟨Or.inl rfl, hfirst⟩
        · exact ⟨Or.inr hname, hpath⟩
      · rintro ⟨rfl | hname, hpath⟩
        · rw [hfirst] at hpath
          cases hpath
          exact Or.inl rfl
        · exact Or.inr ⟨hname, hpath⟩

end Section

/-! ## The tables -/

/-- The tables of the section of the resources. -/
structure ResourceTables where
  /-- From the path of an instance to the name of a validator. -/
  validators : List (String × String)
  /-- The types that have instances. -/
  types : List String
  /-- From a type to the path of its default. -/
  defaults : Table String

namespace ResourceTables

open Section (tableEntry)

/-- The lines of a section with these tables. -/
def lines (hooked : Bool) (tables : ResourceTables) : List String :=
  [Section.resourceAccessor hooked, "const resourceToType = lazyObject(() => (\x7b"] ++
  tables.validators.map (fun (path, name) => tableEntry path name) ++
  ["\x7d as const));", "export type ResourceTypes = \x7b"] ++
  tables.types.map (fun name => tableEntry name ("z.infer<typeof " ++ typeName name ++ ">")) ++
  ["\x7d;", "export const resourceDefaults = \x7b"] ++
  tables.defaults.map (fun (name, path) => tableEntry name (quote path)) ++
  ["\x7d as const;"]

/-- The listed instances whose type the catalog has. -/
def known (catalog : TypeCatalog) (items : List ResourceInstance) : List ResourceInstance :=
  items.filter fun r => Table.has catalog r.resourceType

/-- In a run with this listing of resources, in which these demands were declared and put these
texts off, the tables are as they should be. -/
structure Agree (tables : ResourceTables) (scope : Scope) (items : List ResourceInstance)
    (index : InstanceIndex) (declared : List Demand) (deferred : List String) : Prop where
  /-- Instances come type by type, types as they come first, instances of a type as listed. -/
  validators_eq : tables.validators =
    (InstanceIndex.grouped (known scope.catalog items)).map fun r => (r.path, typeName r.resourceType)
  /-- There is one entry for each listed instance of a type in the catalog, and no other. -/
  validators_perm : tables.validators.Perm
    ((known scope.catalog items).map fun r => (r.path, typeName r.resourceType))
  ascending : (tables.types.map Utf8.encode).Pairwise (· < ·)
  mem_types : ∀ name, name ∈ tables.types ↔
    Table.has scope.catalog name = true ∧ ∃ r ∈ items, r.resourceType = name
  nodup_defaults : (tables.defaults.map Prod.fst).Nodup
  defaults_subset : tables.defaults.map Prod.fst ⊆ tables.types
  /-- Each demand is declared once. -/
  nodup_declared : declared.Nodup
  deferred_perm : deferred.Perm
    ((declared.flatMap (scope.declarations (some index))).map Declaration.render)
  mem_declared : ∀ name ∈ tables.types, .resourceType name ∈ declared
  /-- A type is declared with the references to its instances, and what stands in for a missing
  reference is its default in the table. -/
  declarations_eq : ∀ name ∈ tables.types, ∃ (own : String) (references : Validator),
    scope.declarations (some index) (.resourceType name) =
      [⟨typeName name, own⟩, ⟨referencesName name, references.source⟩,
        ⟨unionName name, "z.union([" ++ referencesName name ++ ", " ++ typeName name ++ "])"⟩] ∧
    (∀ i value, references.Accepts i value ↔ ∃ r ∈ items, r.resourceType = name ∧
      value = .str (InstanceIndex.reference r.path)) ∧
    ∀ path, ((name, path) ∈ tables.defaults ↔
        references.prefault? = some (.str (InstanceIndex.reference path))) ∧
      ((name, path) ∈ tables.defaults →
        ∀ i, references.Accepts i (.str (InstanceIndex.reference path)))

/-- The tables of a section that is composed from an index. -/
def ofIndex (index : InstanceIndex) (defaults : Table String) : ResourceTables where
  validators := index.flatMap fun (name, paths) => paths.map fun path => (path, typeName name)
  types := Outlet.ascending (Table.names index)
  defaults := defaults

theorem lines_ofIndex (scope : Scope) (index : InstanceIndex) (defaults : Table String) :
    (ofIndex index defaults).lines scope.config.resources.postProcess.isSome =
      Section.resourceLines scope index defaults := by
  simp [lines, ofIndex, Section.resourceLines, Outlet.ascending, List.map_flatMap,
    Function.comp_def]

/-- Names that are all different are strictly ascending when sorted. -/
theorem pairwise_lt_ascending {names : List String} (hnodup : names.Nodup) :
    ((Outlet.ascending names).map Utf8.encode).Pairwise (· < ·) := by
  have hdistinct : (Outlet.ascending names).Nodup :=
    (List.mergeSort_perm names _).nodup_iff.mpr hnodup
  refine List.pairwise_map.mpr ?_
  refine ((Outlet.pairwise_ascending names).and hdistinct).imp fun {a b} h => ?_
  exact Utf8.encode_lt (String.not_le.mp fun hba => h.2 (String.le_antisymm h.1 hba))

variable {scope : Scope} {items : List ResourceInstance} {index : InstanceIndex}
  {defaults : Table String} {declared : List Demand} {deferred : List String}

theorem mem_known {r : ResourceInstance} :
    r ∈ known scope.catalog items ↔ r ∈ items ∧ Table.has scope.catalog r.resourceType = true :=
  List.mem_filter

/-- The tables that come of an index agree with the listing and with the declarations. -/
theorem agree_ofIndex (hindex : index = InstanceIndex.ofList (known scope.catalog items))
    (hdefaults : (Section.indexedPlan scope index (Table.names index)).result = .ok defaults)
    (hnodup : declared.Nodup) (hfeasible : ∀ d ∈ declared, scope.Feasible (some index) d)
    (hdeferred : deferred.Perm (declared.flatMap (scope.texts (some index))))
    (hdeclared : ∀ name ∈ Table.names index, .resourceType name ∈ declared) :
    (ofIndex index defaults).Agree scope items index declared deferred := by
  obtain ⟨hsub, hmem⟩ := Section.indexedPlan_ok hdefaults
  have htypes : ∀ name, name ∈ (ofIndex index defaults).types ↔ name ∈ Table.names index :=
    fun _ => (List.mergeSort_perm _ _).mem_iff
  have hnames : (Table.names index).Nodup := hindex ▸ InstanceIndex.nodup_names_ofList _
  have hvalidators : (ofIndex index defaults).validators =
      (InstanceIndex.grouped (known scope.catalog items)).map
        fun r => (r.path, typeName r.resourceType) := by
    subst hindex
    exact InstanceIndex.flatMap_ofList _ fun name path => (path, typeName name)
  -- a type in the index is one that the catalog has, and its paths are those of its instances
  have hlisted : ∀ name, name ∈ Table.names index ↔
      Table.has scope.catalog name = true ∧ ∃ r ∈ items, r.resourceType = name := by
    intro name
    rw [hindex, InstanceIndex.mem_names_ofList]
    constructor
    · rintro ⟨r, hr, rfl⟩
      exact ⟨(mem_known.mp hr).2, r, (mem_known.mp hr).1, rfl⟩
    · rintro ⟨hhas, r, hr, rfl⟩
      exact ⟨r, mem_known.mpr ⟨hr, hhas⟩, rfl⟩
  have hpaths : ∀ name ∈ Table.names index, ∀ path, path ∈ index.paths name ↔
      ∃ r ∈ items, r.resourceType = name ∧ r.path = path := by
    intro name hname path
    have hhas := ((hlisted name).mp hname).1
    rw [hindex, InstanceIndex.paths_ofList, InstanceIndex.mem_pathsOf]
    constructor
    · rintro ⟨r, hr, hsame⟩
      exact ⟨r, (mem_known.mp hr).1, hsame⟩
    · rintro ⟨r, hr, rfl, hpath⟩
      exact ⟨r, mem_known.mpr ⟨hr, hhas⟩, rfl, hpath⟩
  exact
    { validators_eq := hvalidators
      validators_perm := by
        rw [hvalidators]
        exact (InstanceIndex.grouped_perm _).map _
      ascending := pairwise_lt_ascending hnames
      mem_types := fun name => (htypes name).trans (hlisted name)
      nodup_defaults := hnames.sublist hsub
      defaults_subset := fun name hname => (htypes name).mpr (hsub.subset hname)
      nodup_declared := hnodup
      deferred_perm := by
        rw [List.map_flatMap]
        exact hdeferred
      mem_declared := fun name hname => hdeclared name ((htypes name).mp hname)
      declarations_eq := by
        intro name hname
        replace hname := (htypes name).mp hname
        have hne : index.paths name ≠ [] := by
          obtain ⟨-, r, hr, hsame⟩ := (hlisted name).mp hname
          exact List.ne_nil_of_mem ((hpaths name hname r.path).mpr ⟨r, hr, hsame, rfl⟩)
        obtain ⟨own, default, hdefault, heq⟩ :=
          Scope.declarations_resourceType (hfeasible _ (hdeclared name hname)) hne
        have haccepts : ∀ i value,
            (Scope.references (index.paths name) default).Accepts i value ↔
              ∃ r ∈ items, r.resourceType = name ∧
                value = .str (InstanceIndex.reference r.path) := by
          intro i value
          rw [Scope.accepts_references]
          constructor
          · rintro ⟨path, hpath, rfl⟩
            obtain ⟨r, hr, hsame, rfl⟩ := (hpaths name hname path).mp hpath
            exact ⟨r, hr, hsame, rfl⟩
          · rintro ⟨r, hr, hsame, rfl⟩
            exact ⟨r.path, (hpaths name hname r.path).mpr ⟨r, hr, hsame, rfl⟩, rfl⟩
        have hentry : ∀ path, (name, path) ∈ defaults ↔ default = some path := by
          intro path
          rw [hmem, hdefault]
          simp [hname]
        refine ⟨own, Scope.references (index.paths name) default, heq, haccepts, fun path =>
          ⟨(hentry path).trans ?_, fun hpath i => (haccepts i _).mpr ?_⟩⟩
        · rw [Scope.prefault_references]
          cases default with
          | none => simp
          | some other =>
            simp only [Option.map_some, Option.some.injEq, Json.str.injEq]
            exact InstanceIndex.reference_injective.eq_iff.symm
        · obtain rfl := (hentry path).mp hpath
          obtain ⟨r, hr, hsame, rfl⟩ :=
            (hpaths name hname path).mp (InstanceIndex.mem_paths_of_default hdefault)
          exact ⟨r, hr, hsame, rfl⟩ }

end ResourceTables

/-! ## The section in a run -/

section

variable {σ : Type} {schedule : List SectionKind} {source : Source (StateM σ)} {scope : Scope}
  {state : σ} {kind : SectionKind}

/-- Of a section that was generated the plan came to the lines that are written, and everything it
demands is declared in the end. -/
theorem exists_plan_of_generated
    (h : (finalBoard schedule source scope state).outcome kind = .generated) :
    let board := finalBoard schedule source scope state
    ∃ material lines, ∃ declared : List Demand, Section.Gathered source kind material ∧
      Section.Ready scope board.ledger.index material ∧
      (Section.plan scope board.ledger.index kind material).result = .ok lines ∧
      board.contribution kind = some (Outlet.linesText lines) ∧
      declared.Nodup ∧ (∀ d ∈ declared, scope.Feasible board.ledger.index d) ∧
      board.ledger.deferred.Perm (declared.flatMap (scope.texts board.ledger.index)) ∧
      ∀ d ∈ (Section.plan scope board.ledger.index kind material).demands, d ∈ declared := by
  intro board
  obtain ⟨compositions, hsound, hfinished, -⟩ := finalBoard_sound schedule source scope state
  obtain ⟨declared, lost, hgrow, -, hdone, -⟩ := hsound.composes.grows
  rcases hsound.outcome_cases hfinished kind with ⟨-, houtcome⟩ | ⟨-, error, -, -, houtcome⟩ |
    ⟨_, -, error, -, -, -, houtcome⟩ | ⟨c, hc, lines, rfl, -, hresult, -⟩
  · rw [h] at houtcome; cases houtcome
  · rw [h] at houtcome; cases houtcome
  · rw [h] at houtcome; cases houtcome
  · obtain ⟨hplan, hclaimed⟩ := hdone c hc lines hresult
    exact ⟨c.material, lines, declared, hsound.gathered c hc, hsound.ready c hc, hplan,
      (hsound.outcome_ok hfinished hc hresult).2, hgrow.nodup, hgrow.feasible,
      by simpa using hgrow.deferred, fun d hd => (hgrow.mem_claimed rfl d).mp (hclaimed d hd)⟩

/-- A section of resources that was generated consists of the accessor and three tables. The first has
one entry for each listed instance of a type that the catalog has, type by type; the second has the
types of these in strictly ascending order of their bytes; and the third has a default for a type
exactly if the references to this type, as they are declared at the end of the file, have it to
stand in, and then it is among what they accept. -/
theorem generated_resources
    (h : (finalBoard schedule source scope state).outcome .resources = .generated) :
    let board := finalBoard schedule source scope state
    ∃ items index declared tables, Gives (source.resources none) ⟨items, none⟩ ∧
      board.ledger.index = some index ∧
      board.contribution .resources = some (Outlet.linesText
        (ResourceTables.lines scope.config.resources.postProcess.isSome tables)) ∧
      tables.Agree scope items index declared board.ledger.deferred := by
  intro board
  obtain ⟨material, lines, declared, hgathered, hready, hplan, hcontribution, hnodup, hfeasible,
    hdeferred, hdemands⟩ := exists_plan_of_generated h
  cases material with
  | artifacts items =>
    obtain ⟨listing, hlists, -⟩ := hgathered
    cases hlists
  | instances index =>
    have hindex : board.ledger.index = some index := hready
    obtain ⟨compositions, hsound, -, -⟩ := finalBoard_sound schedule source scope state
    obtain ⟨⟨items, failure⟩, hgives, hlisting⟩ := hsound.index index hindex
    obtain ⟨hcomplete, hlisted⟩ := InstanceIndex.ofListing_ok hlisting
    obtain rfl : failure = none := hcomplete
    obtain ⟨_, -, hmap, -⟩ := Plan.andThen_ok hplan
    obtain ⟨defaults, hdefaults, rfl⟩ := Plan.map_ok hmap
    have hdeclared : ∀ name ∈ Table.names index, .resourceType name ∈ declared := fun name hname =>
      hdemands _ ((Section.mem_demands_instances hplan).mpr ⟨name, hname, rfl⟩)
    rw [show (finalBoard schedule source scope state).ledger.index = some index from hindex]
      at hfeasible hdeferred
    refine ⟨items, index, declared, .ofIndex index defaults, hgives, hindex, ?_,
      ResourceTables.agree_ofIndex hlisted hdefaults hnodup hfeasible hdeferred hdeclared⟩
    rw [ResourceTables.lines_ofIndex]
    exact hcontribution

end

/-- A workspace with two instances of a type, one of a type that is not there, and a type without
instances. -/
def mailer : MemoryCatalog where
  types := [{ name := "smtp" }, { name := "db" }]
  resources := [⟨"f/b", "smtp"⟩, ⟨"f/x", "gone"⟩, ⟨"f/a", "smtp"⟩]

/-- A run over it, with a default for the type of which there are two. -/
def mailerBoard : Board :=
  finalBoard [] (mailer.source : Source (StateM Unit))
    ⟨TypeCatalog.ofList mailer.types,
      { resources := { defaults := [("smtp", some "$res:f/a")] } }, ""⟩ ()

theorem mailerBoard_resources : mailerBoard.outcome .resources = .generated :=
  Board.outcome_of_contribution (by decide +kernel)

theorem generated_resources_mailer :
    mailerBoard.outcome .resources = .generated ∧ ∃ tables : ResourceTables,
      mailerBoard.contribution .resources = some (Outlet.linesText (tables.lines false)) ∧
      tables.validators = [("f/b", "smtp_type"), ("f/a", "smtp_type")] ∧
      "smtp" ∈ tables.types ∧ "gone" ∉ tables.types ∧ "db" ∉ tables.types := by
  obtain ⟨items, index, declared, tables, ⟨_, hgives⟩, -, hcontribution, hagree⟩ :=
    generated_resources mailerBoard_resources
  obtain rfl : items = mailer.resources := (congrArg Listing.items hgives).symm
  refine ⟨mailerBoard_resources, tables, hcontribution, ?_, ?_, fun h => ?_, fun h => ?_⟩
  · rw [hagree.validators_eq]
    decide +kernel
  · exact (hagree.mem_types "smtp").mpr ⟨by decide, ⟨"f/a", "smtp"⟩, by decide, rfl⟩
  · exact absurd ((hagree.mem_types "gone").mp h).1 (by decide)
  · exact absurd ((hagree.mem_types "db").mp h).2 (by decide)

end SchemaClient
