/-
SchemaClient.Proofs.Generation.Constants — whether the constants of the file have distinct names.

The file declares the wrapper, what its sections declare, and what was put off. With distinct paths
each of these is declared once. So two declarations of one name are declarations of two constants that
clash: of a type that opens with a digit and the one with an underscore in front of it, or of an
artifact and a type. What the name of a hook's export brings along on lines of its own comes on top.

* `Draft.constants` — the constants of a draft.
* `Draft.OfRun.constants_text` — they are what the text of the draft declares.
* `Draft.not_clashes` — names of types between which nothing clashes.
* `generate_constants_nodup_iff` — when the names of a file are distinct.
* `twins_not_nodup` — a file that declares a name twice.
-/
import SchemaClient.Proofs.Emission.Constants
import SchemaClient.Proofs.Generation.Intact

namespace SchemaClient

/-! ## Drafts -/

namespace Draft

variable (draft : Draft)

/-- The constants of a section, if it is written. -/
def sectionConstants (kind : SectionKind) : List Constant :=
  match draft.written kind with
  | none => []
  | some material => Section.constantsOf kind material

/-- The constants of the file. -/
def constants : List Constant :=
  .wrapper :: (SectionKind.order.flatMap draft.sectionConstants ++
    draft.declared.flatMap (draft.scope.constantsOf draft.index))

/-- Two constants of the file clash. -/
def Clashes : Prop := ∃ a ∈ draft.constants, ∃ b ∈ draft.constants, a.Clashes b

variable {draft}

/-- The constant of a type's own validator. -/
theorem own_mem_constants {name : String} (h : .resourceType name ∈ draft.declared) :
    .demanded (.resourceType name) .own ∈ draft.constants := by
  refine List.mem_cons_of_mem _ (List.mem_append_right _ (List.mem_flatMap.mpr ⟨_, h, ?_⟩))
  rw [Scope.constantsOf]
  split <;> exact List.mem_cons_self

/-- The constant by which a declared demand is referred to. -/
theorem ofDemand_mem_constants {d : Demand} (hd : d ∈ draft.declared) :
    Constant.ofDemand (draft.scope.registryAt draft.index) d ∈ draft.constants :=
  List.mem_cons_of_mem _ (List.mem_append_right _
    (List.mem_flatMap.mpr ⟨d, hd, Constant.ofDemand_mem_constantsOf d⟩))

/-- The text of the sections and of what was put off is written line by line. -/
theorem sectionsText_eq (kinds : List SectionKind) (rest : List String) :
    draft.sectionsText kinds ++ Outlet.linesText rest = Outlet.linesText
      (kinds.flatMap (fun kind => (draft.sectionParts kind).flatMap Part.lines) ++ rest) := by
  induction kinds with
  | nil => simp [sectionsText]
  | cons kind kinds ih =>
    rw [sectionsText, String.append_assoc, ih, ← Outlet.linesText_append, List.flatMap_cons,
      List.append_assoc]

variable {σ : Type} {source : Source (StateM σ)} {report : Report}

theorem OfRun.constants_section (h : draft.OfRun source report) (kind : SectionKind) :
    ((draft.sectionParts kind).flatMap Part.lines).flatMap SchemaClient.constants =
      (draft.sectionConstants kind).map Constant.name := by
  cases hwritten : draft.written kind with
  | none => simp [sectionParts, sectionConstants, hwritten]
  | some material =>
    obtain ⟨lines, hlines⟩ := h.composed kind material hwritten
    have hsuits := (h.gathered kind material hwritten).1.suits
    have hconstants := Section.constants_lines hlines hsuits
    rw [Section.lines_eq hlines] at hconstants
    simpa only [sectionParts, sectionConstants, hwritten] using hconstants

/-- What the text of a draft declares at its left margin are the constants of the draft, after what
comes with the hook; only those that were put off have been brought into another order. -/
theorem OfRun.constants_text (h : draft.OfRun source report) :
    (SchemaClient.constants draft.text).Perm
      (Preamble.imported draft.scope.config draft.scope.outputRoot ++
        draft.constants.map Constant.name) := by
  have hsections : (SectionKind.order.flatMap fun kind =>
      (draft.sectionParts kind).flatMap Part.lines).flatMap SchemaClient.constants =
      (SectionKind.order.flatMap draft.sectionConstants).map Constant.name := by
    rw [List.flatMap_assoc, List.map_flatMap]
    exact List.flatMap_congr fun kind _ => h.constants_section kind
  have hdeferred : (draft.deferredParts.flatMap Part.lines).flatMap SchemaClient.constants =
      (draft.declared.flatMap (draft.scope.constantsOf draft.index)).map Constant.name := by
    rw [deferredParts, List.flatMap_assoc, List.flatMap_assoc, List.map_flatMap]
    refine List.flatMap_congr fun d hd => ?_
    rw [← List.flatMap_assoc]
    exact Scope.constants_parts (h.feasible d hd)
  have hsorted : (draft.deferredLines.flatMap SchemaClient.constants).Perm
      ((draft.declared.flatMap (draft.scope.constantsOf draft.index)).map Constant.name) := by
    rw [← hdeferred]
    exact (List.mergeSort_perm _ _).flatMap_right _
  rw [text, constants_append_feed, Preamble.constants_text, sectionsText_eq,
    constants_linesText, List.flatMap_append, hsections, constants, List.map_cons,
    List.map_append, List.append_assoc]
  exact ((hsorted.append_left _).cons _).append_left _

theorem OfRun.fits (h : draft.OfRun source report) : ∀ c ∈ draft.constants, c.Fits := by
  intro c hc
  simp only [constants, List.mem_cons, List.mem_append, List.mem_flatMap] at hc
  rcases hc with rfl | ⟨kind, -, hc⟩ | ⟨d, -, hc⟩
  · trivial
  · unfold sectionConstants at hc
    cases hwritten : draft.written kind with
    | none => rw [hwritten] at hc; cases hc
    | some material =>
      rw [hwritten] at hc
      exact Section.fits_constantsOf (h.gathered kind material hwritten).1.suits hc
  · exact Scope.fits_constantsOf hc

theorem kind_of_mem_sectionConstants {kind : SectionKind} {c : Constant}
    (hc : c ∈ draft.sectionConstants kind) :
    (∃ name, c = .helper kind name) ∨ ∃ path, c = .artifact kind path := by
  unfold sectionConstants at hc
  split at hc
  · cases hc
  · exact Section.kind_of_mem_constantsOf hc

/-- With distinct paths every constant is declared once. -/
theorem OfRun.nodup_constants (h : draft.OfRun source report)
    (hpaths : ∀ kind material, draft.written kind = some material →
      Section.DistinctPaths material) : draft.constants.Nodup := by
  have hsection : ∀ kind, (draft.sectionConstants kind).Nodup := by
    intro kind
    unfold sectionConstants
    cases hwritten : draft.written kind with
    | none => exact List.nodup_nil
    | some material =>
      exact Section.nodup_constantsOf (h.gathered kind material hwritten).1.suits
        (hpaths kind material hwritten)
  have hsections : (SectionKind.order.flatMap draft.sectionConstants).Nodup := by
    rw [List.nodup_flatMap]
    refine ⟨fun kind _ => hsection kind, ?_⟩
    have horder : SectionKind.order.Pairwise (· ≠ ·) := by decide
    refine horder.imp fun hne c ha hb => hne ?_
    rcases kind_of_mem_sectionConstants ha with ⟨_, rfl⟩ | ⟨_, rfl⟩ <;>
      rcases kind_of_mem_sectionConstants hb with ⟨_, heq⟩ | ⟨_, heq⟩ <;> cases heq <;> rfl
  have hdeclared : (draft.declared.flatMap (draft.scope.constantsOf draft.index)).Nodup := by
    rw [List.nodup_flatMap]
    refine ⟨fun d _ => Scope.nodup_constantsOf d, h.nodup.imp fun hne c ha hb => hne ?_⟩
    obtain ⟨_, rfl⟩ := Scope.demand_of_mem_constantsOf ha
    obtain ⟨_, heq⟩ := Scope.demand_of_mem_constantsOf hb
    cases heq
    rfl
  rw [constants, List.nodup_cons, List.nodup_append]
  refine ⟨fun hwrapper => ?_, hsections, hdeclared, ?_⟩
  · rcases List.mem_append.mp hwrapper with hc | hc
    · obtain ⟨kind, -, hc⟩ := List.mem_flatMap.mp hc
      rcases kind_of_mem_sectionConstants hc with ⟨_, heq⟩ | ⟨_, heq⟩ <;> cases heq
    · obtain ⟨d, -, hc⟩ := List.mem_flatMap.mp hc
      obtain ⟨_, heq⟩ := Scope.demand_of_mem_constantsOf hc
      cases heq
  · rintro a ha _ hb rfl
    obtain ⟨kind, -, ha⟩ := List.mem_flatMap.mp ha
    obtain ⟨d, -, hb⟩ := List.mem_flatMap.mp hb
    obtain ⟨_, rfl⟩ := Scope.demand_of_mem_constantsOf hb
    rcases kind_of_mem_sectionConstants ha with ⟨_, heq⟩ | ⟨_, heq⟩ <;> cases heq

/-- The names that the file declares are distinct exactly if no two of its constants clash and what
comes with the hook has none of their names, nor one twice. -/
theorem OfRun.nodup_iff (h : draft.OfRun source report)
    (hpaths : ∀ kind material, draft.written kind = some material →
      Section.DistinctPaths material) :
    (SchemaClient.constants draft.text).Nodup ↔
      (Preamble.imported draft.scope.config draft.scope.outputRoot).Nodup ∧
      (∀ name ∈ Preamble.imported draft.scope.config draft.scope.outputRoot,
        ∀ c ∈ draft.constants, name ≠ c.name) ∧ ¬ draft.Clashes := by
  have hnames : (draft.constants.map Constant.name).Nodup ↔ ¬ draft.Clashes := by
    rw [Constant.nodup_names_iff h.fits (h.nodup_constants hpaths)]
    simp only [Clashes, not_exists, not_and]
  rw [h.constants_text.nodup_iff, List.nodup_append, hnames]
  simp only [List.forall_mem_map]
  exact and_congr_right fun _ => and_comm

/-- Every name that the parts declare is that of a constant of the file. -/
theorem OfRun.mem_names (h : draft.OfRun source report) {name : String} (hname : name ∈ draft.names) :
    ∃ c ∈ draft.constants, c.name = name := by
  obtain ⟨part, hpart, hown⟩ := List.mem_flatMap.mp hname
  rcases List.mem_append.mp hpart with hpart | hpart
  · obtain ⟨kind, hkind, hpart⟩ := List.mem_flatMap.mp hpart
    obtain ⟨material, lines, -, hlines, hmaterial⟩ := h.composed_of_mem_sectionParts hpart
    have hconstants := (Section.intact_parts hlines hmaterial).constants_lines
      (Part.not_isPlain_of_mem_names hown)
    have hmem : name ∈ (draft.sectionConstants kind).map Constant.name := by
      rw [← h.constants_section kind, List.flatMap_assoc]
      exact List.mem_flatMap.mpr ⟨part, hpart, hconstants.symm ▸ hown⟩
    obtain ⟨c, hc, rfl⟩ := List.mem_map.mp hmem
    refine ⟨c, List.mem_cons_of_mem _ (List.mem_append_left _ ?_), rfl⟩
    exact List.mem_flatMap.mpr ⟨kind, hkind, hc⟩
  · obtain ⟨d, hd, hpart⟩ := List.mem_flatMap.mp hpart
    have hmem : name ∈ (draft.scope.constantsOf draft.index d).map Constant.name := by
      rw [← Scope.names_constantsOf (h.feasible d hd)]
      exact List.mem_flatMap.mpr ⟨part, hpart, hown⟩
    obtain ⟨c, hc, rfl⟩ := List.mem_map.mp hmem
    refine ⟨c, List.mem_cons_of_mem _ (List.mem_append_right _ ?_), rfl⟩
    exact List.mem_flatMap.mpr ⟨d, hd, hc⟩

theorem OfRun.valid_of_mem_names (h : draft.OfRun source report) {name : String}
    (hname : name ∈ draft.names) : Identifier.Valid name ∧ name ≠ "z" := by
  obtain ⟨c, hc, rfl⟩ := h.mem_names hname
  exact ⟨Constant.valid_name (h.fits c hc), Constant.name_ne_z (h.fits c hc)⟩

/-- Without clashes a name determines its constant. -/
theorem OfRun.eq_of_name_eq (h : draft.OfRun source report) (hclash : ¬ draft.Clashes)
    {a b : Constant} (ha : a ∈ draft.constants) (hb : b ∈ draft.constants)
    (hname : a.name = b.name) : a = b := by
  rcases (Constant.name_eq_iff (h.fits a ha) (h.fits b hb)).mp hname with heq | hab | hba
  · exact heq
  · exact absurd ⟨a, ha, b, hb, hab⟩ hclash
  · exact absurd ⟨b, hb, a, ha, hba⟩ hclash

theorem OfRun.typeName_inj (h : draft.OfRun source report) (hclash : ¬ draft.Clashes)
    {a b : String} (ha : .resourceType a ∈ draft.declared) (hb : .resourceType b ∈ draft.declared)
    (hname : typeName a = typeName b) : a = b := by
  have heq := h.eq_of_name_eq hclash (own_mem_constants ha) (own_mem_constants hb) hname
  cases heq
  rfl

/-- No two constants clash if no declared type opens with a digit or begins like a table. -/
theorem not_clashes (hdigit : ∀ name, .resourceType name ∈ draft.declared →
      ¬ Identifier.OpensWithDigit name)
    (htable : ∀ name, .resourceType name ∈ draft.declared → ∀ kind : SectionKind,
      ¬ kind.table.toList <+: name.toList) : ¬ draft.Clashes := by
  have hdeclared : ∀ {name member}, .demanded (.resourceType name) member ∈ draft.constants →
      .resourceType name ∈ draft.declared := by
    intro name member hc
    simp only [constants, List.mem_cons, reduceCtorEq, false_or, List.mem_append,
      List.mem_flatMap] at hc
    rcases hc with ⟨kind, -, hc⟩ | ⟨d, hd, hc⟩
    · rcases kind_of_mem_sectionConstants hc with ⟨_, heq⟩ | ⟨_, heq⟩ <;> cases heq
    · obtain ⟨_, heq⟩ := Scope.demand_of_mem_constantsOf hc
      cases heq
      exact hd
  rintro ⟨a, ha, b, hb, hclash⟩
  cases hclash with
  | opening hopens => exact hdigit _ (hdeclared ha) hopens
  | @path kind path name member heq =>
    refine htable name (hdeclared hb) kind ?_
    have hlists := congrArg String.toList heq
    rw [String.toList_append, String.toList_append, String.toList_append, List.append_assoc] at hlists
    rcases List.append_eq_append_iff.mp hlists with ⟨middle, hname, -⟩ | ⟨middle, htext, hsuffix⟩
    · exact ⟨middle, hname.symm⟩
    · cases middle with
      | nil => exact ⟨[], by rw [htext, List.append_nil, List.append_nil]⟩
      | cons c middle =>
        -- the name is a proper beginning of the table, so the suffix is too early
        have hunderscore : c = '_' := by
          cases member <;> · simp [Member.suffix] at hsuffix; exact hsuffix.1.symm
        have hmem : '_' ∈ kind.table.toList := by
          rw [htext, hunderscore]
          exact List.mem_append_right _ List.mem_cons_self
        have htables : '_' ∉ kind.table.toList := by cases kind <;> decide
        exact absurd hmem htables

end Draft

/-! ## Runs -/

section

variable {σ : Type} {schedule : List SectionKind} {source : Source (StateM σ)} {config : Config}
  {outputRoot : String} {outlet : Outlet} {state : σ} {report : Report}

/-- In the listings of the workspace no two scripts and no two flows have the same path. -/
def Source.DistinctPaths (source : Source (StateM σ)) : Prop :=
  ∀ kind listing, Section.Lists source kind listing → (listing.items.map (·.path)).Nodup

theorem Section.Gathered.distinctPaths {kind : SectionKind} {material : Material}
    (h : Section.Gathered source kind material) (hpaths : source.DistinctPaths) :
    Section.DistinctPaths material := by
  cases material with
  | instances listed => trivial
  | artifacts items =>
    obtain ⟨listing, hlists, hcomplete⟩ := h
    have hitems : listing.items = items := by
      unfold Listing.complete at hcomplete
      cases hfailure : listing.failure with
      | some error => rw [hfailure] at hcomplete; cases hcomplete
      | none => rw [hfailure] at hcomplete; exact Except.ok.inj hcomplete
    exact hitems ▸ hpaths kind listing hlists

/-- If scripts and flows have distinct paths, the file of a run that ends with a report declares
distinct names exactly if no two of its constants clash and the import of the hook adds none of their
names, nor one twice. Without a hook, and with one whose export is named by a single line, that is
exactly if no two of its constants clash. -/
theorem generate_constants_nodup_iff
    (h : (generateWith schedule source config outputRoot outlet state).1.result = .ok report)
    (hpaths : source.DistinctPaths) :
    ∃ draft : Draft, draft.OfRun source report ∧ draft.scope.config = config ∧
      draft.scope.outputRoot = outputRoot ∧
      (generateWith schedule source config outputRoot outlet state).1.outlet.bytes =
        outlet.bytes ++ Utf8.encode draft.text ∧
      ((constants draft.text).Nodup ↔ (Preamble.imported config outputRoot).Nodup ∧
        (∀ name ∈ Preamble.imported config outputRoot, ∀ c ∈ draft.constants, name ≠ c.name) ∧
        ¬ draft.Clashes) ∧
      ((∀ hook, config.resources.postProcess = some hook → '\n' ∉ hook.exportName.toList) →
        ((constants draft.text).Nodup ↔ ¬ draft.Clashes)) := by
  obtain ⟨draft, hdraft, rfl, rfl, hbytes⟩ := exists_draft h
  have hnodup := hdraft.nodup_iff fun kind material hwritten =>
    (hdraft.gathered kind material hwritten).1.distinctPaths hpaths
  refine ⟨draft, hdraft, rfl, rfl, hbytes, hnodup, fun hhook => ?_⟩
  simpa [Preamble.imported_eq_nil hhook] using hnodup

end

/-! ## A file that declares a name twice -/

/-- Two resource types of which one opens with a digit and the other has an underscore in front of
it, and a script that takes one of each. -/
def twins : MemoryCatalog :=
  let taking (name type : String) : String × Json :=
    (name, .obj [("type", .str "object"), ("format", .str ("resource-" ++ type))])
  { types := [{ name := "3d" }, { name := "_3d" }]
    scripts := [
      { path := "f/s",
        schema := some (.obj [("type", .str "object"),
          ("properties", .obj [taking "x" "3d", taking "y" "_3d"])]) }] }

/-- The scope of a run on it. -/
def twinsScope : Scope := ⟨TypeCatalog.ofList twins.types, {}, ""⟩

/-- The board at the end of a run on it, one section after the other. -/
def twinsBoard : Board := finalBoard [] (twins.source : Source (StateM Unit)) twinsScope ()

theorem types_twins : (twins.source : Source (StateM Unit)).resourceTypes () =
    (.ok (TypeCatalog.ofList twins.types), ()) := rfl

theorem claimed_twinsBoard :
    "resource-type:3d" ∈ twinsBoard.ledger.claimed ∧
      "resource-type:_3d" ∈ twinsBoard.ledger.claimed := by
  decide +kernel

theorem distinctPaths_twins : (twins.source : Source (StateM Unit)).DistinctPaths := by
  intro kind listing hlists
  cases kind with
  | resources => cases hlists
  | scripts =>
    obtain ⟨state, rfl⟩ := hlists
    exact List.nodup_singleton _
  | flows =>
    obtain ⟨state, rfl⟩ := hlists
    exact List.nodup_nil

/-- The run on it ends with a report and leaves the text of a draft. -/
theorem exists_draft_twins :
    (generateWith [] (twins.source : Source (StateM Unit)) {} "" (.buffer "") ()).1.result =
      .ok twinsBoard.report ∧
    ∃ draft : Draft, draft.OfRun (twins.source : Source (StateM Unit)) twinsBoard.report ∧
      draft.scope = twinsScope ∧ draft.index = twinsBoard.ledger.index ∧
      (draft.declared.map Demand.identity).Perm twinsBoard.ledger.claimed ∧
      (generateWith [] (twins.source : Source (StateM Unit)) {} "" (.buffer "") ()).1.outlet =
        .buffer draft.text :=
  generateWith_draft [] (twins.source : Source (StateM Unit)) {} "" types_twins rfl rfl

/-- The run on it ends with a report, and its paths are distinct. -/
theorem generate_constants_nodup_iff_twins :
    (generateWith [] (twins.source : Source (StateM Unit)) {} "" (.buffer "") ()).1.result =
      .ok twinsBoard.report ∧
    (twins.source : Source (StateM Unit)).DistinctPaths ∧
    ∃ draft : Draft, draft.OfRun (twins.source : Source (StateM Unit)) twinsBoard.report ∧
      draft.scope.config = {} ∧ draft.scope.outputRoot = "" ∧
      (generateWith [] (twins.source : Source (StateM Unit)) {} "" (.buffer "")
        ()).1.outlet.bytes = (Outlet.buffer "").bytes ++ Utf8.encode draft.text ∧
      ((constants draft.text).Nodup ↔ (Preamble.imported {} "").Nodup ∧
        (∀ name ∈ Preamble.imported {} "", ∀ c ∈ draft.constants, name ≠ c.name) ∧
        ¬ draft.Clashes) ∧
      ((∀ hook, ({} : Config).resources.postProcess = some hook → '\n' ∉ hook.exportName.toList) →
        ((constants draft.text).Nodup ↔ ¬ draft.Clashes)) :=
  ⟨exists_draft_twins.1, distinctPaths_twins,
    generate_constants_nodup_iff exists_draft_twins.1 distinctPaths_twins⟩

/-- Both types are declared, under one name. -/
theorem twins_not_nodup : ∃ text,
    (generateWith [] (twins.source : Source (StateM Unit)) {} "" (.buffer "") ()).1.result =
      .ok twinsBoard.report ∧
    (generateWith [] (twins.source : Source (StateM Unit)) {} "" (.buffer "") ()).1.outlet =
      .buffer text ∧
    (twins.source : Source (StateM Unit)).DistinctPaths ∧ ¬ (constants text).Nodup := by
  obtain ⟨hresult, draft, hdraft, -, -, hclaimed, houtlet⟩ := exists_draft_twins
  have hdeclared : ∀ name, "resource-type:" ++ name ∈ twinsBoard.ledger.claimed →
      .resourceType name ∈ draft.declared := by
    intro name hmem
    obtain ⟨d, hd, hidentity⟩ := List.mem_map.mp (hclaimed.mem_iff.mpr hmem)
    have hname : d = .resourceType name := Demand.identity_injective hidentity
    rwa [← hname]
  have hclash : draft.Clashes :=
    ⟨_, Draft.own_mem_constants (hdeclared "3d" claimed_twinsBoard.1),
      _, Draft.own_mem_constants (hdeclared "_3d" claimed_twinsBoard.2), .opening (by decide)⟩
  have hnodup := hdraft.nodup_iff fun kind material hwritten =>
    (hdraft.gathered kind material hwritten).1.distinctPaths distinctPaths_twins
  refine ⟨draft.text, hresult, houtlet, distinctPaths_twins, fun h => ?_⟩
  exact (hnodup.mp h).2.2 hclash

end SchemaClient
