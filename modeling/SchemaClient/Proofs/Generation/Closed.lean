/-
SchemaClient.Proofs.Generation.Closed — whether the file declares everything that it refers to.

A type that is being declared is referred to by name before its own declarations are made. If they
turn out not to be possible the type is given back, but what was declared meanwhile on the strength
of it stays, and so does the reference. So a file is closed exactly when nothing was declared that
wants, directly or not, what cannot be declared.

* `Draft.Closed`, `Draft.Met` — the file refers to nothing else; everything declared can be met.
* `generate_closed_iff` — in every run that ends with a report the two are the same.
* `generate_closed_of_isSuccess` — in a run without failed sections they hold.
-/
import SchemaClient.Proofs.Generation.Draft

namespace SchemaClient

namespace Draft

variable (draft : Draft)

/-- Every constant that the file refers to is declared in it. -/
def Closed : Prop := draft.references ⊆ draft.names

/-- Nothing that was declared wants, directly or not, what cannot be declared. -/
def Met : Prop := ∀ d ∈ draft.declared, ¬ draft.scope.Doomed draft.index d

/-- The names of demands that were not declared are not given to anything else. -/
def Unambiguous : Prop :=
  ∀ c, c ∉ draft.declared → c.reference (draft.scope.registryAt draft.index) ∉ draft.names

variable {draft}

theorem mem_names_of_declared {d : Demand} (hd : d ∈ draft.declared) {name : String}
    (hname : name ∈ (draft.scope.parts draft.index d).flatMap Part.names) : name ∈ draft.names := by
  obtain ⟨part, hpart, hname⟩ := List.mem_flatMap.mp hname
  refine List.mem_flatMap.mpr ⟨part, List.mem_append_right _ ?_, hname⟩
  exact List.mem_flatMap.mpr ⟨d, hd, hpart⟩

variable {σ : Type} {source : Source (StateM σ)} {report : Report}

/-- A section that was not generated is not in the file. -/
theorem OfRun.sectionParts_eq_nil (h : draft.OfRun source report) {kind : SectionKind}
    (hnot : (kind, Outcome.generated) ∉ report) : draft.sectionParts kind = [] := by
  have hwritten : draft.written kind = none := by
    rw [← Option.not_isSome_iff_eq_none, h.written_iff]
    exact hnot
  rw [sectionParts, hwritten]

/-- What the sections refer to is declared, whatever failed. -/
theorem OfRun.references_section (h : draft.OfRun source report) {kind : SectionKind}
    {name : String} (hname : name ∈ (draft.sectionParts kind).flatMap Part.references) :
    name ∈ draft.names := by
  unfold sectionParts at hname
  cases hwritten : draft.written kind with
  | none => rw [hwritten] at hname; cases hname
  | some material =>
    rw [hwritten] at hname
    obtain ⟨lines, hlines⟩ := h.composed kind material hwritten
    rcases Section.references_parts hlines hname with hname | ⟨d, hd, hname⟩
    · obtain ⟨part, hpart, hname⟩ := List.mem_flatMap.mp hname
      refine List.mem_flatMap.mpr ⟨part, List.mem_append_left _ ?_, hname⟩
      refine List.mem_flatMap.mpr ⟨kind, by cases kind <;> decide, ?_⟩
      simpa only [sectionParts, hwritten] using hpart
    · have hdeclared := h.demanded kind material hwritten d hd
      exact mem_names_of_declared hdeclared (hname (h.feasible d hdeclared))

/-- A file in which everything declared can be met is closed. -/
theorem OfRun.closed_of_met (h : draft.OfRun source report) (hmet : draft.Met) : draft.Closed := by
  intro name hname
  obtain ⟨part, hpart, hname⟩ := List.mem_flatMap.mp hname
  rcases List.mem_append.mp hpart with hpart | hpart
  · obtain ⟨kind, -, hpart⟩ := List.mem_flatMap.mp hpart
    exact h.references_section (List.mem_flatMap.mpr ⟨part, hpart, hname⟩)
  · obtain ⟨d, hd, hpart⟩ := List.mem_flatMap.mp hpart
    rcases Scope.references_parts (h.feasible d hd) (List.mem_flatMap.mpr ⟨part, hpart, hname⟩) with
      hown | ⟨c, hc, rfl⟩
    · exact mem_names_of_declared hd hown
    · rcases h.supported d hd c hc with hdeclared | hdoomed
      · have hnames := Scope.reference_mem_names (h.feasible c hdeclared)
        exact mem_names_of_declared hdeclared hnames
      · exact absurd (.wanting hc hdoomed) (hmet d hd)

/-- In a closed file everything declared can be met: the reference to what cannot would have to be
declared. -/
theorem OfRun.met_of_closed (h : draft.OfRun source report) (hunambiguous : draft.Unambiguous)
    (hclosed : draft.Closed) : draft.Met := by
  intro d hd hdoomed
  induction hdoomed with
  | infeasible hresult => exact (h.feasible _ hd).result_eq hresult
  | @wanting d c hc _ ih =>
    refine ih ?_
    by_contra hdeclared
    refine hunambiguous c hdeclared (hclosed ?_)
    obtain ⟨part, hpart, hname⟩ :=
      List.mem_flatMap.mp (Scope.reference_mem_references (h.feasible d hd) hc)
    refine List.mem_flatMap.mpr ⟨part, List.mem_append_right _ ?_, hname⟩
    exact List.mem_flatMap.mpr ⟨d, hd, hpart⟩

/-- Without failed sections everything declared can be met. -/
theorem OfRun.met_of_isSuccess (h : draft.OfRun source report)
    (hsuccess : report.isSuccess = true) : draft.Met := by
  intro d hd hdoomed
  induction hdoomed with
  | infeasible hresult => exact (h.feasible _ hd).result_eq hresult
  | wanting hc _ ih => exact ih (h.complete hsuccess _ hd _ hc)

end Draft

section

variable {σ : Type} {schedule : List SectionKind} {source : Source (StateM σ)} {config : Config}
  {outputRoot : String} {outlet : Outlet} {state : σ} {report : Report}

/-- Whatever sections failed, the file of a run that ends with a report is closed exactly when
nothing was declared that wants, directly or not, what cannot be declared. -/
theorem generate_closed_iff
    (h : (generateWith schedule source config outputRoot outlet state).1.result = .ok report) :
    ∃ draft : Draft, draft.OfRun source report ∧ draft.scope.config = config ∧
      draft.scope.outputRoot = outputRoot ∧
      (generateWith schedule source config outputRoot outlet state).1.outlet.bytes =
        outlet.bytes ++ Utf8.encode draft.text ∧
      (draft.Met → draft.Closed) ∧ (draft.Unambiguous → (draft.Closed ↔ draft.Met)) := by
  obtain ⟨draft, hdraft, hconfig, hroot, hbytes⟩ := exists_draft h
  exact ⟨draft, hdraft, hconfig, hroot, hbytes, hdraft.closed_of_met,
    fun hunambiguous => ⟨hdraft.met_of_closed hunambiguous, hdraft.closed_of_met⟩⟩

/-- The file of a run without failed sections is closed. -/
theorem generate_closed_of_isSuccess
    (h : (generateWith schedule source config outputRoot outlet state).1.result = .ok report)
    (hsuccess : report.isSuccess = true) :
    ∃ draft : Draft, draft.OfRun source report ∧
      (generateWith schedule source config outputRoot outlet state).1.outlet.bytes =
        outlet.bytes ++ Utf8.encode draft.text ∧ draft.Closed := by
  obtain ⟨draft, hdraft, -, -, hbytes⟩ := exists_draft h
  exact ⟨draft, hdraft, hbytes, hdraft.closed_of_met (hdraft.met_of_isSuccess hsuccess)⟩

end

/-! ## A file that is not closed -/

/-- A resource type `a` that refers to `b` and is malformed, a type `b` that refers to `a`, a script
that takes a `b` and a flow that takes an `a`. -/
def entangled : MemoryCatalog :=
  let taking (name type : String) : String × Json :=
    (name, .obj [("type", .str "object"), ("format", .str ("resource-" ++ type))])
  let object (properties : Entries) : Json :=
    .obj [("type", .str "object"), ("properties", .obj properties)]
  { types := [
      { name := "a",
        schema := some (object [taking "b" "b", ("n", .obj [("type", .num (.int 3))])]) },
      { name := "b", schema := some (object [taking "a" "a"]) }]
    scripts := [{ path := "f/s", schema := some (object [taking "arg" "b"]) }]
    flows := [{ path := "f/f", schema := some (object [taking "arg" "a"]) }] }

/-- The scope of a run on it. -/
def entangledScope : Scope := ⟨TypeCatalog.ofList entangled.types, {}, ""⟩

/-- The board at the end of a run on it, one section after the other. -/
def entangledBoard : Board :=
  finalBoard [] (entangled.source : Source (StateM Unit)) entangledScope ()

theorem types_entangled : (entangled.source : Source (StateM Unit)).resourceTypes () =
    (.ok (TypeCatalog.ofList entangled.types), ()) := rfl

theorem generate_entangled :
    (generateWith [] (entangled.source : Source (StateM Unit)) {} "" (.buffer "") ()).1.result =
      .ok entangledBoard.report ∧
    (generateWith [] (entangled.source : Source (StateM Unit)) {} "" (.buffer "") ()).1.outlet =
      .buffer ("" ++ entangledBoard.fileText {} "") :=
  generateWith_eq [] (entangled.source : Source (StateM Unit)) {} "" (.buffer "") types_entangled

/-- Both sections of artifacts fail, and `b` stays behind. -/
theorem entangledBoard_left :
    entangledBoard.ledger.claimed = ["resource-type:b"] ∧
      entangledBoard.ledger.index = some [] ∧
      (entangledBoard.outcome .scripts matches .failed _) ∧
      (entangledBoard.outcome .flows matches .failed _) := by
  decide +kernel

/-- The run on it ends with a report, although two of its sections fail. -/
theorem generate_closed_iff_entangled :
    (generateWith [] (entangled.source : Source (StateM Unit)) {} "" (.buffer "") ()).1.result =
      .ok entangledBoard.report ∧
    ∃ draft : Draft, draft.OfRun (entangled.source : Source (StateM Unit)) entangledBoard.report ∧
      draft.scope.config = {} ∧ draft.scope.outputRoot = "" ∧
      (generateWith [] (entangled.source : Source (StateM Unit)) {} "" (.buffer "")
        ()).1.outlet.bytes = (Outlet.buffer "").bytes ++ Utf8.encode draft.text ∧
      (draft.Met → draft.Closed) ∧ (draft.Unambiguous → (draft.Closed ↔ draft.Met)) :=
  ⟨generate_entangled.1, generate_closed_iff generate_entangled.1⟩

/-- The declaration of `b` refers to `a`, which is not declared: the section that asked for `a`
failed after it had declared `b`. -/
theorem entangled_not_closed : ∃ draft : Draft,
    (generateWith [] (entangled.source : Source (StateM Unit)) {} "" (.buffer "") ()).1.result =
      .ok entangledBoard.report ∧
    draft.OfRun (entangled.source : Source (StateM Unit)) entangledBoard.report ∧
    (generateWith [] (entangled.source : Source (StateM Unit)) {} "" (.buffer "") ()).1.outlet =
      .buffer draft.text ∧
    "a_type" ∈ draft.references ∧ "a_type" ∉ draft.names := by
  obtain ⟨compositions, hsound, hfinished, -⟩ :=
    finalBoard_sound [] (entangled.source : Source (StateM Unit)) entangledScope ()
  obtain ⟨draft, hdraft, hscope, hindex, hclaimed, htext⟩ :=
    hsound.exists_draft hfinished ⟨(), rfl⟩ (kinds_finalBoard [] _ _ ())
  rw [← entangledBoard] at *
  obtain ⟨hleft, hnone, hscripts, hflows⟩ := entangledBoard_left
  rw [hnone] at hindex
  rw [hleft] at hclaimed
  have hdeclared : draft.declared = [.resourceType "b"] := by
    obtain ⟨d, hd, hidentity⟩ := List.map_eq_singleton_iff.mp (List.perm_singleton.mp hclaimed)
    rw [hd, Demand.identity_injective (d := d) (e := .resourceType "b") hidentity]
  have hdeferred : draft.deferredParts =
      [.const "b_type" (.object [⟨"a", .ref "a_type", false⟩] .strip)] := by
    rw [Draft.deferredParts, hdeclared, hscope, hindex]
    rfl
  have hfailed : ∀ kind, (entangledBoard.outcome kind matches .failed _) →
      draft.sectionParts kind = [] := by
    intro kind hkind
    refine hdraft.sectionParts_eq_nil fun hmem => ?_
    rw [mem_report.mp hmem] at hkind
    cases hkind
  -- there are no resources, so their section declares nothing but its two tables
  have hresources : "a_type" ∉ (draft.sectionParts .resources).flatMap Part.names := by
    unfold Draft.sectionParts
    cases hwritten : draft.written .resources with
    | none => simp
    | some material =>
      obtain ⟨hgathered, hready⟩ := hdraft.gathered _ _ hwritten
      cases material with
      | artifacts items =>
        obtain ⟨listing, hlists, -⟩ := hgathered
        cases hlists
      | instances listed =>
        rw [hindex] at hready
        cases hready
        rw [hscope, hindex]
        decide
  refine ⟨draft, generate_entangled.1, hdraft, ?_, ?_, ?_⟩
  · have hconfig : entangledScope.config = {} := rfl
    have hroot : entangledScope.outputRoot = "" := rfl
    rw [hconfig, hroot] at htext
    rw [generate_entangled.2, String.empty_append, htext]
  · have hreference : "a_type" ∈ draft.deferredParts.flatMap Part.references := by
      rw [hdeferred]
      decide
    rw [Draft.references, Draft.parts, List.flatMap_append]
    exact List.mem_append_right _ hreference
  · have hname : "a_type" ∉ draft.deferredParts.flatMap Part.names := by
      rw [hdeferred]
      decide
    simp only [Draft.names, Draft.parts, SectionKind.order, List.flatMap_cons, List.flatMap_nil,
      List.flatMap_append, hfailed .scripts hscripts, hfailed .flows hflows, List.append_nil,
      List.mem_append]
    rintro (h | h)
    · exact hresources h
    · exact hname h

end SchemaClient
