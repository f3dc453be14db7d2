/-
SchemaClient.Proofs.Generation.Forcing — whether the declarations of a file can be forced.

The thunk of a declaration runs when a member of it is asked for. To call a method on another
declaration is to ask for a member of that one, so its thunk runs as well; to hand it on as an
argument is not. A declaration whose expression is a name, or calls a method on a name, cannot be
forced if that leads back to it.

That happens to resource types without instances that are nothing but references to each other: the
expression of each is the name of the next. It happens in no other way.

* `Draft.Forces` — to force one declaration is to force another.
* `Draft.PassesOn` — the validator of one type is, but for method calls, the name of another.
* `Draft.OfRun.forces_cases` — what forces what, in a run without failed sections.
* `generate_forces_iff` — no declaration forces itself exactly if no type passes on to itself.
* `circular_forces_itself` — a file with a declaration that forces itself.
-/
import Mathlib.Logic.Relation
import SchemaClient.Proofs.Emission.Forcing
import SchemaClient.Proofs.Generation.Closed
import SchemaClient.Proofs.Generation.Constants
import SchemaClient.Proofs.Generation.Deferred

namespace SchemaClient

open Relation

/-! ## What forces what -/

namespace Draft

variable (draft : Draft)

/-- The declarations of the file. -/
def declarations : List Declaration := draft.parts.flatMap Part.declarations

/-- The declaration of one name forces that of another. -/
def Forces (a b : String) : Prop :=
  b ∈ draft.names ∧ ∃ declaration ∈ draft.declarations,
    declaration.name = a ∧ declaration.Forces b

/-- The validator of one resource type is, but for method calls, the name of that of another, which
has no instances. -/
structure PassesOn (a b : String) : Prop where
  declared : .resourceType a ∈ draft.declared
  wanted : .resourceType b ∈ draft.scope.wanted draft.index (.resourceType a)
  bare : (draft.scope.registryAt draft.index).hasInstances b = false
  core : ∃ v, draft.scope.ownValidator draft.index a = .ok v ∧ v.core? = some (typeName b)

variable {draft} {σ : Type} {source : Source (StateM σ)} {report : Report}

/-- In a run without failed sections a declaration that forces another is that of a type or of an
artifact, and the other is what a declared demand is referred to by. -/
theorem OfRun.forces_cases (h : draft.OfRun source report) (hsuccess : report.isSuccess = true)
    {a b : String} (hforces : draft.Forces a b) :
    ∃ d ∈ draft.declared, d.reference (draft.scope.registryAt draft.index) = b ∧
      ((∃ name v, .resourceType name ∈ draft.declared ∧ a = typeName name ∧
        draft.scope.ownValidator draft.index name = .ok v ∧ v.core? = some b ∧
        d ∈ draft.scope.wanted draft.index (.resourceType name)) ∨
      ∃ kind path, .artifact kind path ∈ draft.constants ∧
        a = (Constant.artifact kind path).name) := by
  obtain ⟨hb, declaration, hdeclaration, rfl, hforces⟩ := hforces
  obtain ⟨hvalid, hz⟩ := h.valid_of_mem_names hb
  obtain ⟨part, hpart, hdeclaration⟩ := List.mem_flatMap.mp hdeclaration
  rcases List.mem_append.mp hpart with hpart | hpart
  · obtain ⟨kind, hkind, hpart⟩ := List.mem_flatMap.mp hpart
    obtain ⟨material, lines, hwritten, hlines, hpart⟩ := h.composed_of_mem_sectionParts hpart
    obtain ⟨path, hpath, hname, d, hd, hreference⟩ := Section.forces_of_parts hlines
      (h.gathered kind material hwritten).1.suits hpart hdeclaration hvalid hz hforces
    refine ⟨d, h.demanded kind material hwritten d hd, hreference,
      Or.inr ⟨kind, path, ?_, hname⟩⟩
    refine List.mem_cons_of_mem _ (List.mem_append_left _ (List.mem_flatMap.mpr ⟨kind, hkind, ?_⟩))
    simpa only [sectionConstants, hwritten] using hpath
  · obtain ⟨d, hd, hpart⟩ := List.mem_flatMap.mp hpart
    obtain ⟨name, v, c, rfl, hname, hown, hcore, hc, hreference⟩ :=
      Scope.forces_of_parts (h.feasible d hd) hpart hdeclaration hvalid hz hforces
    exact ⟨c, h.complete hsuccess _ hd c hc, hreference,
      Or.inl ⟨name, v, hd, hname, hown, hcore, hc⟩⟩

/-- What is forced and forces something itself is the validator of a type without instances. -/
theorem OfRun.type_of_forces (h : draft.OfRun source report) (hsuccess : report.isSuccess = true)
    (hclash : ¬ draft.Clashes) {d : Demand} (hd : d ∈ draft.declared) {b c : String}
    (hreference : d.reference (draft.scope.registryAt draft.index) = b) (hbc : draft.Forces b c) :
    ∃ name, d = .resourceType name ∧ b = typeName name ∧
      (draft.scope.registryAt draft.index).hasInstances name = false := by
  have hown := ofDemand_mem_constants hd
  rw [← Constant.name_ofDemand] at hreference
  obtain ⟨-, -, -, ⟨name, -, hname, rfl, -⟩ | ⟨kind, path, hpath, rfl⟩⟩ :=
    h.forces_cases hsuccess hbc
  · have heq := h.eq_of_name_eq hclash hown (own_mem_constants hname) hreference
    cases d with
    | base64Content => cases heq
    | storageObject => cases heq
    | resourceType other =>
      rw [Constant.ofDemand] at heq
      split at heq
      · cases heq
      · rename_i hinstances
        cases heq
        exact ⟨name, rfl, rfl, by simpa using hinstances⟩
  · have heq := h.eq_of_name_eq hclash hown hpath hreference
    cases d <;> cases heq

/-- Of three declarations that force each other one after the other, where the first is that of a
type, the second is that of a type to which the first one passes on. -/
theorem OfRun.passesOn_of_forces (h : draft.OfRun source report)
    (hsuccess : report.isSuccess = true) (hclash : ¬ draft.Clashes) {name b c : String}
    (hname : .resourceType name ∈ draft.declared) (hab : draft.Forces (typeName name) b)
    (hbc : draft.Forces b c) :
    ∃ next, .resourceType next ∈ draft.declared ∧ b = typeName next ∧ draft.PassesOn name next := by
  obtain ⟨d, hd, hreference, ⟨other, v, hother, heq, hown, hcore, hwanted⟩ | ⟨kind, path, hpath, heq⟩⟩ :=
    h.forces_cases hsuccess hab
  · cases h.typeName_inj hclash hname hother heq
    obtain ⟨next, rfl, rfl, hbare⟩ := h.type_of_forces hsuccess hclash hd hreference hbc
    exact ⟨next, hd, rfl, ⟨hname, hwanted, hbare, v, hown, hcore⟩⟩
  · cases h.eq_of_name_eq hclash (own_mem_constants hname) hpath heq

/-- To pass on to a type is to force its declaration. -/
theorem OfRun.forces_of_passesOn (h : draft.OfRun source report)
    (hsuccess : report.isSuccess = true) {a b : String} (hab : draft.PassesOn a b) :
    draft.Forces (typeName a) (typeName b) := by
  obtain ⟨v, hown, hcore⟩ := hab.core
  obtain ⟨known, _, hindex, _, -, -⟩ :=
    Scope.feasible_resourceType (h.feasible _ hab.declared)
  have hb : .resourceType b ∈ draft.declared := h.complete hsuccess _ hab.declared _ hab.wanted
  have hreference : (Demand.resourceType b).reference (draft.scope.registryAt draft.index) =
      typeName b := by
    rw [Demand.reference, hab.bare]
    rfl
  have hname : typeName b ∈ draft.names :=
    mem_names_of_declared hb (hreference ▸ Scope.reference_mem_names (h.feasible _ hb))
  have hopens := v.opens_source
  rw [hcore] at hopens
  have hpart : .const (typeName a) v ∈ draft.scope.parts draft.index (.resourceType a) := by
    rw [hindex] at hown ⊢
    simp only [Scope.parts, hown]
    exact List.mem_cons_self
  refine ⟨hname, ⟨typeName a, v.source⟩, ?_, rfl, hopens⟩
  refine List.mem_flatMap.mpr ⟨.const (typeName a) v, ?_, List.mem_singleton.mpr rfl⟩
  exact List.mem_append_right _ (List.mem_flatMap.mpr ⟨_, hab.declared, hpart⟩)

/-- A chain of forced declarations from a type to one that forces something leads through types that
pass on to each other. -/
theorem OfRun.transGen_passesOn (h : draft.OfRun source report)
    (hsuccess : report.isSuccess = true) (hclash : ¬ draft.Clashes) {name b c : String}
    (hname : .resourceType name ∈ draft.declared) (hab : TransGen draft.Forces (typeName name) b)
    (hbc : draft.Forces b c) :
    ∃ last, .resourceType last ∈ draft.declared ∧ b = typeName last ∧
      TransGen draft.PassesOn name last := by
  induction hab generalizing c with
  | single hab =>
    obtain ⟨next, hnext, rfl, hpasses⟩ := h.passesOn_of_forces hsuccess hclash hname hab hbc
    exact ⟨next, hnext, rfl, .single hpasses⟩
  | tail _ hstep ih =>
    obtain ⟨middle, hmiddle, rfl, hchain⟩ := ih hstep
    obtain ⟨next, hnext, rfl, hpasses⟩ := h.passesOn_of_forces hsuccess hclash hmiddle hstep hbc
    exact ⟨next, hnext, rfl, hchain.tail hpasses⟩

/-- A declaration that forces itself, directly or not, is that of a type that passes on to itself. -/
theorem OfRun.passesOn_of_cycle (h : draft.OfRun source report)
    (hsuccess : report.isSuccess = true) (hclash : ¬ draft.Clashes) {a : String}
    (hcycle : TransGen draft.Forces a a) :
    ∃ name, a = typeName name ∧ TransGen draft.PassesOn name name := by
  obtain ⟨next, hfirst, -⟩ := TransGen.head'_iff.mp hcycle
  obtain ⟨previous, -, hlast⟩ := TransGen.tail'_iff.mp hcycle
  obtain ⟨d, hd, hreference, -⟩ := h.forces_cases hsuccess hlast
  obtain ⟨name, rfl, rfl, -⟩ := h.type_of_forces hsuccess hclash hd hreference hfirst
  obtain ⟨last, hlast, heq, hchain⟩ := h.transGen_passesOn hsuccess hclash hd hcycle hfirst
  cases h.typeName_inj hclash hd hlast heq
  exact ⟨name, rfl, hchain⟩

theorem OfRun.cycle_of_passesOn (h : draft.OfRun source report)
    (hsuccess : report.isSuccess = true) {name : String}
    (hcycle : TransGen draft.PassesOn name name) :
    TransGen draft.Forces (typeName name) (typeName name) :=
  hcycle.lift typeName fun _ _ => h.forces_of_passesOn hsuccess

end Draft

/-! ## Runs -/

section

variable {σ : Type} {schedule : List SectionKind} {source : Source (StateM σ)} {config : Config}
  {outputRoot : String} {outlet : Outlet} {state : σ} {report : Report}

/-- In a run without failed sections a type that passes on to itself, directly or not, makes a
declaration that forces itself; and if no two constants clash there is no other way to come by
one. -/
theorem generate_forces_iff
    (h : (generateWith schedule source config outputRoot outlet state).1.result = .ok report)
    (hsuccess : report.isSuccess = true) :
    ∃ draft : Draft, draft.OfRun source report ∧ draft.scope.config = config ∧
      draft.scope.outputRoot = outputRoot ∧
      (generateWith schedule source config outputRoot outlet state).1.outlet.bytes =
        outlet.bytes ++ Utf8.encode draft.text ∧
      (∀ name, TransGen draft.PassesOn name name →
        TransGen draft.Forces (typeName name) (typeName name)) ∧
      (¬ draft.Clashes → ((∀ name, ¬ TransGen draft.Forces name name) ↔
        ∀ name, ¬ TransGen draft.PassesOn name name)) := by
  obtain ⟨draft, hdraft, hconfig, hroot, hbytes⟩ := exists_draft h
  refine ⟨draft, hdraft, hconfig, hroot, hbytes,
    fun name hcycle => hdraft.cycle_of_passesOn hsuccess hcycle, fun hclash => ⟨?_, ?_⟩⟩
  · intro hforces name hcycle
    exact hforces _ (hdraft.cycle_of_passesOn hsuccess hcycle)
  · intro hpasses a hcycle
    obtain ⟨name, -, hname⟩ := hdraft.passesOn_of_cycle hsuccess hclash hcycle
    exact hpasses name hname

end

/-! ## A declaration that forces itself -/

/-- A resource type whose schema is nothing but a reference to itself, and a script that takes
one. -/
def circular : MemoryCatalog :=
  let node : Json := .obj [("type", .str "object"), ("format", .str "resource-node")]
  { types := [{ name := "node", schema := some node }]
    scripts := [
      { path := "f/s",
        schema := some (.obj [("type", .str "object"), ("properties", .obj [("arg", node)])]) }] }

/-- The scope of a run on it. -/
def circularScope : Scope := ⟨TypeCatalog.ofList circular.types, {}, ""⟩

/-- The board at the end of a run on it, one section after the other. -/
def circularBoard : Board :=
  finalBoard [] (circular.source : Source (StateM Unit)) circularScope ()

theorem types_circular : (circular.source : Source (StateM Unit)).resourceTypes () =
    (.ok (TypeCatalog.ofList circular.types), ()) := rfl

/-- The run on it ends with a report and leaves the text of a draft. -/
theorem exists_draft_circular :
    (generateWith [] (circular.source : Source (StateM Unit)) {} "" (.buffer "") ()).1.result =
      .ok circularBoard.report ∧
    ∃ draft : Draft, draft.OfRun (circular.source : Source (StateM Unit)) circularBoard.report ∧
      draft.scope = circularScope ∧ draft.index = circularBoard.ledger.index ∧
      (draft.declared.map Demand.identity).Perm circularBoard.ledger.claimed ∧
      (generateWith [] (circular.source : Source (StateM Unit)) {} "" (.buffer "") ()).1.outlet =
        .buffer draft.text :=
  generateWith_draft [] (circular.source : Source (StateM Unit)) {} "" types_circular rfl rfl

/-- No section fails, and `node` is declared. -/
theorem circularBoard_left :
    circularBoard.report.isSuccess = true ∧ circularBoard.ledger.index = some [] ∧
      circularBoard.ledger.claimed = ["resource-type:node"] := by
  decide +kernel

theorem generate_forces_iff_circular :
    (generateWith [] (circular.source : Source (StateM Unit)) {} "" (.buffer "") ()).1.result =
      .ok circularBoard.report ∧ circularBoard.report.isSuccess = true ∧
    ∃ draft : Draft, draft.OfRun (circular.source : Source (StateM Unit)) circularBoard.report ∧
      draft.scope.config = {} ∧ draft.scope.outputRoot = "" ∧
      (generateWith [] (circular.source : Source (StateM Unit)) {} "" (.buffer "")
        ()).1.outlet.bytes = (Outlet.buffer "").bytes ++ Utf8.encode draft.text ∧
      (∀ name, TransGen draft.PassesOn name name →
        TransGen draft.Forces (typeName name) (typeName name)) ∧
      (¬ draft.Clashes → ((∀ name, ¬ TransGen draft.Forces name name) ↔
        ∀ name, ¬ TransGen draft.PassesOn name name)) :=
  ⟨exists_draft_circular.1, circularBoard_left.1,
    generate_forces_iff exists_draft_circular.1 circularBoard_left.1⟩

/-- The declaration of `node` is its own name, so to force it is to force it. -/
theorem circular_forces_itself : ∃ draft : Draft,
    (generateWith [] (circular.source : Source (StateM Unit)) {} "" (.buffer "") ()).1.result =
      .ok circularBoard.report ∧ circularBoard.report.isSuccess = true ∧
    draft.OfRun (circular.source : Source (StateM Unit)) circularBoard.report ∧
    (generateWith [] (circular.source : Source (StateM Unit)) {} "" (.buffer "") ()).1.outlet =
      .buffer draft.text ∧
    ⟨"node_type", "node_type"⟩ ∈ draft.declarations ∧
    draft.Forces "node_type" "node_type" := by
  obtain ⟨hresult, draft, hdraft, hscope, hindex, hclaimed, houtlet⟩ := exists_draft_circular
  obtain ⟨hsuccess, hnone, hleft⟩ := circularBoard_left
  rw [hnone] at hindex
  rw [hleft] at hclaimed
  have hdeclared : draft.declared = [.resourceType "node"] := by
    obtain ⟨d, hd, hidentity⟩ := List.map_eq_singleton_iff.mp (List.perm_singleton.mp hclaimed)
    rw [hd, Demand.identity_injective (d := d) (e := .resourceType "node") hidentity]
  have hdeferred : draft.deferredParts = [.const "node_type" (.ref "node_type")] := by
    rw [Draft.deferredParts, hdeclared, hscope, hindex]
    rfl
  have hpart : .const "node_type" (.ref "node_type") ∈ draft.parts := by
    refine List.mem_append_right _ ?_
    rw [hdeferred]
    exact List.mem_cons_self
  have hdeclaration : ⟨"node_type", "node_type"⟩ ∈ draft.declarations :=
    List.mem_flatMap.mpr ⟨_, hpart, List.mem_cons_self⟩
  have hname : "node_type" ∈ draft.names := List.mem_flatMap.mpr ⟨_, hpart, List.mem_cons_self⟩
  have hforces : draft.Forces "node_type" "node_type" :=
    ⟨hname, _, hdeclaration, rfl, Or.inl rfl⟩
  exact ⟨draft, hresult, hsuccess, hdraft, houtlet, hdeclaration, hforces⟩

end SchemaClient
