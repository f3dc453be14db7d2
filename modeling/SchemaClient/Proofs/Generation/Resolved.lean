/-
SchemaClient.Proofs.Generation.Resolved — the instance index is there when it is needed.

The declarations of a resource type depend on its instances, so it cannot be declared before the
index of all instances is known. Whether a section waits for the index is decided by a scan over the
schemas it has listed; what it declares is decided by lowering them. The scan finds every type that
lowering can ask for, so no declaration ever comes too early, whatever order the sections run in.

* `Plan.Awaited` — nothing that carrying out a plan does by itself needs the index.
* `Section.Ready.isSome_of_reaches` — what a section reaches, it reaches with the index at hand.
* `Section.Ready.compose_ne_unresolved` — composing a section does not fail for want of the index.
* `raises_of_reported` — a report that tells of it repeats what a listing ended in.
* `generate_instancesResolved` — no section of a run fails so.
-/
import SchemaClient.Proofs.Catalog.Failures
import SchemaClient.Proofs.Generation.Deferred
import SchemaClient.Proofs.Sharing.Failures

namespace SchemaClient

/-! ## Plans that do not ask for the index themselves -/

namespace Plan

variable {α β : Type}

/-- The plan does not fail for want of the index by itself, and the wording it gives to the error of
a need does not say so either. -/
structure Awaited (plan : Plan α) : Prop where
  result : ∀ name, plan.result ≠ .error (.instancesUnresolved name)
  needs : ∀ need ∈ plan.needs, ∀ error name,
    need.2 error = .instancesUnresolved name → error = .instancesUnresolved name

theorem awaited_ofExcept {result : Except Error α}
    (h : ∀ name, result ≠ .error (.instancesUnresolved name)) : (ofExcept result).Awaited where
  result := h
  needs _ hneed := nomatch hneed

theorem awaited_need (d : Demand) : (need d).Awaited where
  result _ h := nomatch h
  needs need hneed error name h := by
    rw [List.mem_singleton.mp hneed] at h
    exact h

theorem awaited_ofLowering (lowering : Lowering α) : (ofLowering lowering).Awaited where
  result name h := by
    change lowering.result.mapError Scope.schemaError = _ at h
    cases hresult : lowering.result with
    | ok a => rw [hresult] at h; cases h
    | error fault => rw [hresult] at h; cases h
  needs need hneed error name h := by
    obtain ⟨d, -, rfl⟩ := List.mem_map.mp hneed
    exact h

theorem Awaited.andThen {plan : Plan α} {next : α → Plan β} (h : plan.Awaited)
    (hnext : ∀ a, plan.result = .ok a → (next a).Awaited) : (plan.andThen next).Awaited := by
  unfold Plan.andThen
  cases hresult : plan.result with
  | error error =>
    refine ⟨fun name heq => h.result name ?_, h.needs⟩
    rw [hresult]
    exact congrArg Except.error (Except.error.inj heq)
  | ok a =>
    refine ⟨(hnext a hresult).result, fun need hneed => ?_⟩
    rcases List.mem_append.mp hneed with hneed | hneed
    · exact h.needs need hneed
    · exact (hnext a hresult).needs need hneed

theorem Awaited.map {plan : Plan α} (h : plan.Awaited) (f : α → β) : (plan.map f).Awaited where
  result name heq := h.result name (error_of_map heq)
  needs := h.needs

theorem Awaited.adapt {plan : Plan α} (h : plan.Awaited) {f : Error → Error}
    (hf : ∀ error name, f error = .instancesUnresolved name → error = .instancesUnresolved name) :
    (plan.adapt f).Awaited where
  result name heq := by
    change plan.result.mapError f = _ at heq
    cases hresult : plan.result with
    | ok a => rw [hresult] at heq; cases heq
    | error error =>
      rw [hresult] at heq
      have hcause := hf error name (Except.error.inj heq)
      exact h.result name (hcause ▸ hresult)
  needs need hneed error name heq := by
    obtain ⟨inner, hinner, rfl⟩ := List.mem_map.mp hneed
    exact h.needs inner hinner error name (hf _ name heq)

end Plan

namespace Scope

variable {scope : Scope}

/-- With the index at hand no demand asks for it. -/
theorem awaited_plan (index : InstanceIndex) (d : Demand) :
    (scope.plan (some index) d).Awaited where
  result name h := by
    obtain ⟨other, -, ⟨hnone, -⟩ | ⟨known, -, -, path, heq⟩ | ⟨type, schema, fault, -, -, -, heq⟩⟩ :=
      plan_error h
    · cases hnone
    · cases heq
    · cases heq
  needs need hneed error name h := by
    rw [(need_of_plan hneed).1] at h
    exact h

/-- Without the index nothing is wanted by anything. -/
theorem eq_of_reaches_none {d c : Demand} (h : scope.Reaches none d c) : c = d := by
  induction h with
  | refl => rfl
  | @tail b c _ hstep ih =>
    cases b with
    | base64Content => cases hstep
    | storageObject => cases hstep
    | resourceType name => cases hstep

end Scope

/-! ## Sections -/

namespace RunnableSection

theorem unresolved_of_locate (path : String) (error : Error) (name : String)
    (h : locate path error = .instancesUnresolved name) : error = .instancesUnresolved name := by
  cases error with
  | invalidSchema location message => cases h
  | _ => exact h

theorem awaited_validatorsPlan (self : RunnableSection) (scope : Scope)
    (index : Option InstanceIndex) (items : List Artifact) :
    (self.validatorsPlan scope index items).Awaited := by
  induction items with
  | nil => exact Plan.awaited_ofExcept fun _ h => nomatch h
  | cons artifact rest ih =>
    simp only [validatorsPlan]
    cases artifact.schema with
    | none => exact ih
    | some schema =>
      have hartifact : (self.artifactPlan scope index artifact.path schema).Awaited :=
        (Plan.awaited_ofLowering _).adapt (unresolved_of_locate artifact.path)
      exact hartifact.andThen fun _ _ => ih.map _

end RunnableSection

namespace Section

variable {scope : Scope}

theorem awaited_checkConfigured (index : InstanceIndex)
    (configured rest : Table (Option String)) (name : String) :
    checkConfigured index configured rest ≠ .error (.instancesUnresolved name) := by
  induction rest with
  | nil => exact fun h => nomatch h
  | cons entry rest ih =>
    obtain ⟨resourceType, path⟩ := entry
    cases path with
    | none => exact ih
    | some path =>
      intro h
      simp only [checkConfigured] at h
      cases hdefault : index.default? configured resourceType with
      | ok default => rw [hdefault] at h; exact ih h
      | error error =>
        rw [hdefault] at h
        cases h
        obtain ⟨path, heq⟩ := InstanceIndex.default?_error hdefault
        cases heq

theorem awaited_indexedPlan (index : InstanceIndex) (types : List String) :
    (indexedPlan scope index types).Awaited := by
  induction types with
  | nil => exact Plan.awaited_ofExcept fun _ h => nomatch h
  | cons resourceType rest ih =>
    refine (Plan.awaited_need _).andThen fun _ _ => ?_
    refine Plan.Awaited.andThen ?_ fun _ _ => ih.map _
    refine Plan.awaited_ofExcept fun name h => ?_
    obtain ⟨path, heq⟩ := InstanceIndex.default?_error h
    cases heq

/-- Composing a section does not ask for the index by itself: only what it demands may. -/
theorem awaited_plan (index : Option InstanceIndex) (kind : SectionKind) (material : Material) :
    (plan scope index kind material).Awaited := by
  cases material with
  | artifacts items => exact (RunnableSection.awaited_validatorsPlan _ scope index items).map _
  | instances listed =>
    refine Plan.Awaited.andThen ?_ fun _ _ => (awaited_indexedPlan listed _).map _
    exact Plan.awaited_ofExcept (awaited_checkConfigured listed _ _)

/-- Every resource type that a section reaches, through the schemas of its artifacts or through those
of other types, it reaches with the index at hand. -/
theorem Ready.isSome_of_reaches {index : Option InstanceIndex} {kind : SectionKind}
    {material : Material} (h : Ready scope index material) {d : Demand}
    (hd : d ∈ (plan scope index kind material).demands) {name : String}
    (hreach : scope.Reaches index d (.resourceType name)) : index.isSome = true := by
  cases index with
  | some index => rfl
  | none =>
    have hname : .resourceType name = d := Scope.eq_of_reaches_none hreach
    cases material with
    | instances listed => cases h
    | artifacts items =>
      have hneeds : RunnableSection.needsInstances scope.catalog items = false := by
        simpa using mt h (by simp)
      exact absurd hname.symm (demands_of_not_needsInstances _ scope hneeds none d hd name)

/-- A section that may be composed does not fail for want of the index. -/
theorem Ready.compose_ne_unresolved {kind : SectionKind} {material : Material}
    {before after : Ledger} (h : Ready scope before.index material) (name : String) :
    compose scope kind material before ≠ (.error (.instancesUnresolved name), after) := by
  intro hcompose
  rw [compose_eq_fulfil] at hcompose
  have hplan : (plan scope before.index kind material).Awaited := awaited_plan _ kind material
  rcases Scope.fulfil_error hcompose with hresult | ⟨need, hneed, c, cause, hreach, hresult, heq⟩
  · exact hplan.result name hresult
  · rw [hplan.needs need hneed cause name heq.symm] at hresult
    cases hindex : before.index with
    | some index =>
      rw [hindex] at hresult
      exact (Scope.awaited_plan index c).result name hresult
    | none =>
      -- without the index only a resource type fails so, and the section reaches none
      rw [hindex] at hresult
      have hc : c = .resourceType name := by
        cases c with
        | resourceType other => cases hresult; rfl
        | _ => cases hresult
      subst hc
      have hsome := h.isSome_of_reaches (List.mem_map_of_mem hneed) hreach
      rw [hindex] at hsome
      cases hsome

end Section

/-! ## Runs -/

section

variable {σ : Type} {source : Source (StateM σ)} {scope : Scope}

theorem Section.Fails.raises {kind : SectionKind} {error : Error}
    (h : Section.Fails source scope kind error) : source.Raises error := by
  cases h with
  | @listing listing hlists hcomplete =>
    have hfailure := Listing.failure_of_complete hcomplete
    cases kind with
    | resources => cases hlists
    | scripts => exact .scripts hlists hfailure
    | flows => exact .flows hlists hfailure
  | index hwants hgiven =>
    obtain ⟨listing, hgives, hlisting⟩ := hgiven
    exact .resources hgives (InstanceIndex.failure_of_ofListing hlisting)

/-- A section that has been composed has not failed for want of the index. -/
theorem Scope.Composes.ne_unresolved {before after : Ledger} {compositions : List Composition}
    (h : scope.Composes before compositions after)
    (hready : ∀ c ∈ compositions, Section.Ready scope before.index c.material) {c : Composition}
    (hc : c ∈ compositions) (name : String) : c.result ≠ .error (.instancesUnresolved name) := by
  intro hresult
  obtain ⟨ledger, last, hindex, hcompose⟩ := h.exists_compose hc
  rw [hresult] at hcompose
  have hown : Section.Ready scope ledger.index c.material := hindex ▸ hready c hc
  exact hown.compose_ne_unresolved name hcompose

/-- A section that ends for want of the index was told so by a listing. -/
theorem Board.Sound.raises_of_unresolved {board : Board} {compositions : List Composition}
    (hsound : board.Sound source scope compositions) (hfinished : board.Finished)
    {kind : SectionKind} {name : String}
    (houtcome : board.outcome kind = .failed (.instancesUnresolved name)) :
    source.Raises (.instancesUnresolved name) := by
  rcases hsound.outcome_cases hfinished kind with ⟨-, h⟩ | ⟨-, error, hfails, -, h⟩ |
    ⟨c, hc, error, -, -, hresult, h⟩ | ⟨c, -, lines, -, -, -, h⟩
  · rw [houtcome] at h; cases h
  · rw [houtcome] at h
    cases h
    exact hfails.raises
  · rw [houtcome] at h
    cases h
    exact absurd hresult (hsound.composes.ne_unresolved hsound.ready hc name)
  · rw [houtcome] at h; cases h

end

/-- If a run reports a section as failed for want of the index, a listing has ended in that error. -/
theorem raises_of_reported {σ : Type} {schedule : List SectionKind} {source : Source (StateM σ)}
    {config : Config} {outputRoot : String} {outlet : Outlet} {state : σ} {report : Report}
    (hreport :
      (generateWith schedule source config outputRoot outlet state).1.result = .ok report)
    {kind : SectionKind} {name : String}
    (hmem : (kind, .failed (.instancesUnresolved name)) ∈ report) :
    source.Raises (.instancesUnresolved name) := by
  obtain ⟨catalog, next, -, rfl⟩ := report_eq_of_ok hreport
  obtain ⟨compositions, hsound, hfinished, -⟩ :=
    finalBoard_sound schedule source ⟨catalog, config, outputRoot⟩ next
  exact hsound.raises_of_unresolved hfinished (mem_report.mp hmem)

/-- In whatever order the sections take their steps: at every moment, a section that is about to be
composed has the index at hand if it reaches a resource type, be it through the schema of an artifact
or through that of another type. So no section of a run fails because it asked for a type before the
index was there: a report that says so repeats what a listing ended in, and neither those of a
workspace in memory nor those of a server ever end in that. -/
theorem generate_instancesResolved {σ : Type} (schedule : List SectionKind) (config : Config)
    (outputRoot : String) (outlet : Outlet) (state : σ) :
    (∀ (source : Source (StateM σ)) catalog next,
      source.resourceTypes state = (.ok catalog, next) →
        let scope : Scope := ⟨catalog, config, outputRoot⟩
        let board := (Board.play source scope schedule (Board.start config) next).1
        ∀ s ∈ board.sections, ∀ material, s.stage = .gathered material →
          ∀ d ∈ (Section.plan scope board.ledger.index s.kind material).demands, ∀ name,
            scope.Reaches board.ledger.index d (.resourceType name) →
              board.ledger.index.isSome = true) ∧
    (∀ (source : Source (StateM σ)) report,
      (generateWith schedule source config outputRoot outlet state).1.result = .ok report →
        ∀ kind name, (kind, .failed (.instancesUnresolved name)) ∈ report →
          source.Raises (.instancesUnresolved name)) ∧
    (∀ (catalog : MemoryCatalog) report,
      (generateWith schedule (catalog.source : Source (StateM σ)) config outputRoot outlet
          state).1.result = .ok report →
        ∀ kind name, (kind, .failed (.instancesUnresolved name)) ∉ report) ∧
    ∀ (client : Client) (transport : Transport (StateM σ)) report,
      (generateWith schedule (client.source transport) config outputRoot outlet state).1.result =
          .ok report →
        ∀ kind name, (kind, .failed (.instancesUnresolved name)) ∉ report := by
  refine ⟨?_, ?_, ?_, ?_⟩
  · intro source catalog next _ scope board s hs material hstage d hd name hreach
    obtain ⟨compositions, hsound, -⟩ :=
      Board.play_sound schedule next (Board.start_sound source scope config)
    have hs' := hsound.sections s hs
    unfold Section.Sound at hs'
    rw [hstage] at hs'
    exact hs'.2.2.2.isSome_of_reaches hd hreach
  · intro source report hreport kind name hmem
    exact raises_of_reported hreport hmem
  · intro catalog report hreport kind name hmem
    obtain ⟨failing, hfailing⟩ := MemoryCatalog.raises (raises_of_reported hreport hmem)
    cases hfailing
  · intro client transport report hreport kind name hmem
    have hrequest := Client.raises (raises_of_reported hreport hmem)
    cases hrequest

/-- The scripts go ahead: they have to wait for the index before they declare `db`. -/
theorem generate_instancesResolved_linked :
    ∃ report, (generateWith [.scripts, .scripts, .scripts] (linked.source : Source (StateM Unit)) {}
        "" (.buffer "") ()).1.result = .ok report ∧
      ∀ kind name, (kind, .failed (.instancesUnresolved name)) ∉ report := by
  have hrun := (generateWith_eq [.scripts, .scripts, .scripts]
    (linked.source : Source (StateM Unit)) {} "" (.buffer "") types_linked).1
  exact ⟨_, hrun, (generate_instancesResolved _ _ _ _ _).2.2.1 _ _ hrun⟩

end SchemaClient
