/-
SchemaClient.Proofs.Section.Progress — what is true of a section at every stage.

The sections of a run touch the ledger at two points only: one of them asks for the instance index,
and each of them is composed. So the history of a ledger is the list of the sections that have been
composed on it, in that order, and the index may be taken to have been there from the start.

* `Composition`, `Scope.Composes` — sections that were composed, and what they made of a ledger.
* `Section.Sound` — what a section has in hand is what the workspace gave it, and its lines are
  those it was composed to.
* `Section.Takes.advances` — a step of a section keeps this, and says what became of the ledger.
-/
import SchemaClient.Proofs.Run.Output
import SchemaClient.Proofs.Section.Plan
import SchemaClient.Proofs.Section.Steps

namespace SchemaClient

/-! ## Compositions -/

/-- A section that has been composed: what from, and with which result. -/
structure Composition where
  kind : SectionKind
  material : Material
  result : Except Error (List String)

/-- Sections composed one after the other lead from one ledger to another. -/
def Scope.Composes (scope : Scope) : Ledger → List Composition → Ledger → Prop
  | before, [], after => after = before
  | before, c :: rest, after => ∃ middle,
    Section.compose scope c.kind c.material before = (c.result, middle) ∧
      Scope.Composes scope middle rest after

namespace Section

theorem index_of_compose {scope : Scope} {kind : SectionKind} {material : Material}
    {before after : Ledger} {result : Except Error (List String)}
    (h : compose scope kind material before = (result, after)) : after.index = before.index := by
  rw [compose_eq_fulfil] at h
  obtain ⟨made, lost, hgrow, -, -⟩ :=
    Scope.fulfil_grows scope (plan scope before.index kind material) before
  rw [h] at hgrow
  exact hgrow.index_eq

end Section

namespace Scope

variable {scope : Scope} {before middle after : Ledger} {compositions : List Composition}

theorem Composes.snoc (h : scope.Composes before compositions middle) {c : Composition}
    (hc : Section.compose scope c.kind c.material middle = (c.result, after)) :
    scope.Composes before (compositions ++ [c]) after := by
  induction compositions generalizing before with
  | nil =>
    cases h
    exact ⟨after, hc, rfl⟩
  | cons first rest ih =>
    obtain ⟨next, hfirst, hrest⟩ := h
    exact ⟨next, hfirst, ih hrest⟩

/-- Each of the sections was composed on a ledger that knows what the first one knew of instances. -/
theorem Composes.exists_compose (h : scope.Composes before compositions after) {c : Composition}
    (hc : c ∈ compositions) : ∃ ledger last, ledger.index = before.index ∧
      Section.compose scope c.kind c.material ledger = (c.result, last) := by
  induction compositions generalizing before with
  | nil => cases hc
  | cons first rest ih =>
    obtain ⟨next, hfirst, hrest⟩ := h
    rcases List.mem_cons.mp hc with rfl | hc
    · exact ⟨before, next, rfl, hfirst⟩
    · obtain ⟨ledger, last, hindex, hcompose⟩ := ih hrest hc
      exact ⟨ledger, last, hindex.trans (Section.index_of_compose hfirst), hcompose⟩

/-- If none of the sections needs the index, it might as well have been there from the start. -/
theorem Composes.withIndex (h : scope.Composes before compositions after)
    (hnone : before.index = none) (hready : ∀ c ∈ compositions, Section.Ready scope none c.material)
    (index : Option InstanceIndex) :
    scope.Composes (before.withIndex index) compositions (after.withIndex index) := by
  induction compositions generalizing before with
  | nil => exact congrArg (Ledger.withIndex · index) h
  | cons c rest ih =>
    obtain ⟨next, hc, hrest⟩ := h
    have hready' : Section.Ready scope before.index c.material := by
      rw [hnone]
      exact hready c List.mem_cons_self
    have hcompose := hready'.compose_withIndex c.kind index hnone
    rw [hc] at hcompose
    have hnext : next.index = none := (Section.index_of_compose hc).trans hnone
    exact ⟨_, hcompose, ih hrest hnext fun c hc => hready c (List.mem_cons_of_mem _ hc)⟩

end Scope

/-! ## What the workspace gave -/

namespace Section

variable {σ : Type} (source : Source (StateM σ)) (scope : Scope)

/-- A section can have gathered this material. -/
def Gathered (kind : SectionKind) : Material → Prop
  | .instances _ => kind = .resources
  | .artifacts items => ∃ listing, Lists source kind listing ∧ listing.complete = .ok items

/-- A section may ask for the instance index. -/
def Wants (kind : SectionKind) : Prop :=
  kind = .resources ∨ ∃ items, Gathered source kind (.artifacts items) ∧
    RunnableSection.needsInstances scope.catalog items = true

/-- The resources of the workspace can be listed so, and give this index or this error. -/
def IndexGiven (result : Except Error InstanceIndex) : Prop :=
  ∃ listing, Gives (source.resources none) listing ∧
    InstanceIndex.ofListing scope.catalog listing = result

/-- A section can fail in this way before it is composed. -/
inductive Fails (kind : SectionKind) (error : Error) : Prop where
  | listing {listing : Listing Artifact} :
      Lists source kind listing → listing.complete = .error error → Fails kind error
  | index : Wants source scope kind → IndexGiven source scope (.error error) → Fails kind error

/-- A section has not been composed. -/
def Uncomposed (compositions : List Composition) (kind : SectionKind) : Prop :=
  ∀ c ∈ compositions, c.kind ≠ kind

/-- What a section has in hand when these sections have been composed. -/
def Sound (index : Option InstanceIndex) (compositions : List Composition) (s : Section) : Prop :=
  match s.stage with
  | .idle => s.outlet = .fresh ∧ Uncomposed compositions s.kind
  | .listed items => s.outlet = .fresh ∧ Uncomposed compositions s.kind ∧
      Gathered source s.kind (.artifacts items)
  | .gathered material => s.outlet = .fresh ∧ Uncomposed compositions s.kind ∧
      Gathered source s.kind material ∧ Ready scope index material
  | .composed lines => s.outlet = .fresh ∧
      ∃ material, ⟨s.kind, material, .ok lines⟩ ∈ compositions
  | .finished (.ok ()) => ∃ material lines, ⟨s.kind, material, .ok lines⟩ ∈ compositions ∧
      s.outlet = .buffer (Outlet.linesText lines)
  | .finished (.error error) => (∃ material, ⟨s.kind, material, .error error⟩ ∈ compositions) ∨
      (Uncomposed compositions s.kind ∧ Fails source scope s.kind error)

/-- What a step of a section of some kind does to the ledger and to the list of compositions. -/
inductive Advances (kind : SectionKind) (before : Ledger) (compositions : List Composition) :
    Ledger → List Composition → Prop where
  | same : Advances kind before compositions before compositions
  | index {index : InstanceIndex} : before.index = none → IndexGiven source scope (.ok index) →
      Advances kind before compositions (before.withIndex (some index)) compositions
  | compose {material : Material} {result : Except Error (List String)} {after : Ledger} :
      Uncomposed compositions kind → Gathered source kind material →
      Ready scope before.index material →
      compose scope kind material before = (result, after) →
        Advances kind before compositions after (compositions ++ [⟨kind, material, result⟩])

variable {source scope} {kind : SectionKind} {before after : Ledger}
  {compositions compositions' : List Composition}

theorem Ready.withIndex {material : Material} (h : Ready scope none material)
    (index : Option InstanceIndex) : Ready scope index material := by
  cases material with
  | instances listed => cases h
  | artifacts items => exact fun hneeds => nomatch h hneeds

theorem Uncomposed.snoc (h : Uncomposed compositions kind) {c : Composition} (hc : c.kind ≠ kind) :
    Uncomposed (compositions ++ [c]) kind := by
  intro c' hc'
  rcases List.mem_append.mp hc' with hc' | hc'
  · exact h c' hc'
  · rw [List.mem_singleton.mp hc']
    exact hc

/-- What the other sections have in hand is not touched. -/
theorem Advances.sound_of_ne
    (h : Advances source scope kind before compositions after compositions') {s : Section}
    (hne : s.kind ≠ kind) (hs : Sound source scope before.index compositions s) :
    Sound source scope after.index compositions' s := by
  cases h with
  | same => exact hs
  | index hnone hgiven =>
    unfold Sound at hs ⊢
    rw [hnone] at hs
    split at hs
    · exact hs
    · exact hs
    · exact ⟨hs.1, hs.2.1, hs.2.2.1, hs.2.2.2.withIndex _⟩
    · exact hs
    · exact hs
    · exact hs
  | @compose material result after huncomposed hgathered hready hcompose =>
    have hne' : kind ≠ s.kind := fun h => hne h.symm
    rw [index_of_compose hcompose]
    unfold Sound at hs ⊢
    split at hs
    · exact ⟨hs.1, hs.2.snoc hne'⟩
    · exact ⟨hs.1, hs.2.1.snoc hne', hs.2.2⟩
    · exact ⟨hs.1, hs.2.1.snoc hne', hs.2.2⟩
    · obtain ⟨hfresh, material, hmem⟩ := hs
      exact ⟨hfresh, material, List.mem_append_left _ hmem⟩
    · obtain ⟨material, lines, hmem, htext⟩ := hs
      exact ⟨material, lines, List.mem_append_left _ hmem, htext⟩
    · rcases hs with ⟨material, hmem⟩ | ⟨hnot, hfails⟩
      · exact Or.inl ⟨material, List.mem_append_left _ hmem⟩
      · exact Or.inr ⟨hnot.snoc hne', hfails⟩

/-- What a section has in hand once it has asked for the index. -/
theorem Sound.of_indexes (s : Section) {result : Except Error InstanceIndex}
    (next : InstanceIndex → Material) (hfresh : s.outlet = .fresh)
    (huncomposed : Uncomposed compositions s.kind) (hwants : Wants source scope s.kind)
    (hnext : ∀ index, Gathered source s.kind (next index) ∧ Ready scope (some index) (next index))
    (h : scope.Indexes source before result after) :
    Advances source scope s.kind before compositions after compositions ∧
      Sound source scope after.index compositions
        (s.proceed result fun index => .gathered (next index)) := by
  cases h with
  | known hindex =>
    refine ⟨.same, hfresh, huncomposed, (hnext _).1, ?_⟩
    rw [hindex]
    exact (hnext _).2
  | found hnone hgives hlisting =>
    exact ⟨.index hnone ⟨_, hgives, hlisting⟩, hfresh, huncomposed, hnext _⟩
  | failed hnone hgives hlisting =>
    exact ⟨.same, Or.inr ⟨huncomposed, .index hwants ⟨_, hgives, hlisting⟩⟩⟩

theorem emit_of_fresh {s : Section} (hfresh : s.outlet = .fresh) (lines : List String) :
    s.emit lines =
      { s with
        stage := .finished (.ok ())
        outlet := .buffer (Outlet.linesText lines)
        announced := s.announced ++ [.done] } := by
  unfold emit
  rw [Outlet.writeLines_eq, hfresh]
  simp [Outlet.fresh, Outlet.append, conclude, enter, announce]

/-- A step of a section does one of three things to the ledger, and the section has in hand
afterwards what it should have. -/
theorem Takes.advances {s s' : Section} (h : Takes source scope s before s' after)
    (hs : Sound source scope before.index compositions s) :
    ∃ compositions', Advances source scope s.kind before compositions after compositions' ∧
      Sound source scope after.index compositions' s' := by
  obtain ⟨kind, stage, outlet, announced⟩ := s
  cases h with
  | index hstage hkind hindexes =>
    change stage = _ at hstage
    subst hstage
    cases hkind
    obtain ⟨hfresh, huncomposed⟩ := hs
    exact ⟨compositions, Sound.of_indexes ⟨.resources, .idle, outlet, announced ++ [.fetching]⟩
      .instances hfresh huncomposed (Or.inl rfl) (fun _ => ⟨rfl, rfl⟩) hindexes⟩
  | @list listing hstage hlists =>
    change stage = _ at hstage
    subst hstage
    obtain ⟨hfresh, huncomposed⟩ := hs
    refine ⟨compositions, .same, ?_⟩
    unfold Section.list
    cases hcomplete : listing.complete with
    | ok items => exact ⟨hfresh, huncomposed, listing, hlists, hcomplete⟩
    | error error => exact Or.inr ⟨huncomposed, .listing hlists hcomplete⟩
  | @await _ items _ hstage hneeds hindexes =>
    change stage = _ at hstage
    subst hstage
    obtain ⟨hfresh, huncomposed, hgathered⟩ := hs
    exact ⟨compositions, Sound.of_indexes ⟨kind, .listed items, outlet, announced⟩
      (fun _ => .artifacts items) hfresh huncomposed (Or.inr ⟨items, hgathered, hneeds⟩)
      (fun _ => ⟨hgathered, fun _ => rfl⟩) hindexes⟩
  | gather hstage hneeds =>
    change stage = _ at hstage
    subst hstage
    obtain ⟨hfresh, huncomposed, hgathered⟩ := hs
    refine ⟨compositions, .same, hfresh, huncomposed, hgathered, fun h => ?_⟩
    rw [hneeds] at h
    cases h
  | @compose _ material result hstage hcompose =>
    change stage = _ at hstage
    subst hstage
    obtain ⟨hfresh, huncomposed, hgathered, hready⟩ := hs
    refine ⟨_, .compose huncomposed hgathered hready hcompose, ?_⟩
    have hmem : ⟨kind, material, result⟩ ∈ compositions ++ [⟨kind, material, result⟩] := by simp
    cases result with
    | ok lines => exact ⟨hfresh, material, hmem⟩
    | error error => exact Or.inl ⟨material, hmem⟩
  | @emit lines hstage =>
    change stage = _ at hstage
    subst hstage
    obtain ⟨hfresh, material, hmem⟩ := hs
    refine ⟨compositions, .same, ?_⟩
    have hemit := emit_of_fresh
      (s := announce ⟨kind, .composed lines, outlet, announced⟩ .emitting) hfresh lines
    rw [hemit]
    exact ⟨material, lines, hmem, rfl⟩
  | rest => exact ⟨compositions, .same, hs⟩

end Section

end SchemaClient
