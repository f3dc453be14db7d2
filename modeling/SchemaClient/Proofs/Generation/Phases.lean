/-
SchemaClient.Proofs.Generation.Phases — what sections announce.

A section announces its phases as it comes to them, so how far it has got says which ones it has
announced. Three courses are left to it. Nothing that it writes can fail, because it writes to a
buffer of its own: once it has begun to write, it comes to a good end.

* `Section.OnCourse` — the phases that belong to each stage.
* `Section.Takes.onCourse` — each step announces what it has to.
* `Outcome.Told` — the phases that belong to each outcome.
* `generate_phases` — in every run, what a section has announced is what the report says of it.
-/
import SchemaClient.Proofs.Generation.Closed

namespace SchemaClient

variable {σ : Type} {source : Source (StateM σ)} {scope : Scope}

/-! ## Stages -/

namespace Section

/-- A section has announced the phases that belong to its stage, and has written nothing before its
last step. -/
inductive OnCourse : Section → Prop where
  | idle {kind : SectionKind} : OnCourse ⟨kind, .idle, .fresh, []⟩
  | listed {kind : SectionKind} {items : List Artifact} :
      OnCourse ⟨kind, .listed items, .fresh, [.fetching]⟩
  | gathered {kind : SectionKind} {material : Material} :
      OnCourse ⟨kind, .gathered material, .fresh, [.fetching]⟩
  | composed {kind : SectionKind} {lines : List String} :
      OnCourse ⟨kind, .composed lines, .fresh, [.fetching, .transforming]⟩
  | generated {kind : SectionKind} {outlet : Outlet} :
      OnCourse ⟨kind, .finished (.ok ()), outlet, [.fetching, .transforming, .emitting, .done]⟩
  | unfetched {kind : SectionKind} {error : Error} :
      OnCourse ⟨kind, .finished (.error error), .fresh, [.fetching, .errored error.message]⟩
  | uncomposed {kind : SectionKind} {error : Error} :
      OnCourse ⟨kind, .finished (.error error), .fresh,
        [.fetching, .transforming, .errored error.message]⟩

variable {before after : Ledger}

/-- Each step announces what it has to. -/
theorem Takes.onCourse {s s' : Section} (h : Takes source scope s before s' after)
    (hs : s.OnCourse) : s'.OnCourse := by
  cases h with
  | @index _ result hstage =>
    cases hs <;> cases hstage
    cases result with
    | ok index => exact .gathered
    | error error => exact .unfetched
  | @list listing hstage =>
    cases hs <;> cases hstage
    unfold Section.list
    cases listing.complete with
    | ok items => exact .listed
    | error error => exact .unfetched
  | @await _ _ result hstage =>
    cases hs <;> cases hstage
    cases result with
    | ok index => exact .gathered
    | error error => exact .unfetched
  | gather hstage =>
    cases hs <;> cases hstage
    exact .gathered
  | @compose _ _ result hstage =>
    cases hs <;> cases hstage
    cases result with
    | ok lines => exact .composed
    | error error => exact .uncomposed
  | @emit lines hstage =>
    cases hs <;> cases hstage
    -- a fresh buffer takes all the lines
    rw [emit_of_fresh rfl]
    exact .generated
  | rest => exact hs

end Section

/-! ## Outcomes -/

/-- The phases that a section has announced in the end, by its outcome. -/
inductive Outcome.Told : Outcome → List Phase → Prop where
  | disabled : Told .disabled []
  | generated : Told .generated [.fetching, .transforming, .emitting, .done]
  | unfetched {error : Error} : Told (.failed error) [.fetching, .errored error.message]
  | uncomposed {error : Error} :
      Told (.failed error) [.fetching, .transforming, .errored error.message]

/-- What was announced for the section of a kind. -/
def phasesOf (kind : SectionKind) (announced : List (SectionKind × Phase)) : List Phase :=
  (announced.filter (·.1 == kind)).map (·.2)

namespace Board

variable {board : Board} {kind : SectionKind}

theorem phasesOf_announced (board : Board) (kind : SectionKind) :
    phasesOf kind board.announced =
      (board.sections.filter (·.kind == kind)).flatMap (·.announced) := by
  unfold phasesOf announced
  induction board.sections with
  | nil => rfl
  | cons s rest ih =>
    have hown : (s.announced.map fun phase => (s.kind, phase)).filter (·.1 == kind) =
        if s.kind == kind then s.announced.map fun phase => (s.kind, phase) else [] := by
      by_cases hkind : s.kind = kind <;> simp [hkind]
    rw [List.flatMap_cons, List.filter_append, List.map_append, ih, hown, List.filter_cons]
    split <;> simp [Function.comp_def]

/-- A section that has no place on the board has announced nothing. -/
theorem phasesOf_of_not_mem (hkind : kind ∉ board.kinds) : phasesOf kind board.announced = [] := by
  have hnone : board.sections.filter (·.kind == kind) = [] :=
    List.filter_eq_nil_iff.mpr fun s hs heq => hkind (eq_of_beq heq ▸ List.mem_map_of_mem hs)
  rw [phasesOf_announced, hnone, List.flatMap_nil]

/-- Of one kind there is one section. -/
theorem phasesOf_of_find? (hnodup : board.kinds.Nodup) {s : Section}
    (hfind : board.sections.find? (·.kind == kind) = some s) :
    phasesOf kind board.announced = s.announced := by
  have hone : board.sections.filter (·.kind == kind) = [s] := by
    obtain ⟨hs, before, rest, hsections, hbefore⟩ := List.find?_eq_some_iff_append.mp hfind
    have hrest : ∀ t ∈ rest, ¬ (t.kind == kind) = true := by
      intro t ht heq
      rw [kinds, hsections, List.map_append, List.map_cons] at hnodup
      refine (List.nodup_cons.mp (List.nodup_append.mp hnodup).2.1).1 ?_
      rw [eq_of_beq hs, ← eq_of_beq heq]
      exact List.mem_map_of_mem ht
    rw [hsections, List.filter_append, List.filter_cons, if_pos hs,
      List.filter_eq_nil_iff.mpr fun t ht => by simpa using hbefore t ht,
      List.filter_eq_nil_iff.mpr hrest, List.nil_append]
  rw [phasesOf_announced, hone, List.flatMap_singleton]

/-- What a finished section has announced is what the report says of it. -/
theorem told (hnodup : board.kinds.Nodup) (hfinished : board.Finished)
    (hcourse : ∀ s ∈ board.sections, s.OnCourse) (kind : SectionKind) :
    (board.outcome kind).Told (phasesOf kind board.announced) := by
  by_cases hkind : kind ∈ board.kinds
  · obtain ⟨s, hs, -, hfind⟩ := find?_of_mem_kinds hkind
    obtain ⟨result, hstage⟩ := hfinished s hs
    rw [phasesOf_of_find? hnodup hfind, outcome, hfind]
    cases hcourse s hs <;> cases hstage
    · exact .generated
    · exact .unfetched
    · exact .uncomposed
  · rw [outcome_disabled hkind, phasesOf_of_not_mem hkind]
    exact .disabled

end Board

namespace Outcome.Told

variable {outcome : Outcome} {phases : List Phase}

theorem course (h : outcome.Told phases) (henabled : outcome ≠ .disabled) :
    phases = [.fetching, .transforming, .emitting, .done] ∨ ∃ message,
      phases = [.fetching, .errored message] ∨
      phases = [.fetching, .transforming, .errored message] := by
  cases h with
  | disabled => exact absurd rfl henabled
  | generated => exact Or.inl rfl
  | unfetched => exact Or.inr ⟨_, Or.inl rfl⟩
  | uncomposed => exact Or.inr ⟨_, Or.inr rfl⟩

theorem eq_nil (h : outcome.Told phases) (hdisabled : outcome = .disabled) : phases = [] := by
  subst hdisabled
  cases h
  rfl

theorem done_mem_iff (h : outcome.Told phases) : .done ∈ phases ↔ outcome = .generated := by
  cases h <;> simp

theorem errored_mem_iff (h : outcome.Told phases) (message : String) :
    .errored message ∈ phases ↔ ∃ error, outcome = .failed error ∧ message = error.message := by
  cases h <;> simp

theorem generated_of_emitting (h : outcome.Told phases) (hmem : .emitting ∈ phases) :
    outcome = .generated := by
  cases h <;> simp_all

end Outcome.Told

/-! ## Runs -/

section

variable (schedule : List SectionKind) (config : Config) (outputRoot : String) (outlet : Outlet)
  {state : σ}

/-- A run that does not come to its sections announces nothing. -/
theorem generateWith_of_types_error {error : Error}
    (htypes : (source.resourceTypes state).1 = .error error) :
    (generateWith schedule source config outputRoot outlet state).1 =
      { result := .error error, outlet := outlet } := by
  rw [generateWith_unlisted schedule config outputRoot outlet (Prod.ext htypes rfl)]

theorem generateWith_of_preamble_error {catalog : TypeCatalog} {error : Error}
    (htypes : (source.resourceTypes state).1 = .ok catalog)
    (hpreamble : (outlet.writeLine (Preamble.text config outputRoot)).2 = .error error) :
    (generateWith schedule source config outputRoot outlet state).1 =
      { result := .error error
        outlet := (outlet.writeLine (Preamble.text config outputRoot)).1 } := by
  rcases hanswer : source.resourceTypes state with ⟨result, next⟩
  rw [hanswer] at htypes
  cases htypes
  rcases hopened : outlet.writeLine (Preamble.text config outputRoot) with ⟨opened, result⟩
  rw [hopened] at hpreamble
  cases hpreamble
  simp only [generateWith, bind, StateT.bind, hanswer, hopened]
  rfl

/-- Any other run announces what the sections of its last board have announced. -/
theorem announced_generateWith {next : σ} {catalog : TypeCatalog}
    (htypes : source.resourceTypes state = (.ok catalog, next))
    (hpreamble : (outlet.writeLine (Preamble.text config outputRoot)).2 = .ok ()) :
    (generateWith schedule source config outputRoot outlet state).1.announced =
      (finalBoard schedule source ⟨catalog, config, outputRoot⟩ next).announced := by
  rcases hplay : Board.play source ⟨catalog, config, outputRoot⟩ (schedule ++ Board.sequential)
    (Board.start config) next with ⟨board, last⟩
  have hboard : finalBoard schedule source ⟨catalog, config, outputRoot⟩ next = board :=
    congrArg Prod.fst hplay
  rcases hopened : outlet.writeLine (Preamble.text config outputRoot) with ⟨opened, result⟩
  rw [hopened] at hpreamble
  cases hpreamble
  simp only [hboard, generateWith, bind, StateT.bind, htypes, hopened, hplay]
  cases board.assemble opened SectionKind.order with
  | mk assembled result => cases result <;> rfl

end

theorem onCourse_finalBoard (schedule : List SectionKind) (source : Source (StateM σ))
    (scope : Scope) (state : σ) :
    ∀ s ∈ (finalBoard schedule source scope state).sections, s.OnCourse := by
  refine Board.play_keeps _ state (Board.start_sound source scope scope.config)
    (fun htakes _ => htakes.onCourse) fun s hs => ?_
  obtain ⟨kind, -, rfl⟩ := List.mem_map.mp hs
  exact .idle

/-- In every run that ends with a report, each enabled section has announced one of three courses, and
a disabled section nothing. A section has announced that it is done exactly if the report says that it
was generated, and an error exactly if the report says that it failed with an error of this message.
One that came to emitting was generated. A run that fails because the resource types cannot be listed,
or because the head of the file cannot be written, announces nothing. -/
theorem generate_phases (schedule : List SectionKind) (source : Source (StateM σ))
    (config : Config) (outputRoot : String) (outlet : Outlet) (state : σ) :
    let generation := (generateWith schedule source config outputRoot outlet state).1
    (∀ report, generation.result = .ok report →
      report.map (·.1) = SectionKind.order ∧ ∀ kind,
        let phases := phasesOf kind generation.announced
        (Board.isEnabled config kind = true →
          phases = [.fetching, .transforming, .emitting, .done] ∨ ∃ message,
            phases = [.fetching, .errored message] ∨
            phases = [.fetching, .transforming, .errored message]) ∧
        (Board.isEnabled config kind = false → phases = [] ∧ (kind, .disabled) ∈ report) ∧
        (.done ∈ phases ↔ (kind, .generated) ∈ report) ∧
        (∀ message, .errored message ∈ phases ↔
          ∃ error, (kind, .failed error) ∈ report ∧ message = error.message) ∧
        (.emitting ∈ phases → (kind, .generated) ∈ report)) ∧
    (∀ error, (source.resourceTypes state).1 = .error error →
      generation.result = .error error ∧ generation.announced = []) ∧
    ∀ catalog error, (source.resourceTypes state).1 = .ok catalog →
      (outlet.writeLine (Preamble.text config outputRoot)).2 = .error error →
        generation.result = .error error ∧ generation.announced = [] := by
  intro generation
  refine ⟨fun report hreport => ?_, fun error htypes => ?_, fun catalog error htypes hwrite => ?_⟩
  · obtain ⟨catalog, next, htypes, rfl⟩ := report_eq_of_ok hreport
    have hwrite : (outlet.writeLine (Preamble.text config outputRoot)).2 = .ok () := by
      cases hresult : (outlet.writeLine (Preamble.text config outputRoot)).2 with
      | ok _ => rfl
      | error error =>
        have hfailed : generation = _ := generateWith_of_preamble_error schedule config outputRoot
          outlet (congrArg Prod.fst htypes) hresult
        rw [hfailed] at hreport
        cases hreport
    let scope : Scope := ⟨catalog, config, outputRoot⟩
    obtain ⟨compositions, hsound, hfinished, -⟩ := finalBoard_sound schedule source scope next
    have hannounced := announced_generateWith schedule config outputRoot outlet htypes hwrite
    refine ⟨rfl, fun kind => ?_⟩
    intro phases
    have htold : ((finalBoard schedule source scope next).outcome kind).Told phases := by
      have h := Board.told hsound.nodup_kinds hfinished
        (onCourse_finalBoard schedule source scope next) kind
      rwa [← hannounced] at h
    have hdisabled : Board.isEnabled config kind = false ↔
        (finalBoard schedule source scope next).outcome kind = .disabled := by
      rw [hsound.outcome_disabled_iff hfinished, kinds_finalBoard, List.mem_filter]
      cases Board.isEnabled config kind <;> cases kind <;> simp [SectionKind.order]
    simp only [mem_report]
    refine ⟨fun henabled => htold.course fun h => ?_,
      fun h => ⟨htold.eq_nil (hdisabled.mp h), hdisabled.mp h⟩, htold.done_mem_iff,
      htold.errored_mem_iff, htold.generated_of_emitting⟩
    rw [hdisabled.mpr h] at henabled
    cases henabled
  · have hfailed : generation = _ :=
      generateWith_of_types_error schedule config outputRoot outlet htypes
    rw [hfailed]
    exact ⟨rfl, rfl⟩
  · have hfailed : generation = _ :=
      generateWith_of_preamble_error schedule config outputRoot outlet htypes hwrite
    rw [hfailed]
    exact ⟨rfl, rfl⟩

/-- On the workspace `entangled` the section of the scripts fails and that of the resources is
generated; without the listing of the types, or into an output that is full, there is nothing to
announce. -/
theorem generate_phases_entangled :
    let phases (kind : SectionKind) := phasesOf kind
      (generateWith [] (entangled.source : Source (StateM Unit)) {} "" (.buffer "") ()).1.announced
    let unlisted : MemoryCatalog := { failing := [.resourceTypes] }
    let full : Outlet := .sink { room := some 0 }
    (generateWith [] (entangled.source : Source (StateM Unit)) {} "" (.buffer "") ()).1.result =
      .ok entangledBoard.report ∧
    (∃ error, (.scripts, .failed error) ∈ entangledBoard.report ∧
      .errored error.message ∈ phases .scripts ∧ .emitting ∉ phases .scripts) ∧
    ((unlisted.source : Source (StateM Unit)).resourceTypes ()).1 =
      .error (MemoryCatalog.failure .resourceTypes) ∧
    (generateWith [] (unlisted.source : Source (StateM Unit)) {} "" full ()).1.announced = [] ∧
    (full.writeLine (Preamble.text {} "")).2 = .error (.io .full) ∧
    (generateWith [] (entangled.source : Source (StateM Unit)) {} "" full ()).1.announced = [] := by
  intro phases unlisted full
  have hreport := generate_entangled.1
  obtain ⟨-, hkinds⟩ := (generate_phases [] (entangled.source : Source (StateM Unit)) {} ""
    (.buffer "") ()).1 _ hreport
  obtain ⟨-, -, -, herrored, hemitting⟩ := hkinds .scripts
  obtain ⟨error, houtcome⟩ : ∃ error, entangledBoard.outcome .scripts = .failed error := by
    have hfailed := entangledBoard_left.2.2.1
    cases houtcome : entangledBoard.outcome .scripts with
    | failed error => exact ⟨error, rfl⟩
    | _ => rw [houtcome] at hfailed; cases hfailed
  have hfull : (full.writeLine (Preamble.text {} "")).2 = .error (.io .full) := by
    have hbreak : Utf8.encode "\n" ≠ [] := by decide +kernel
    simp [full, Outlet.writeLine_eq, Outlet.append, Utf8.encode_append, Sink.write_eq, hbreak]
  refine ⟨hreport, ⟨error, mem_report.mpr houtcome, ?_, fun h => ?_⟩, rfl, ?_, hfull, ?_⟩
  · exact (herrored _).mpr ⟨error, mem_report.mpr houtcome, rfl⟩
  · have hgenerated := mem_report.mp (hemitting h)
    rw [houtcome] at hgenerated
    cases hgenerated
  · exact ((generate_phases [] unlisted.source {} "" full ()).2.1 _ rfl).2
  · exact ((generate_phases [] entangled.source {} "" full ()).2.2 _ _ rfl hfull).2

end SchemaClient
