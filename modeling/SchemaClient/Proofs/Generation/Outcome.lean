/-
SchemaClient.Proofs.Generation.Outcome — what a run leaves.

Once all sections are finished, the report and the text of the file are determined by the
compositions of the run.

* `Board.Sound.outcome_*` — how a section came out, by its composition or for want of one.
* `Board.fileText` — the text of the file.
* `generateWith_unlisted` — a run without resource types.
* `generateWith_eq` — a run writes the text of the file, and reports if it could be written.
* `report_eq_of_ok` — a report is that of the last board of its run.
-/
import SchemaClient.Proofs.Generation.Board

namespace SchemaClient

namespace Board

variable {σ : Type} {source : Source (StateM σ)} {scope : Scope} {board : Board}
  {compositions : List Composition} {kind : SectionKind}

/-! ## How sections came out -/

theorem find?_of_mem_kinds (hkind : kind ∈ board.kinds) :
    ∃ s ∈ board.sections, s.kind = kind ∧ board.sections.find? (·.kind == kind) = some s := by
  obtain ⟨t, ht, heq⟩ := List.mem_map.mp hkind
  cases hfind : board.sections.find? (·.kind == kind) with
  | none =>
    have := List.find?_eq_none.mp hfind t ht
    simp [heq] at this
  | some s => exact ⟨s, List.mem_of_find?_eq_some hfind, by simpa using List.find?_some hfind, rfl⟩

theorem find?_of_not_mem_kinds (hkind : kind ∉ board.kinds) :
    board.sections.find? (·.kind == kind) = none := by
  refine List.find?_eq_none.mpr fun s hs heq => hkind ?_
  have heq : s.kind = kind := by simpa using heq
  exact heq ▸ List.mem_map_of_mem hs

theorem outcome_disabled (hkind : kind ∉ board.kinds) : board.outcome kind = .disabled := by
  simp [outcome, find?_of_not_mem_kinds hkind]

theorem contribution_of_outcome (h : board.outcome kind ≠ .generated) :
    board.contribution kind = none := by
  unfold contribution
  split
  · exact absurd ‹_› h
  · rfl

theorem outcome_of_contribution (h : (board.contribution kind).isSome = true) :
    board.outcome kind = .generated := by
  by_contra houtcome
  rw [contribution_of_outcome houtcome] at h
  cases h

/-- There is at most one composition of a kind. -/
theorem Sound.composition_unique (hsound : Sound source scope board compositions)
    {c c' : Composition} (hc : c ∈ compositions) (hc' : c' ∈ compositions)
    (hkind : c.kind = c'.kind) : c = c' :=
  List.inj_on_of_nodup_map hsound.nodup hc hc' hkind

/-- A section that was composed to lines has written them. -/
theorem Sound.outcome_ok (hsound : Sound source scope board compositions)
    (hfinished : board.Finished) {c : Composition} (hc : c ∈ compositions) {lines : List String}
    (hresult : c.result = .ok lines) :
    board.outcome c.kind = .generated ∧
      board.contribution c.kind = some (Outlet.linesText lines) := by
  obtain ⟨s, hs, hkind, hfind⟩ := find?_of_mem_kinds (hsound.among c hc)
  obtain ⟨result, hstage⟩ := hfinished s hs
  have hown := hsound.sections s hs
  unfold Section.Sound at hown
  rw [hstage] at hown
  cases result with
  | ok _ =>
    obtain ⟨material, lines', hmem, houtlet⟩ := hown
    have hsame := hsound.composition_unique hmem hc hkind
    have hlines : lines' = lines := by
      have : c.result = .ok lines' := by rw [← hsame]
      rw [hresult] at this
      exact (Except.ok.inj this).symm
    have houtcome : board.outcome c.kind = .generated := by
      simp [outcome, hfind, Section.result?, hstage]
    refine ⟨houtcome, ?_⟩
    simp only [contribution, houtcome, hfind, Option.map_some, houtlet, Outlet.text, hlines]
  | error error =>
    rcases hown with ⟨material, hmem⟩ | ⟨hnot, -⟩
    · have hsame := hsound.composition_unique hmem hc hkind
      rw [← hsame] at hresult
      cases hresult
    · exact absurd hkind.symm (hnot c hc)

/-- A section whose composition failed has failed. -/
theorem Sound.outcome_error (hsound : Sound source scope board compositions)
    (hfinished : board.Finished) {c : Composition} (hc : c ∈ compositions) {error : Error}
    (hresult : c.result = .error error) : board.outcome c.kind = .failed error := by
  obtain ⟨s, hs, hkind, hfind⟩ := find?_of_mem_kinds (hsound.among c hc)
  obtain ⟨result, hstage⟩ := hfinished s hs
  have hown := hsound.sections s hs
  unfold Section.Sound at hown
  rw [hstage] at hown
  cases result with
  | ok _ =>
    obtain ⟨material, lines', hmem, houtlet⟩ := hown
    have hsame := hsound.composition_unique hmem hc hkind
    rw [← hsame] at hresult
    cases hresult
  | error error' =>
    rcases hown with ⟨material, hmem⟩ | ⟨hnot, -⟩
    · have hsame := hsound.composition_unique hmem hc hkind
      rw [← hsame] at hresult
      cases hresult
      simp [outcome, hfind, Section.result?, hstage]
    · exact absurd hkind.symm (hnot c hc)

/-- A section that was not composed has failed before. -/
theorem Sound.outcome_uncomposed (hsound : Sound source scope board compositions)
    (hfinished : board.Finished) (hkind : kind ∈ board.kinds)
    (huncomposed : Section.Uncomposed compositions kind) :
    ∃ error, Section.Fails source scope kind error ∧ board.outcome kind = .failed error := by
  obtain ⟨s, hs, rfl, hfind⟩ := find?_of_mem_kinds hkind
  obtain ⟨result, hstage⟩ := hfinished s hs
  have hown := hsound.sections s hs
  unfold Section.Sound at hown
  rw [hstage] at hown
  cases result with
  | ok _ =>
    obtain ⟨material, lines', hmem, houtlet⟩ := hown
    exact absurd rfl (huncomposed _ hmem)
  | error error =>
    rcases hown with ⟨material, hmem⟩ | ⟨-, hfails⟩
    · exact absurd rfl (huncomposed _ hmem)
    · exact ⟨error, hfails, by simp [outcome, hfind, Section.result?, hstage]⟩

/-! ## The file -/

/-- What some sections contribute to the file, one after the other. -/
def body (board : Board) : List SectionKind → String
  | [] => ""
  | kind :: rest => (board.contribution kind).getD "" ++ board.body rest

/-- The deferred declarations as they stand at the end of the file. -/
def tailText (board : Board) : String :=
  Outlet.linesText (Outlet.ascending board.ledger.deferred)

/-- The text of the file. -/
def fileText (board : Board) (config : Config) (outputRoot : String) : String :=
  (Preamble.text config outputRoot ++ "\n") ++ (board.body SectionKind.order ++ board.tailText)

theorem assemble_eq (board : Board) (outlet : Outlet) (kinds : List SectionKind) :
    board.assemble outlet kinds = outlet.append (board.body kinds) := by
  induction kinds generalizing outlet with
  | nil => rw [body, Outlet.append_empty, assemble]
  | cons kind rest ih =>
    rw [assemble, body]
    cases board.contribution kind with
    | none =>
      simp only [Option.getD_none, String.empty_append]
      exact ih outlet
    | some text =>
      simp only [Option.getD_some, Outlet.append_append]
      cases outlet.append text with
      | mk after result =>
        cases result with
        | error error => rfl
        | ok _ => exact ih after

end Board

/-- The board at the end of a run. -/
def finalBoard {σ : Type} (schedule : List SectionKind) (source : Source (StateM σ)) (scope : Scope)
    (state : σ) : Board :=
  (Board.play source scope (schedule ++ Board.sequential) (Board.start scope.config) state).1

/-- A run that cannot list the resource types ends there. -/
theorem generateWith_unlisted {σ : Type} (schedule : List SectionKind)
    {source : Source (StateM σ)} (config : Config) (outputRoot : String) (outlet : Outlet)
    {state next : σ} {error : Error} (htypes : source.resourceTypes state = (.error error, next)) :
    generateWith schedule source config outputRoot outlet state =
      ({ result := .error error, outlet := outlet }, next) := by
  simp only [generateWith, bind, StateT.bind, htypes]
  rfl

/-- A run writes the text of the file, and reports if that could be written. -/
theorem generateWith_eq {σ : Type} (schedule : List SectionKind) (source : Source (StateM σ))
    (config : Config) (outputRoot : String) (outlet : Outlet) {state next : σ}
    {catalog : TypeCatalog} (htypes : source.resourceTypes state = (.ok catalog, next)) :
    let generation := (generateWith schedule source config outputRoot outlet state).1
    let board := finalBoard schedule source ⟨catalog, config, outputRoot⟩ next
    let written := outlet.conclude (board.fileText config outputRoot)
    generation.result = written.2.map (fun _ => board.report) ∧ generation.outlet = written.1 := by
  rcases hplay : Board.play source ⟨catalog, config, outputRoot⟩ (schedule ++ Board.sequential)
    (Board.start config) next with ⟨board, last⟩
  have hboard : finalBoard schedule source ⟨catalog, config, outputRoot⟩ next = board :=
    congrArg Prod.fst hplay
  simp only [hboard]
  rw [Board.fileText, Outlet.conclude_append, ← Outlet.writeLine_eq]
  simp only [generateWith, bind, StateT.bind, htypes]
  cases outlet.writeLine (Preamble.text config outputRoot) with
  | mk opened result =>
    cases result with
    | error error => exact ⟨rfl, rfl⟩
    | ok _ =>
      simp only [StateT.bind, bind, hplay]
      rw [Outlet.conclude_append, ← Board.assemble_eq]
      cases board.assemble opened SectionKind.order with
      | mk assembled result' =>
        cases result' with
        | error error => exact ⟨rfl, rfl⟩
        | ok _ =>
          simp only [Board.tailText, ← Outlet.finish_eq_conclude]
          exact ⟨rfl, rfl⟩

/-- A run that ends with a report has listed the types, and the report is that of its last board. -/
theorem report_eq_of_ok {σ : Type} {schedule : List SectionKind} {source : Source (StateM σ)}
    {config : Config} {outputRoot : String} {outlet : Outlet} {state : σ} {report : Report}
    (h : (generateWith schedule source config outputRoot outlet state).1.result = .ok report) :
    ∃ catalog next, source.resourceTypes state = (.ok catalog, next) ∧
      report = (finalBoard schedule source ⟨catalog, config, outputRoot⟩ next).report := by
  rcases htypes : source.resourceTypes state with ⟨result, next⟩
  cases result with
  | error error =>
    simp only [generateWith, bind, StateT.bind, htypes] at h
    cases h
  | ok catalog =>
    refine ⟨catalog, next, rfl, ?_⟩
    rw [(generateWith_eq schedule source config outputRoot outlet htypes).1] at h
    generalize (outlet.conclude _).2 = written at h
    cases written with
    | error error => cases h
    | ok _ => exact (Except.ok.inj h).symm

end SchemaClient
