/-
SchemaClient.Proofs.Generation.Draft — the generated file as a program.

A draft says what a file is made of: which sections are written, from what, and which demands were
declared in the course of the run. Its parts follow from that, and so does its text.

* `Draft.text`, `Draft.names`, `Draft.references` — a draft as text and as a program.
* `Scope.Composes.grows` — what composing the sections does to the ledger in all.
* `Board.Sound.fileText_eq` — a run that is finished has written the text of its draft.
-/
import SchemaClient.Proofs.Emission.Section
import SchemaClient.Proofs.Generation.Outcome

namespace SchemaClient

/-- What a generated file is made of. -/
structure Draft where
  scope : Scope
  index : Option InstanceIndex
  /-- For each section that is written, what it is composed from. -/
  written : SectionKind → Option Material
  /-- The demands that were declared. -/
  declared : List Demand

namespace Draft

variable (draft : Draft)

/-- The parts of one section. -/
def sectionParts (kind : SectionKind) : List Part :=
  match draft.written kind with
  | none => []
  | some material => Section.parts draft.scope draft.index kind material

/-- The parts of the deferred declarations. -/
def deferredParts : List Part := draft.declared.flatMap (draft.scope.parts draft.index)

/-- All parts. -/
def parts : List Part := SectionKind.order.flatMap draft.sectionParts ++ draft.deferredParts

/-- The constants that the file declares. -/
def names : List String := draft.parts.flatMap Part.names

/-- The constants that the file refers to. -/
def references : List String := draft.parts.flatMap Part.references

/-- The text of some sections, one after the other. -/
def sectionsText : List SectionKind → String
  | [] => ""
  | kind :: rest =>
    Outlet.linesText ((draft.sectionParts kind).flatMap Part.lines) ++ sectionsText rest

/-- The lines of the deferred declarations. -/
def deferredLines : List String := Outlet.ascending (draft.deferredParts.flatMap Part.lines)

/-- The text of the file. -/
def text : String :=
  (Preamble.text draft.scope.config draft.scope.outputRoot ++ "\n") ++
    (draft.sectionsText SectionKind.order ++ Outlet.linesText draft.deferredLines)

end Draft

/-! ## What composing does in all -/

namespace Scope

variable {scope : Scope}

/-- Composing sections makes the ledger grow. What is made is wanted by one of the sections, and
what is wanted by a section that came to its lines is made. -/
theorem Composes.grows {before after : Ledger} {compositions : List Composition}
    (h : scope.Composes before compositions after) :
    ∃ made lost, scope.Growth before.index before after made lost ∧
      (∀ m ∈ made, ∃ c ∈ compositions,
        ∃ d ∈ (Section.plan scope before.index c.kind c.material).demands,
          scope.Reaches before.index d m) ∧
      (∀ c ∈ compositions, ∀ lines, c.result = .ok lines →
        (Section.plan scope before.index c.kind c.material).result = .ok lines ∧
          ∀ d ∈ (Section.plan scope before.index c.kind c.material).demands,
            d.identity ∈ after.claimed) ∧
      ((∀ c ∈ compositions, ∃ lines, c.result = .ok lines) → lost = []) := by
  induction compositions generalizing before with
  | nil =>
    cases h
    exact ⟨[], [], .refl _, by simp, by simp, fun _ => rfl⟩
  | cons c rest ih =>
    obtain ⟨middle, hc, hrest⟩ := h
    rw [Section.compose_eq_fulfil] at hc
    obtain ⟨made, lost, hgrow, hmade, hresult⟩ :=
      fulfil_grows scope (Section.plan scope before.index c.kind c.material) before
    rw [hc] at hgrow hresult
    obtain ⟨made', lost', hgrow', hmade', hdone, hlost⟩ := ih hrest
    rw [hgrow.index_eq] at hgrow' hmade' hdone
    refine ⟨made ++ made', lost ++ lost', hgrow.trans hgrow', ?_, ?_, ?_⟩
    · intro m hm
      rcases List.mem_append.mp hm with hm | hm
      · exact ⟨c, List.mem_cons_self, hmade m hm⟩
      · obtain ⟨c', hc', hreach⟩ := hmade' m hm
        exact ⟨c', List.mem_cons_of_mem _ hc', hreach⟩
    · intro c' hc' lines hlines
      rcases List.mem_cons.mp hc' with rfl | hc'
      · simp only [hlines] at hresult
        exact ⟨hresult.1, fun d hd => hgrow'.claimed_mono (hresult.2.2 d hd)⟩
      · exact hdone c' hc' lines hlines
    · intro hall
      obtain ⟨lines, hlines⟩ := hall c List.mem_cons_self
      simp only [hlines] at hresult
      rw [hresult.2.1, hlost fun c' hc' => hall c' (List.mem_cons_of_mem _ hc')]
      rfl

end Scope

/-! ## The draft of a run -/

/-- What the sections that came to their lines were composed from. -/
def writtenBy (compositions : List Composition) (kind : SectionKind) : Option Material :=
  (compositions.find? fun c => c.kind == kind && c.result.isOk).map (·.material)

theorem writtenBy_eq_some {compositions : List Composition} {kind : SectionKind}
    {material : Material} (h : writtenBy compositions kind = some material) :
    ∃ c ∈ compositions, c.kind = kind ∧ c.material = material ∧ ∃ lines, c.result = .ok lines := by
  obtain ⟨c, hfind, rfl⟩ := Option.map_eq_some_iff.mp h
  have hc := List.find?_some hfind
  simp only [Bool.and_eq_true, beq_iff_eq] at hc
  refine ⟨c, List.mem_of_find?_eq_some hfind, hc.1, rfl, ?_⟩
  cases hresult : c.result with
  | ok lines => exact ⟨lines, rfl⟩
  | error error => rw [hresult] at hc; exact absurd hc.2 (by simp [Except.isOk, Except.toBool])

namespace Board

variable {σ : Type} {source : Source (StateM σ)} {scope : Scope} {board : Board}
  {compositions : List Composition}

theorem Sound.writtenBy_of_mem (hsound : Sound source scope board compositions) {c : Composition}
    (hc : c ∈ compositions) {lines : List String} (hresult : c.result = .ok lines) :
    writtenBy compositions c.kind = some c.material := by
  have hfind : compositions.find? (fun d => d.kind == c.kind && d.result.isOk) = some c := by
    cases hfind : compositions.find? (fun d => d.kind == c.kind && d.result.isOk) with
    | none =>
      have := List.find?_eq_none.mp hfind c hc
      simp [hresult, Except.isOk, Except.toBool] at this
    | some d =>
      have hd := List.find?_some hfind
      simp only [Bool.and_eq_true, beq_iff_eq] at hd
      rw [hsound.composition_unique (List.mem_of_find?_eq_some hfind) hc hd.1]
  rw [writtenBy, hfind, Option.map_some]

/-- The draft of a run in which these sections were composed and these demands were declared. -/
def draft (board : Board) (scope : Scope) (compositions : List Composition)
    (declared : List Demand) : Draft where
  scope := scope
  index := board.ledger.index
  written := writtenBy compositions
  declared := declared

/-- What a section contributes is the text of its parts. -/
theorem Sound.contribution_eq (hsound : Sound source scope board compositions)
    (hfinished : board.Finished) (declared : List Demand) (kind : SectionKind) :
    (board.contribution kind).getD "" = Outlet.linesText
      (((board.draft scope compositions declared).sectionParts kind).flatMap Part.lines) := by
  have hempty : (∀ c ∈ compositions, c.kind = kind → ∀ lines, c.result ≠ .ok lines) →
      board.contribution kind = none → (board.contribution kind).getD "" = Outlet.linesText
        (((board.draft scope compositions declared).sectionParts kind).flatMap Part.lines) := by
    intro hnone hcontribution
    have hwritten : writtenBy compositions kind = none := by
      cases hw : writtenBy compositions kind with
      | none => rfl
      | some material =>
        obtain ⟨c, hc, hkind, -, lines, hlines⟩ := writtenBy_eq_some hw
        exact absurd hlines (hnone c hc hkind lines)
    rw [hcontribution]
    simp only [Draft.sectionParts, draft, hwritten]
    rfl
  by_cases hcomposed : ∃ c ∈ compositions, c.kind = kind
  · obtain ⟨c, hc, rfl⟩ := hcomposed
    cases hresult : c.result with
    | ok lines =>
      obtain ⟨made, lost, -, -, hdone, -⟩ := hsound.composes.grows
      have hlines := Section.lines_eq (hdone c hc lines hresult).1
      rw [(hsound.outcome_ok hfinished hc hresult).2, Option.getD_some]
      simp only [Draft.sectionParts, draft, hsound.writtenBy_of_mem hc hresult]
      rw [hlines]
    | error error =>
      refine hempty ?_ (contribution_of_outcome ?_)
      · intro d hd hkind lines hlines
        rw [hsound.composition_unique hd hc hkind, hresult] at hlines
        cases hlines
      · rw [hsound.outcome_error hfinished hc hresult]
        exact fun h => nomatch h
  · have huncomposed : Section.Uncomposed compositions kind := fun c hc hkind =>
      hcomposed ⟨c, hc, hkind⟩
    refine hempty (fun c hc hkind => absurd hkind (huncomposed c hc)) (contribution_of_outcome ?_)
    by_cases hkind : kind ∈ board.kinds
    · obtain ⟨error, -, houtcome⟩ := hsound.outcome_uncomposed hfinished hkind huncomposed
      rw [houtcome]
      exact fun h => nomatch h
    · rw [outcome_disabled hkind]
      exact fun h => nomatch h

/-- A run that is finished has written the text of its draft. -/
theorem Sound.fileText_eq (hsound : Sound source scope board compositions)
    (hfinished : board.Finished) {declared lost : List Demand}
    (hgrow : scope.Growth board.ledger.index { index := board.ledger.index } board.ledger declared
      lost) :
    board.fileText scope.config scope.outputRoot =
      (board.draft scope compositions declared).text := by
  have hbody : ∀ kinds, board.body kinds =
      (board.draft scope compositions declared).sectionsText kinds := by
    intro kinds
    induction kinds with
    | nil => rfl
    | cons kind rest ih =>
      rw [body, Draft.sectionsText, ih, hsound.contribution_eq hfinished declared]
  have htexts : declared.flatMap (scope.texts board.ledger.index) =
      (board.draft scope compositions declared).deferredParts.flatMap Part.lines := by
    rw [Draft.deferredParts, List.flatMap_assoc]
    exact List.flatMap_congr fun d hd => Scope.texts_eq (hgrow.feasible d hd)
  have htail : Outlet.ascending board.ledger.deferred =
      (board.draft scope compositions declared).deferredLines := by
    rw [Draft.deferredLines, ← htexts]
    exact Outlet.ascending_eq_of_perm hgrow.deferred
  rw [fileText, tailText, hbody, htail]
  rfl

end Board

/-! ## Finished runs -/

section

variable {σ : Type}

theorem count_sequential (kind : SectionKind) : Board.sequential.count kind = 4 := by
  cases kind <;> decide

/-- At the end of a run every section is finished. The sections have been composed in an order in
which the schedule names them. -/
theorem finalBoard_sound (schedule : List SectionKind) (source : Source (StateM σ)) (scope : Scope)
    (state : σ) :
    ∃ compositions, (finalBoard schedule source scope state).Sound source scope compositions ∧
      (finalBoard schedule source scope state).Finished ∧
      (compositions.map (·.kind)).Sublist (schedule ++ Board.sequential) := by
  obtain ⟨compositions, hsound, hsub⟩ := Board.play_sound (schedule ++ Board.sequential) state
    (Board.start_sound source scope scope.config)
  refine ⟨compositions, hsound, Board.play_finished scope.config (fun kind _ => ?_) state, hsub⟩
  rw [List.count_append, count_sequential]
  exact Nat.le_add_left _ _

theorem kinds_finalBoard (schedule : List SectionKind) (source : Source (StateM σ)) (scope : Scope)
    (state : σ) :
    (finalBoard schedule source scope state).kinds =
      SectionKind.order.filter (Board.isEnabled scope.config) := by
  rw [finalBoard, Board.play_kinds _ _ (Board.start_sound source scope _).nodup_kinds,
    Board.kinds_start]

/-! ## The draft of a report -/

/-- A draft of a run that ended with a report: the sections that were generated are written from
what the workspace gave, everything they demand was declared, and so was everything that is wanted
by what was declared, except for demands that cannot be met. -/
structure Draft.OfRun (draft : Draft) (source : Source (StateM σ)) (report : Report) : Prop where
  catalog : Gives source.resourceTypes (.ok draft.scope.catalog)
  index : ∀ index, draft.index = some index → Section.IndexGiven source draft.scope (.ok index)
  reported : ∀ kind, ∃ outcome, (kind, outcome) ∈ report
  written_iff : ∀ kind, (draft.written kind).isSome ↔ (kind, Outcome.generated) ∈ report
  disabled_iff : ∀ kind, Board.isEnabled draft.scope.config kind = false ↔
    (kind, Outcome.disabled) ∈ report
  enabled : ∀ kind, (draft.written kind).isSome → Board.isEnabled draft.scope.config kind = true
  gathered : ∀ kind material, draft.written kind = some material →
    Section.Gathered source kind material ∧ Section.Ready draft.scope draft.index material
  composed : ∀ kind material, draft.written kind = some material →
    ∃ lines, (Section.plan draft.scope draft.index kind material).result = .ok lines
  demanded : ∀ kind material, draft.written kind = some material →
    ∀ d ∈ (Section.plan draft.scope draft.index kind material).demands, d ∈ draft.declared
  nodup : draft.declared.Nodup
  feasible : ∀ d ∈ draft.declared, draft.scope.Feasible draft.index d
  supported : ∀ d ∈ draft.declared, ∀ c ∈ draft.scope.wanted draft.index d,
    c ∈ draft.declared ∨ draft.scope.Doomed draft.index c
  reached : report.isSuccess = true → ∀ d ∈ draft.declared, ∃ kind material,
    draft.written kind = some material ∧
      ∃ e ∈ (Section.plan draft.scope draft.index kind material).demands,
        draft.scope.Reaches draft.index e d
  complete : report.isSuccess = true → ∀ d ∈ draft.declared,
    ∀ c ∈ draft.scope.wanted draft.index d, c ∈ draft.declared

/-- A part of a section belongs to what the section was composed from. -/
theorem Draft.OfRun.composed_of_mem_sectionParts {draft : Draft} {source : Source (StateM σ)}
    {report : Report} (h : draft.OfRun source report) {kind : SectionKind} {part : Part}
    (hpart : part ∈ draft.sectionParts kind) :
    ∃ material lines, draft.written kind = some material ∧
      (Section.plan draft.scope draft.index kind material).result = .ok lines ∧
      part ∈ Section.parts draft.scope draft.index kind material := by
  unfold sectionParts at hpart
  cases hwritten : draft.written kind with
  | none => rw [hwritten] at hpart; cases hpart
  | some material =>
    rw [hwritten] at hpart
    obtain ⟨lines, hlines⟩ := h.composed kind material hwritten
    exact ⟨material, lines, rfl, hlines, hpart⟩

theorem mem_report {board : Board} {kind : SectionKind} {outcome : Outcome} :
    (kind, outcome) ∈ board.report ↔ board.outcome kind = outcome := by
  constructor
  · intro h
    obtain ⟨other, -, heq⟩ := List.mem_map.mp h
    cases heq
    rfl
  · rintro rfl
    exact List.mem_map.mpr ⟨kind, by cases kind <;> decide, rfl⟩

theorem outcome_of_isSuccess {board : Board} (h : board.report.isSuccess = true)
    (kind : SectionKind) (error : Error) : board.outcome kind ≠ .failed error := by
  intro houtcome
  have hmem : (kind, error) ∈ board.report.failures :=
    List.mem_filterMap.mpr ⟨(kind, .failed error), mem_report.mpr houtcome, rfl⟩
  rw [Report.isSuccess, List.isEmpty_iff] at h
  rw [h] at hmem
  cases hmem

namespace Board

variable {source : Source (StateM σ)} {scope : Scope} {board : Board}
  {compositions : List Composition}

/-- The four ways in which a section can come out. -/
theorem Sound.outcome_cases (hsound : Sound source scope board compositions)
    (hfinished : board.Finished) (kind : SectionKind) :
    (kind ∉ board.kinds ∧ board.outcome kind = .disabled) ∨
    (kind ∈ board.kinds ∧ ∃ error, Section.Fails source scope kind error ∧
      Section.Uncomposed compositions kind ∧ board.outcome kind = .failed error) ∨
    (∃ c ∈ compositions, ∃ error, c.kind = kind ∧ kind ∈ board.kinds ∧ c.result = .error error ∧
      board.outcome kind = .failed error) ∨
    (∃ c ∈ compositions, ∃ lines, c.kind = kind ∧ kind ∈ board.kinds ∧ c.result = .ok lines ∧
      board.outcome kind = .generated) := by
  by_cases hkind : kind ∈ board.kinds
  · by_cases hcomposed : ∃ c ∈ compositions, c.kind = kind
    · obtain ⟨c, hc, rfl⟩ := hcomposed
      cases hresult : c.result with
      | ok lines =>
        have houtcome := (hsound.outcome_ok hfinished hc hresult).1
        exact Or.inr (Or.inr (Or.inr ⟨c, hc, lines, rfl, hkind, hresult, houtcome⟩))
      | error error =>
        have houtcome := hsound.outcome_error hfinished hc hresult
        exact Or.inr (Or.inr (Or.inl ⟨c, hc, error, rfl, hkind, hresult, houtcome⟩))
    · have huncomposed : Section.Uncomposed compositions kind := fun c hc h => hcomposed ⟨c, hc, h⟩
      obtain ⟨error, hfails, houtcome⟩ := hsound.outcome_uncomposed hfinished hkind huncomposed
      exact Or.inr (Or.inl ⟨hkind, error, hfails, huncomposed, houtcome⟩)
  · exact Or.inl ⟨hkind, outcome_disabled hkind⟩

theorem Sound.writtenBy_isSome (hsound : Sound source scope board compositions)
    (hfinished : board.Finished) (kind : SectionKind) :
    (writtenBy compositions kind).isSome ↔ board.outcome kind = .generated := by
  constructor
  · intro h
    obtain ⟨material, hmaterial⟩ := Option.isSome_iff_exists.mp h
    obtain ⟨c, hc, rfl, -, lines, hresult⟩ := writtenBy_eq_some hmaterial
    exact (hsound.outcome_ok hfinished hc hresult).1
  · intro h
    rcases hsound.outcome_cases hfinished kind with ⟨-, houtcome⟩ | ⟨-, error, -, -, houtcome⟩ |
      ⟨c, -, error, -, -, -, houtcome⟩ | ⟨c, hc, lines, rfl, -, hresult, -⟩
    · rw [h] at houtcome; cases houtcome
    · rw [h] at houtcome; cases houtcome
    · rw [h] at houtcome; cases houtcome
    · rw [hsound.writtenBy_of_mem hc hresult, Option.isSome_some]

/-- The sections without a place on the board are reported as disabled, and no others. -/
theorem Sound.outcome_disabled_iff (hsound : Sound source scope board compositions)
    (hfinished : board.Finished) (kind : SectionKind) :
    board.outcome kind = .disabled ↔ kind ∉ board.kinds := by
  refine ⟨fun houtcome hkind => ?_, outcome_disabled⟩
  rcases hsound.outcome_cases hfinished kind with ⟨hnot, -⟩ | ⟨-, error, -, -, h⟩ |
    ⟨c, -, error, -, -, -, h⟩ | ⟨c, -, lines, -, -, -, h⟩
  · exact hnot hkind
  · rw [houtcome] at h; cases h
  · rw [houtcome] at h; cases h
  · rw [houtcome] at h; cases h

/-- Without failed sections all compositions come to lines. -/
theorem Sound.result_of_isSuccess (hsound : Sound source scope board compositions)
    (hfinished : board.Finished) (hsuccess : board.report.isSuccess = true) {c : Composition}
    (hc : c ∈ compositions) : ∃ lines, c.result = .ok lines := by
  cases hresult : c.result with
  | ok lines => exact ⟨lines, rfl⟩
  | error error =>
    exact absurd (hsound.outcome_error hfinished hc hresult)
      (outcome_of_isSuccess hsuccess c.kind error)

/-- Of a finished run there is a draft, and its text is that of the file. -/
theorem Sound.exists_draft (hsound : Sound source scope board compositions)
    (hfinished : board.Finished) (hcatalog : Gives source.resourceTypes (.ok scope.catalog))
    (hkinds : board.kinds = SectionKind.order.filter (isEnabled scope.config)) :
    ∃ draft : Draft, draft.OfRun source board.report ∧ draft.scope = scope ∧
      draft.index = board.ledger.index ∧
      (draft.declared.map Demand.identity).Perm board.ledger.claimed ∧
      board.fileText scope.config scope.outputRoot = draft.text := by
  obtain ⟨declared, lost, hgrow, hreach, hdone, hlost⟩ := hsound.composes.grows
  have hclaimed := hgrow.mem_claimed rfl
  have hperm : (declared.map Demand.identity).Perm board.ledger.claimed := by
    simpa using hgrow.claimed.symm
  refine ⟨board.draft scope compositions declared, ?_, rfl, rfl, hperm,
    hsound.fileText_eq hfinished hgrow⟩
  have hmem : ∀ kind, kind ∈ board.kinds ↔ isEnabled scope.config kind = true := by
    intro kind
    rw [hkinds, List.mem_filter]
    exact and_iff_right (by cases kind <;> decide)
  exact
    { catalog := hcatalog
      index := hsound.index
      reported := fun kind => ⟨_, mem_report.mpr rfl⟩
      enabled := by
        intro kind hwritten
        obtain ⟨material, hmaterial⟩ := Option.isSome_iff_exists.mp hwritten
        obtain ⟨c, hc, rfl, -⟩ := writtenBy_eq_some hmaterial
        exact (hmem c.kind).mp (hsound.among c hc)
      written_iff := fun kind => (hsound.writtenBy_isSome hfinished kind).trans mem_report.symm
      disabled_iff := by
        intro kind
        rw [mem_report, hsound.outcome_disabled_iff hfinished, hmem, Bool.not_eq_true]
        rfl
      gathered := by
        intro kind material hwritten
        obtain ⟨c, hc, rfl, rfl, -⟩ := writtenBy_eq_some hwritten
        exact ⟨hsound.gathered c hc, hsound.ready c hc⟩
      composed := by
        intro kind material hwritten
        obtain ⟨c, hc, rfl, rfl, lines, hlines⟩ := writtenBy_eq_some hwritten
        exact ⟨lines, (hdone c hc lines hlines).1⟩
      demanded := by
        intro kind material hwritten d hd
        obtain ⟨c, hc, rfl, rfl, lines, hlines⟩ := writtenBy_eq_some hwritten
        exact (hclaimed d).mp ((hdone c hc lines hlines).2 d hd)
      nodup := hgrow.nodup
      feasible := hgrow.feasible
      supported := by
        intro d hd c hc
        rcases hgrow.supported d hd c hc with h | ⟨h, -⟩
        · exact Or.inl ((hclaimed c).mp h)
        · exact Or.inr (hgrow.doomed c h)
      reached := by
        intro hsuccess d hd
        obtain ⟨c, hc, hdemand⟩ := hreach d hd
        obtain ⟨lines, hlines⟩ := hsound.result_of_isSuccess hfinished hsuccess hc
        exact ⟨c.kind, c.material, hsound.writtenBy_of_mem hc hlines, hdemand⟩
      complete := by
        intro hsuccess d hd c hc
        rcases hgrow.supported d hd c hc with h | ⟨h, -⟩
        · exact (hclaimed c).mp h
        · rw [hlost fun c hc => hsound.result_of_isSuccess hfinished hsuccess hc] at h
          cases h }

end Board

/-- A run that ends with a report has written the text of a draft of it. -/
theorem exists_draft {schedule : List SectionKind} {source : Source (StateM σ)} {config : Config}
    {outputRoot : String} {outlet : Outlet} {state : σ} {report : Report}
    (h : (generateWith schedule source config outputRoot outlet state).1.result = .ok report) :
    ∃ draft : Draft, draft.OfRun source report ∧ draft.scope.config = config ∧
      draft.scope.outputRoot = outputRoot ∧
      (generateWith schedule source config outputRoot outlet state).1.outlet.bytes =
        outlet.bytes ++ Utf8.encode draft.text := by
  rcases htypes : source.resourceTypes state with ⟨result, next⟩
  cases result with
  | error error =>
    simp only [generateWith, bind, StateT.bind, htypes] at h
    cases h
  | ok catalog =>
    obtain ⟨hresult, houtlet⟩ := generateWith_eq schedule source config outputRoot outlet htypes
    obtain ⟨compositions, hsound, hfinished, -⟩ :=
      finalBoard_sound schedule source ⟨catalog, config, outputRoot⟩ next
    obtain ⟨draft, hdraft, hscope, -, -, htext⟩ := hsound.exists_draft hfinished
      ⟨state, congrArg Prod.fst htypes⟩ (kinds_finalBoard schedule source _ next)
    rw [hresult] at h
    rw [houtlet]
    simp only [htext] at h ⊢
    rcases hwritten : outlet.conclude draft.text with ⟨after, result⟩
    rw [hwritten] at h
    cases result with
    | error error => cases h
    | ok _ =>
      cases h
      exact ⟨draft, hdraft, by rw [hscope], by rw [hscope], Outlet.bytes_of_conclude hwritten⟩

/-- Once the resource types are listed, a run into a buffer ends with a report, and the buffer holds
the text of a draft of it. -/
theorem generateWith_draft (schedule : List SectionKind) (source : Source (StateM σ))
    (config : Config) (outputRoot : String) {state next : σ} {catalog : TypeCatalog}
    (htypes : source.resourceTypes state = (.ok catalog, next)) {scope : Scope} {board : Board}
    (hscope : scope = ⟨catalog, config, outputRoot⟩)
    (hboard : board = finalBoard schedule source scope next) :
    (generateWith schedule source config outputRoot (.buffer "") state).1.result =
      .ok board.report ∧
    ∃ draft : Draft, draft.OfRun source board.report ∧ draft.scope = scope ∧
      draft.index = board.ledger.index ∧
      (draft.declared.map Demand.identity).Perm board.ledger.claimed ∧
      (generateWith schedule source config outputRoot (.buffer "") state).1.outlet =
        .buffer draft.text := by
  subst hscope hboard
  have hconclude : ∀ text, (Outlet.buffer "").conclude text = (.buffer text, .ok ()) := by
    intro text
    simp [Outlet.conclude, Outlet.append]
  obtain ⟨hresult, houtlet⟩ := generateWith_eq schedule source config outputRoot (.buffer "") htypes
  rw [hconclude] at hresult houtlet
  obtain ⟨compositions, hsound, hfinished, -⟩ :=
    finalBoard_sound schedule source ⟨catalog, config, outputRoot⟩ next
  obtain ⟨draft, hdraft, hscope, hindex, hclaimed, htext⟩ := hsound.exists_draft hfinished
    ⟨state, congrArg Prod.fst htypes⟩ (kinds_finalBoard schedule source _ next)
  exact ⟨hresult, draft, hdraft, hscope, hindex, hclaimed, houtlet.trans (congrArg _ htext)⟩

end

end SchemaClient
