/-
SchemaClient.Proofs.Generation.Schedule — whether it matters in which order the sections take steps.

If the listings of a workspace always give the same answers, what is left open is the order in which
the sections are composed, since a section is composed in one step. That can matter: a section that
fails may leave demands declared that want what cannot be declared, and a section that is composed
later finds them declared and does not fail over them.

* `generate_schedule_iff` — all schedules give the same report and the same bytes exactly when all
  orders of composing do; they do if no section that fails leaves such demands behind.
* `entangled_schedule` — a workspace with two schedules of which a section fails in one only.
-/
import SchemaClient.Proofs.Generation.Closed
import SchemaClient.Proofs.Generation.Serial
import SchemaClient.Proofs.Sharing.Ahead

namespace SchemaClient

/-! ## What is left behind -/

namespace Answers

variable (answers : Answers) (scope : Scope)

/-- What a section leaves declared that is composed before all others can be met. -/
def SelfContained (kind : SectionKind) : Prop :=
  ∀ d : Demand, d.identity ∈ (answers.turn scope kind (answers.initial scope)).2.claimed →
    ¬ scope.Doomed (answers.initial scope).index d

variable {answers scope} {kind : SectionKind} {ledger : Ledger}

/-- The turn of a section makes the ledger grow, and what is lost in it is lost by a failure. -/
theorem turn_grows (answers : Answers) (scope : Scope) (kind : SectionKind) (ledger : Ledger) :
    ∃ made lost, scope.Growth ledger.index ledger (answers.turn scope kind ledger).2 made lost ∧
      ((∃ lines, (answers.turn scope kind ledger).1 = .ok lines) → lost = []) := by
  cases hmaterial : answers.material scope kind with
  | error error =>
    rw [turn_of_error hmaterial]
    exact ⟨[], [], .refl ledger, fun _ => rfl⟩
  | ok material =>
    rw [turn_of_ok hmaterial, Section.compose_eq_fulfil]
    obtain ⟨made, lost, hgrow, -, hresult⟩ :=
      Scope.fulfil_grows scope (Section.plan scope ledger.index kind material) ledger
    refine ⟨made, lost, hgrow, fun ⟨lines, hlines⟩ => ?_⟩
    rw [hlines] at hresult
    exact hresult.2.1

/-- It comes to the same whether or not settled demands have been declared before. -/
theorem turn_ahead (answers : Answers) (kind : SectionKind) {settled : Demand → Prop}
    {full bare : Ledger} (hset : scope.Settled bare.index settled)
    (h : Scope.Ahead settled full bare) :
    (answers.turn scope kind full).1 = (answers.turn scope kind bare).1 ∧
      Scope.Ahead settled (answers.turn scope kind full).2 (answers.turn scope kind bare).2 := by
  cases hmaterial : answers.material scope kind with
  | error error =>
    rw [turn_of_error hmaterial, turn_of_error hmaterial]
    exact ⟨rfl, h⟩
  | ok material =>
    rw [turn_of_ok hmaterial, turn_of_ok hmaterial, Section.compose_eq_fulfil,
      Section.compose_eq_fulfil, h.index_eq]
    exact Scope.fulfil_ahead _ hset h

/-- A section that does not fail is self-contained. -/
theorem selfContained_of_ok {lines : List String}
    (h : (answers.turn scope kind (answers.initial scope)).1 = .ok lines) :
    answers.SelfContained scope kind := by
  obtain ⟨made, lost, hgrow, hlost⟩ := turn_grows answers scope kind
    (answers.initial scope)
  rw [hlost ⟨lines, h⟩] at hgrow
  have hmem := hgrow.mem_claimed rfl
  intro d hd hdoomed
  induction hdoomed with
  | infeasible hresult => exact (hgrow.feasible _ ((hmem _).mp hd)).result_eq hresult
  | wanting hc _ ih =>
    rcases hgrow.supported _ ((hmem _).mp hd) _ hc with hclaimed | ⟨hnot, -⟩
    · exact ih hclaimed
    · cases hnot

/-- These demands have been declared since the start, and they are complete in themselves. -/
structure Grown (answers : Answers) (scope : Scope) (ledger : Ledger) (made : List Demand) :
    Prop where
  grows : ∃ lost,
    scope.Growth (answers.initial scope).index (answers.initial scope) ledger made lost
  settled : scope.Settled (answers.initial scope).index (· ∈ made)

theorem Grown.initial : answers.Grown scope (answers.initial scope) [] where
  grows := ⟨[], .refl _⟩
  settled := ⟨by simp, by simp⟩

/-- What is claimed is what has been declared. -/
theorem Grown.mem_claimed {made : List Demand} (h : answers.Grown scope ledger made) (d : Demand) :
    d.identity ∈ ledger.claimed ↔ d ∈ made := by
  obtain ⟨lost, hgrow⟩ := h.grows
  exact hgrow.mem_claimed rfl d

theorem Grown.ahead {made : List Demand} (h : answers.Grown scope ledger made) :
    Scope.Ahead (· ∈ made) ledger (answers.initial scope) := by
  obtain ⟨lost, hgrow⟩ := h.grows
  refine ⟨hgrow.index_eq, hgrow.nodup_claimed .nil, .nil, fun identity => ?_⟩
  rw [hgrow.claimed.mem_iff]
  simp [Answers.initial]

/-- After a self-contained section has been composed first, what is declared is complete in
itself. -/
theorem grown_of_selfContained (h : answers.SelfContained scope kind) :
    ∃ made, answers.Grown scope (answers.turn scope kind (answers.initial scope)).2 made := by
  obtain ⟨made, lost, hgrow, -⟩ := turn_grows answers scope kind
    (answers.initial scope)
  refine ⟨made, ⟨lost, hgrow⟩, fun d hd c hc => ?_, hgrow.feasible⟩
  rcases hgrow.supported d hd c hc with hclaimed | ⟨hlost, -⟩
  · exact (hgrow.mem_claimed rfl c).mp hclaimed
  · exact absurd (.wanting hc (hgrow.doomed c hlost)) (h d (hgrow.claimed_of_made hd))

/-- A turn of a self-contained section comes out as if it were the first, and declares what it would
have declared then. -/
theorem Grown.turn {made : List Demand} (h : answers.Grown scope ledger made)
    (hself : answers.SelfContained scope kind) :
    (answers.turn scope kind ledger).1 =
        (answers.turn scope kind (answers.initial scope)).1 ∧
      ∃ made', answers.Grown scope (answers.turn scope kind ledger).2 made' ∧
        ∀ d : Demand, d ∈ made' ↔ d ∈ made ∨
          d.identity ∈ (answers.turn scope kind (answers.initial scope)).2.claimed := by
  obtain ⟨hsame, hahead⟩ := turn_ahead answers kind h.settled h.ahead
  obtain ⟨alone, halone⟩ := grown_of_selfContained hself
  obtain ⟨lost, hgrow⟩ := h.grows
  obtain ⟨made', lost', hgrow', -⟩ := turn_grows answers scope kind ledger
  rw [hgrow.index_eq] at hgrow'
  have htotal := hgrow.trans hgrow'
  have hmem : ∀ d : Demand, d ∈ made ++ made' ↔ d ∈ made ∨ d ∈ alone := by
    intro d
    rw [← htotal.mem_claimed rfl, hahead.mem_iff, halone.mem_claimed, or_comm]
    refine or_congr ⟨?_, fun hd => ⟨d, hd, rfl⟩⟩ Iff.rfl
    rintro ⟨e, he, heq⟩
    exact Demand.identity_injective heq ▸ he
  refine ⟨hsame, made ++ made', ⟨⟨_, htotal⟩, fun d hd c hc => ?_, htotal.feasible⟩, fun d => ?_⟩
  · rcases (hmem d).mp hd with hd | hd
    · exact (hmem c).mpr (Or.inl (h.settled.wanted d hd c hc))
    · exact (hmem c).mpr (Or.inr (halone.settled.wanted d hd c hc))
  · rw [hmem, halone.mem_claimed]

/-- Self-contained sections come out as if each were the first, and in the end is declared what each
would have declared. -/
theorem Grown.turns {order : List SectionKind} {made : List Demand}
    (h : answers.Grown scope ledger made)
    (hself : ∀ kind ∈ order, answers.SelfContained scope kind) :
    (answers.turns scope order ledger).1 =
        order.map (fun kind => (kind, (answers.turn scope kind (answers.initial scope)).1)) ∧
      ∃ made', answers.Grown scope (answers.turns scope order ledger).2 made' ∧
        ∀ d : Demand, d ∈ made' ↔ d ∈ made ∨ ∃ kind ∈ order,
          d.identity ∈ (answers.turn scope kind (answers.initial scope)).2.claimed := by
  induction order generalizing ledger made with
  | nil => exact ⟨rfl, made, h, by simp⟩
  | cons kind rest ih =>
    obtain ⟨hresult, middle, hmiddle, hmem⟩ := h.turn (hself kind List.mem_cons_self)
    obtain ⟨hresults, made', hmade', hmem'⟩ :=
      ih hmiddle fun other hother => hself other (List.mem_cons_of_mem _ hother)
    rw [turns_cons]
    refine ⟨by rw [hresults, hresult, List.map_cons], made', hmade', fun d => ?_⟩
    rw [hmem' d, hmem d, or_assoc]
    simp only [List.mem_cons, exists_eq_or_imp]

theorem lookup_map_pair (result : SectionKind → Except Error (List String))
    (order : List SectionKind) (kind : SectionKind) :
    (order.map fun other => (other, result other)).lookup kind =
      if kind ∈ order then some (result kind) else none := by
  induction order with
  | nil => rfl
  | cons first rest ih =>
    rw [List.map_cons]
    by_cases hkind : kind = first
    · subst hkind
      rw [List.lookup_cons_self, if_pos List.mem_cons_self]
    · rw [lookup_cons_of_ne hkind, ih]
      simp only [List.mem_cons, hkind, false_or]

/-- Self-contained sections come out the same in every order. -/
theorem serial_eq_of_selfContained {order order' : List SectionKind} (hperm : order.Perm order')
    (hself : ∀ kind ∈ order, answers.SelfContained scope kind) :
    answers.serial scope order = answers.serial scope order' := by
  obtain ⟨hresults, made, hgrown, hmem⟩ := Grown.initial.turns hself
  obtain ⟨hresults', made', hgrown', hmem'⟩ :=
    Grown.initial.turns fun kind hkind => hself kind (hperm.mem_iff.mpr hkind)
  obtain ⟨lost, hgrow⟩ := hgrown.grows
  obtain ⟨lost', hgrow'⟩ := hgrown'.grows
  have hlookup : ∀ kind, (answers.turns scope order (answers.initial scope)).1.lookup kind =
      (answers.turns scope order' (answers.initial scope)).1.lookup kind := by
    intro kind
    rw [hresults, hresults', lookup_map_pair, lookup_map_pair]
    simp only [hperm.mem_iff]
  have hbodies : ∀ kinds : List SectionKind,
      bodies (answers.turns scope order (answers.initial scope)).1 kinds =
        bodies (answers.turns scope order' (answers.initial scope)).1 kinds := by
    intro kinds
    induction kinds with
    | nil => rfl
    | cons kind rest ih => rw [bodies, bodies, ih, hlookup]
  have hmade : made.Perm made' := by
    refine (List.perm_ext_iff_of_nodup hgrow.nodup hgrow'.nodup).mpr fun d => ?_
    rw [hmem, hmem']
    exact or_congr Iff.rfl (exists_congr fun kind => and_congr hperm.mem_iff Iff.rfl)
  have hdeferred : (answers.turns scope order (answers.initial scope)).2.deferred.Perm
      (answers.turns scope order' (answers.initial scope)).2.deferred :=
    hgrow.deferred.trans ((hmade.flatMap_right _).append_left _ |>.trans hgrow'.deferred.symm)
  have hreport : (answers.serial scope order).1 = (answers.serial scope order').1 :=
    List.map_congr_left fun kind _ => congrArg (fun r => (kind, outcomeOf r)) (hlookup kind)
  have htext : (answers.serial scope order).2 = (answers.serial scope order').2 := by
    change _ ++ (bodies _ _ ++ Outlet.linesText (Outlet.ascending _)) =
      _ ++ (bodies _ _ ++ Outlet.linesText (Outlet.ascending _))
    rw [hbodies, Outlet.ascending_eq_of_perm hdeferred]
  exact Prod.ext hreport htext

/-- Only a section that fails can leave something behind that matters to the others. -/
theorem serial_eq_of_failures {order order' : List SectionKind} (hperm : order.Perm order')
    (hself : ∀ kind ∈ order', ∀ error,
      (answers.turn scope kind (answers.initial scope)).1 = .error error →
        answers.SelfContained scope kind) :
    answers.serial scope order = answers.serial scope order' := by
  refine serial_eq_of_selfContained hperm fun kind hkind => ?_
  cases hturn : (answers.turn scope kind (answers.initial scope)).1 with
  | ok lines => exact selfContained_of_ok hturn
  | error error => exact hself kind (hperm.mem_iff.mp hkind) error hturn

end Answers

/-! ## Schedules -/

section

variable {σ σ' : Type} {source : Source (StateM σ)} {source' : Source (StateM σ')}
  {answers : Answers} {config : Config} {outputRoot : String}

/-- Two runs give the same report or error, and have written the same. -/
def Generation.Agree (generation generation' : Generation) : Prop :=
  generation.result = generation'.result ∧ generation.outlet = generation'.outlet

/-- The outcome of a run in which the sections were composed in this order. -/
theorem generateWith_eq_serial {catalog : TypeCatalog}
    (htypes : answers.types = .ok catalog) {schedule : List SectionKind} {state next : σ}
    (hnext : source.resourceTypes state = (answers.types, next)) {order : List SectionKind}
    (hserial : answers.serial ⟨catalog, config, outputRoot⟩ order =
      ((finalBoard schedule source ⟨catalog, config, outputRoot⟩ next).report,
        (finalBoard schedule source ⟨catalog, config, outputRoot⟩ next).fileText config outputRoot))
    (outlet : Outlet) :
    let serial := answers.serial ⟨catalog, config, outputRoot⟩ order
    let generation := (generateWith schedule source config outputRoot outlet state).1
    generation.result = (outlet.conclude serial.2).2.map (fun _ => serial.1) ∧
      generation.outlet = (outlet.conclude serial.2).1 := by
  rw [htypes] at hnext
  simp only [hserial]
  exact generateWith_eq schedule source config outputRoot outlet hnext

theorem resourceTypes_eq (hsteady : source.Steady answers) (state : σ) :
    ∃ next, source.resourceTypes state = (answers.types, next) := by
  rcases h : source.resourceTypes state with ⟨answer, next⟩
  exact ⟨next, by rw [hsteady.types answer ⟨state, congrArg Prod.fst h⟩]⟩

/-- However the sections take turns in two runs, on this source and on that one, both runs come out
the same. -/
def RunsAgree (source : Source (StateM σ)) (source' : Source (StateM σ')) (config : Config)
    (outputRoot : String) (state : σ) (state' : σ') : Prop :=
  ∀ schedule schedule' outlet,
    (generateWith schedule source config outputRoot outlet state).1.Agree
      (generateWith schedule' source' config outputRoot outlet state').1

/-- If all orders come out the same, all schedules do. -/
theorem runsAgree_of_serial (hsteady : source.Steady answers) (hsteady' : source'.Steady answers)
    (h : ∀ catalog, answers.types = .ok catalog →
      ∀ order : List SectionKind, order.Perm (enabledKinds config) →
        answers.serial ⟨catalog, config, outputRoot⟩ order =
          answers.serial ⟨catalog, config, outputRoot⟩ (enabledKinds config))
    (state : σ) (state' : σ') : RunsAgree source source' config outputRoot state state' := by
  intro schedule schedule' outlet
  obtain ⟨next, hnext⟩ := resourceTypes_eq hsteady state
  obtain ⟨next', hnext'⟩ := resourceTypes_eq hsteady' state'
  cases htypes : answers.types with
  | error error =>
    rw [htypes] at hnext hnext'
    simp only [generateWith, bind, StateT.bind, hnext, hnext']
    exact ⟨rfl, rfl⟩
  | ok catalog =>
    obtain ⟨order, hperm, hserial⟩ :=
      exists_order ⟨catalog, config, outputRoot⟩ hsteady schedule next
    obtain ⟨order', hperm', hserial'⟩ :=
      exists_order ⟨catalog, config, outputRoot⟩ hsteady' schedule' next'
    obtain ⟨hresult, houtlet⟩ := generateWith_eq_serial htypes hnext hserial outlet
    obtain ⟨hresult', houtlet'⟩ := generateWith_eq_serial htypes hnext' hserial' outlet
    rw [h catalog htypes order hperm] at hresult houtlet
    rw [h catalog htypes order' hperm'] at hresult' houtlet'
    exact ⟨hresult.trans hresult'.symm, houtlet.trans houtlet'.symm⟩

/-- If all schedules come out the same, all orders do: in each order the sections can go one after
the other. -/
theorem serial_of_runsAgree (hsteady : source.Steady answers) (hsteady' : source'.Steady answers)
    {state : σ} {state' : σ'} (h : RunsAgree source source' config outputRoot state state')
    {catalog : TypeCatalog} (htypes : answers.types = .ok catalog) {order : List SectionKind}
    (hperm : order.Perm (enabledKinds config)) :
    answers.serial ⟨catalog, config, outputRoot⟩ order =
      answers.serial ⟨catalog, config, outputRoot⟩ (enabledKinds config) := by
  obtain ⟨next, hnext⟩ := resourceTypes_eq hsteady state
  obtain ⟨next', hnext'⟩ := resourceTypes_eq hsteady' state'
  have hserial := finalBoard_scheduleOf ⟨catalog, config, outputRoot⟩ hsteady hperm next
  have hserial' := finalBoard_scheduleOf ⟨catalog, config, outputRoot⟩ hsteady'
    (.refl _) next'
  obtain ⟨hresult, houtlet⟩ :=
    generateWith_eq_serial htypes hnext hserial (.buffer "")
  obtain ⟨hresult', houtlet'⟩ :=
    generateWith_eq_serial htypes hnext' hserial' (.buffer "")
  obtain ⟨hsame, hsame'⟩ := h (scheduleOf order) (scheduleOf (enabledKinds config)) (.buffer "")
  rw [hresult, hresult'] at hsame
  rw [houtlet, houtlet'] at hsame'
  refine Prod.ext (Except.ok.inj hsame) ?_
  have htext := Outlet.buffer.inj hsame'
  simpa only [String.empty_append] using htext

/-- If the listings always give the same answers, all schedules give the same report and write the
same bytes exactly when composing the sections one after the other does in every order. That is so
if no section that fails leaves demands declared that cannot be met. -/
theorem generate_schedule_iff (hsteady : source.Steady answers) (state state' : σ) :
    ((∀ schedule schedule' outlet,
        (generateWith schedule source config outputRoot outlet state).1.Agree
          (generateWith schedule' source config outputRoot outlet state').1) ↔
      ∀ catalog, answers.types = .ok catalog →
        ∀ order : List SectionKind, order.Perm (enabledKinds config) →
          answers.serial ⟨catalog, config, outputRoot⟩ order =
            answers.serial ⟨catalog, config, outputRoot⟩ (enabledKinds config)) ∧
    ((∀ catalog, answers.types = .ok catalog → ∀ kind ∈ enabledKinds config, ∀ error,
        (answers.turn ⟨catalog, config, outputRoot⟩ kind
          (answers.initial ⟨catalog, config, outputRoot⟩)).1 = .error error →
        answers.SelfContained ⟨catalog, config, outputRoot⟩ kind) →
      ∀ schedule schedule' outlet,
        (generateWith schedule source config outputRoot outlet state).1.Agree
          (generateWith schedule' source config outputRoot outlet state').1) := by
  refine ⟨⟨fun h catalog htypes order hperm => ?_, fun h => ?_⟩, fun hself => ?_⟩
  · exact serial_of_runsAgree hsteady hsteady h htypes hperm
  · exact runsAgree_of_serial hsteady hsteady h state state'
  · refine runsAgree_of_serial hsteady hsteady (fun catalog htypes order hperm => ?_) state state'
    exact Answers.serial_eq_of_failures hperm (hself catalog htypes)

end

/-! ## Workspaces in memory -/

namespace MemoryCatalog

/-- What the listings of a workspace in memory answer. -/
def answers (catalog : MemoryCatalog) : Answers where
  types := (catalog.listing .resourceTypes catalog.types).complete.map TypeCatalog.ofList
  resources := catalog.listing .resources catalog.resources
  scripts := catalog.listing .scripts catalog.scripts
  flows := catalog.listing .flows catalog.flows

theorem steady {σ : Type} (catalog : MemoryCatalog) :
    (catalog.source : Source (StateM σ)).Steady catalog.answers where
  types := by
    rintro _ ⟨state, rfl⟩
    rfl
  resources := by
    rintro _ ⟨state, rfl⟩
    change catalog.listing .resources (catalog.resources.filter fun _ => true) = _
    rw [List.filter_true]
    rfl
  scripts := by
    rintro _ ⟨state, rfl⟩
    rfl
  flows := by
    rintro _ ⟨state, rfl⟩
    rfl

end MemoryCatalog

/-- A workspace with a malformed script. -/
def malformed : MemoryCatalog :=
  { scripts := [{ path := "f/s", schema := some (.obj [("type", .num (.int 3))]) }] }

/-- Its script fails and leaves nothing behind, so its schedules do not matter. -/
theorem generate_schedule_malformed :
    (malformed.source : Source (StateM Unit)).Steady malformed.answers ∧
      ∀ schedule schedule' outlet,
        (generateWith schedule (malformed.source : Source (StateM Unit)) {} "" outlet ()).1.Agree
          (generateWith schedule' (malformed.source : Source (StateM Unit)) {} "" outlet ()).1 := by
  refine ⟨malformed.steady, (generate_schedule_iff malformed.steady () ()).2 ?_⟩
  intro catalog htypes kind hkind error _ d hd
  cases htypes
  have hnothing : (malformed.answers.turn ⟨[], {}, ""⟩ kind
      (malformed.answers.initial ⟨[], {}, ""⟩)).2.claimed = [] := by
    cases kind <;> decide +kernel
  have hd : d.identity ∈ (malformed.answers.turn ⟨[], {}, ""⟩ kind
      (malformed.answers.initial ⟨[], {}, ""⟩)).2.claimed := hd
  rw [hnothing] at hd
  cases hd

/-- The board at the end of a run in which the flows go first. -/
def entangledBoardFlowsFirst : Board :=
  finalBoard (List.replicate 4 .flows) (entangled.source : Source (StateM Unit)) entangledScope ()

/-- If the scripts go first they fail, since `a` is malformed. -/
theorem scripts_fail_entangled :
    ∃ report error, (SectionKind.scripts, Outcome.failed error) ∈ report ∧
      (generateWith [] (entangled.source : Source (StateM Unit)) {} "" (.buffer "") ()).1.result =
        .ok report := by
  obtain ⟨-, -, hscripts, -⟩ := entangledBoard_left
  cases houtcome : entangledBoard.outcome .scripts with
  | generated => rw [houtcome] at hscripts; cases hscripts
  | disabled => rw [houtcome] at hscripts; cases hscripts
  | failed error =>
    exact ⟨entangledBoard.report, error, mem_report.mpr houtcome, generate_entangled.1⟩

/-- If the flows go first they leave `b` declared, and the scripts do not fail over it. -/
theorem scripts_generated_entangled :
    ∃ report, (SectionKind.scripts, Outcome.generated) ∈ report ∧
      (generateWith (List.replicate 4 .flows) (entangled.source : Source (StateM Unit)) {} ""
        (.buffer "") ()).1.result = .ok report :=
  ⟨entangledBoardFlowsFirst.report,
    mem_report.mpr (Board.outcome_of_contribution (by decide +kernel)),
    (generateWith_eq (List.replicate 4 .flows) (entangled.source : Source (StateM Unit)) {} ""
      (.buffer "") types_entangled).1⟩

/-- If the flows go first they leave `b` declared, and the scripts do not fail over it any more. -/
theorem entangled_schedules_differ :
    (entangled.source : Source (StateM Unit)).Steady entangled.answers ∧
    (∃ report error, (SectionKind.scripts, Outcome.failed error) ∈ report ∧
      (generateWith [] (entangled.source : Source (StateM Unit)) {} "" (.buffer "") ()).1.result =
        .ok report) ∧
    ∃ report, (SectionKind.scripts, Outcome.generated) ∈ report ∧
      (generateWith (List.replicate 4 .flows) (entangled.source : Source (StateM Unit)) {} ""
        (.buffer "") ()).1.result = .ok report :=
  ⟨entangled.steady, scripts_fail_entangled, scripts_generated_entangled⟩

end SchemaClient
