/-
SchemaClient.Proofs.Generation.Serial — sections one after the other.

If the listings of a workspace always give the same answers, nothing of a run is open but the order
in which its sections are composed. `Answers.serial` is what comes of an order: there are no steps
in it, each section in turn is composed from what the answers give it.

* `Source.Steady` — a workspace whose listings always give the same answers.
* `Answers.serial` — the report and the text that an order of the sections leads to.
* `Answers.Replays` — turns in some order come to what given compositions did.
* `Board.Sound.serial_eq` — a finished run comes out like every order that lists its compositions
  in theirs.
* `exists_order` — so each schedule comes out like some order.
* `finalBoard_scheduleOf` — and each order is that of some schedule.
-/
import SchemaClient.Proofs.Generation.Draft

namespace SchemaClient

/-- What the listings of a workspace answer. -/
structure Answers where
  types : Except Error TypeCatalog
  resources : Listing ResourceInstance
  scripts : Listing Artifact
  flows : Listing Artifact

/-- The listings of a workspace give these answers whenever they are asked. -/
structure Source.Steady {σ : Type} (source : Source (StateM σ)) (answers : Answers) : Prop where
  types : ∀ answer, Gives source.resourceTypes answer → answer = answers.types
  resources : ∀ answer, Gives (source.resources none) answer → answer = answers.resources
  scripts : ∀ answer, Gives source.scripts answer → answer = answers.scripts
  flows : ∀ answer, Gives source.flows answer → answer = answers.flows

namespace Answers

variable (answers : Answers) (scope : Scope)

/-- The instance index, if the resources can be listed. -/
def index : Except Error InstanceIndex := InstanceIndex.ofListing scope.catalog answers.resources

/-- What a section of these artifacts is composed from. -/
def gather (items : List Artifact) : Except Error Material :=
  if RunnableSection.needsInstances scope.catalog items then
    (answers.index scope).map fun _ => .artifacts items
  else .ok (.artifacts items)

/-- What a section is composed from, or the error that it ends with before. -/
def material : SectionKind → Except Error Material
  | .resources => (answers.index scope).map .instances
  | .scripts => answers.scripts.complete.bind (answers.gather scope)
  | .flows => answers.flows.complete.bind (answers.gather scope)

/-- The ledger before any section is composed. -/
def initial : Ledger := { index := (answers.index scope).toOption }

/-- It is a section's turn: it is composed if it gets as far as that. -/
def turn (kind : SectionKind) (ledger : Ledger) : Except Error (List String) × Ledger :=
  match answers.material scope kind with
  | .error error => (.error error, ledger)
  | .ok material => Section.compose scope kind material ledger

/-- Sections take their turns one after the other. -/
def turns : List SectionKind → Ledger → List (SectionKind × Except Error (List String)) × Ledger
  | [], ledger => ([], ledger)
  | kind :: rest, ledger =>
    let (result, after) := answers.turn scope kind ledger
    let (results, last) := turns rest after
    ((kind, result) :: results, last)

/-- How a section came out that was composed with this result. -/
def outcomeOf : Option (Except Error (List String)) → Outcome
  | none => .disabled
  | some (.ok _) => .generated
  | some (.error error) => .failed error

/-- What a section contributes that was composed with this result. -/
def bodyOf : Option (Except Error (List String)) → String
  | some (.ok lines) => Outlet.linesText lines
  | _ => ""

/-- What some sections contribute to the file, one after the other. -/
def bodies (results : List (SectionKind × Except Error (List String))) :
    List SectionKind → String
  | [] => ""
  | kind :: rest => bodyOf (results.lookup kind) ++ bodies results rest

/-- The report and the text of the file, if the sections are composed in this order. -/
def serial (order : List SectionKind) : Report × String :=
  let (results, ledger) := answers.turns scope order (answers.initial scope)
  (SectionKind.order.map fun kind => (kind, outcomeOf (results.lookup kind)),
    (Preamble.text scope.config scope.outputRoot ++ "\n") ++
      (bodies results SectionKind.order ++
        Outlet.linesText (Outlet.ascending ledger.deferred)))

end Answers

/-! ## Steady answers -/

namespace Source.Steady

variable {σ : Type} {source : Source (StateM σ)} {answers : Answers} {scope : Scope}

theorem index_of_given (h : source.Steady answers) {result : Except Error InstanceIndex}
    (hgiven : Section.IndexGiven source scope result) : answers.index scope = result := by
  obtain ⟨listing, hgives, rfl⟩ := hgiven
  rw [h.resources listing hgives]
  rfl

/-- What is gathered from a listing. -/
theorem material_of_lists (h : source.Steady answers) {kind : SectionKind}
    {listing : Listing Artifact} (hlists : Section.Lists source kind listing) :
    answers.material scope kind = listing.complete.bind (answers.gather scope) := by
  cases kind with
  | resources => cases hlists
  | scripts => rw [h.scripts listing hlists]; rfl
  | flows => rw [h.flows listing hlists]; rfl

theorem material_of_ready (h : source.Steady answers) {kind : SectionKind} {material : Material}
    {index : Option InstanceIndex} (hgathered : Section.Gathered source kind material)
    (hready : Section.Ready scope index material)
    (hindex : ∀ known, index = some known → Section.IndexGiven source scope (.ok known)) :
    answers.material scope kind = .ok material := by
  cases material with
  | instances listed =>
    have hkind : kind = .resources := hgathered
    rw [hkind, Answers.material, h.index_of_given (hindex listed hready)]
    rfl
  | artifacts items =>
    obtain ⟨listing, hlists, hcomplete⟩ := hgathered
    rw [h.material_of_lists hlists, hcomplete]
    change answers.gather scope items = _
    unfold Answers.gather
    split
    · obtain ⟨known, hknown⟩ := Option.isSome_iff_exists.mp (hready ‹_›)
      rw [h.index_of_given (hindex known hknown)]
      rfl
    · rfl

theorem material_of_fails (h : source.Steady answers) {kind : SectionKind} {error : Error}
    (hfails : Section.Fails source scope kind error) :
    answers.material scope kind = .error error := by
  cases hfails with
  | listing hlists hcomplete =>
    rw [h.material_of_lists hlists, hcomplete]
    rfl
  | index hwants hgiven =>
    have hindex := h.index_of_given hgiven
    rcases hwants with rfl | ⟨items, ⟨listing, hlists, hcomplete⟩, hneeds⟩
    · rw [Answers.material, hindex]
      rfl
    · rw [h.material_of_lists hlists, hcomplete]
      change answers.gather scope items = _
      rw [Answers.gather, if_pos hneeds, hindex]
      rfl

end Source.Steady

/-! ## Runs and orders -/

namespace Answers

variable {answers : Answers} {scope : Scope}

section

variable {kind : SectionKind} {ledger : Ledger}

theorem turns_cons (kind : SectionKind) (rest : List SectionKind) (ledger : Ledger) :
    answers.turns scope (kind :: rest) ledger =
      ((kind, (answers.turn scope kind ledger).1) ::
          (answers.turns scope rest (answers.turn scope kind ledger).2).1,
        (answers.turns scope rest (answers.turn scope kind ledger).2).2) := rfl

theorem turn_of_error {error : Error} (h : answers.material scope kind = .error error) :
    answers.turn scope kind ledger = (.error error, ledger) := by
  rw [turn, h]

theorem turn_of_ok {material : Material} (h : answers.material scope kind = .ok material) :
    answers.turn scope kind ledger = Section.compose scope kind material ledger := by
  rw [turn, h]

theorem lookup_cons_of_ne {other : SectionKind} (hne : other ≠ kind)
    (result : Except Error (List String))
    (results : List (SectionKind × Except Error (List String))) :
    List.lookup other ((kind, result) :: results) = results.lookup other := by
  rw [List.lookup_cons, beq_eq_false_iff_ne.mpr hne]

end

theorem keys_turns (answers : Answers) (scope : Scope) (order : List SectionKind)
    (ledger : Ledger) :
    (answers.turns scope order ledger).1.map (·.1) = order := by
  induction order generalizing ledger with
  | nil => rfl
  | cons kind rest ih => rw [turns_cons, List.map_cons, ih]

theorem lookup_turns_of_not_mem {order : List SectionKind} {kind : SectionKind}
    (hkind : kind ∉ order) (ledger : Ledger) :
    (answers.turns scope order ledger).1.lookup kind = none := by
  refine List.lookup_eq_none_iff.mpr fun entry hentry => ?_
  have hmem : entry.1 ∈ order := by
    rw [← keys_turns answers scope order ledger]
    exact List.mem_map_of_mem hentry
  simpa using fun heq : kind = entry.1 => hkind (heq ▸ hmem)

/-- Taken in this order, the turns come to what the compositions did: to the same ledger, and to the
same result for each section that was composed. The others end with the error that keeps them from
being composed. -/
structure Replays (answers : Answers) (scope : Scope) (order : List SectionKind) (before : Ledger)
    (compositions : List Composition) (after : Ledger) : Prop where
  ledger : (answers.turns scope order before).2 = after
  composed : ∀ c ∈ compositions,
    (answers.turns scope order before).1.lookup c.kind = some c.result
  failed : ∀ kind ∈ order, ∀ error, answers.material scope kind = .error error →
    (answers.turns scope order before).1.lookup kind = some (.error error)

section

variable {kind : SectionKind} {rest : List SectionKind} {before middle after : Ledger}
  {compositions : List Composition}

/-- A section that does not get as far as being composed may take its turn before the others. -/
theorem Replays.cons_failed (h : answers.Replays scope rest before compositions after)
    (hkind : kind ∉ rest) (huncomposed : Section.Uncomposed compositions kind) {error : Error}
    (herror : answers.material scope kind = .error error) :
    answers.Replays scope (kind :: rest) before compositions after := by
  have hturns : answers.turns scope (kind :: rest) before =
      ((kind, .error error) :: (answers.turns scope rest before).1,
        (answers.turns scope rest before).2) := by
    rw [turns_cons, turn_of_error herror]
  refine ⟨by rw [hturns]; exact h.ledger, fun c hc => ?_, fun other hmem error' herror' => ?_⟩
  · rw [hturns, lookup_cons_of_ne (huncomposed c hc)]
    exact h.composed c hc
  · rw [hturns]
    rcases List.mem_cons.mp hmem with rfl | hmem
    · rw [herror] at herror'
      cases herror'
      exact List.lookup_cons_self
    · rw [lookup_cons_of_ne (ne_of_mem_of_not_mem hmem hkind)]
      exact h.failed other hmem error' herror'

/-- The section that was composed first takes its turn before the others. -/
theorem Replays.cons_composed {c : Composition}
    (h : answers.Replays scope rest middle compositions after) (hkind : c.kind ∉ rest)
    (hrest : ∀ c' ∈ compositions, c'.kind ∈ rest)
    (hmaterial : answers.material scope c.kind = .ok c.material)
    (hcompose : Section.compose scope c.kind c.material before = (c.result, middle)) :
    answers.Replays scope (c.kind :: rest) before (c :: compositions) after := by
  have hturns : answers.turns scope (c.kind :: rest) before =
      ((c.kind, c.result) :: (answers.turns scope rest middle).1,
        (answers.turns scope rest middle).2) := by
    rw [turns_cons, turn_of_ok hmaterial, hcompose]
  refine ⟨by rw [hturns]; exact h.ledger, fun c' hc' => ?_, fun other hmem error herror => ?_⟩
  · rw [hturns]
    rcases List.mem_cons.mp hc' with rfl | hc'
    · exact List.lookup_cons_self
    · rw [lookup_cons_of_ne (ne_of_mem_of_not_mem (hrest c' hc') hkind)]
      exact h.composed c' hc'
  · rw [hturns]
    rcases List.mem_cons.mp hmem with rfl | hmem
    · rw [hmaterial] at herror
      cases herror
    · rw [lookup_cons_of_ne (ne_of_mem_of_not_mem hmem hkind)]
      exact h.failed other hmem error herror

/-- Sections that were composed on a ledger are composed like this in every order that lists them in
theirs, if the others do not get as far as that. -/
theorem replays_of_composes (answers : Answers) {order : List SectionKind}
    (h : scope.Composes before compositions after)
    (hsub : (compositions.map (·.kind)).Sublist order) (hnodup : order.Nodup)
    (hmaterial : ∀ c ∈ compositions, answers.material scope c.kind = .ok c.material)
    (hother : ∀ kind ∈ order, Section.Uncomposed compositions kind →
      ∃ error, answers.material scope kind = .error error) :
    answers.Replays scope order before compositions after := by
  induction order generalizing compositions before with
  | nil =>
    have hnil : compositions = [] := by simpa using hsub
    subst hnil
    exact ⟨h.symm, by simp, by simp⟩
  | cons kind rest ih =>
    obtain ⟨hkind, hrest⟩ := List.nodup_cons.mp hnodup
    by_cases huncomposed : Section.Uncomposed compositions kind
    · obtain ⟨error, herror⟩ := hother kind List.mem_cons_self huncomposed
      have hsub' : (compositions.map (·.kind)).Sublist rest := by
        refine (List.sublist_cons_iff.mp hsub).resolve_right ?_
        rintro ⟨kinds, heq, -⟩
        obtain ⟨c, hc, hck⟩ :=
          List.mem_map.mp (heq ▸ List.mem_cons_self : kind ∈ compositions.map _)
        exact huncomposed c hc hck
      have hreplays := ih h hsub' hrest hmaterial
        fun other hmem => hother other (List.mem_cons_of_mem _ hmem)
      exact hreplays.cons_failed hkind huncomposed herror
    · cases compositions with
      | nil => exact absurd (by simp [Section.Uncomposed]) huncomposed
      | cons c cs =>
        obtain ⟨middle, hcompose, hcomposes⟩ := h
        -- the kind is that of some composition, and the order lists it before all others
        have hhead : c.kind = kind := by
          rcases List.sublist_cons_iff.mp hsub with hsub' | ⟨kinds, heq, -⟩
          · refine absurd (fun c' hc' heq => hkind ?_) huncomposed
            exact hsub'.subset (heq ▸ List.mem_map_of_mem hc')
          · exact (List.cons.inj heq).1
        subst hhead
        have hsub' : (cs.map (·.kind)).Sublist rest := List.cons_sublist_cons.mp hsub
        have hother' : ∀ other ∈ rest, Section.Uncomposed cs other →
            ∃ error, answers.material scope other = .error error := by
          intro other hmem hun
          refine hother other (List.mem_cons_of_mem _ hmem) fun c' hc' => ?_
          rcases List.mem_cons.mp hc' with rfl | hc'
          · exact fun heq => hkind (heq ▸ hmem)
          · exact hun c' hc'
        have hreplays := ih hcomposes hsub' hrest
          (fun c' hc' => hmaterial c' (List.mem_cons_of_mem _ hc')) hother'
        exact hreplays.cons_composed hkind
          (fun c' hc' => hsub'.subset (List.mem_map_of_mem hc'))
          (hmaterial c List.mem_cons_self) hcompose

end

end Answers

/-- The sections that are to be generated. -/
def enabledKinds (config : Config) : List SectionKind :=
  SectionKind.order.filter (Board.isEnabled config)

section

variable {σ : Type} {source : Source (StateM σ)} {answers : Answers} {scope : Scope}

/-- The ledger at the end of a run knows the index if the resources can be listed at all: the
section of the resources asks for it. -/
theorem Board.Sound.initial_eq {board : Board} {compositions : List Composition}
    (hsteady : source.Steady answers) (hsound : board.Sound source scope compositions)
    (hfinished : board.Finished) (hkinds : board.kinds = enabledKinds scope.config) :
    answers.initial scope = { index := board.ledger.index } := by
  rw [Answers.initial]
  cases hindex : board.ledger.index with
  | some known =>
    rw [hsteady.index_of_given (hsound.index known hindex)]
    rfl
  | none =>
    have huncomposed : Section.Uncomposed compositions .resources := by
      intro c hc hkind
      have hgathered := hsound.gathered c hc
      have hready := hsound.ready c hc
      rw [hkind] at hgathered
      rw [hindex] at hready
      cases hmaterial : c.material with
      | instances listed =>
        rw [hmaterial] at hready
        cases hready
      | artifacts items =>
        rw [hmaterial] at hgathered
        obtain ⟨listing, hlists, -⟩ := hgathered
        cases hlists
    have hmem : SectionKind.resources ∈ board.kinds := by
      rw [hkinds]
      exact List.mem_filter.mpr ⟨by decide, rfl⟩
    obtain ⟨error, hfails, -⟩ := hsound.outcome_uncomposed hfinished hmem huncomposed
    have hmaterial : (answers.index scope).map Material.instances = .error error :=
      hsteady.material_of_fails hfails
    cases hanswer : answers.index scope with
    | ok known =>
      rw [hanswer] at hmaterial
      cases hmaterial
    | error error' => rfl

/-- If the turns replay the compositions of a finished run, each section comes out as it did there
and contributes the same. -/
theorem Board.Sound.lookup_turns {board : Board} {compositions : List Composition}
    (hsteady : source.Steady answers) (hsound : board.Sound source scope compositions)
    (hfinished : board.Finished) {order : List SectionKind} {before after : Ledger}
    (hreplays : answers.Replays scope order before compositions after)
    (hmem : ∀ kind, kind ∈ board.kinds ↔ kind ∈ order) (kind : SectionKind) :
    Answers.outcomeOf ((answers.turns scope order before).1.lookup kind) = board.outcome kind ∧
      Answers.bodyOf ((answers.turns scope order before).1.lookup kind) =
        (board.contribution kind).getD "" := by
  have hfailure : ∀ error, board.outcome kind = .failed error →
      (board.contribution kind).getD "" = "" := by
    intro error houtcome
    rw [contribution_of_outcome (by rw [houtcome]; exact fun h => nomatch h)]
    rfl
  rcases hsound.outcome_cases hfinished kind with ⟨hnot, houtcome⟩ |
    ⟨hkind, error, hfails, -, houtcome⟩ | ⟨c, hc, error, rfl, -, hresult, houtcome⟩ |
    ⟨c, hc, lines, rfl, -, hresult, houtcome⟩
  · rw [Answers.lookup_turns_of_not_mem (fun h => hnot ((hmem kind).mpr h)), houtcome,
      contribution_of_outcome (by rw [houtcome]; exact fun h => nomatch h)]
    exact ⟨rfl, rfl⟩
  · rw [hreplays.failed kind ((hmem kind).mp hkind) error (hsteady.material_of_fails hfails),
      houtcome, hfailure error houtcome]
    exact ⟨rfl, rfl⟩
  · rw [hreplays.composed c hc, hresult, houtcome, hfailure error houtcome]
    exact ⟨rfl, rfl⟩
  · rw [hreplays.composed c hc, hresult, houtcome, (hsound.outcome_ok hfinished hc hresult).2]
    exact ⟨rfl, rfl⟩

theorem Answers.bodies_eq {results : List (SectionKind × Except Error (List String))}
    {board : Board}
    (h : ∀ kind, Answers.bodyOf (results.lookup kind) = (board.contribution kind).getD "")
    (kinds : List SectionKind) : Answers.bodies results kinds = board.body kinds := by
  induction kinds with
  | nil => rfl
  | cons kind rest ih => rw [Answers.bodies, Board.body, ih, h kind]

/-- A finished run comes out like every order of the enabled sections that lists its compositions in
theirs. -/
theorem Board.Sound.serial_eq {board : Board} {compositions : List Composition}
    (hsteady : source.Steady answers) (hsound : board.Sound source scope compositions)
    (hfinished : board.Finished) (hkinds : board.kinds = enabledKinds scope.config)
    {order : List SectionKind} (horder : order.Perm (enabledKinds scope.config))
    (hsub : (compositions.map (·.kind)).Sublist order) :
    answers.serial scope order =
      (board.report, board.fileText scope.config scope.outputRoot) := by
  have hmem : ∀ kind, kind ∈ board.kinds ↔ kind ∈ order := by
    intro kind
    rw [hkinds]
    exact horder.mem_iff.symm
  have hnodup : order.Nodup := horder.nodup_iff.mpr (hkinds ▸ hsound.nodup_kinds)
  have hmaterial : ∀ c ∈ compositions, answers.material scope c.kind = .ok c.material :=
    fun c hc => hsteady.material_of_ready (hsound.gathered c hc) (hsound.ready c hc) hsound.index
  have hother : ∀ kind ∈ order, Section.Uncomposed compositions kind →
      ∃ error, answers.material scope kind = .error error := by
    intro kind hkind huncomposed
    obtain ⟨error, hfails, -⟩ :=
      hsound.outcome_uncomposed hfinished ((hmem kind).mpr hkind) huncomposed
    exact ⟨error, hsteady.material_of_fails hfails⟩
  have hreplays := answers.replays_of_composes hsound.composes hsub hnodup hmaterial hother
  rw [← hsound.initial_eq hsteady hfinished hkinds] at hreplays
  have hlookup := hsound.lookup_turns hsteady hfinished hreplays hmem
  have hreport : (answers.serial scope order).1 = board.report :=
    List.map_congr_left fun kind _ => congrArg (Prod.mk kind) (hlookup kind).1
  have htext : (answers.serial scope order).2 =
      board.fileText scope.config scope.outputRoot := by
    change _ ++ (Answers.bodies _ _ ++ Outlet.linesText (Outlet.ascending _)) = _
    rw [Answers.bodies_eq fun kind => (hlookup kind).2, hreplays.ledger]
    rfl
  exact Prod.ext hreport htext

/-! ## Every schedule is like an order -/

/-- Whatever the schedule, the run comes out like some order of its sections. -/
theorem exists_order (scope : Scope) (hsteady : source.Steady answers)
    (schedule : List SectionKind) (state : σ) :
    ∃ order : List SectionKind, order.Perm (enabledKinds scope.config) ∧
      answers.serial scope order =
        ((finalBoard schedule source scope state).report,
          (finalBoard schedule source scope state).fileText scope.config scope.outputRoot) := by
  obtain ⟨compositions, hsound, hfinished, -⟩ := finalBoard_sound schedule source scope state
  have hkinds : (finalBoard schedule source scope state).kinds = enabledKinds scope.config :=
    kinds_finalBoard schedule source scope state
  have hsubset : ∀ kind ∈ compositions.map (·.kind), kind ∈ enabledKinds scope.config := by
    intro kind hkind
    obtain ⟨c, hc, rfl⟩ := List.mem_map.mp hkind
    exact hkinds ▸ hsound.among c hc
  have hnodup : (enabledKinds scope.config).Nodup := hkinds ▸ hsound.nodup_kinds
  have horder : (compositions.map (·.kind) ++
      (enabledKinds scope.config).filter (· ∉ compositions.map (·.kind))).Perm
        (enabledKinds scope.config) := by
    refine (List.perm_ext_iff_of_nodup ?_ hnodup).mpr fun kind => ?_
    · refine List.nodup_append.mpr ⟨hsound.nodup, hnodup.filter _, ?_⟩
      rintro kind hkind _ hmem rfl
      simp only [List.mem_filter, decide_eq_true_eq] at hmem
      exact hmem.2 hkind
    · simp only [List.mem_append, List.mem_filter, decide_eq_true_eq]
      constructor
      · exact fun h => h.elim (hsubset kind) And.left
      · exact fun h => (em _).imp id fun hnot => ⟨h, hnot⟩
  exact ⟨_, horder, hsound.serial_eq hsteady hfinished hkinds horder
    (List.sublist_append_left _ _)⟩

/-- The schedule by which the sections go one after the other in this order. -/
def scheduleOf (order : List SectionKind) : List SectionKind :=
  order.flatMap (List.replicate 4)

theorem count_scheduleOf {order : List SectionKind} {kind : SectionKind} (hkind : kind ∈ order) :
    4 ≤ (scheduleOf order).count kind := by
  obtain ⟨before, after, rfl⟩ := List.append_of_mem hkind
  simp only [scheduleOf, List.flatMap_append, List.flatMap_cons, List.count_append,
    List.count_replicate_self]
  omega

/-- Without its repetitions, the schedule of an order is that order. -/
theorem sublist_of_scheduleOf {order kinds : List SectionKind} (hnodup : kinds.Nodup)
    (hsub : kinds.Sublist (scheduleOf order)) : kinds.Sublist order := by
  induction order generalizing kinds with
  | nil => exact hsub
  | cons kind rest ih =>
    obtain ⟨first, others, rfl, hfirst, hothers⟩ := List.sublist_append_iff.mp hsub
    obtain ⟨count, -, rfl⟩ := List.sublist_replicate_iff.mp hfirst
    have hcount : count ≤ 1 := List.nodup_replicate.mp (List.nodup_append.mp hnodup).1
    have hrest := ih (List.nodup_append.mp hnodup).2.1 hothers
    have hone : (List.replicate count kind).Sublist [kind] :=
      (List.replicate_sublist_replicate kind).mpr hcount
    exact hone.append hrest

/-- Whatever the order of the sections, some schedule makes every run come out like it. -/
theorem finalBoard_scheduleOf (scope : Scope) (hsteady : source.Steady answers)
    {order : List SectionKind} (horder : order.Perm (enabledKinds scope.config)) (state : σ) :
    answers.serial scope order =
      ((finalBoard (scheduleOf order) source scope state).report,
        (finalBoard (scheduleOf order) source scope state).fileText scope.config
          scope.outputRoot) := by
  have hstart := Board.start_sound source scope scope.config
  have hfinished : (Board.play source scope (scheduleOf order) (Board.start scope.config)
      state).1.Finished := by
    refine Board.play_finished scope.config (fun kind henabled => count_scheduleOf ?_) state
    exact horder.mem_iff.mpr (List.mem_filter.mpr ⟨by cases kind <;> decide, henabled⟩)
  have hfinal : finalBoard (scheduleOf order) source scope state =
      (Board.play source scope (scheduleOf order) (Board.start scope.config) state).1 := by
    rw [finalBoard, Board.play_append]
    refine Board.play_of_finished _ _ ?_ hfinished
    rw [Board.play_kinds _ _ hstart.nodup_kinds]
    exact hstart.nodup_kinds
  obtain ⟨compositions, hsound, hsub⟩ := Board.play_sound (scheduleOf order) state hstart
  rw [hfinal]
  refine hsound.serial_eq hsteady hfinished ?_ horder (sublist_of_scheduleOf hsound.nodup hsub)
  rw [Board.play_kinds _ _ hstart.nodup_kinds, Board.kinds_start]
  rfl

end

end SchemaClient
