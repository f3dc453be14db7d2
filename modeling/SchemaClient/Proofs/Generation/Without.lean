/-
SchemaClient.Proofs.Generation.Without — a section that fails, and the run without it.

A section that fails writes nothing of its own. But what its schemas demanded has been declared by
then, and some of it stays: it stands at the end of the file although nothing refers to it, and a
section that is composed later finds it declared. So the run without the section may come out
differently.

* `Config.without` — a configuration in which a section is disabled.
* `Answers.Leaves` — what a section leaves declared when its turn comes.
* `Answers.serial_eq_iff` — when the sections come out the same without one that fails.
* `generate_without_iff` — when a run does.
* `stray_declaration` — a workspace where it does not.
-/
import SchemaClient.Proofs.Generation.Intact
import SchemaClient.Proofs.Generation.Order

namespace SchemaClient

/-! ## Disabling a section -/

/-- The configuration with a section disabled; that of the resources cannot be. -/
def Config.without (config : Config) : SectionKind → Config
  | .resources => config
  | .scripts => { config with scripts := { config.scripts with enabled := false } }
  | .flows => { config with flows := { config.flows with enabled := false } }

/-- The scope of a run with a section disabled. -/
def Scope.without (scope : Scope) (kind : SectionKind) : Scope :=
  { scope with config := scope.config.without kind }

variable {kind other : SectionKind} {scope : Scope} {answers : Answers}

theorem isEnabled_without (hkind : kind ≠ .resources) (config : Config) (other : SectionKind) :
    Board.isEnabled (config.without kind) other = (Board.isEnabled config other && other != kind) := by
  cases kind <;> cases other <;> first | exact absurd rfl hkind | simp [Board.isEnabled, Config.without]

/-- A schedule decides on the same order of the others. -/
theorem orderOf_without (hkind : kind ≠ .resources) (config : Config)
    (schedule : List SectionKind) :
    orderOf (config.without kind) schedule = (orderOf config schedule).filter (· != kind) := by
  rw [orderOf, orderOf, List.filter_filter]
  refine List.filter_congr fun other _ => ?_
  rw [isEnabled_without hkind, Bool.and_comm]

theorem Scope.resources_without (scope : Scope) (kind : SectionKind) :
    (scope.without kind).config.resources = scope.config.resources := by
  cases kind <;> rfl

/-- What a demand declares does not depend on which sections are enabled. -/
theorem Scope.declare_without (scope : Scope) (kind : SectionKind) (idle : TypeCatalog)
    (d : Demand) : (scope.without kind).declare idle d = scope.declare idle d := by
  have hregistry : (scope.without kind).registry = scope.registry := rfl
  have htypes : (scope.without kind).typeDeclarations = scope.typeDeclarations := by
    funext index name source
    unfold typeDeclarations
    rw [resources_without]
  induction idle, d using Scope.declare.induct with
  | case1 idle => rw [declare, declare]
  | case2 idle => rw [declare, declare]
  | case3 idle name ih =>
    rw [declare, declare]
    simp only [hregistry, htypes]
    cases htake : Table.take? idle name with
    | none => rfl
    | some entry =>
      obtain ⟨type, others⟩ := entry
      have hsame : (scope.without kind).declare others = scope.declare others :=
        funext fun d => ih type others htake d
      simp only [hsame]

theorem Section.indexedPlan_without (scope : Scope) (kind : SectionKind) (index : InstanceIndex)
    (types : List String) :
    indexedPlan (scope.without kind) index types = indexedPlan scope index types := by
  induction types with
  | nil => rfl
  | cons resourceType rest ih =>
    simp only [indexedPlan, ih, Scope.resources_without]

theorem RunnableSection.validatorsPlan_without (self : RunnableSection) (scope : Scope)
    (kind : SectionKind) (index : Option InstanceIndex) (items : List Artifact) :
    self.validatorsPlan (scope.without kind) index items = self.validatorsPlan scope index items := by
  induction items with
  | nil => rfl
  | cons artifact rest ih =>
    simp only [validatorsPlan, ih]
    rfl

/-- The plan of a section does not depend on whether another is enabled. -/
theorem Section.plan_without (scope : Scope) (hne : other ≠ kind) (index : Option InstanceIndex)
    {material : Material} (hmaterial : other = .resources → ∃ listed, material = .instances listed) :
    plan (scope.without kind) index other material = plan scope index other material := by
  cases material with
  | instances listed =>
    have hlines : resourceLines (scope.without kind) = resourceLines scope := by
      funext listed defaults
      simp only [resourceLines, Scope.resources_without]
    simp only [plan, resourcesPlan, indexedPlan_without, Scope.resources_without, hlines]
  | artifacts items =>
    have hsection : RunnableSection.ofKind (scope.config.without kind) other =
        RunnableSection.ofKind scope.config other := by
      cases other with
      | resources => obtain ⟨listed, h⟩ := hmaterial rfl; cases h
      | scripts => cases kind <;> first | rfl | exact absurd rfl hne
      | flows => cases kind <;> first | rfl | exact absurd rfl hne
    simp only [plan, RunnableSection.plan, RunnableSection.validatorsPlan_without]
    rw [Scope.without, hsection]

namespace Answers

/-- What the section of the resources is composed from. -/
theorem material_resources {material : Material}
    (h : answers.material scope .resources = .ok material) :
    ∃ index, material = .instances index := by
  rw [Answers.material] at h
  cases hindex : answers.index scope with
  | error error => rw [hindex] at h; cases h
  | ok index => rw [hindex] at h; cases h; exact ⟨index, rfl⟩

/-- The turn of a section does not depend on whether another is enabled. -/
theorem turn_without (answers : Answers) (scope : Scope) (hne : other ≠ kind) (ledger : Ledger) :
    answers.turn (scope.without kind) other ledger = answers.turn scope other ledger := by
  have hsame : answers.material (scope.without kind) other = answers.material scope other := rfl
  cases hmaterial : answers.material scope other with
  | error error => rw [turn_of_error hmaterial, turn_of_error (hsame.trans hmaterial)]
  | ok material =>
    have hplan : Section.plan (scope.without kind) ledger.index other material =
        Section.plan scope ledger.index other material :=
      Section.plan_without scope hne ledger.index fun hresources =>
        material_resources (hresources ▸ hmaterial)
    have hdeclare : (scope.without kind).declare = scope.declare :=
      funext fun idle => funext fun d => scope.declare_without kind idle d
    rw [turn_of_ok hmaterial, turn_of_ok (hsame.trans hmaterial), Section.compose_eq_fulfil,
      Section.compose_eq_fulfil, hplan, hdeclare]
    rfl

theorem turns_without (answers : Answers) (scope : Scope) {order : List SectionKind}
    (hkind : kind ∉ order) (ledger : Ledger) :
    answers.turns (scope.without kind) order ledger = answers.turns scope order ledger := by
  induction order generalizing ledger with
  | nil => rfl
  | cons first rest ih =>
    have hne : first ≠ kind := fun heq => hkind (heq ▸ List.mem_cons_self)
    have hrest : kind ∉ rest := fun hmem => hkind (List.mem_cons_of_mem _ hmem)
    rw [turns_cons, turns_cons, turn_without answers scope hne, ih hrest]

/-! ## Turns -/

theorem turns_append (answers : Answers) (scope : Scope) (first second : List SectionKind)
    (ledger : Ledger) :
    answers.turns scope (first ++ second) ledger =
      ((answers.turns scope first ledger).1 ++
          (answers.turns scope second (answers.turns scope first ledger).2).1,
        (answers.turns scope second (answers.turns scope first ledger).2).2) := by
  induction first generalizing ledger with
  | nil => rfl
  | cons kind rest ih => rw [List.cons_append, turns_cons, turns_cons, ih, List.cons_append]

theorem index_turn (answers : Answers) (scope : Scope) (kind : SectionKind) (ledger : Ledger) :
    (answers.turn scope kind ledger).2.index = ledger.index := by
  obtain ⟨made, lost, hgrow, -⟩ := turn_grows answers scope kind ledger
  exact hgrow.index_eq

theorem turns_grow (answers : Answers) (scope : Scope) (order : List SectionKind)
    (ledger : Ledger) : ∃ made lost,
      scope.Growth ledger.index ledger (answers.turns scope order ledger).2 made lost := by
  induction order generalizing ledger with
  | nil => exact ⟨[], [], .refl ledger⟩
  | cons kind rest ih =>
    obtain ⟨made, lost, hgrow, -⟩ := turn_grows answers scope kind ledger
    obtain ⟨made', lost', hgrow'⟩ := ih (answers.turn scope kind ledger).2
    rw [index_turn] at hgrow'
    exact ⟨_, _, hgrow.trans hgrow'⟩

/-- The lines of a section that does not fail: they depend on nothing but the index. -/
theorem lines_of_lookup {order : List SectionKind} {ledger : Ledger} {lines : List String}
    (h : (answers.turns scope order ledger).1.lookup kind = some (.ok lines)) :
    ∃ material, answers.material scope kind = .ok material ∧
      (Section.plan scope ledger.index kind material).result = .ok lines := by
  induction order generalizing ledger with
  | nil => cases h
  | cons first rest ih =>
    rw [turns_cons] at h
    by_cases hkind : kind = first
    · subst hkind
      rw [List.lookup_cons_self, Option.some.injEq] at h
      cases hmaterial : answers.material scope kind with
      | error error => rw [turn_of_error hmaterial] at h; cases h
      | ok material =>
        rw [turn_of_ok hmaterial, Section.compose_eq_fulfil] at h
        obtain ⟨made, lost, -, -, hresult⟩ :=
          Scope.fulfil_grows scope (Section.plan scope ledger.index kind material) ledger
        rw [h] at hresult
        exact ⟨material, rfl, hresult.1⟩
    · rw [lookup_cons_of_ne hkind] at h
      have hrest := ih h
      rwa [index_turn] at hrest

/-- The turns come to the same whether or not settled demands have been declared before. -/
theorem turns_ahead (answers : Answers) (order : List SectionKind) {settled : Demand → Prop}
    {full bare : Ledger} (hset : scope.Settled bare.index settled)
    (h : Scope.Ahead settled full bare) :
    (answers.turns scope order full).1 = (answers.turns scope order bare).1 ∧
      Scope.Ahead settled (answers.turns scope order full).2
        (answers.turns scope order bare).2 := by
  induction order generalizing full bare with
  | nil => exact ⟨rfl, h⟩
  | cons kind rest ih =>
    obtain ⟨hsame, hahead⟩ := turn_ahead answers kind hset h
    rw [← index_turn answers scope kind bare] at hset
    obtain ⟨hrest, hlast⟩ := ih hset hahead
    rw [turns_cons, turns_cons, hsame, hrest]
    exact ⟨rfl, hlast⟩

/-! ## Two files -/

/-- A section writes the same in two orders, if it does not fail in either. -/
theorem bodyOf_eq {order order' : List SectionKind}
    (h : outcomeOf ((answers.turns scope order (answers.initial scope)).1.lookup kind) =
      outcomeOf ((answers.turns scope order' (answers.initial scope)).1.lookup kind)) :
    bodyOf ((answers.turns scope order (answers.initial scope)).1.lookup kind) =
      bodyOf ((answers.turns scope order' (answers.initial scope)).1.lookup kind) := by
  cases hresult : (answers.turns scope order (answers.initial scope)).1.lookup kind with
  | none =>
    cases hresult' : (answers.turns scope order' (answers.initial scope)).1.lookup kind with
    | none => rfl
    | some result => rw [hresult, hresult'] at h; cases result <;> cases h
  | some result =>
    cases hresult' : (answers.turns scope order' (answers.initial scope)).1.lookup kind with
    | none => rw [hresult, hresult'] at h; cases result <;> cases h
    | some result' =>
      rw [hresult, hresult'] at h
      cases result with
      | error error =>
        cases result' with
        | error error' => rfl
        | ok lines' => cases h
      | ok lines =>
        cases result' with
        | error error' => cases h
        | ok lines' =>
          obtain ⟨material, hmaterial, hlines⟩ := lines_of_lookup hresult
          obtain ⟨material', hmaterial', hlines'⟩ := lines_of_lookup hresult'
          rw [hmaterial] at hmaterial'
          cases hmaterial'
          rw [hlines] at hlines'
          cases hlines'
          rfl

theorem bodies_congr {results results' : List (SectionKind × Except Error (List String))}
    (h : ∀ kind, bodyOf (results.lookup kind) = bodyOf (results'.lookup kind))
    (kinds : List SectionKind) : bodies results kinds = bodies results' kinds := by
  induction kinds with
  | nil => rfl
  | cons kind rest ih => rw [bodies, bodies, ih, h kind]

end Answers

/-- Lines without line feeds can be told from their text. -/
theorem Outlet.linesText_injective {lines lines' : List String}
    (hlines : ∀ line ∈ lines, '\n' ∉ line.toList) (hlines' : ∀ line ∈ lines', '\n' ∉ line.toList)
    (h : linesText lines = linesText lines') : lines = lines' := by
  have hrows : ∀ {lines : List String}, (∀ line ∈ lines, '\n' ∉ line.toList) →
      lines.flatMap rows = lines.map String.toList := by
    intro lines hlines
    rw [List.flatMap_congr fun line hline => rows_of_not_mem (hlines line hline),
      ← List.map_eq_flatMap]
  have hsame := congrArg rows h
  rw [rows_linesText, rows_linesText, hrows hlines, hrows hlines'] at hsame
  exact List.map_injective_iff.2 (fun _ _ => String.toList_inj.1) (List.append_cancel_right hsame)

/-- What is put off can be told from its text, but for its order. -/
theorem Answers.perm_of_linesText {order order' : List SectionKind} :
    let deferred := (answers.turns scope order (answers.initial scope)).2.deferred
    let deferred' := (answers.turns scope order' (answers.initial scope)).2.deferred
    Outlet.linesText (Outlet.ascending deferred) = Outlet.linesText (Outlet.ascending deferred') →
      deferred.Perm deferred' := by
  intro deferred deferred' h
  have hfeed : ∀ order, ∀ text ∈ Outlet.ascending
      (answers.turns scope order (answers.initial scope)).2.deferred, '\n' ∉ text.toList := by
    intro order text htext hmem
    obtain ⟨made, lost, hgrow⟩ := turns_grow answers scope order (answers.initial scope)
    obtain ⟨declaration, hintact, rfl⟩ :=
      hgrow.intact_deferred rfl ((List.mergeSort_perm _ _).mem_iff.1 htext)
    exact absurd (hintact.printable _ hmem) (by decide)
  have hsame := Outlet.linesText_injective (hfeed order) (hfeed order') h
  exact (List.mergeSort_perm deferred _).symm.trans
    (List.Perm.trans (.of_eq hsame) (List.mergeSort_perm deferred' _))

/-! ## A section that fails -/

namespace Answers

/-- What a section finds when its turn comes in an order. -/
def found (answers : Answers) (scope : Scope) (order : List SectionKind) (kind : SectionKind) :
    Ledger :=
  (answers.turns scope (order.takeWhile (· != kind)) (answers.initial scope)).2

/-- A section leaves a demand declared that it did not find declared. -/
def Leaves (answers : Answers) (scope : Scope) (order : List SectionKind) (kind : SectionKind)
    (d : Demand) : Prop :=
  d.identity ∉ (answers.found scope order kind).claimed ∧
    d.identity ∈ (answers.turn scope kind (answers.found scope order kind)).2.claimed

/-- An order of sections without one of them, and what comes before it and after it. -/
theorem exists_split {order : List SectionKind} (hnodup : order.Nodup) (hmem : kind ∈ order) :
    ∃ after, order = order.takeWhile (· != kind) ++ kind :: after ∧
      order.filter (· != kind) = order.takeWhile (· != kind) ++ after ∧
      kind ∉ order.takeWhile (· != kind) ∧ kind ∉ after := by
  obtain ⟨before, after, rfl, hbefore⟩ := List.eq_append_cons_of_mem hmem
  have hafter : kind ∉ after := (List.nodup_cons.1 (List.nodup_append.1 hnodup).2.1).1
  have hkeep : ∀ {kinds : List SectionKind}, kind ∉ kinds → ∀ k ∈ kinds, (k != kind) = true :=
    fun hnot k hk => bne_iff_ne.2 fun heq => hnot (heq ▸ hk)
  have htake : (before ++ kind :: after).takeWhile (· != kind) = before := by
    rw [List.takeWhile_append_of_pos (hkeep hbefore), List.takeWhile_cons_of_neg (by simp),
      List.append_nil]
  refine ⟨after, by rw [htake], ?_, htake.symm ▸ hbefore, hafter⟩
  rw [htake, List.filter_append, List.filter_cons_of_neg (by simp),
    List.filter_eq_self.2 (hkeep hbefore), List.filter_eq_self.2 (hkeep hafter)]

/-- Two orders in which the sections come out the same but for one that fails. -/
def Alike (answers : Answers) (scope : Scope) (order order' : List SectionKind)
    (kind : SectionKind) : Prop :=
  ∀ other, other ≠ kind →
    outcomeOf ((answers.turns scope order (answers.initial scope)).1.lookup other) =
      outcomeOf ((answers.turns scope order' (answers.initial scope)).1.lookup other)

theorem text_without (scope : Scope) (kind : SectionKind) :
    Preamble.text (scope.without kind).config (scope.without kind).outputRoot =
      Preamble.text scope.config scope.outputRoot := by
  unfold Preamble.text
  rw [Scope.resources_without]
  rfl

theorem serial_without (answers : Answers) (scope : Scope) {order : List SectionKind}
    (hkind : kind ∉ order) :
    answers.serial (scope.without kind) order = answers.serial scope order := by
  have hinitial : answers.initial (scope.without kind) = answers.initial scope := rfl
  unfold serial
  rw [hinitial, turns_without answers scope hkind, text_without]

/-- The file is the same without a section that fails exactly when, if the others come out the same,
the same is put off. -/
theorem serial_eq_iff {order order' : List SectionKind} {error : Error}
    (hfailed : (answers.turns scope order (answers.initial scope)).1.lookup kind =
      some (.error error)) (hkind : kind ∉ order') (halike : answers.Alike scope order order' kind) :
    (answers.serial scope order).2 = (answers.serial scope order').2 ↔
      (answers.turns scope order (answers.initial scope)).2.deferred.Perm
        (answers.turns scope order' (answers.initial scope)).2.deferred := by
  have hbodies : bodies (answers.turns scope order (answers.initial scope)).1 SectionKind.order =
      bodies (answers.turns scope order' (answers.initial scope)).1 SectionKind.order := by
    refine bodies_congr (fun other => ?_) _
    by_cases hother : other = kind
    · rw [hother, hfailed, lookup_turns_of_not_mem hkind]
      rfl
    · exact bodyOf_eq (halike other hother)
  have hserial : ∀ order, (answers.serial scope order).2 =
      (Preamble.text scope.config scope.outputRoot ++ "\n") ++
        (bodies (answers.turns scope order (answers.initial scope)).1 SectionKind.order ++
          Outlet.linesText (Outlet.ascending
            (answers.turns scope order (answers.initial scope)).2.deferred)) := fun _ => rfl
  rw [hserial, hserial, hbodies]
  constructor
  · intro h
    have htoList := congrArg String.toList h
    simp only [String.toList_append, List.append_cancel_left_eq] at htoList
    exact perm_of_linesText (String.toList_inj.1 htoList)
  · intro hperm
    rw [Outlet.ascending_eq_of_perm hperm]

/-! ## Demands that can be met -/

/-- Whatever is declared has a text. -/
theorem texts_ne_nil {index : Option InstanceIndex} {d : Demand} (h : scope.Feasible index d) :
    scope.texts index d ≠ [] := by
  cases d with
  | base64Content => exact List.cons_ne_nil _ _
  | storageObject => exact List.cons_ne_nil _ _
  | resourceType name =>
    obtain ⟨known, validator, rfl, hown, hresult, hdefault⟩ := Scope.feasible_resourceType h
    rw [Scope.texts, Scope.declarations, hresult]
    simp only [Scope.typeDeclarations]
    cases hpaths : known.paths name with
    | nil => exact List.cons_ne_nil _ _
    | cons path rest =>
      obtain ⟨default, hdef⟩ := hdefault (by rw [hpaths]; exact List.cons_ne_nil _ _)
      rw [hdef]
      exact List.cons_ne_nil _ _

/-- Of demands that can be met none is left out by others of them that have the same texts. -/
theorem mem_of_texts {index : Option InstanceIndex} {full bare : List Demand} (hfull : full.Nodup)
    (hbare : bare.Nodup) (hsubset : ∀ d ∈ bare, d ∈ full)
    (hfeasible : ∀ d ∈ full, scope.Feasible index d)
    (h : (full.flatMap (scope.texts index)).Perm (bare.flatMap (scope.texts index))) {d : Demand}
    (hd : d ∈ full) : d ∈ bare := by
  have hsplit : full.Perm (bare ++ full.filter (· ∉ bare)) := by
    refine (List.perm_ext_iff_of_nodup hfull ?_).2 fun e => ?_
    · refine List.nodup_append.2 ⟨hbare, hfull.filter _, ?_⟩
      rintro e he _ he' rfl
      exact absurd he (by simpa using (List.mem_filter.1 he').2)
    · simp only [List.mem_append, List.mem_filter, decide_eq_true_eq]
      have hmem := hsubset e
      tauto
  have hlength := (h.symm.trans (hsplit.flatMap_right _)).length_eq
  rw [List.flatMap_append, List.length_append] at hlength
  have hnone : (full.filter (· ∉ bare)).flatMap (scope.texts index) = [] :=
    List.length_eq_zero_iff.1 (by omega)
  by_contra hnot
  exact texts_ne_nil (hfeasible d hd)
    (List.flatMap_eq_nil_iff.1 hnone d (List.mem_filter.2 ⟨hd, by simpa using hnot⟩))

variable {order : List SectionKind}

/-- If everything that a section leaves can be met, it is complete in itself, together with what was
declared before. -/
theorem settled_of_leaves
    (h : ∀ d, answers.Leaves scope order kind d →
      ¬ scope.Doomed (answers.initial scope).index d) :
    ∃ settled : Demand → Prop, scope.Settled (answers.initial scope).index settled ∧
      Scope.Ahead settled (answers.turn scope kind (answers.found scope order kind)).2
        (answers.found scope order kind) ∧
      (∀ d, answers.Leaves scope order kind d → settled d) ∧
      ∀ d, settled d → d.identity ∈ (answers.found scope order kind).claimed ∨
        answers.Leaves scope order kind d := by
  obtain ⟨made, lost, hbefore⟩ := turns_grow answers scope (order.takeWhile (· != kind))
    (answers.initial scope)
  obtain ⟨made', lost', hturn, -⟩ := turn_grows answers scope kind (answers.found scope order kind)
  have hindex : (answers.found scope order kind).index = (answers.initial scope).index :=
    hbefore.index_eq
  rw [hindex] at hturn
  have hboth := hbefore.trans hturn
  have hmem := hboth.mem_claimed rfl
  refine ⟨fun d => d.identity ∈ (answers.turn scope kind (answers.found scope order kind)).2.claimed ∧
    ¬ scope.Doomed (answers.initial scope).index d, ⟨?_, ?_⟩, ⟨?_, ?_, ?_, ?_⟩, ?_, ?_⟩
  · rintro d ⟨hd, hnot⟩ c hc
    have hc' : ¬ scope.Doomed (answers.initial scope).index c := fun hdoomed =>
      hnot (.wanting hc hdoomed)
    refine ⟨(hboth.supported d ((hmem d).1 hd) c hc).resolve_right ?_, hc'⟩
    exact fun hlost => hc' (hboth.doomed c hlost.1)
  · rintro d ⟨hd, -⟩
    exact hboth.feasible d ((hmem d).1 hd)
  · exact hturn.index_eq
  · exact hboth.nodup_claimed .nil
  · exact hbefore.nodup_claimed .nil
  · intro identity
    constructor
    · intro hid
      by_cases hfound : identity ∈ (answers.found scope order kind).claimed
      · exact Or.inl hfound
      · have hmade := hboth.claimed.mem_iff.1 hid
        rw [show (answers.initial scope).claimed = [] from rfl, List.append_nil] at hmade
        obtain ⟨d, hd, rfl⟩ := List.mem_map.1 hmade
        exact Or.inr ⟨d, ⟨hid, h d ⟨hfound, hid⟩⟩, rfl⟩
    · rintro (hid | ⟨d, ⟨hd, -⟩, rfl⟩)
      · exact hturn.claimed_mono hid
      · exact hd
  · exact fun d hd => ⟨hd.2, h d hd⟩
  · rintro d ⟨hd, -⟩
    by_cases hfound : d.identity ∈ (answers.found scope order kind).claimed
    · exact Or.inl hfound
    · exact Or.inr ⟨hfound, hd⟩

/-- If everything that a section leaves can be met, the others come out the same without it, and what
is declared in the end is at most what it leaves more. -/
theorem alike_of_leaves (hnodup : order.Nodup) (hmem : kind ∈ order)
    (h : ∀ d, answers.Leaves scope order kind d →
      ¬ scope.Doomed (answers.initial scope).index d) :
    answers.Alike scope order (order.filter (· != kind)) kind ∧
      ∃ settled : Demand → Prop,
        Scope.Ahead settled (answers.turns scope order (answers.initial scope)).2
          (answers.turns scope (order.filter (· != kind)) (answers.initial scope)).2 ∧
        (∀ d, answers.Leaves scope order kind d → settled d) ∧
        ∀ d, settled d → answers.Leaves scope order kind d ∨ d.identity ∈
          (answers.turns scope (order.filter (· != kind)) (answers.initial scope)).2.claimed := by
  obtain ⟨settled, hset, hahead, hleaves, hcases⟩ := settled_of_leaves h
  obtain ⟨after, horder, hfilter, -, -⟩ := exists_split hnodup hmem
  have hfound : answers.found scope order kind =
      (answers.turns scope (order.takeWhile (· != kind)) (answers.initial scope)).2 := rfl
  have hfull := answers.turns_append scope (order.takeWhile (· != kind)) (kind :: after)
    (answers.initial scope)
  have hbare := answers.turns_append scope (order.takeWhile (· != kind)) after
    (answers.initial scope)
  rw [← hfound] at hfull hbare
  rw [← horder, turns_cons] at hfull
  rw [← hfilter] at hbare
  obtain ⟨made, lost, hgrow⟩ := turns_grow answers scope after (answers.found scope order kind)
  obtain ⟨made', lost', hgrow'⟩ := turns_grow answers scope (order.takeWhile (· != kind))
    (answers.initial scope)
  rw [← hfound] at hgrow'
  rw [← hgrow'.index_eq] at hset
  obtain ⟨hresults, hlast⟩ := turns_ahead answers after hset hahead
  refine ⟨fun other hother => ?_, settled, ?_, hleaves, fun d hd => ?_⟩
  · rw [hfull, hbare, hresults, List.lookup_append, List.lookup_append,
      lookup_cons_of_ne hother]
  · rw [hfull, hbare]
    exact hlast
  · refine (hcases d hd).symm.imp_right fun hclaimed => ?_
    rw [hbare]
    exact hgrow.claimed_mono hclaimed

/-- Then the same is put off exactly when everything that the section leaves is declared without it
as well. -/
theorem deferred_perm_iff (hnodup : order.Nodup) (hmem : kind ∈ order)
    (h : ∀ d, answers.Leaves scope order kind d →
      ¬ scope.Doomed (answers.initial scope).index d) :
    (answers.turns scope order (answers.initial scope)).2.deferred.Perm
        (answers.turns scope (order.filter (· != kind)) (answers.initial scope)).2.deferred ↔
      ∀ d, answers.Leaves scope order kind d → d.identity ∈
        (answers.turns scope (order.filter (· != kind)) (answers.initial scope)).2.claimed := by
  obtain ⟨-, settled, hahead, hleaves, hcases⟩ := alike_of_leaves hnodup hmem h
  obtain ⟨full, lost, hfull⟩ := turns_grow answers scope order (answers.initial scope)
  obtain ⟨bare, lost', hbare⟩ :=
    turns_grow answers scope (order.filter (· != kind)) (answers.initial scope)
  have hiff : ∀ d, d ∈ full ↔ d ∈ bare ∨ settled d := by
    intro d
    rw [← hfull.mem_claimed rfl, ← hbare.mem_claimed rfl, hahead.mem_iff]
    refine or_congr_right ⟨?_, fun hd => ⟨d, hd, rfl⟩⟩
    rintro ⟨e, he, heq⟩
    exact Demand.identity_injective heq ▸ he
  have hfulltexts := hfull.deferred
  have hbaretexts := hbare.deferred
  rw [show (answers.initial scope).deferred = [] from rfl, List.nil_append]
    at hfulltexts hbaretexts
  constructor
  · intro hperm d hd
    have htexts := hfulltexts.symm.trans (hperm.trans hbaretexts)
    exact (hbare.mem_claimed rfl d).2 (mem_of_texts hfull.nodup hbare.nodup
      (fun e he => (hiff e).2 (Or.inl he)) hfull.feasible htexts ((hiff d).2 (Or.inr (hleaves d hd))))
  · intro hdeclared
    have hsame : full.Perm bare := by
      refine (List.perm_ext_iff_of_nodup hfull.nodup hbare.nodup).2 fun d => ?_
      rw [hiff]
      refine ⟨fun hd => hd.elim id fun hset => ?_, Or.inl⟩
      exact (hbare.mem_claimed rfl d).1 ((hcases d hset).elim (hdeclared d) id)
    exact hfulltexts.trans ((hsame.flatMap_right _).trans hbaretexts.symm)

end Answers

/-! ## Runs -/

/-- Files that leave an output alike are the same. -/
theorem Outlet.text_eq_of_conclude {outlet after : Outlet} {text text' : String}
    (h : outlet.conclude text = (after, .ok ())) (h' : outlet.conclude text' = (after, .ok ())) :
    text = text' := by
  have hbytes := (bytes_of_conclude h).symm.trans (bytes_of_conclude h')
  exact Utf8.encode_injective (List.append_cancel_left hbytes)

/-- A run that gives a report has written its file. -/
theorem Outlet.conclude_of_report {outlet : Outlet} {text : String} {report given : Report}
    (h : (outlet.conclude text).2.map (fun _ => report) = .ok given) :
    given = report ∧ outlet.conclude text = ((outlet.conclude text).1, .ok ()) := by
  cases hwritten : outlet.conclude text with
  | mk after result =>
    rw [hwritten] at h
    cases result with
    | error error => cases h
    | ok _ => exact ⟨(Except.ok.inj h).symm, rfl⟩

/-- Two runs end with a report and have written the same, and all sections but one came out the
same. -/
def Generation.AgreeBut (kind : SectionKind) (generation generation' : Generation) : Prop :=
  ∃ report report', generation.result = .ok report ∧ generation'.result = .ok report' ∧
    generation.outlet = generation'.outlet ∧
    ∀ other, other ≠ kind → ∀ outcome, (other, outcome) ∈ report ↔ (other, outcome) ∈ report'

/-- What that means for runs that write these files and give these reports if they can. -/
theorem Generation.agreeBut_iff {generation generation' : Generation} {outlet : Outlet}
    {text text' : String} {report report' : Report}
    (hresult : generation.result = (outlet.conclude text).2.map fun _ => report)
    (houtlet : generation.outlet = (outlet.conclude text).1)
    (hresult' : generation'.result = (outlet.conclude text').2.map fun _ => report')
    (houtlet' : generation'.outlet = (outlet.conclude text').1)
    {given : Report} (h : generation.result = .ok given) :
    generation.AgreeBut kind generation' ↔ text = text' ∧
      ∀ other, other ≠ kind → ∀ outcome, (other, outcome) ∈ report ↔ (other, outcome) ∈ report' := by
  obtain ⟨rfl, hwritten⟩ := Outlet.conclude_of_report (hresult.symm.trans h)
  constructor
  · rintro ⟨_, _, hfirst, hsecond, hsame, hsections⟩
    obtain ⟨rfl, -⟩ := Outlet.conclude_of_report (hresult.symm.trans hfirst)
    obtain ⟨rfl, hwritten'⟩ := Outlet.conclude_of_report (hresult'.symm.trans hsecond)
    rw [← houtlet', ← hsame, houtlet] at hwritten'
    exact ⟨Outlet.text_eq_of_conclude hwritten hwritten', hsections⟩
  · rintro ⟨rfl, hsections⟩
    refine ⟨_, _, h, ?_, houtlet.trans houtlet'.symm, hsections⟩
    rw [hresult', hwritten]
    rfl

/-! ## Runs and their orders -/

namespace Answers

theorem mem_serial {order : List SectionKind} {outcome : Outcome} :
    (kind, outcome) ∈ (answers.serial scope order).1 ↔
      outcomeOf ((answers.turns scope order (answers.initial scope)).1.lookup kind) = outcome := by
  constructor
  · intro h
    obtain ⟨other, -, heq⟩ := List.mem_map.1 h
    cases heq
    rfl
  · rintro rfl
    exact List.mem_map.2 ⟨kind, by cases kind <;> decide, rfl⟩

/-- The sections come out alike exactly when the reports say so. -/
theorem alike_iff {order order' : List SectionKind} :
    answers.Alike scope order order' kind ↔
      ∀ other, other ≠ kind → ∀ outcome, (other, outcome) ∈ (answers.serial scope order).1 ↔
        (other, outcome) ∈ (answers.serial scope order').1 := by
  refine forall_congr' fun other => forall_congr' fun _ => ?_
  simp only [mem_serial]
  exact ⟨fun h outcome => by rw [h], fun h => ((h _).2 rfl)⟩

end Answers

section

variable {σ : Type} {source : Source (StateM σ)} {config : Config} {outputRoot : String}
  {schedule : List SectionKind} {outlet : Outlet} {state : σ} {report : Report} {error : Error}

/-- In the order that the schedule decides on, a section fails that is reported to have failed. -/
theorem lookup_of_failed (hsteady : source.Steady answers) {catalog : TypeCatalog}
    (htypes : answers.types = .ok catalog)
    (h : (generateWith schedule source config outputRoot outlet state).1.result = .ok report)
    (hfailed : (kind, .failed error) ∈ report) :
    let scope : Scope := ⟨catalog, config, outputRoot⟩
    (answers.turns scope (orderOf config schedule) (answers.initial scope)).1.lookup kind =
      some (.error error) := by
  intro scope
  obtain ⟨hresult, -⟩ :=
    generateWith_orderOf hsteady htypes config outputRoot schedule outlet state
  obtain ⟨rfl, -⟩ := Outlet.conclude_of_report (hresult.symm.trans h)
  have houtcome := Answers.mem_serial.1 hfailed
  cases hlookup : (answers.turns scope (orderOf config schedule)
      (answers.initial scope)).1.lookup kind with
  | none => rw [hlookup] at houtcome; cases houtcome
  | some result => rw [hlookup] at houtcome; cases result <;> cases houtcome; rfl

/-- A run with a section that fails agrees with the run without it exactly when the sections come out
alike and the same is put off in the order that the schedule decides on, with it and without. -/
theorem agreeBut_iff_alike (hsteady : source.Steady answers) (hkind : kind ≠ .resources)
    {catalog : TypeCatalog} (htypes : answers.types = .ok catalog)
    (h : (generateWith schedule source config outputRoot outlet state).1.result = .ok report)
    (hfailed : (kind, .failed error) ∈ report) (state' : σ) :
    let scope : Scope := ⟨catalog, config, outputRoot⟩
    let order := orderOf config schedule
    let others := order.filter (· != kind)
    (generateWith schedule source config outputRoot outlet state).1.AgreeBut kind
        (generateWith schedule source (config.without kind) outputRoot outlet state').1 ↔
      answers.Alike scope order others kind ∧
        (answers.turns scope order (answers.initial scope)).2.deferred.Perm
          (answers.turns scope others (answers.initial scope)).2.deferred := by
  intro scope order others
  obtain ⟨hresult, houtlet⟩ :=
    generateWith_orderOf hsteady htypes config outputRoot schedule outlet state
  obtain ⟨hresult', houtlet'⟩ :=
    generateWith_orderOf hsteady htypes (config.without kind) outputRoot schedule outlet state'
  have hothers : kind ∉ others := fun hmem => by simpa using (List.mem_filter.1 hmem).2
  have hserial : answers.serial ⟨catalog, config.without kind, outputRoot⟩
      (orderOf (config.without kind) schedule) = answers.serial scope others := by
    rw [orderOf_without hkind]
    exact Answers.serial_without answers scope hothers
  rw [hserial] at hresult' houtlet'
  rw [Generation.agreeBut_iff hresult houtlet hresult' houtlet' h, ← Answers.alike_iff, and_comm]
  exact and_congr_right fun halike =>
    Answers.serial_eq_iff (lookup_of_failed hsteady htypes h hfailed) hothers halike

/-- A section of artifacts fails in a run that ends with a report. The run by the same schedule in
which the section is disabled writes the same, and its other sections come out the same, exactly when
the sections come out alike and the same declarations are put off if they are composed in the order
that the schedule decides on, with that section and without it.

If everything can be met that the section left declared in its turn, that is so exactly when all of it
is declared without the section as well; in particular if the section left nothing. -/
theorem generate_without_iff (hsteady : source.Steady answers) (hkind : kind ≠ .resources)
    (h : (generateWith schedule source config outputRoot outlet state).1.result = .ok report)
    (hfailed : (kind, .failed error) ∈ report) (state' : σ) :
    ∃ catalog, answers.types = .ok catalog ∧
      let scope : Scope := ⟨catalog, config, outputRoot⟩
      let order := orderOf config schedule
      let others := order.filter (· != kind)
      let agree := (generateWith schedule source config outputRoot outlet state).1.AgreeBut kind
        (generateWith schedule source (config.without kind) outputRoot outlet state').1
      (agree ↔ answers.Alike scope order others kind ∧
        (answers.turns scope order (answers.initial scope)).2.deferred.Perm
          (answers.turns scope others (answers.initial scope)).2.deferred) ∧
      ((∀ d, answers.Leaves scope order kind d →
          ¬ scope.Doomed (answers.initial scope).index d) →
        (agree ↔ ∀ d, answers.Leaves scope order kind d →
          d.identity ∈ (answers.turns scope others (answers.initial scope)).2.claimed)) := by
  obtain ⟨catalog, next, hnext, -⟩ := report_eq_of_ok h
  have htypes : answers.types = .ok catalog :=
    (hsteady.types _ ⟨state, congrArg Prod.fst hnext⟩).symm
  have hiff := agreeBut_iff_alike hsteady hkind htypes h hfailed state'
  refine ⟨catalog, htypes, hiff, fun hmet => hiff.trans ?_⟩
  have hlookup := lookup_of_failed hsteady htypes h hfailed
  have hmem : kind ∈ orderOf config schedule := by
    by_contra hnot
    cases (Answers.lookup_turns_of_not_mem hnot _).symm.trans hlookup
  have hnodup : (orderOf config schedule).Nodup :=
    (orderOf_perm config schedule).nodup_iff.2 (List.Nodup.filter _ (by decide))
  rw [Answers.deferred_perm_iff hnodup hmem hmet]
  exact and_iff_right (Answers.alike_of_leaves hnodup hmem hmet).1

end

/-! ## Workspaces whose scripts fail -/

/-- A section among the failures of a report is reported to have failed with some error. -/
theorem Report.exists_failed {report : Report} (h : kind ∈ report.failures.map Prod.fst) :
    ∃ error, (kind, .failed error) ∈ report := by
  obtain ⟨⟨_, error⟩, hfailure, rfl⟩ := List.mem_map.1 h
  obtain ⟨⟨other, outcome⟩, hmem, hsome⟩ := List.mem_filterMap.1 hfailure
  cases outcome with
  | generated => cases hsome
  | disabled => cases hsome
  | failed error' => cases hsome; exact ⟨error, hmem⟩

/-- The board at the end of a run on the workspace with a malformed script. -/
def malformedBoard : Board :=
  finalBoard [] (malformed.source : Source (StateM Unit)) ⟨[], {}, ""⟩ ()

/-- Its script leaves nothing behind when it fails, so nothing changes without it. -/
theorem generate_without_malformed : ∃ error,
    (malformed.source : Source (StateM Unit)).Steady malformed.answers ∧
    SectionKind.scripts ≠ .resources ∧
    (generateWith [] (malformed.source : Source (StateM Unit)) {} "" (.buffer "") ()).1.result =
      .ok malformedBoard.report ∧
    (SectionKind.scripts, .failed error) ∈ malformedBoard.report ∧
    (generateWith [] (malformed.source : Source (StateM Unit)) {} "" (.buffer "")
      ()).1.AgreeBut .scripts
      (generateWith [] (malformed.source : Source (StateM Unit)) (Config.without {} .scripts) ""
        (.buffer "") ()).1 := by
  have htypes : (malformed.source : Source (StateM Unit)).resourceTypes () = (.ok [], ()) := rfl
  have hresult : (generateWith [] (malformed.source : Source (StateM Unit)) {} "" (.buffer "")
      ()).1.result = .ok malformedBoard.report :=
    (generateWith_eq [] (malformed.source : Source (StateM Unit)) {} "" (.buffer "") htypes).1
  have hfails : SectionKind.scripts ∈ malformedBoard.report.failures.map Prod.fst := by
    decide +kernel
  obtain ⟨error, hmem⟩ := Report.exists_failed hfails
  refine ⟨error, malformed.steady, by decide, hresult, hmem, ?_⟩
  obtain ⟨catalog, htypes, -, hmet⟩ :=
    generate_without_iff malformed.steady (by decide) hresult hmem ()
  cases htypes
  have hnothing : (malformed.answers.turn ⟨[], {}, ""⟩ .scripts (malformed.answers.found
      ⟨[], {}, ""⟩ (orderOf {} []) .scripts)).2.claimed = [] := by
    decide +kernel
  have hleaves : ∀ d, ¬ malformed.answers.Leaves ⟨[], {}, ""⟩ (orderOf {} []) .scripts d := by
    intro d hd
    have hclaimed := hd.2
    rw [hnothing] at hclaimed
    cases hclaimed
  exact (hmet fun d hd => absurd hd (hleaves d)).2 fun d hd => absurd hd (hleaves d)

/-- A workspace with a script whose argument is base64 text, and a malformed one. -/
def stray : MemoryCatalog :=
  { scripts := [
      { path := "f/a"
        schema := some (.obj [("type", .str "string"), ("contentEncoding", .str "base64")]) },
      { path := "f/b", schema := some (.obj [("type", .num (.int 3))]) }] }

/-- The board at the end of a run on it. -/
def strayBoard : Board := finalBoard [] (stray.source : Source (StateM Unit)) ⟨[], {}, ""⟩ ()

/-- The board at the end of a run on it without the scripts. -/
def strayBoardWithout : Board :=
  finalBoard [] (stray.source : Source (StateM Unit)) ⟨[], Config.without {} .scripts, ""⟩ ()

/-- All sections but that of the scripts contribute to both files. -/
theorem strayBoard_contributions (hkind : kind ≠ .scripts) :
    (strayBoard.contribution kind).isSome ∧ (strayBoardWithout.contribution kind).isSome := by
  cases kind <;> first | exact absurd rfl hkind | decide +kernel

/-- The section of the scripts fails, and the validator of base64 text stands in the file all the
same. If the section is disabled it does not, and nothing else is different. -/
theorem stray_declaration : ∃ error,
    (generateWith [] (stray.source : Source (StateM Unit)) {} "" (.buffer "") ()).1.result =
      .ok strayBoard.report ∧
    (SectionKind.scripts, .failed error) ∈ strayBoard.report ∧
    (generateWith [] (stray.source : Source (StateM Unit)) (Config.without {} .scripts) ""
      (.buffer "") ()).1.result = .ok strayBoardWithout.report ∧
    (generateWith [] (stray.source : Source (StateM Unit)) {} "" (.buffer "") ()).1.outlet ≠
      (generateWith [] (stray.source : Source (StateM Unit)) (Config.without {} .scripts) ""
        (.buffer "") ()).1.outlet := by
  have htypes : (stray.source : Source (StateM Unit)).resourceTypes () = (.ok [], ()) := rfl
  have hresult : (generateWith [] (stray.source : Source (StateM Unit)) {} "" (.buffer "")
      ()).1.result = .ok strayBoard.report :=
    (generateWith_eq [] (stray.source : Source (StateM Unit)) {} "" (.buffer "") htypes).1
  have hresult' : (generateWith [] (stray.source : Source (StateM Unit)) (Config.without {} .scripts)
      "" (.buffer "") ()).1.result = .ok strayBoardWithout.report :=
    (generateWith_eq [] (stray.source : Source (StateM Unit)) (Config.without {} .scripts) ""
      (.buffer "") htypes).1
  have hfails : SectionKind.scripts ∈ strayBoard.report.failures.map Prod.fst := by
    decide +kernel
  obtain ⟨error, hmem⟩ := Report.exists_failed hfails
  refine ⟨error, hresult, hmem, hresult', fun hsame => ?_⟩
  have hsections : ∀ other, other ≠ SectionKind.scripts → ∀ outcome,
      (other, outcome) ∈ strayBoard.report ↔ (other, outcome) ∈ strayBoardWithout.report := by
    intro other hother outcome
    obtain ⟨hwith, hwithout⟩ := strayBoard_contributions hother
    rw [mem_report, mem_report, Board.outcome_of_contribution hwith,
      Board.outcome_of_contribution hwithout]
  have hagree : (generateWith [] (stray.source : Source (StateM Unit)) {} "" (.buffer "")
      ()).1.AgreeBut .scripts (generateWith [] (stray.source : Source (StateM Unit))
        (Config.without {} .scripts) "" (.buffer "") ()).1 :=
    ⟨_, _, hresult, hresult', hsame, hsections⟩
  have hanswer : stray.answers.types = .ok [] := rfl
  obtain ⟨-, hperm⟩ := (agreeBut_iff_alike stray.steady (by decide) hanswer hresult
    hmem ()).1 hagree
  have hone : (stray.answers.turns ⟨[], {}, ""⟩ (orderOf {} []) (stray.answers.initial
      ⟨[], {}, ""⟩)).2.deferred.length = 1 := by
    decide +kernel
  have hnone : (stray.answers.turns ⟨[], {}, ""⟩ ((orderOf {} []).filter (· != .scripts))
      (stray.answers.initial ⟨[], {}, ""⟩)).2.deferred.length = 0 := by
    decide +kernel
  have hlength := hperm.length_eq
  rw [hone, hnone] at hlength
  cases hlength

end SchemaClient
