/-
SchemaClient.Proofs.Generation.Order — the order that a schedule decides on.

If the listings of a workspace always give the same answers, it takes a section always the same
number of steps until it is composed, whatever the others do. So the order in which the sections are
composed can be read off the schedule alone.

* `reached` — the sections that have got that far after some steps.
* `Board.Paced` — each section is where its own steps bring it, and the others do not matter.
* `orderOf` — the order of the enabled sections that a schedule decides on.
* `finalBoard_orderOf`, `generateWith_orderOf` — the run comes out like this order.
-/
import SchemaClient.Proofs.Generation.Schedule

namespace SchemaClient

/-! ## Counting steps -/

/-- The step in which a section is composed, if it gets as far as that. -/
def SectionKind.turn : SectionKind → Nat
  | .resources => 2
  | _ => 3

theorem SectionKind.turn_pos (kind : SectionKind) : 0 < kind.turn := by
  cases kind <;> decide

/-- The sections that have had their turn after some steps, the last first; the last step first. -/
def reached : List SectionKind → List SectionKind
  | [] => []
  | kind :: past =>
    if past.count kind + 1 = kind.turn then kind :: reached past else reached past

theorem count_reached (past : List SectionKind) (kind : SectionKind) :
    (reached past).count kind = if kind.turn ≤ past.count kind then 1 else 0 := by
  have hturn := kind.turn_pos
  induction past with
  | nil => exact (if_neg (Nat.not_le_of_lt hturn)).symm
  | cons first past ih =>
    by_cases hkind : first = kind
    · subst hkind
      rw [List.count_cons_self, reached]
      split
      · rw [List.count_cons_self, ih, if_neg (by omega), if_pos (by omega)]
      · rw [ih]
        exact if_congr (by omega) rfl rfl
    · rw [List.count_cons_of_ne hkind, ← ih, reached]
      split
      · rw [List.count_cons_of_ne hkind]
      · rfl

/-! ## Where a section is after its steps -/

variable {σ : Type} {source : Source (StateM σ)} {answers : Answers} {scope : Scope}

/-- A section that has taken so many steps. -/
def Section.Paced (answers : Answers) (scope : Scope) (taken : Nat) (s : Section) : Prop :=
  match s.stage with
  | .idle => taken = 0
  | .listed _ => taken = 1 ∧ s.kind.turn = 3
  | .gathered _ => taken + 1 = s.kind.turn
  | .composed _ => s.kind.turn ≤ taken
  | .finished _ => s.kind.turn ≤ taken ∨ ∃ error, answers.material scope s.kind = .error error

namespace Section

variable {s s' : Section} {ledger after : Ledger} {compositions : List Composition} {taken : Nat}

theorem turn_of_lists {kind : SectionKind} {listing : Listing Artifact}
    (h : Lists source kind listing) : kind.turn = 3 := by
  cases kind with
  | resources => cases h
  | scripts => rfl
  | flows => rfl

theorem paced_conclude (s : Section) (result : Except Error Unit) :
    (s.conclude result).Paced answers scope taken ↔
      s.kind.turn ≤ taken ∨ ∃ error, answers.material scope s.kind = .error error := by
  cases result <;> rfl

/-- A section that has asked for the index has it at hand, or will never be composed. -/
theorem paced_of_indexes (hsteady : source.Steady answers) {result : Except Error InstanceIndex}
    {next : InstanceIndex → Material} (hindexes : scope.Indexes source ledger result after)
    (hwants : Wants source scope s.kind) (htaken : taken + 1 = s.kind.turn) :
    (s.proceed result fun index => .gathered (next index)).Paced answers scope taken := by
  cases hindexes with
  | known => exact htaken
  | found => exact htaken
  | failed _ hgives hlisting =>
    exact (paced_conclude s (.error _)).2
      (Or.inr ⟨_, hsteady.material_of_fails (.index hwants ⟨_, hgives, hlisting⟩)⟩)

/-- With each step a section moves on as far as a step goes. -/
theorem Takes.paced (hsteady : source.Steady answers) (h : Takes source scope s ledger s' after)
    (hsound : Sound source scope ledger.index compositions s)
    (hpaced : s.Paced answers scope taken) : s'.Paced answers scope (taken + 1) := by
  obtain ⟨kind, stage, outlet, announced⟩ := s
  cases h with
  | index hstage hkind hindexes =>
    change stage = _ at hstage
    subst hstage
    cases hkind
    cases hpaced
    exact paced_of_indexes (s := ⟨.resources, .idle, outlet, announced ++ [.fetching]⟩) hsteady
      hindexes (Or.inl rfl) rfl
  | @list listing hstage hlists =>
    change stage = _ at hstage
    subst hstage
    cases hpaced
    unfold Section.list
    cases hcomplete : listing.complete with
    | ok items => exact ⟨rfl, turn_of_lists hlists⟩
    | error error =>
      exact (paced_conclude ⟨kind, .idle, outlet, announced ++ [.fetching]⟩ (.error error)).2
        (Or.inr ⟨error, hsteady.material_of_fails (.listing hlists hcomplete)⟩)
  | @await _ items _ hstage hneeds hindexes =>
    change stage = _ at hstage
    subst hstage
    obtain ⟨rfl, hturn⟩ := hpaced
    exact paced_of_indexes (s := ⟨kind, .listed items, outlet, announced⟩) hsteady hindexes
      (Or.inr ⟨items, hsound.2.2, hneeds⟩) hturn.symm
  | gather hstage =>
    change stage = _ at hstage
    subst hstage
    obtain ⟨rfl, hturn⟩ := hpaced
    exact hturn.symm
  | @compose _ material result hstage =>
    change stage = _ at hstage
    subst hstage
    have hturn : kind.turn ≤ taken + 1 := Nat.le_of_eq hpaced.symm
    cases result with
    | ok lines => exact hturn
    | error error => exact Or.inl hturn
  | emit hstage =>
    change stage = _ at hstage
    subst hstage
    exact (paced_conclude _ _).2 (Or.inl (Nat.le_succ_of_le hpaced))
  | rest hstage =>
    change stage = _ at hstage
    subst hstage
    exact hpaced.imp_left Nat.le_succ_of_le

/-- A section is composed in its turn, if what it is composed from can be had. -/
theorem Paced.mem_compositions (hsteady : source.Steady answers)
    (hpaced : s.Paced answers scope taken) (hsound : Sound source scope ledger.index compositions s)
    (hmaterial : ∀ c ∈ compositions, answers.material scope c.kind = .ok c.material) :
    s.kind ∈ compositions.map (·.kind) ↔
      (∃ material, answers.material scope s.kind = .ok material) ∧ s.kind.turn ≤ taken := by
  have hout : Uncomposed compositions s.kind → s.kind ∉ compositions.map (·.kind) := by
    intro huncomposed hmem
    obtain ⟨c, hc, heq⟩ := List.mem_map.1 hmem
    exact huncomposed c hc heq
  have hearly : Uncomposed compositions s.kind → taken < s.kind.turn →
      (s.kind ∈ compositions.map (·.kind) ↔
        (∃ material, answers.material scope s.kind = .ok material) ∧ s.kind.turn ≤ taken) :=
    fun huncomposed hlt => iff_of_false (hout huncomposed) fun h => Nat.not_le_of_lt hlt h.2
  have hcomposed : ∀ {material : Material} {result : Except Error (List String)},
      ⟨s.kind, material, result⟩ ∈ compositions →
      (s.kind.turn ≤ taken ∨ ∃ error, answers.material scope s.kind = .error error) →
      (s.kind ∈ compositions.map (·.kind) ↔
        (∃ material, answers.material scope s.kind = .ok material) ∧ s.kind.turn ≤ taken) := by
    intro material result hmem hturn
    have hok := hmaterial _ hmem
    refine iff_of_true (List.mem_map.2 ⟨_, hmem, rfl⟩) ⟨⟨material, hok⟩, hturn.resolve_right ?_⟩
    rintro ⟨error, herror⟩
    rw [hok] at herror
    cases herror
  obtain ⟨kind, stage, outlet, announced⟩ := s
  cases stage with
  | idle => exact hearly hsound.2 (by cases hpaced; exact kind.turn_pos)
  | listed items => exact hearly hsound.2.1 (by obtain ⟨rfl, hturn⟩ := hpaced; omega)
  | gathered material => exact hearly hsound.2.1 (Nat.lt_of_succ_le (Nat.le_of_eq hpaced))
  | composed lines =>
    obtain ⟨material, hmem⟩ := hsound.2
    exact hcomposed hmem (Or.inl hpaced)
  | finished result =>
    cases result with
    | ok _ =>
      obtain ⟨material, lines, hmem, -⟩ := hsound
      exact hcomposed hmem hpaced
    | error error =>
      rcases hsound with ⟨material, hmem⟩ | ⟨huncomposed, hfails⟩
      · exact hcomposed hmem hpaced
      · refine iff_of_false (hout huncomposed) ?_
        rintro ⟨⟨material, hok⟩, -⟩
        have herror := hsteady.material_of_fails hfails
        rw [hok] at herror
        cases herror

end Section

/-! ## The compositions of a run -/

namespace Board

variable {board board' : Board} {kind : SectionKind} {compositions : List Composition}
  {past : List SectionKind}

/-- After these steps, the last first, each section is where its own steps bring it. -/
def Paced (answers : Answers) (scope : Scope) (past : List SectionKind) (board : Board) : Prop :=
  ∀ s ∈ board.sections, s.Paced answers scope (past.count s.kind)

/-- Whether a section is one of these and gets as far as being composed. -/
def isComposed (answers : Answers) (scope : Scope) (kinds : List SectionKind)
    (kind : SectionKind) : Bool :=
  decide (kind ∈ kinds) && (answers.material scope kind).isOk

theorem isComposed_iff {kinds : List SectionKind} : isComposed answers scope kinds kind = true ↔
    kind ∈ kinds ∧ ∃ material, answers.material scope kind = .ok material := by
  rw [isComposed, Bool.and_eq_true, decide_eq_true_iff]
  refine and_congr_right fun _ => ?_
  cases answers.material scope kind <;> simp [Except.isOk, Except.toBool]

theorem Sound.mem_compositions (kind : SectionKind) (hsteady : source.Steady answers)
    (hsound : Sound source scope board compositions) (hpaced : board.Paced answers scope past) :
    kind ∈ compositions.map (·.kind) ↔
      isComposed answers scope board.kinds kind = true ∧ kind.turn ≤ past.count kind := by
  have hmaterial : ∀ c ∈ compositions, answers.material scope c.kind = .ok c.material :=
    fun c hc => hsteady.material_of_ready (hsound.gathered c hc) (hsound.ready c hc) hsound.index
  rw [isComposed_iff]
  by_cases hkind : kind ∈ board.kinds
  · obtain ⟨s, hs, rfl⟩ := List.mem_map.1 hkind
    rw [(hpaced s hs).mem_compositions hsteady (hsound.sections s hs) hmaterial]
    exact and_congr_left fun _ => ⟨fun h => ⟨hkind, h⟩, And.right⟩
  · refine iff_of_false (fun h => hkind ?_) fun h => hkind h.1.1
    obtain ⟨c, hc, rfl⟩ := List.mem_map.1 h
    exact hsound.among c hc

/-- A step moves its section on and no other. -/
theorem Takes.paced (hsteady : source.Steady answers) (h : Takes source scope kind board board')
    (hsound : Sound source scope board compositions) (hpaced : board.Paced answers scope past) :
    board'.Paced answers scope (kind :: past) := by
  cases h with
  | rest hmem =>
    intro s hs
    have hne : kind ≠ s.kind := fun heq => hmem (heq ▸ List.mem_map_of_mem hs)
    rw [List.count_cons_of_ne hne]
    exact hpaced s hs
  | @step ledger ledger' before rest s s' hbefore hs hrest hstep =>
    have hothers : ∀ t, t ∈ before ∨ t ∈ rest →
        t.Paced answers scope ((kind :: past).count t.kind) := by
      intro t ht
      rw [List.count_cons_of_ne fun heq => ht.elim (hbefore t) (hrest t) heq.symm]
      refine hpaced t ?_
      simp only [List.mem_append, List.mem_cons]
      exact ht.imp_right Or.inr
    intro t ht
    simp only [List.mem_append, List.mem_cons] at ht
    rcases ht with ht | rfl | ht
    · exact hothers t (Or.inl ht)
    · have hmem : s ∈ before ++ s :: rest := by simp
      have hown := hstep.paced hsteady (hsound.sections s hmem) (hpaced s hmem)
      rw [hstep.kind_eq, hs, List.count_cons_self]
      rwa [hs] at hown
    · exact hothers t (Or.inr ht)

/-- A step composes its section if it is the turn of a section that gets as far as that. -/
theorem Takes.composed (hsteady : source.Steady answers) (h : Takes source scope kind board board')
    (hsound : Sound source scope board compositions) (hpaced : board.Paced answers scope past)
    (hcomposed : (compositions.map (·.kind)).reverse =
      (reached past).filter (isComposed answers scope board.kinds)) :
    ∃ all, Sound source scope board' all ∧ (all.map (·.kind)).reverse =
      (reached (kind :: past)).filter (isComposed answers scope board.kinds) := by
  obtain ⟨more, hmore, hsub⟩ := h.sound hsound
  refine ⟨compositions ++ more, hmore, ?_⟩
  have hbefore := hsound.mem_compositions kind hsteady hpaced
  have hafter := hmore.mem_compositions kind hsteady (h.paced hsteady hsound hpaced)
  rw [h.kinds_eq, List.count_cons_self] at hafter
  have hnodup := hmore.nodup
  rw [List.map_append] at hafter hnodup ⊢
  rw [List.reverse_append, hcomposed, reached]
  rcases List.sublist_singleton.1 hsub with hnone | hone
  · -- nothing is composed: it is not the section's turn, or it does not get as far as that
    rw [hnone, List.append_nil] at hafter
    rw [hnone, List.reverse_nil, List.nil_append]
    split
    · have hnot : isComposed answers scope board.kinds kind ≠ true := fun hok => by
        have := (hbefore.1 (hafter.2 ⟨hok, by omega⟩)).2
        omega
      rw [List.filter_cons_of_neg hnot]
    · rfl
  · rw [hone] at hafter hnodup
    rw [hone, List.reverse_singleton, List.singleton_append]
    have hfresh : kind ∉ compositions.map (·.kind) := fun hmem =>
      (List.nodup_append.1 hnodup).2.2 kind hmem kind (List.mem_singleton_self kind) rfl
    obtain ⟨hok, hle⟩ := hafter.1 (by simp)
    have hnot : ¬ kind.turn ≤ past.count kind := fun hle' => hfresh (hbefore.2 ⟨hok, hle'⟩)
    rw [if_pos (by omega), List.filter_cons_of_pos hok]

/-- The compositions of a run come in the order in which the steps bring the sections to their
turn. -/
theorem play_composed (hsteady : source.Steady answers) (schedule : List SectionKind) (state : σ)
    (hsound : Sound source scope board compositions) (hpaced : board.Paced answers scope past)
    (hcomposed : (compositions.map (·.kind)).reverse =
      (reached past).filter (isComposed answers scope board.kinds)) :
    ∃ all, Sound source scope (play source scope schedule board state).1 all ∧
      (all.map (·.kind)).reverse =
        (reached (schedule.reverse ++ past)).filter (isComposed answers scope board.kinds) := by
  induction schedule generalizing board state compositions past with
  | nil => exact ⟨compositions, hsound, hcomposed⟩
  | cons kind rest ih =>
    have htakes := step_takes source scope kind hsound.nodup_kinds state
    obtain ⟨more, hmore, hnext⟩ := htakes.composed hsteady hsound hpaced hcomposed
    rw [← htakes.kinds_eq] at hnext ⊢
    rw [List.reverse_cons, List.append_assoc, List.singleton_append]
    exact ih _ hmore (htakes.paced hsteady hsound hpaced) hnext

end Board

/-! ## The order of a schedule -/

/-- The order in which a schedule, and then what is left of the run, brings the enabled sections to
their turn. -/
def orderOf (config : Config) (schedule : List SectionKind) : List SectionKind :=
  (reached (schedule ++ Board.sequential).reverse).reverse.filter (Board.isEnabled config)

theorem orderOf_perm (config : Config) (schedule : List SectionKind) :
    (orderOf config schedule).Perm (enabledKinds config) := by
  refine List.perm_iff_count.2 fun kind => ?_
  have hturn : kind.turn ≤ (schedule ++ Board.sequential).reverse.count kind := by
    rw [List.count_reverse, List.count_append]
    refine Nat.le_trans ?_ (Nat.le_add_left _ _)
    cases kind <;> decide
  by_cases henabled : Board.isEnabled config kind = true
  · rw [orderOf, enabledKinds, List.count_filter henabled, List.count_filter henabled,
      List.count_reverse, count_reached, if_pos hturn]
    cases kind <;> rfl
  · rw [orderOf, enabledKinds, List.count_eq_zero.2 fun h => henabled (List.mem_filter.1 h).2,
      List.count_eq_zero.2 fun h => henabled (List.mem_filter.1 h).2]

/-- A run comes out like the order that its schedule decides on. -/
theorem finalBoard_orderOf (scope : Scope) (hsteady : source.Steady answers)
    (schedule : List SectionKind) (state : σ) :
    let board := finalBoard schedule source scope state
    answers.serial scope (orderOf scope.config schedule) =
      (board.report, board.fileText scope.config scope.outputRoot) := by
  intro board
  have hstart := Board.start_sound source scope scope.config
  have hpaced : (Board.start scope.config).Paced answers scope [] := by
    intro s hs
    obtain ⟨kind, -, rfl⟩ := List.mem_map.1 hs
    rfl
  obtain ⟨compositions, hsound, hcomposed⟩ :=
    Board.play_composed hsteady (schedule ++ Board.sequential) state hstart hpaced rfl
  obtain ⟨-, -, hfinished, -⟩ := finalBoard_sound schedule source scope state
  have hkinds := kinds_finalBoard schedule source scope state
  refine hsound.serial_eq hsteady hfinished hkinds (orderOf_perm scope.config schedule) ?_
  rw [List.append_nil] at hcomposed
  rw [← List.reverse_reverse (compositions.map _), hcomposed, orderOf, ← List.filter_reverse]
  refine List.monotone_filter_right _ fun kind hkind => ?_
  have hmem := (Board.isComposed_iff.1 hkind).1
  rw [Board.kinds_start] at hmem
  exact (List.mem_filter.1 hmem).2

/-- A run is that of the order that its schedule decides on. -/
theorem generateWith_orderOf (hsteady : source.Steady answers) {catalog : TypeCatalog}
    (htypes : answers.types = .ok catalog) (config : Config) (outputRoot : String)
    (schedule : List SectionKind) (outlet : Outlet) (state : σ) :
    let serial := answers.serial ⟨catalog, config, outputRoot⟩ (orderOf config schedule)
    let generation := (generateWith schedule source config outputRoot outlet state).1
    generation.result = (outlet.conclude serial.2).2.map (fun _ => serial.1) ∧
      generation.outlet = (outlet.conclude serial.2).1 := by
  obtain ⟨next, hnext⟩ := resourceTypes_eq hsteady state
  exact generateWith_eq_serial htypes hnext
    (finalBoard_orderOf ⟨catalog, config, outputRoot⟩ hsteady schedule next) outlet

end SchemaClient
