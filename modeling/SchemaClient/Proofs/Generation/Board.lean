/-
SchemaClient.Proofs.Generation.Board — runs of the sections.

A schedule says which section takes the next step. Whatever the schedule, the sections of a run are
composed one after the other on one ledger, and this order is all that the schedule decides.

* `Board.Sound` — what is true of a board at every moment, with the list of its compositions.
* `Board.play_sound` — it stays true along every schedule. The compositions that a schedule adds
  come in the order in which the schedule names their sections.
* `Board.play_keeps` — what each step of a section keeps holds of all sections along every schedule.
* `Board.play_finished` — when the schedule is long enough every section is finished.
-/
import SchemaClient.Generation.Run
import SchemaClient.Proofs.Section.Progress

namespace SchemaClient

namespace Board

variable {σ : Type}

/-! ## One step -/

section

variable {kind : SectionKind} (act : Section → StateT Ledger (StateM σ) Section)

theorem update_cons_self {s : Section} (hs : s.kind = kind) (rest : List Section) (ledger : Ledger)
    (state : σ) :
    update kind act (s :: rest) ledger state =
      let first := act s ledger state
      let others := update kind act rest first.1.2 first.2
      ((first.1.1 :: others.1.1, others.1.2), others.2) := by
  rw [update, if_pos hs]
  rfl

theorem update_cons_of_ne {s : Section} (hs : s.kind ≠ kind) (rest : List Section) (ledger : Ledger)
    (state : σ) :
    update kind act (s :: rest) ledger state =
      let others := update kind act rest ledger state
      ((s :: others.1.1, others.1.2), others.2) := by
  rw [update, if_neg hs]
  rfl

theorem update_of_not_mem {sections : List Section} (h : ∀ s ∈ sections, s.kind ≠ kind)
    (ledger : Ledger) (state : σ) :
    update kind act sections ledger state = ((sections, ledger), state) := by
  induction sections with
  | nil => rfl
  | cons s rest ih =>
    have hrest := ih fun s hs => h s (List.mem_cons_of_mem _ hs)
    rw [update_cons_of_ne act (h s List.mem_cons_self), hrest]

/-- If no two sections are of one kind, at most one of them does something. -/
theorem update_eq {before rest : List Section} {s : Section} (hbefore : ∀ s ∈ before, s.kind ≠ kind)
    (hs : s.kind = kind) (hrest : ∀ s ∈ rest, s.kind ≠ kind) (ledger : Ledger) (state : σ) :
    update kind act (before ++ s :: rest) ledger state =
      ((before ++ (act s ledger state).1.1 :: rest, (act s ledger state).1.2),
        (act s ledger state).2) := by
  induction before with
  | nil => simp only [List.nil_append, update_cons_self act hs, update_of_not_mem act hrest]
  | cons first before ih =>
    have hbefore' := ih fun s hs => hbefore s (List.mem_cons_of_mem _ hs)
    rw [List.cons_append, update_cons_of_ne act (hbefore first List.mem_cons_self), hbefore']
    rfl

end

/-- The kinds of the sections. -/
def kinds (board : Board) : List SectionKind := board.sections.map (·.kind)

/-- A step of the board is a step of its section of that kind, or nothing. -/
inductive Takes (source : Source (StateM σ)) (scope : Scope) (kind : SectionKind) :
    Board → Board → Prop where
  | rest {board : Board} : kind ∉ board.kinds → Takes source scope kind board board
  | step {ledger ledger' : Ledger} {before rest : List Section} {s s' : Section} :
      (∀ t ∈ before, t.kind ≠ kind) → s.kind = kind → (∀ t ∈ rest, t.kind ≠ kind) →
      Section.Takes source scope s ledger s' ledger' →
        Takes source scope kind ⟨ledger, before ++ s :: rest⟩ ⟨ledger', before ++ s' :: rest⟩

theorem step_takes (source : Source (StateM σ)) (scope : Scope) (kind : SectionKind) {board : Board}
    (hnodup : board.kinds.Nodup) (state : σ) :
    Takes source scope kind board (board.step source scope kind state).1 := by
  obtain ⟨ledger, sections⟩ := board
  by_cases hkind : ∃ s ∈ sections, s.kind = kind
  · obtain ⟨s, hmem, hs⟩ := hkind
    obtain ⟨before, rest, rfl⟩ := List.append_of_mem hmem
    have hsplit : (before.map (·.kind) ++ s.kind :: rest.map (·.kind)).Nodup := by
      simpa [kinds] using hnodup
    have hbefore : ∀ t ∈ before, t.kind ≠ kind := by
      intro t ht heq
      refine (List.nodup_append.mp hsplit).2.2 t.kind (List.mem_map_of_mem ht) s.kind ?_ ?_
      · exact List.mem_cons_self
      · rw [heq, hs]
    have hrest : ∀ t ∈ rest, t.kind ≠ kind := by
      intro t ht heq
      refine (List.nodup_cons.mp (List.nodup_append.mp hsplit).2.1).1 ?_
      rw [hs, ← heq]
      exact List.mem_map_of_mem ht
    have hstep := Section.step_takes source scope s ledger state
    have hupdate := update_eq (·.step source scope) hbefore hs hrest ledger state
    simp only [step, StateT.run, bind, StateT.bind, hupdate]
    exact .step hbefore hs hrest hstep
  · have hnone : ∀ s ∈ sections, s.kind ≠ kind := fun s hs heq => hkind ⟨s, hs, heq⟩
    have hupdate := update_of_not_mem (·.step source scope) hnone ledger state
    simp only [step, StateT.run, bind, StateT.bind, hupdate]
    refine .rest fun hmem => ?_
    obtain ⟨s, hs, heq⟩ := List.mem_map.mp hmem
    exact hnone s hs heq

theorem Takes.kinds_eq {source : Source (StateM σ)} {scope : Scope} {kind : SectionKind}
    {board board' : Board} (h : Takes source scope kind board board') :
    board'.kinds = board.kinds := by
  cases h with
  | rest => rfl
  | step _ _ _ hstep => simp [kinds, hstep.kind_eq]

/-! ## What is always true -/

/-- These sections have been composed so far, in this order, and every section has in hand what it
should have. -/
structure Sound (source : Source (StateM σ)) (scope : Scope) (board : Board)
    (compositions : List Composition) : Prop where
  nodup_kinds : board.kinds.Nodup
  composes : scope.Composes { index := board.ledger.index } compositions board.ledger
  gathered : ∀ c ∈ compositions, Section.Gathered source c.kind c.material
  ready : ∀ c ∈ compositions, Section.Ready scope board.ledger.index c.material
  nodup : (compositions.map (·.kind)).Nodup
  among : ∀ c ∈ compositions, c.kind ∈ board.kinds
  index : ∀ index, board.ledger.index = some index → Section.IndexGiven source scope (.ok index)
  sections : ∀ s ∈ board.sections, s.Sound source scope board.ledger.index compositions

variable {source : Source (StateM σ)} {scope : Scope} {board board' : Board} {kind : SectionKind}
  {compositions compositions' : List Composition}

theorem kinds_start (config : Config) :
    (start config).kinds = SectionKind.order.filter (isEnabled config) := by
  simp [kinds, start, Function.comp_def]

theorem start_sound (source : Source (StateM σ)) (scope : Scope) (config : Config) :
    Sound source scope (start config) [] where
  nodup_kinds := by
    rw [kinds_start]
    exact List.Nodup.filter _ (by decide)
  composes := rfl
  gathered := by simp
  ready := by simp
  nodup := .nil
  among := by simp
  index := by simp [start]
  sections := by
    intro s hs
    obtain ⟨kind, -, rfl⟩ := List.mem_map.mp hs
    exact ⟨rfl, by simp [Section.Uncomposed]⟩

/-- After a step of one section all sections have in hand what they should have. -/
theorem Sound.sections_of_advances {ledger ledger' : Ledger} {before rest : List Section}
    {s s' : Section} (hsound : Sound source scope ⟨ledger, before ++ s :: rest⟩ compositions)
    (hbefore : ∀ t ∈ before, t.kind ≠ s.kind) (hrest : ∀ t ∈ rest, t.kind ≠ s.kind)
    (hadvances : Section.Advances source scope s.kind ledger compositions ledger' compositions')
    (hown : s'.Sound source scope ledger'.index compositions') :
    ∀ t ∈ before ++ s' :: rest, t.Sound source scope ledger'.index compositions' := by
  have hkeep : ∀ t, t ∈ before ∨ t ∈ rest → t.Sound source scope ledger'.index compositions' := by
    intro t ht
    refine hadvances.sound_of_ne (ht.elim (hbefore t) (hrest t)) (hsound.sections t ?_)
    simp only [List.mem_append, List.mem_cons]
    exact ht.imp_right Or.inr
  intro t ht
  simp only [List.mem_append, List.mem_cons] at ht
  rcases ht with ht | rfl | ht
  · exact hkeep t (Or.inl ht)
  · exact hown
  · exact hkeep t (Or.inr ht)

/-- A board stays sound when it gets to know the index: without it only sections that do not need it
have been composed. -/
theorem Sound.withIndex (hsound : Sound source scope board compositions) {index : InstanceIndex}
    (hnone : board.ledger.index = none) (hgiven : Section.IndexGiven source scope (.ok index))
    (hledger : board'.ledger = board.ledger.withIndex (some index))
    (hkinds : board'.kinds = board.kinds)
    (hsections : ∀ t ∈ board'.sections, t.Sound source scope board'.ledger.index compositions) :
    Sound source scope board' compositions := by
  have hindex : board'.ledger.index = some index := congrArg Ledger.index hledger
  have hcomposes := hsound.composes
  have hready := hsound.ready
  rw [hnone] at hcomposes hready
  have hafter := hcomposes.withIndex rfl hready (some index)
  exact
    { nodup_kinds := hkinds ▸ hsound.nodup_kinds
      composes := by rw [hindex, hledger]; exact hafter
      gathered := hsound.gathered
      ready := fun c hc => hindex ▸ (hready c hc).withIndex (some index)
      nodup := hsound.nodup
      among := hkinds ▸ hsound.among
      index := fun other hother => by rw [hindex] at hother; cases hother; exact hgiven
      sections := hsections }

/-- A board stays sound when a section is composed that has not been composed yet. -/
theorem Sound.snoc (hsound : Sound source scope board compositions) {material : Material}
    {result : Except Error (List String)}
    (huncomposed : Section.Uncomposed compositions kind)
    (hgathered : Section.Gathered source kind material)
    (hready : Section.Ready scope board.ledger.index material)
    (hcompose : Section.compose scope kind material board.ledger = (result, board'.ledger))
    (hkinds : board'.kinds = board.kinds) (hkind : kind ∈ board.kinds)
    (hsections : ∀ t ∈ board'.sections,
      t.Sound source scope board'.ledger.index (compositions ++ [⟨kind, material, result⟩])) :
    Sound source scope board' (compositions ++ [⟨kind, material, result⟩]) := by
  have hindex : board'.ledger.index = board.ledger.index := Section.index_of_compose hcompose
  have hmem : ∀ c ∈ compositions ++ [⟨kind, material, result⟩],
      c ∈ compositions ∨ c = ⟨kind, material, result⟩ := by
    intro c hc
    simpa using hc
  exact
    { nodup_kinds := hkinds ▸ hsound.nodup_kinds
      composes := by rw [hindex]; exact hsound.composes.snoc hcompose
      gathered := by
        intro c hc
        rcases hmem c hc with hc | rfl
        · exact hsound.gathered c hc
        · exact hgathered
      ready := by
        intro c hc
        rw [hindex]
        rcases hmem c hc with hc | rfl
        · exact hsound.ready c hc
        · exact hready
      nodup := by
        rw [List.map_append]
        refine List.nodup_append.mpr ⟨hsound.nodup, by simp, ?_⟩
        intro k hk k' hk' heq
        obtain ⟨c, hc, rfl⟩ := List.mem_map.mp hk
        rw [List.map_singleton, List.mem_singleton] at hk'
        exact huncomposed c hc (heq.trans hk')
      among := by
        intro c hc
        rw [hkinds]
        rcases hmem c hc with hc | rfl
        · exact hsound.among c hc
        · exact hkind
      index := by rw [hindex]; exact hsound.index
      sections := hsections }

/-- One step of the board keeps it sound and composes at most one section. -/
theorem Takes.sound (h : Takes source scope kind board board')
    (hsound : Sound source scope board compositions) :
    ∃ more, Sound source scope board' (compositions ++ more) ∧
      (more.map (·.kind)).Sublist [kind] := by
  have hkinds := h.kinds_eq
  cases h with
  | rest hmem => exact ⟨[], by simpa using hsound, List.nil_sublist _⟩
  | @step ledger ledger' before rest s s' hbefore hs hrest hstep =>
    subst hs
    obtain ⟨compositions', hadvances, hown⟩ := hstep.advances (hsound.sections s (by simp))
    have hsections := hsound.sections_of_advances hbefore hrest hadvances hown
    cases hadvances with
    | same =>
      refine ⟨[], ?_, List.nil_sublist _⟩
      rw [List.append_nil]
      exact
        { hsound with
          nodup_kinds := hkinds ▸ hsound.nodup_kinds
          among := hkinds ▸ hsound.among
          sections := hsections }
    | index hnone hgiven =>
      refine ⟨[], ?_, List.nil_sublist _⟩
      rw [List.append_nil]
      exact hsound.withIndex hnone hgiven rfl hkinds hsections
    | @compose material result _ huncomposed hgathered hready hcompose =>
      refine ⟨[⟨s.kind, material, result⟩], ?_, List.Sublist.refl _⟩
      exact hsound.snoc huncomposed hgathered hready hcompose hkinds (by simp [kinds]) hsections

/-! ## Whole schedules -/

theorem play_cons (source : Source (StateM σ)) (scope : Scope) (kind : SectionKind)
    (schedule : List SectionKind) (board : Board) (state : σ) :
    play source scope (kind :: schedule) board state =
      play source scope schedule (board.step source scope kind state).1
        (board.step source scope kind state).2 := rfl

theorem play_append (source : Source (StateM σ)) (scope : Scope)
    (first second : List SectionKind) (board : Board) (state : σ) :
    play source scope (first ++ second) board state =
      play source scope second (play source scope first board state).1
        (play source scope first board state).2 := by
  induction first generalizing board state with
  | nil => rfl
  | cons kind rest ih => rw [List.cons_append, play_cons, play_cons, ih]

/-- A board stays sound along every schedule, and the sections that are composed on the way are
named by the schedule in that order. -/
theorem play_sound (schedule : List SectionKind) (state : σ)
    (hsound : Sound source scope board compositions) :
    ∃ more, Sound source scope (play source scope schedule board state).1 (compositions ++ more) ∧
      (more.map (·.kind)).Sublist schedule := by
  induction schedule generalizing board state compositions with
  | nil =>
    refine ⟨[], ?_, List.nil_sublist _⟩
    rw [List.append_nil]
    exact hsound
  | cons kind rest ih =>
    obtain ⟨first, hfirst, hsub⟩ :=
      (step_takes source scope kind hsound.nodup_kinds state).sound hsound
    obtain ⟨more, hmore, hsub'⟩ := ih (board.step source scope kind state).2 hfirst
    refine ⟨first ++ more, ?_, ?_⟩
    · rw [← List.append_assoc, play_cons]
      exact hmore
    · rw [List.map_append]
      exact hsub.append hsub'

/-- What a step of a sound section keeps, a step of the board keeps for all its sections. -/
theorem Takes.keeps {p : Section → Prop} (h : Takes source scope kind board board')
    (hsound : Sound source scope board compositions)
    (hstep : ∀ {s s' ledger ledger' compositions}, Section.Takes source scope s ledger s' ledger' →
      s.Sound source scope ledger.index compositions → p s → p s')
    (hboard : ∀ s ∈ board.sections, p s) : ∀ s ∈ board'.sections, p s := by
  cases h with
  | rest => exact hboard
  | @step ledger ledger' before rest s s' _ _ _ htakes =>
    have hown : p s' := hstep htakes (hsound.sections s (by simp)) (hboard s (by simp))
    intro t ht
    simp only [List.mem_append, List.mem_cons] at ht
    rcases ht with ht | rfl | ht
    · exact hboard t (by simp [ht])
    · exact hown
    · exact hboard t (by simp [ht])

/-- What a step of a sound section keeps holds of all sections along every schedule. -/
theorem play_keeps {p : Section → Prop} (schedule : List SectionKind) (state : σ)
    (hsound : Sound source scope board compositions)
    (hstep : ∀ {s s' ledger ledger' compositions}, Section.Takes source scope s ledger s' ledger' →
      s.Sound source scope ledger.index compositions → p s → p s')
    (hboard : ∀ s ∈ board.sections, p s) :
    ∀ s ∈ (play source scope schedule board state).1.sections, p s := by
  induction schedule generalizing board state compositions with
  | nil => exact hboard
  | cons kind rest ih =>
    have htakes := step_takes source scope kind hsound.nodup_kinds state
    obtain ⟨more, hsound', -⟩ := htakes.sound hsound
    rw [play_cons]
    exact ih _ hsound' (htakes.keeps hsound hstep hboard)

theorem play_kinds (schedule : List SectionKind) (state : σ) (hnodup : board.kinds.Nodup) :
    (play source scope schedule board state).1.kinds = board.kinds := by
  induction schedule generalizing board state with
  | nil => rfl
  | cons kind rest ih =>
    have hkinds := (step_takes source scope kind hnodup state).kinds_eq
    rw [play_cons, ih _ (hkinds ▸ hnodup), hkinds]

/-! ## How long a run takes -/

/-- No section has more than so many steps left. -/
def Within (limit : SectionKind → Nat) (board : Board) : Prop :=
  ∀ s ∈ board.sections, s.stage.left ≤ limit s.kind

theorem Takes.within (h : Takes source scope kind board board') {limit : SectionKind → Nat}
    (hwithin : Within limit board) :
    Within (fun k => limit k - [kind].count k) board' := by
  cases h with
  | rest hmem =>
    intro s hs
    have hne : ¬ kind = s.kind := fun heq => hmem (heq ▸ List.mem_map_of_mem hs)
    simpa [hne] using hwithin s hs
  | @step ledger ledger' before rest s s' hbefore hs hrest hstep =>
    have hothers : ∀ t, t ∈ before ∨ t ∈ rest →
        t.stage.left ≤ limit t.kind - [kind].count t.kind := by
      intro t ht
      have hne : ¬ kind = t.kind := fun heq => ht.elim (hbefore t) (hrest t) heq.symm
      have hmem : t ∈ before ++ s :: rest := by
        simp only [List.mem_append, List.mem_cons]
        exact ht.imp_right Or.inr
      simpa [hne] using hwithin t hmem
    intro t ht
    simp only [List.mem_append, List.mem_cons] at ht
    rcases ht with ht | rfl | ht
    · exact hothers t (Or.inl ht)
    · have hleft : s.stage.left ≤ limit s.kind := hwithin s (by simp)
      have hstep' := hstep.left_le
      simp only [hstep.kind_eq, hs, List.count_singleton_self] at hleft ⊢
      omega
    · exact hothers t (Or.inr ht)

theorem play_within (source : Source (StateM σ)) (scope : Scope) (schedule : List SectionKind)
    (state : σ) (hnodup : board.kinds.Nodup) {limit : SectionKind → Nat}
    (hwithin : Within limit board) :
    Within (fun k => limit k - schedule.count k) (play source scope schedule board state).1 := by
  induction schedule generalizing board state limit with
  | nil => exact hwithin
  | cons kind rest ih =>
    have htakes := step_takes source scope kind hnodup state
    have hnext := ih (board.step source scope kind state).2 (htakes.kinds_eq ▸ hnodup)
      (htakes.within hwithin)
    intro s hs
    have hleft : s.stage.left ≤ limit s.kind - [kind].count s.kind - rest.count s.kind :=
      hnext s hs
    change s.stage.left ≤ limit s.kind - (kind :: rest).count s.kind
    rw [← List.singleton_append, List.count_append]
    omega

/-- Every section is finished. -/
def Finished (board : Board) : Prop := ∀ s ∈ board.sections, ∃ result, s.stage = .finished result

theorem finished_of_left {board : Board} (h : ∀ s ∈ board.sections, s.stage.left = 0) :
    board.Finished := by
  intro s hs
  have hleft := h s hs
  cases hstage : s.stage with
  | finished result => exact ⟨result, rfl⟩
  | _ => rw [hstage] at hleft; cases hleft

/-- A schedule that names every enabled section four times finishes the run. -/
theorem play_finished (config : Config) {schedule : List SectionKind}
    (hcount : ∀ kind, isEnabled config kind = true → 4 ≤ schedule.count kind) (state : σ) :
    (play source scope schedule (start config) state).1.Finished := by
  refine finished_of_left fun s hs => ?_
  have hstart : Within (fun _ => 4) (start config) := by
    intro s hs
    obtain ⟨kind, -, rfl⟩ := List.mem_map.mp hs
    exact Nat.le_refl 4
  have hnodup := (start_sound source scope config).nodup_kinds
  have hleft : s.stage.left ≤ 4 - schedule.count s.kind :=
    play_within source scope schedule state hnodup hstart s hs
  have hkind : s.kind ∈ (play source scope schedule (start config) state).1.kinds :=
    List.mem_map_of_mem hs
  rw [play_kinds schedule state hnodup, kinds_start, List.mem_filter] at hkind
  have := hcount s.kind hkind.2
  omega

/-- Nothing happens any more once the run is finished. -/
theorem play_of_finished (schedule : List SectionKind) (state : σ) (hnodup : board.kinds.Nodup)
    (hfinished : board.Finished) : (play source scope schedule board state).1 = board := by
  induction schedule generalizing state with
  | nil => rfl
  | cons kind rest ih =>
    have hstep : (board.step source scope kind state).1 = board := by
      have htakes := step_takes source scope kind hnodup state
      generalize (board.step source scope kind state).1 = board' at htakes
      cases htakes with
      | rest => rfl
      | @step ledger ledger' before rest s s' hbefore hs hrest hstep =>
        obtain ⟨result, hstage⟩ := hfinished s (by simp)
        cases hstep with
        | rest => rfl
        | index h => rw [hstage] at h; cases h
        | list h => rw [hstage] at h; cases h
        | await h => rw [hstage] at h; cases h
        | gather h => rw [hstage] at h; cases h
        | compose h => rw [hstage] at h; cases h
        | emit h => rw [hstage] at h; cases h
    rw [play_cons, hstep]
    exact ih _

end Board

end SchemaClient
