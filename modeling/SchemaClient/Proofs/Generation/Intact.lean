/-
SchemaClient.Proofs.Generation.Intact — no text breaks a declaration that a run writes.

Declarations are written in two places: those of artifacts into the buffer of their section, and those
of resource types and shared validators into the queue of what is put off. Whatever the workspace
holds, in property names, descriptions, patterns, defaults, type names or paths, and in whatever order
the sections get on, each of them is one line, with a valid name and an expression that closes what it
opens.

* `Section.Untouched` — a section that failed has written nothing.
* `Board.Sound.outlet_cases` — what a section has written is what it was composed to.
* `declarations_intact` — every declaration is intact, at every moment of every run.
-/
import SchemaClient.Proofs.Emission.Rows
import SchemaClient.Proofs.Generation.Draft

namespace SchemaClient

variable {σ : Type} {source : Source (StateM σ)} {scope : Scope} {compositions : List Composition}

/-! ## What sections write -/

namespace Section

variable {kind : SectionKind} {before after : Ledger}

theorem Gathered.suits {material : Material} (h : Gathered source kind material) :
    Suits kind material := by
  cases material with
  | instances listed => exact h
  | artifacts items =>
    obtain ⟨listing, hlists, -⟩ := h
    rintro rfl
    exact hlists

/-- If the section has failed, it has written nothing. -/
def Untouched (s : Section) : Prop :=
  ∀ error, s.stage = .finished (.error error) → s.outlet = .fresh

theorem outlet_proceed {α : Type} (s : Section) (result : Except Error α) (next : α → Stage) :
    (s.proceed result next).outlet = s.outlet := by
  cases result <;> rfl

/-- A step of a section fails before anything is written. -/
theorem Takes.untouched {s s' : Section} (h : Takes source scope s before s' after)
    (hs : Sound source scope before.index compositions s) (huntouched : s.Untouched) :
    s'.Untouched := by
  intro error herror
  cases h with
  | index hstage =>
    unfold Sound at hs
    rw [hstage] at hs
    exact (outlet_proceed ..).trans hs.1
  | list hstage =>
    unfold Sound at hs
    rw [hstage] at hs
    exact (outlet_proceed ..).trans hs.1
  | await hstage =>
    unfold Sound at hs
    rw [hstage] at hs
    exact (outlet_proceed ..).trans hs.1
  | gather => cases herror
  | compose hstage =>
    unfold Sound at hs
    rw [hstage] at hs
    exact (outlet_proceed ..).trans hs.1
  | @emit lines hstage =>
    unfold Sound at hs
    rw [hstage] at hs
    have hemit := emit_of_fresh (s := s.announce .emitting) hs.1 lines
    rw [hemit] at herror
    cases herror
  | rest => exact huntouched error herror

/-- A section has written nothing yet, or the lines that it was composed to. -/
theorem Sound.outlet_cases {s : Section} {index : Option InstanceIndex}
    (hs : Sound source scope index compositions s) (huntouched : s.Untouched) :
    s.outlet = .fresh ∨ ∃ material lines, ⟨s.kind, material, .ok lines⟩ ∈ compositions ∧
      s.outlet = .buffer (Outlet.linesText lines) := by
  unfold Sound at hs
  cases hstage : s.stage with
  | idle => rw [hstage] at hs; exact Or.inl hs.1
  | listed items => rw [hstage] at hs; exact Or.inl hs.1
  | gathered material => rw [hstage] at hs; exact Or.inl hs.1
  | composed lines => rw [hstage] at hs; exact Or.inl hs.1
  | finished result =>
    rw [hstage] at hs
    cases result with
    | ok _ => exact Or.inr hs
    | error error => exact Or.inl (huntouched error hstage)

end Section

namespace Board

variable {board : Board}

theorem play_untouched (schedule : List SectionKind) (state : σ)
    (hsound : Sound source scope board compositions)
    (huntouched : ∀ s ∈ board.sections, s.Untouched) :
    ∀ s ∈ (play source scope schedule board state).1.sections, s.Untouched :=
  play_keeps schedule state hsound (fun htakes hs => htakes.untouched hs) huntouched

end Board

/-! ## What is put off -/

/-- The texts of a demand that can be met are intact declarations. -/
theorem Scope.intact_texts {index : Option InstanceIndex} {d : Demand}
    (h : scope.Feasible index d) {text : String} (htext : text ∈ scope.texts index d) :
    ∃ declaration : Declaration, declaration.Intact ∧ text = declaration.render := by
  rw [texts_eq h] at htext
  obtain ⟨part, hpart, hline⟩ := List.mem_flatMap.mp htext
  obtain ⟨declaration, hintact, hlines⟩ :=
    (intact_parts hpart).exists_declaration (isDeclaration_parts hpart)
  rw [hlines] at hline
  exact ⟨declaration, hintact, List.mem_singleton.mp hline⟩

/-- Whatever has been put off is an intact declaration. -/
theorem Scope.Growth.intact_deferred {index : Option InstanceIndex} {before after : Ledger}
    {made lost : List Demand} (h : scope.Growth index before after made lost)
    (hempty : before.deferred = []) {text : String} (htext : text ∈ after.deferred) :
    ∃ declaration : Declaration, declaration.Intact ∧ text = declaration.render := by
  have hmem := h.deferred.mem_iff.mp htext
  rw [hempty, List.nil_append] at hmem
  obtain ⟨d, hd, htext⟩ := List.mem_flatMap.mp hmem
  exact intact_texts (h.feasible d hd) htext

/-! ## Runs -/

/-- Whatever the workspace and the configuration hold, and in whatever order the sections take their
steps: at every moment of a run, everything that is put off is an intact declaration, and so is every
row of a section's buffer that begins with `const`, unless it is the head of the section's table. -/
theorem declarations_intact (schedule : List SectionKind) (source : Source (StateM σ))
    (scope : Scope) (state : σ) :
    let board := (Board.play source scope schedule (Board.start scope.config) state).1
    (∀ text ∈ board.ledger.deferred, ∃ declaration : Declaration,
      declaration.Intact ∧ text = declaration.render) ∧
    ∀ s ∈ board.sections, ∀ row ∈ rows s.outlet.text, following? "const ".toList row ≠ none →
      row = (Section.tableHead s.kind.table).toList ∨
        ∃ declaration : Declaration, declaration.Intact ∧ row = declaration.render.toList := by
  intro board
  obtain ⟨compositions, hsound, -⟩ :=
    Board.play_sound schedule state (Board.start_sound source scope scope.config)
  obtain ⟨made, lost, hgrow, -, hdone, -⟩ := hsound.composes.grows
  refine ⟨fun text htext => hgrow.intact_deferred rfl htext, fun s hs row hrow hconst => ?_⟩
  have hstart : ∀ s ∈ (Board.start scope.config).sections, s.Untouched := by
    intro s hs error herror
    obtain ⟨kind, -, rfl⟩ := List.mem_map.mp hs
    cases herror
  have huntouched := Board.play_untouched schedule state
    (Board.start_sound source scope scope.config) hstart s hs
  rcases (hsound.sections s hs).outlet_cases huntouched with
    hfresh | ⟨material, lines, hmem, houtlet⟩
  · rw [hfresh] at hrow
    rw [List.mem_singleton.mp hrow] at hconst
    exact absurd rfl hconst
  · rw [houtlet, Outlet.text, rows_linesText, List.mem_append, List.mem_singleton] at hrow
    have hplan := (hdone _ hmem lines rfl).1
    rcases hrow with hrow | rfl
    · exact Section.row_cases hplan (hsound.gathered _ hmem).suits hrow hconst
    · exact absurd rfl hconst

end SchemaClient
