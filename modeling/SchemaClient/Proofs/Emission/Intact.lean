/-
SchemaClient.Proofs.Emission.Intact — declarations that the texts in them cannot break.

* `Declaration.Intact` — a declaration on one line, with a valid name and an expression in which every
  string and every bracket is closed.
* `Part.Intact` — a part all of whose declarations are intact.
* `Scope.intact_parts`, `Section.intact_parts` — the parts of demands and of sections are intact.
* `Part.Intact.rows_lines` — each line of an intact part is one row of the file.
-/
import SchemaClient.Proofs.Emission.Section
import SchemaClient.Proofs.Text.Identifier
import SchemaClient.Proofs.Text.Rows
import SchemaClient.Proofs.Validator.Source

namespace SchemaClient

/-! ## Names -/

theorem Identifier.isInert_of_isPart {c : Char} (h : isPart c = true) : isInert c = true := by
  simp only [isPart, Bool.or_eq_true, beq_iff_eq] at h
  rcases h with (h | rfl) | rfl
  · exact isInert_of_isAlphanum h
  · decide
  · decide

theorem Identifier.Valid.whole {name : String} (h : Valid name) : Whole name := by
  have hwhole := whole_of_isInert fun c hc => isInert_of_isPart (h.isPart c hc)
  rwa [String.ofList_toList] at hwhole

theorem Identifier.Valid.blank_not_mem {name : String} (h : Valid name) : ' ' ∉ name.toList := by
  intro hmem
  exact absurd (h.isPart ' ' hmem) (by decide)

/-- What a validator refers to has a valid name. -/
theorem Demand.valid_reference (registry : Registry) (d : Demand) :
    Identifier.Valid (d.reference registry) := by
  have hbase64 : Identifier.Valid "base64Content" := by decide
  have hstorage : Identifier.Valid "s3Object" := by decide
  cases d with
  | base64Content => exact hbase64
  | storageObject => exact hstorage
  | resourceType name =>
    rw [reference]
    split <;> exact identifier_valid _

/-! ## Declarations -/

/-- The declaration is one line without control characters; its name is valid; and a reader who goes
through its expression finds every string closed, and the brackets outside of strings nested and
closed. -/
structure Declaration.Intact (declaration : Declaration) : Prop where
  valid : Identifier.Valid declaration.name
  printable : ∀ c ∈ declaration.render.toList, ' ' ≤ c
  closed : (Balance.code []).read declaration.source.toList = some (.code [])

/-- A declaration with a valid name and a whole expression is whole itself. -/
theorem Declaration.whole_render {declaration : Declaration}
    (hname : Identifier.Valid declaration.name) (hsource : Whole declaration.source) :
    Whole declaration.render := by
  have hconst : Whole "const " := by decide
  have hopen : Leads [] " = lazyObject(() => " ['('] := by decide
  have hclose : Leads ['('] ");" [] := by decide
  exact ((Leads.append (hconst.append hname.whole) hopen).insert hsource).append hclose

theorem Declaration.intact_of_whole {declaration : Declaration}
    (hname : Identifier.Valid declaration.name) (hsource : Whole declaration.source) :
    declaration.Intact where
  valid := hname
  printable := (whole_render hname hsource).printable
  closed := hsource.read

theorem Declaration.Intact.whole_source {declaration : Declaration} (h : declaration.Intact) :
    Whole declaration.source where
  read := h.closed
  printable := by
    intro c hc
    refine h.printable c ?_
    simp only [render, String.toList_append, List.mem_append]
    exact Or.inl (Or.inr hc)

theorem Declaration.base64Content_intact : Declaration.base64Content.Intact := by
  -- the characters of a long text are best taken from the literal itself
  have hread : (Balance.code []).read base64Content.source.toList = some (.code []) := by
    rw [base64Content, String.toList_ofList]
    decide +kernel
  have hall : base64Content.source.toList.all (fun c => decide (' ' ≤ c)) = true := by
    rw [base64Content, String.toList_ofList]
    decide +kernel
  refine intact_of_whole (by decide) ⟨hread, fun c hc => ?_⟩
  exact of_decide_eq_true (List.all_eq_true.mp hall c hc)

theorem Declaration.storageObject_intact : Declaration.storageObject.Intact := by
  refine intact_of_whole (by decide) (Validator.whole_source _ ?_)
  decide

/-! ## Parts -/

namespace Part

/-- All declarations of the part are intact, and the tables have nothing but names in them. -/
def Intact : Part → Prop
  | plain _ => True
  | fixed declaration => declaration.Intact
  | const name validator => Declaration.Intact ⟨name, validator.source⟩
  | table name entries => Identifier.Valid name ∧ ∀ entry ∈ entries, Identifier.Valid entry.2
  | types name entries => Identifier.Valid name ∧ ∀ entry ∈ entries, Identifier.Valid entry.2

theorem intact_const {name : String} {validator : Validator} (hname : Identifier.Valid name)
    (hreferences : ∀ other ∈ validator.references, Identifier.Valid other) :
    (const name validator).Intact :=
  Declaration.intact_of_whole hname
    (validator.whole_source fun other hother => (hreferences other hother).whole)

/-- The part is a single declaration. -/
def IsDeclaration : Part → Prop
  | fixed _ => True
  | const _ _ => True
  | _ => False

/-- The line of a single declaration that is intact. -/
theorem Intact.exists_declaration {part : Part} (h : part.Intact) (hpart : part.IsDeclaration) :
    ∃ declaration : Declaration, declaration.Intact ∧ part.lines = [declaration.render] := by
  cases part with
  | fixed declaration => exact ⟨declaration, h, rfl⟩
  | const name validator => exact ⟨⟨name, validator.source⟩, h, rfl⟩
  | plain _ => cases hpart
  | table _ _ => cases hpart
  | types _ _ => cases hpart

end Part

namespace Scope

variable {scope : Scope} {index : Option InstanceIndex}

/-- A demand contributes nothing but declarations. -/
theorem isDeclaration_parts {d : Demand} {part : Part} (h : part ∈ scope.parts index d) :
    part.IsDeclaration := by
  cases d with
  | base64Content =>
    rw [List.mem_singleton.mp h]
    trivial
  | storageObject =>
    rw [List.mem_singleton.mp h]
    trivial
  | resourceType name =>
    simp only [parts] at h
    split at h
    · rcases List.mem_cons.mp h with rfl | h
      · trivial
      · unfold instanceParts at h
        split at h
        · cases h
        · cases h
        · simp only [List.mem_cons, List.not_mem_nil, or_false] at h
          rcases h with rfl | rfl <;> trivial
    · cases h

theorem references_references (paths : List String) (default : Option String) :
    (references paths default).references = [] := by
  unfold references
  cases default <;> (simp only; split <;> rfl)

/-- The parts of a demand are intact. -/
theorem intact_parts {d : Demand} {part : Part} (h : part ∈ scope.parts index d) :
    part.Intact := by
  cases d with
  | base64Content =>
    rw [List.mem_singleton.mp h]
    exact Declaration.base64Content_intact
  | storageObject =>
    rw [List.mem_singleton.mp h]
    exact Declaration.storageObject_intact
  | resourceType name =>
    cases index with
    | none => cases h
    | some known =>
      simp only [parts] at h
      split at h
      · rename_i heq hown
        cases heq
        rcases List.mem_cons.mp h with rfl | h
        · refine Part.intact_const (identifier_valid _) fun other hother => ?_
          rw [references_ownValidator hown] at hother
          obtain ⟨c, -, rfl⟩ := List.mem_map.mp hother
          exact c.valid_reference _
        · unfold instanceParts at h
          split at h
          · cases h
          · cases h
          · simp only [List.mem_cons, List.not_mem_nil, or_false] at h
            rcases h with rfl | rfl
            · refine Part.intact_const (identifier_valid _) fun other hother => ?_
              rw [references_references] at hother
              cases hother
            · refine Part.intact_const (identifier_valid _) fun other hother => ?_
              have hrefs : (Validator.union [.ref (referencesName name),
                  .ref (typeName name)]).references = [referencesName name, typeName name] := rfl
              rw [hrefs] at hother
              simp only [List.mem_cons, List.not_mem_nil, or_false] at hother
              rcases hother with rfl | rfl <;> exact identifier_valid _
      · cases h

end Scope

namespace Section

variable {scope : Scope} {index : Option InstanceIndex} {kind : SectionKind} {material : Material}
  {lines : List String}

theorem valid_table (config : Config) (kind : SectionKind) :
    Identifier.Valid (RunnableSection.ofKind config kind).table := by
  have hscripts : Identifier.Valid "scripts" := by decide
  have hflows : Identifier.Valid "flows" := by decide
  cases kind <;> assumption

/-- The parts of a section are intact. -/
theorem intact_parts (h : (plan scope index kind material).result = .ok lines) {part : Part}
    (hpart : part ∈ parts scope index kind material) : part.Intact := by
  cases material with
  | instances listed =>
    obtain ⟨_, -, hmap, -⟩ := Plan.andThen_ok h
    obtain ⟨defaults, hdefaults, -⟩ := Plan.map_ok hmap
    simp only [parts, hdefaults, resourceParts, List.mem_cons, List.not_mem_nil, or_false] at hpart
    rcases hpart with rfl | rfl | rfl | rfl
    · trivial
    · refine ⟨by decide, fun entry hentry => ?_⟩
      obtain ⟨⟨resourceType, paths⟩, -, hentry⟩ := List.mem_flatMap.mp hentry
      obtain ⟨path, -, rfl⟩ := List.mem_map.mp hentry
      exact identifier_valid _
    · refine ⟨by decide, fun entry hentry => ?_⟩
      obtain ⟨resourceType, -, rfl⟩ := List.mem_map.mp hentry
      exact identifier_valid _
    · trivial
  | artifacts items =>
    obtain ⟨validators, hvalidators, -⟩ := Plan.map_ok h
    simp only [parts, hvalidators, artifactParts, List.mem_append, List.mem_singleton,
      List.mem_map] at hpart
    rcases hpart with (rfl | ⟨entry, hentry, rfl⟩) | rfl
    · trivial
    · refine Part.intact_const (identifier_valid _) fun other hother => ?_
      obtain ⟨d, -, rfl⟩ := (validatorsPlan_ok hvalidators).2 entry hentry other hother
      exact d.valid_reference _
    · refine ⟨valid_table _ kind, fun entry hentry => ?_⟩
      obtain ⟨found, -, rfl⟩ := List.mem_map.mp hentry
      exact identifier_valid _

end Section

end SchemaClient
