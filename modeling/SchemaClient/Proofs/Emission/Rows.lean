/-
SchemaClient.Proofs.Emission.Rows — the rows of the generated file, part by part.

Of an intact part every line is one row of the file. So what the file declares at its left margin can
be read off from its parts: a constant in the first row of a declaration or of a table, and nothing in
an entry of a table, whatever the texts in it are.

* `Part.Intact.constants_lines` — the rows of an intact part declare the names of the part.
* `Part.Intact.row_cases` — its rows that begin with `const` are declarations or the head of a table.
* `Section.constants_parts` — the constants that a section declares.
* `Section.row_cases` — the rows of a section that begin with `const`.
-/
import SchemaClient.Proofs.Emission.Intact

namespace SchemaClient

/-! ## Lines that are one row -/

theorem feed_not_mem {text : String} (h : ∀ c ∈ text.toList, ' ' ≤ c) : '\n' ∉ text.toList :=
  fun hmem => absurd (h '\n' hmem) (by decide)

theorem Leads.rows_eq {before after : List Char} {text : String} (h : Leads before text after) :
    rows text = [text.toList] :=
  rows_of_not_mem (feed_not_mem h.printable)

theorem Leads.constants_eq {before after : List Char} {text : String}
    (h : Leads before text after) : constants text = (constant? text.toList).toList := by
  rw [constants, h.rows_eq]
  cases hconstant : constant? text.toList <;> simp [hconstant]

theorem following?_of_constant? {row : List Char} (h : constant? row = none) :
    following? "const ".toList row = none := by
  unfold constant? at h
  cases hfollowing : following? "const ".toList row with
  | none => rfl
  | some rest =>
    rw [hfollowing] at h
    cases h

/-! ## Lines of tables -/

namespace Section

/-- The first line of a table. -/
def tableHead (name : String) : String := "const " ++ name ++ " = lazyObject(() => (\x7b"

theorem leads_tableHead {name : String} (h : Identifier.Valid name) :
    Leads [] (tableHead name) ['{', '(', '('] := by
  have hconst : Whole "const " := by decide
  have hopen : Leads [] " = lazyObject(() => (\x7b" ['{', '(', '('] := by decide
  exact Leads.append (hconst.append h.whole) hopen

theorem whole_tableEntry (key : String) {value : String} (h : Whole value) :
    Whole (tableEntry key value) := by
  have hcolon : Whole ": " := by decide
  have hcomma : Whole "," := by decide
  exact (((whole_quote key).append hcolon).append h).append hcomma

/-- Whatever its key is, an entry of a table declares nothing: it begins with a quote. -/
theorem constants_tableEntry (key : String) {value : String} (h : Whole value) :
    constants (tableEntry key value) = [] := by
  have hhead : (tableEntry key value).toList.head? = some '"' := by
    simp [tableEntry, quote]
  rw [(whole_tableEntry key h).constants_eq, constant?_of_head hhead (by decide) (by decide)]
  rfl

theorem whole_inferred {name : String} (h : Identifier.Valid name) :
    Whole ("z.infer<typeof " ++ name ++ ">") := by
  have hinfer : Whole "z.infer<typeof " := by decide
  have hend : Whole ">" := by decide
  exact (hinfer.append h.whole).append hend

/-- The constant that the first row of a declaration or of a table declares. -/
theorem constant?_of_valid {name rest : String} (h : Identifier.Valid name)
    (hrest : rest.toList.head? = some ' ') :
    constant? ("const " ++ name ++ rest).toList = some name := by
  obtain ⟨others, hothers⟩ : ∃ others, rest.toList = ' ' :: others := by
    cases hlist : rest.toList with
    | nil => rw [hlist] at hrest; cases hrest
    | cons c others => rw [hlist] at hrest; cases hrest; exact ⟨others, rfl⟩
  have hlist : ("const " ++ name ++ rest).toList =
      "const ".toList ++ (name.toList ++ ' ' :: others) := by
    rw [String.toList_append, String.toList_append, hothers, List.append_assoc]
  rw [hlist, constant?_const h.blank_not_mem, String.ofList_toList]

theorem constants_tableHead {name : String} (h : Identifier.Valid name) :
    constants (tableHead name) = [name] := by
  have hconstant : constant? (tableHead name).toList = some name := constant?_of_valid h rfl
  rw [(leads_tableHead h).constants_eq, hconstant]
  rfl

/-- The first line of the type of a table declares no constant. -/
theorem constants_typesHead {name : String} (h : Identifier.Valid name) :
    constants ("export type " ++ name ++ " = \x7b") = [] := by
  have hexport : Whole "export type " := by decide
  have hopen : Leads [] " = \x7b" ['{'] := by decide
  have hconstant : constant? ("export type " ++ name ++ " = \x7b").toList = none := by
    rw [String.toList_append, String.toList_append]
    rfl
  rw [(Leads.append (hexport.append h.whole) hopen).constants_eq, hconstant]
  rfl

theorem constants_tableEntries {entries : List (String × String)} {value : String × String → String}
    (h : ∀ entry ∈ entries, Whole (value entry)) :
    (entries.map fun entry => tableEntry entry.1 (value entry)).flatMap constants = [] := by
  rw [List.flatMap_map, List.flatMap_eq_nil_iff]
  exact fun entry hentry => constants_tableEntry entry.1 (h entry hentry)

end Section

/-! ## Parts -/

theorem Declaration.Intact.constants_render {declaration : Declaration}
    (h : declaration.Intact) : constants declaration.render = [declaration.name] := by
  have hconstant : constant? declaration.render.toList = some declaration.name := by
    have hrender : declaration.render = "const " ++ declaration.name ++
        (" = lazyObject(() => " ++ declaration.source ++ ");") := by
      simp only [render, String.append_assoc]
    rw [hrender]
    exact Section.constant?_of_valid h.valid (by simp)
  rw [(whole_render h.valid h.whole_source).constants_eq, hconstant]
  rfl

namespace Part

open Section

/-- The part is plain text. -/
def IsPlain : Part → Prop
  | plain _ => True
  | _ => False

theorem not_isPlain_of_mem_names {part : Part} {name : String} (h : name ∈ part.names) :
    ¬ part.IsPlain := by
  intro hplain
  cases part with
  | plain _ => cases h
  | fixed _ => exact hplain
  | const _ _ => exact hplain
  | table _ _ => exact hplain
  | types _ _ => exact hplain

theorem IsDeclaration.not_isPlain {part : Part} (h : part.IsDeclaration) : ¬ part.IsPlain := by
  intro hplain
  cases part with
  | plain _ => exact h
  | fixed _ => exact hplain
  | const _ _ => exact hplain
  | table _ _ => exact hplain
  | types _ _ => exact hplain

/-- The rows of an intact part declare the names of the part, once each. -/
theorem Intact.constants_lines {part : Part} (h : part.Intact) (hplain : ¬ part.IsPlain) :
    part.lines.flatMap constants = part.names := by
  have hclose : constants "\x7d as const));" = [] := by decide
  have hcloseTypes : constants "\x7d;" = [] := by decide
  cases part with
  | plain lines => exact absurd trivial hplain
  | fixed declaration =>
    have hconstants := Declaration.Intact.constants_render h
    simp [lines, names, hconstants]
  | const name validator =>
    have hconstants := Declaration.Intact.constants_render h
    simp [lines, names, hconstants]
  | table name entries =>
    obtain ⟨hname, hentries⟩ := h
    have hlines : (table name entries).lines = [tableHead name] ++
        entries.map (fun entry => tableEntry entry.1 entry.2) ++ ["\x7d as const));"] := rfl
    have hrows := constants_tableEntries fun entry hentry => (hentries entry hentry).whole
    simp only [hlines, names, List.flatMap_append, List.flatMap_cons, List.flatMap_nil,
      constants_tableHead hname, hclose, hrows, List.append_nil]
  | types name entries =>
    obtain ⟨hname, hentries⟩ := h
    have hlines : (types name entries).lines = ["export type " ++ name ++ " = \x7b"] ++
        entries.map (fun entry => tableEntry entry.1 ("z.infer<typeof " ++ entry.2 ++ ">")) ++
          ["\x7d;"] := rfl
    have hrows := constants_tableEntries fun entry hentry =>
      whole_inferred (hentries entry hentry)
    simp only [hlines, names, List.flatMap_append, List.flatMap_cons, List.flatMap_nil,
      constants_typesHead hname, hcloseTypes, hrows, List.append_nil]

/-- A row of an intact part that begins with `const` is a declaration, which is intact, or the head
of a table. -/
theorem Intact.row_cases {part : Part} (h : part.Intact) (hplain : ¬ part.IsPlain)
    {row : List Char} (hrow : row ∈ part.lines.flatMap rows)
    (hconst : following? "const ".toList row ≠ none) :
    (∃ name entries, part = table name entries ∧ row = (tableHead name).toList) ∨
      ∃ declaration : Declaration, declaration.Intact ∧ row = declaration.render.toList := by
  -- a line that declares nothing does not begin so
  have hsilent : ∀ {line : String}, constants line = [] → row ∉ rows line := by
    intro line hconstants hmem
    have hnone : constant? row = none := by
      by_contra hsome
      obtain ⟨name, hname⟩ := Option.ne_none_iff_exists'.mp hsome
      have hmem : name ∈ constants line := List.mem_filterMap.mpr ⟨row, hmem, hname⟩
      rw [hconstants] at hmem
      cases hmem
    exact hconst (following?_of_constant? hnone)
  have hdeclaration : ∀ {declaration : Declaration}, declaration.Intact →
      row ∈ [declaration.render].flatMap rows → row = declaration.render.toList := by
    intro declaration hintact hmem
    have hwhole := Declaration.whole_render hintact.valid hintact.whole_source
    simpa [hwhole.rows_eq] using hmem
  have hclose : constants "\x7d as const));" = [] := by decide
  have hcloseTypes : constants "\x7d;" = [] := by decide
  cases part with
  | plain lines => exact absurd trivial hplain
  | fixed declaration => exact Or.inr ⟨declaration, h, hdeclaration h hrow⟩
  | const name validator => exact Or.inr ⟨_, h, hdeclaration h hrow⟩
  | table name entries =>
    obtain ⟨hname, hentries⟩ := h
    obtain ⟨line, hline, hrow⟩ := List.mem_flatMap.mp hrow
    simp only [lines, List.mem_append, List.mem_singleton, List.mem_map] at hline
    rcases hline with (rfl | ⟨entry, hentry, rfl⟩) | rfl
    · have hrows := (leads_tableHead hname).rows_eq
      exact Or.inl ⟨name, entries, rfl, List.mem_singleton.mp (hrows ▸ hrow)⟩
    · exact absurd hrow (hsilent (constants_tableEntry _ (hentries entry hentry).whole))
    · exact absurd hrow (hsilent hclose)
  | types name entries =>
    obtain ⟨hname, hentries⟩ := h
    obtain ⟨line, hline, hrow⟩ := List.mem_flatMap.mp hrow
    simp only [lines, List.mem_append, List.mem_singleton, List.mem_map] at hline
    rcases hline with (rfl | ⟨entry, hentry, rfl⟩) | rfl
    · exact absurd hrow (hsilent (constants_typesHead hname))
    · exact absurd hrow (hsilent (constants_tableEntry _ (whole_inferred (hentries entry hentry))))
    · exact absurd hrow (hsilent hcloseTypes)

end Part

/-! ## The accessors

Their texts are fixed, so their rows are found by going through them. -/

/-- The text declares these constants at its left margin, and exports each of them. -/
structure Exports (text : String) (names : List String) : Prop where
  constants_eq : constants text = names
  exported : ∀ row ∈ rows text, following? "const ".toList row = none

theorem exports_of_chars {text : String} {names : List String} {chars : List Char}
    (h : text.toList = chars)
    (hchars : (partsAt (· == '\n') chars).filterMap constant? = names ∧
      ∀ row ∈ partsAt (· == '\n') chars, following? "const ".toList row = none) :
    Exports text names := by
  subst h
  exact ⟨hchars.1, hchars.2⟩

theorem exports_resourceAccessor (hooked : Bool) :
    Exports (Section.resourceAccessor hooked) ["getResource"] := by
  delta Section.resourceAccessor
  cases hooked
  · refine exports_of_chars (by
      simp only [String.toList_append, Bool.false_eq_true, if_false]
      rw [String.toList_ofList]) ?_
    decide +kernel
  · refine exports_of_chars (by
      simp only [String.toList_append, if_true]
      rw [String.toList_ofList]) ?_
    decide +kernel

theorem exports_scripts (config : Config) :
    Exports (RunnableSection.scripts config).accessors ["runScript", "runScriptAsync"] := by
  delta RunnableSection.scripts RunnableSection.accessor
  refine exports_of_chars (by
    simp only [String.toList_append]
    rfl) ?_
  decide +kernel

theorem exports_flows (config : Config) :
    Exports (RunnableSection.flows config).accessors ["runFlow", "runFlowAsync"] := by
  delta RunnableSection.flows RunnableSection.accessor
  refine exports_of_chars (by
    simp only [String.toList_append]
    rfl) ?_
  decide +kernel

/-! ## Sections -/

/-- The accessors of a section. -/
def SectionKind.accessors : SectionKind → List String
  | .resources => ["getResource"]
  | .scripts => ["runScript", "runScriptAsync"]
  | .flows => ["runFlow", "runFlowAsync"]

/-- The table of a section. -/
def SectionKind.table : SectionKind → String
  | .resources => "resourceToType"
  | .scripts => "scripts"
  | .flows => "flows"

namespace Section

/-- A section of this kind is made of such material. -/
def Suits (kind : SectionKind) : Material → Prop
  | .instances _ => kind = .resources
  | .artifacts _ => kind ≠ .resources

theorem table_ofKind (config : Config) {kind : SectionKind} (h : kind ≠ .resources) :
    (RunnableSection.ofKind config kind).table = kind.table := by
  cases kind with
  | resources => exact absurd rfl h
  | scripts => rfl
  | flows => rfl

theorem exports_accessors (config : Config) {kind : SectionKind} (h : kind ≠ .resources) :
    Exports (RunnableSection.ofKind config kind).accessors kind.accessors := by
  cases kind with
  | resources => exact absurd rfl h
  | scripts => exact exports_scripts config
  | flows => exact exports_flows config

variable {scope : Scope} {index : Option InstanceIndex} {kind : SectionKind} {material : Material}
  {lines : List String}

/-- The table of the default instances declares itself, and exports it. -/
theorem exports_defaults (defaults : Table String) {line : String}
    (h : line ∈ ["export const resourceDefaults = \x7b"] ++
      defaults.map (fun (resourceType, path) => tableEntry resourceType (quote path)) ++
      ["\x7d as const;"]) :
    ∀ row ∈ rows line, following? "const ".toList row = none := by
  have hsilent : constants line = [] → ∀ row ∈ rows line, following? "const ".toList row = none := by
    intro hconstants row hrow
    refine following?_of_constant? ?_
    exact List.filterMap_eq_nil_iff.mp hconstants row hrow
  simp only [List.mem_append, List.mem_singleton, List.mem_map] at h
  rcases h with (rfl | ⟨entry, -, rfl⟩) | rfl
  · decide
  · exact hsilent (constants_tableEntry _ (whole_quote _))
  · decide

/-- A row of a section that begins with `const` is a declaration, which is intact, or the head of the
section's table. -/
theorem row_cases (h : (plan scope index kind material).result = .ok lines)
    (hsuits : Suits kind material) {row : List Char} (hrow : row ∈ lines.flatMap rows)
    (hconst : following? "const ".toList row ≠ none) :
    row = (tableHead kind.table).toList ∨
      ∃ declaration : Declaration, declaration.Intact ∧ row = declaration.render.toList := by
  rw [lines_eq h, List.flatMap_assoc] at hrow
  obtain ⟨part, hpart, hrow⟩ := List.mem_flatMap.mp hrow
  have hcases := (intact_parts h hpart).row_cases
  cases material with
  | instances listed =>
    cases hsuits
    obtain ⟨_, -, hmap, -⟩ := Plan.andThen_ok h
    obtain ⟨defaults, hdefaults, -⟩ := Plan.map_ok hmap
    simp only [parts, hdefaults, resourceParts, List.mem_cons, List.not_mem_nil, or_false] at hpart
    rcases hpart with rfl | rfl | rfl | rfl
    · have hexports := exports_resourceAccessor scope.config.resources.postProcess.isSome
      simp only [Part.lines, List.flatMap_cons, List.flatMap_nil, List.append_nil] at hrow
      exact absurd (hexports.exported row hrow) hconst
    · rcases hcases id hrow hconst with ⟨name, entries, heq, rfl⟩ | hdeclaration
      · cases heq
        exact Or.inl rfl
      · exact Or.inr hdeclaration
    · rcases hcases id hrow hconst with ⟨name, entries, heq, -⟩ | hdeclaration
      · cases heq
      · exact Or.inr hdeclaration
    · obtain ⟨line, hline, hrow⟩ := List.mem_flatMap.mp hrow
      exact absurd (exports_defaults defaults hline row hrow) hconst
  | artifacts items =>
    obtain ⟨validators, hvalidators, -⟩ := Plan.map_ok h
    simp only [parts, hvalidators, artifactParts, List.mem_append, List.mem_singleton,
      List.mem_map] at hpart
    rcases hpart with (rfl | ⟨entry, hentry, rfl⟩) | rfl
    · have hexports := exports_accessors scope.config hsuits
      simp only [Part.lines, List.flatMap_cons, List.flatMap_nil, List.append_nil] at hrow
      exact absurd (hexports.exported row hrow) hconst
    · rcases hcases id hrow hconst with ⟨name, entries, heq, -⟩ | hdeclaration
      · cases heq
      · exact Or.inr hdeclaration
    · rcases hcases id hrow hconst with ⟨name, entries, heq, rfl⟩ | hdeclaration
      · cases heq
        rw [table_ofKind scope.config hsuits]
        exact Or.inl rfl
      · exact Or.inr hdeclaration

end Section

end SchemaClient
