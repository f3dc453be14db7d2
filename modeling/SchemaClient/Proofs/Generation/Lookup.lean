/-
SchemaClient.Proofs.Generation.Lookup — from the path of an artifact to its validator.

The section of the scripts and that of the flows go twice through what they have made: once for the
declarations and once for the table. An accessor is given a path, looks the path up in the table and
uses what is declared under the name it finds there. Artifacts without a schema are in neither.

* `RunnableSection.Declared` — the artifacts that have a schema, each transformed on the ledger that
  the one before it left.
* `RunnableSection.lookup` — looking up a path.
* `generated_lookup` — what a section that was generated has written, and where its lookups lead.
-/
import SchemaClient.Proofs.Emission.Naming
import SchemaClient.Proofs.Generation.Draft
import SchemaClient.Proofs.Json.Pointer
import SchemaClient.Proofs.Sharing.Transforming
import SchemaClient.Proofs.Text.Delimited

namespace SchemaClient

/-- Of names that are all different each leads to its own value. -/
theorem Table.find?_of_mem {α : Type} {table : Table α} {name : String} {value : α}
    (hnodup : (table.map Prod.fst).Nodup) (hmem : (name, value) ∈ table) :
    Table.find? table name = some value := by
  induction table with
  | nil => cases hmem
  | cons first rest ih =>
    obtain ⟨other, found⟩ := first
    obtain ⟨hfirst, hrest⟩ := List.nodup_cons.mp hnodup
    rcases List.mem_cons.mp hmem with heq | hmem
    · cases heq
      rw [Table.find?, if_pos rfl]
    · have hne : other ≠ name := by
        rintro rfl
        exact hfirst (List.mem_map.mpr ⟨(other, value), hmem, rfl⟩)
      rw [Table.find?, if_neg hne]
      exact ih hrest hmem

namespace RunnableSection

/-! ## What a section is made of -/

/-- The artifacts that have a schema, in order, each with the name and the text of its declaration:
its schema is transformed on the ledger that the artifacts before it have left. -/
inductive Declared (self : RunnableSection) (scope : Scope) :
    Ledger → List Artifact → List (String × Declaration) → Ledger → Prop where
  | done (ledger : Ledger) : Declared self scope ledger [] [] ledger
  | skipped {path : String} {rest : List Artifact} {before after : Ledger}
      {entries : List (String × Declaration)} (hrest : Declared self scope before rest entries after) :
      Declared self scope before (⟨path, none⟩ :: rest) entries after
  | declared {path source : String} {schema : Json} {rest : List Artifact}
      {before middle after : Ledger} {entries : List (String × Declaration)}
      (htransform : scope.transform self.options.looseArgs schema before = (.ok source, middle))
      (hrest : Declared self scope middle rest entries after) :
      Declared self scope before (⟨path, some schema⟩ :: rest)
        ((path, ⟨identifier (self.table ++ "_" ++ path), source⟩) :: entries) after

/-- What looking up a path comes to: the validator that is declared under the name which the table
has for the path. -/
def lookup (entries : List (String × Declaration)) (path : String) : Option String :=
  (Table.find? (entries.map fun entry => (quote entry.1, entry.2.name)) (quote path)).bind
    (Table.find? (entries.map fun entry => (entry.2.name, entry.2.source)))

variable {self : RunnableSection} {scope : Scope} {items : List Artifact} {before after : Ledger}
  {entries : List (String × Declaration)} {lines : List String}

theorem declared_of_declarations
    (h : self.declarations scope items before = (.ok entries, after)) :
    self.Declared scope before items entries after := by
  induction items generalizing before entries with
  | nil =>
    cases h
    exact .done _
  | cons artifact rest ih =>
    obtain ⟨path, schema⟩ := artifact
    cases schema with
    | none => exact .skipped (ih h)
    | some schema =>
      simp only [declarations] at h
      rw [Work.bind_apply, Work.adapt_apply] at h
      rcases htransform : scope.transform self.options.looseArgs schema before with ⟨result, middle⟩
      rw [htransform] at h
      cases result with
      | error error => cases h
      | ok source =>
        simp only [Except.mapError, Work.bind_pure_apply] at h
        rcases hothers : self.declarations scope rest middle with ⟨others, last⟩
        rw [hothers] at h
        cases others with
        | error error => cases h
        | ok others =>
          cases h
          exact .declared htransform (ih hothers)

/-- A section that is composed has its lines from such declarations. -/
theorem declared_of_compose (h : self.compose scope items before = (.ok lines, after)) :
    ∃ entries, self.Declared scope before items entries after ∧ lines = self.lines entries := by
  unfold compose at h
  rw [Work.bind_pure_apply] at h
  rcases hentries : self.declarations scope items before with ⟨result, last⟩
  rw [hentries] at h
  cases result with
  | error error => cases h
  | ok entries =>
    cases h
    exact ⟨entries, declared_of_declarations hentries, rfl⟩

theorem index_of_transform {loose : Bool} {schema : Json} {source : String}
    (h : scope.transform loose schema before = (.ok source, after)) : after.index = before.index := by
  have hafter : after = (scope.validator loose schema before).2 := by
    rw [Scope.transform_apply] at h
    exact (congrArg Prod.snd h).symm
  obtain ⟨_, _, hgrow, -⟩ := Scope.fulfil_grows scope
    (Plan.ofLowering (Schema.lower (scope.registryAt before.index) loose schema)) before
  rw [← Scope.validator_eq_fulfil, ← hafter] at hgrow
  exact hgrow.index_eq

namespace Declared

/-- The paths of the declarations are those of the artifacts that have a schema, in order. -/
theorem paths_eq (h : self.Declared scope before items entries after) :
    entries.map Prod.fst = (items.filter (·.schema.isSome)).map (·.path) := by
  induction h with
  | done => rfl
  | skipped _ ih => exact ih
  | declared _ _ ih => exact congrArg (List.cons _) ih

theorem name_eq (h : self.Declared scope before items entries after) :
    ∀ entry ∈ entries, entry.2.name = identifier (self.table ++ "_" ++ entry.1) := by
  induction h with
  | done => exact fun _ hentry => nomatch hentry
  | skipped _ ih => exact ih
  | declared _ _ ih =>
    intro entry hentry
    rcases List.mem_cons.mp hentry with rfl | hentry
    · rfl
    · exact ih entry hentry

/-- An artifact with a schema has a declaration, and its text is what the schema is transformed
to. -/
theorem exists_entry (h : self.Declared scope before items entries after) {artifact : Artifact}
    (hartifact : artifact ∈ items) {schema : Json} (hschema : artifact.schema = some schema) :
    ∃ source ledger, ledger.index = before.index ∧
      (scope.transform self.options.looseArgs schema ledger).1 = .ok source ∧
      (artifact.path, ⟨identifier (self.table ++ "_" ++ artifact.path), source⟩) ∈ entries := by
  induction h with
  | done => cases hartifact
  | skipped _ ih =>
    rcases List.mem_cons.mp hartifact with rfl | hartifact
    · cases hschema
    · exact ih hartifact
  | @declared _ source _ _ before middle _ _ htransform hrest ih =>
    rcases List.mem_cons.mp hartifact with rfl | hartifact
    · cases hschema
      exact ⟨source, before, rfl, congrArg Prod.fst htransform, List.mem_cons_self⟩
    · obtain ⟨source', ledger, hindex, hsource, hmem⟩ := ih hartifact
      exact ⟨source', ledger, hindex.trans (index_of_transform htransform), hsource,
        List.mem_cons_of_mem _ hmem⟩

/-! ## Distinct paths -/

variable (hnodup : (items.map (·.path)).Nodup)

include hnodup

theorem nodup_paths (h : self.Declared scope before items entries after) :
    (entries.map Prod.fst).Nodup := by
  rw [h.paths_eq]
  exact hnodup.sublist (List.filter_sublist.map _)

/-- No two entries of the table have the same key. -/
theorem nodup_keys (h : self.Declared scope before items entries after) :
    (entries.map fun entry => quote entry.1).Nodup := by
  have hkeys := (h.nodup_paths hnodup).map (f := quote) fun _ _ => quote_injective
  rwa [List.map_map] at hkeys

/-- No two declarations have the same name: the name of the table, which comes before the path, keeps
every path from being changed. -/
theorem nodup_names (h : self.Declared scope before items entries after) {kind : SectionKind}
    (htable : self.table = kind.table) : (entries.map fun entry => entry.2.name).Nodup := by
  have hinjective : ∀ path other : String,
      identifier (self.table ++ "_" ++ path) = identifier (self.table ++ "_" ++ other) →
        path = other := by
    intro path other hname
    rw [htable] at hname
    rcases identifier_eq_iff.mp hname with hsame | ⟨hguarded, -⟩ | ⟨hguarded, -⟩
    · exact (SectionKind.table_inj hsame).2
    · exact absurd hguarded (kind.not_guarded path)
    · exact absurd hguarded (kind.not_guarded other)
  have hnames := (h.nodup_paths hnodup).map hinjective
  rw [List.map_map] at hnames
  rwa [List.map_congr_left h.name_eq]

/-- Looking up the path of a declaration leads to this declaration. -/
theorem lookup_eq (h : self.Declared scope before items entries after) {kind : SectionKind}
    (htable : self.table = kind.table) {path : String} {declaration : Declaration}
    (hentry : (path, declaration) ∈ entries) :
    lookup entries path = some declaration.source := by
  have hkey : Table.find? (entries.map fun entry => (quote entry.1, entry.2.name)) (quote path) =
      some declaration.name := by
    refine Table.find?_of_mem ?_ (List.mem_map.mpr ⟨_, hentry, rfl⟩)
    rw [List.map_map]
    exact h.nodup_keys hnodup
  have hname : Table.find? (entries.map fun entry => (entry.2.name, entry.2.source))
      declaration.name = some declaration.source := by
    refine Table.find?_of_mem ?_ (List.mem_map.mpr ⟨_, hentry, rfl⟩)
    rw [List.map_map]
    exact h.nodup_names hnodup htable
  rw [lookup, hkey, Option.bind_some, hname]

omit hnodup in
/-- A path that no artifact with a schema has leads nowhere. -/
theorem lookup_eq_none (h : self.Declared scope before items entries after) {path : String}
    (hpath : ∀ artifact ∈ items, artifact.path = path → artifact.schema = none) :
    lookup entries path = none := by
  have hkey : Table.find? (entries.map fun entry => (quote entry.1, entry.2.name)) (quote path) =
      none := by
    cases hfind : Table.find? (entries.map fun entry => (quote entry.1, entry.2.name))
        (quote path) with
    | none => rfl
    | some name =>
      obtain ⟨entry, hentry, heq⟩ := List.mem_map.mp (Table.mem_of_find? hfind)
      have hsame : entry.1 = path := quote_injective (congrArg Prod.fst heq)
      have hmem : path ∈ (items.filter (·.schema.isSome)).map (·.path) := by
        rw [← h.paths_eq, ← hsame]
        exact List.mem_map_of_mem hentry
      obtain ⟨artifact, hartifact, hfound⟩ := List.mem_map.mp hmem
      obtain ⟨hartifact, hsome⟩ := List.mem_filter.mp hartifact
      rw [hpath artifact hartifact hfound] at hsome
      cases hsome
  rw [lookup, hkey, Option.bind_none]

end Declared

end RunnableSection

/-! ## Sections of a run -/

section

variable {σ : Type} {schedule : List SectionKind} {source : Source (StateM σ)} {scope : Scope}
  {state : σ} {kind : SectionKind}

/-- A section that was generated was composed, and has written the lines that came out. -/
theorem exists_composition_of_generated
    (h : (finalBoard schedule source scope state).outcome kind = .generated) :
    ∃ material lines before after, Section.Gathered source kind material ∧
      before.index = (finalBoard schedule source scope state).ledger.index ∧
      Section.compose scope kind material before = (.ok lines, after) ∧
      (finalBoard schedule source scope state).contribution kind =
        some (Outlet.linesText lines) := by
  obtain ⟨compositions, hsound, hfinished, -⟩ := finalBoard_sound schedule source scope state
  rcases hsound.outcome_cases hfinished kind with ⟨-, houtcome⟩ | ⟨-, error, -, -, houtcome⟩ |
    ⟨_, -, error, -, -, -, houtcome⟩ | ⟨c, hc, lines, rfl, -, hresult, -⟩
  · rw [h] at houtcome; cases houtcome
  · rw [h] at houtcome; cases houtcome
  · rw [h] at houtcome; cases houtcome
  · obtain ⟨before, after, hindex, hcompose⟩ := hsound.composes.exists_compose hc
    rw [hresult] at hcompose
    exact ⟨c.material, lines, before, after, hsound.gathered c hc, hindex, hcompose,
      (hsound.outcome_ok hfinished hc hresult).2⟩

/-- A section of scripts or flows that was generated consists of the accessors; in the order of the
listing, for each artifact that has a schema, a declaration of what that schema is transformed to;
and the table, with an entry for each of these declarations in the same order. If the paths in the
listing are distinct, then so are the names and the keys, and looking up the path of an artifact
leads to what its own schema was transformed to, and to nothing if it has none. -/
theorem generated_lookup (hkind : kind ≠ .resources)
    (h : (finalBoard schedule source scope state).outcome kind = .generated) :
    let board := finalBoard schedule source scope state
    let self := RunnableSection.ofKind scope.config kind
    ∃ items entries before after, Section.Gathered source kind (.artifacts items) ∧
      before.index = board.ledger.index ∧ self.Declared scope before items entries after ∧
      board.contribution kind = some (Outlet.linesText ([self.accessors] ++
        entries.map (fun entry =>
          "const " ++ entry.2.name ++ " = lazyObject(() => " ++ entry.2.source ++ ");") ++
        ["const " ++ self.table ++ " = lazyObject(() => (\x7b"] ++
        entries.map (fun entry => quote entry.1 ++ ": " ++ entry.2.name ++ ",") ++
        ["\x7d as const));"])) ∧
      ((items.map (·.path)).Nodup →
        (entries.map fun entry => entry.2.name).Nodup ∧
        (entries.map fun entry => quote entry.1).Nodup ∧
        ∀ artifact ∈ items, match artifact.schema with
          | some schema => ∃ text ledger, ledger.index = board.ledger.index ∧
            (scope.transform self.options.looseArgs schema ledger).1 = .ok text ∧
            RunnableSection.lookup entries artifact.path = some text
          | none => RunnableSection.lookup entries artifact.path = none) := by
  intro board self
  obtain ⟨material, lines, before, after, hgathered, hindex, hcompose, hcontribution⟩ :=
    exists_composition_of_generated h
  cases material with
  | instances _ => exact absurd hgathered hkind
  | artifacts items =>
    have hself : self.compose scope items before = (.ok lines, after) := by
      rw [← hcompose]
      cases kind with
      | resources => exact absurd rfl hkind
      | scripts => rfl
      | flows => rfl
    have htable : self.table = kind.table := Section.table_ofKind scope.config hkind
    obtain ⟨entries, hdeclared, rfl⟩ := RunnableSection.declared_of_compose hself
    refine ⟨items, entries, before, after, hgathered, hindex, hdeclared, hcontribution,
      fun hnodup => ⟨hdeclared.nodup_names hnodup htable, hdeclared.nodup_keys hnodup,
        fun artifact hartifact => ?_⟩⟩
    cases hschema : artifact.schema with
    | some schema =>
      obtain ⟨text, ledger, hledger, htext, hentry⟩ := hdeclared.exists_entry hartifact hschema
      exact ⟨text, ledger, hledger.trans hindex, htext,
        hdeclared.lookup_eq hnodup htable hentry⟩
    | none =>
      refine hdeclared.lookup_eq_none fun other hother hpath => ?_
      rw [List.inj_on_of_nodup_map hnodup hother hartifact hpath, hschema]

end

/-- A workspace with three scripts, of which the second has no schema. -/
def shelf : MemoryCatalog where
  scripts := [{ path := "f/a", schema := some (.obj [("type", .str "string")]) }, { path := "f/b" },
    { path := "f/\"c\"", schema := some (.obj [("type", .str "boolean")]) }]

def shelfBoard : Board :=
  finalBoard [] (shelf.source : Source (StateM Unit)) ⟨[], {}, ""⟩ ()

theorem shelfBoard_scripts : shelfBoard.outcome .scripts = .generated :=
  Board.outcome_of_contribution (by decide +kernel)

theorem generated_lookup_shelf : SectionKind.scripts ≠ .resources ∧
    shelfBoard.outcome .scripts = .generated ∧ ∃ entries text other,
      RunnableSection.lookup entries "f/a" = some text ∧
      RunnableSection.lookup entries "f/b" = none ∧
      RunnableSection.lookup entries "f/\"c\"" = some other := by
  refine ⟨by decide, shelfBoard_scripts, ?_⟩
  obtain ⟨items, entries, -, -, ⟨listing, ⟨_, hgives⟩, hcomplete⟩, -, -, -, hlookup⟩ :=
    generated_lookup (by decide) shelfBoard_scripts
  have hlisting : listing = ⟨shelf.scripts, none⟩ := hgives.symm
  have hitems : items = shelf.scripts := by
    rw [hlisting] at hcomplete
    exact (Except.ok.inj hcomplete).symm
  subst hitems
  obtain ⟨-, -, hartifacts⟩ := hlookup (by decide)
  obtain ⟨text, -, -, -, ha⟩ := hartifacts ⟨"f/a", _⟩ List.mem_cons_self
  obtain ⟨other, -, -, -, hc⟩ :=
    hartifacts ⟨"f/\"c\"", _⟩ (List.mem_cons_of_mem _ (List.mem_cons_of_mem _ List.mem_cons_self))
  have hb := hartifacts ⟨"f/b", none⟩ (List.mem_cons_of_mem _ List.mem_cons_self)
  exact ⟨entries, text, other, ha, hb, hc⟩

end SchemaClient
