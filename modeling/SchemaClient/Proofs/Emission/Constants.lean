/-
SchemaClient.Proofs.Emission.Constants — which constants the pieces of the file declare.

Each piece of the file declares constants of its own at the left margin, in a fixed order: the
preamble the wrapper, a section its accessors, a validator for each artifact that has a schema, and
its table; a demand that is met what it makes.

* `Preamble.constants_text` — what the preamble declares: the wrapper, and what a hook brings along.
* `Section.constantsOf`, `Section.constants_lines` — what a section declares.
* `Scope.constantsOf`, `Scope.constants_parts` — what a demand declares.
* `Section.nodup_constantsOf`, `Scope.nodup_constantsOf` — none of them twice, if paths are distinct.
-/
import SchemaClient.Generation.Preamble
import SchemaClient.Proofs.Emission.Naming

namespace SchemaClient

/-! ## The preamble -/

/-- A line that begins with another letter declares nothing. -/
theorem constants_of_head {line : String} {d : Char} (hfeed : '\n' ∉ line.toList)
    (hhead : line.toList.head? = some d) (hconst : d ≠ 'c') (hexport : d ≠ 'e') :
    constants line = [] := by
  rw [constants, rows_of_not_mem hfeed]
  simp [constant?_of_head hhead hconst hexport]

theorem constants_intercalate (lines : List String) :
    constants (String.intercalate "\n" lines) = lines.flatMap constants := by
  match lines with
  | [] => decide
  | [only] => simp [String.intercalate_singleton]
  | first :: second :: rest =>
    rw [String.intercalate_cons_cons, constants_append_feed, constants_intercalate (second :: rest)]
    rfl

namespace Preamble

/-- The two forms that the import of a hook has. -/
theorem hookImport_cases (hook : Hook) (outputRoot : String) : ∃ specifier,
    hookImport hook outputRoot =
        "import " ++ Section.hookName ++ " from " ++ quote specifier ++ ";" ∨
      hookImport hook outputRoot = "import \x7b " ++ hook.exportName ++ " as " ++
        Section.hookName ++ " \x7d from " ++ quote specifier ++ ";" := by
  by_cases hdefault : hook.exportName = "default"
  · exact ⟨_, Or.inl (if_pos hdefault)⟩
  · exact ⟨_, Or.inr (if_neg hdefault)⟩

/-- If the name of its export is a single line, the import of a hook is one too, whatever its specifier
is. -/
theorem constants_hookImport {hook : Hook} {outputRoot : String}
    (h : '\n' ∉ hook.exportName.toList) : constants (hookImport hook outputRoot) = [] := by
  have hquote : ∀ text, '\n' ∉ (quote text).toList := fun text =>
    feed_not_mem (whole_quote text).printable
  have hname : '\n' ∉ Section.hookName.toList := by decide
  obtain ⟨specifier, heq | heq⟩ := hookImport_cases hook outputRoot
  · have hfeed : '\n' ∉ (hookImport hook outputRoot).toList := by
      rw [heq]
      simp only [String.toList_append, List.mem_append, not_or]
      exact ⟨⟨⟨⟨by decide, hname⟩, by decide⟩, hquote _⟩, by decide⟩
    have hhead : (hookImport hook outputRoot).toList.head? = some 'i' := by
      rw [heq]
      simp only [String.toList_append, List.append_assoc]
      rfl
    exact constants_of_head hfeed hhead (by decide) (by decide)
  · have hfeed : '\n' ∉ (hookImport hook outputRoot).toList := by
      rw [heq]
      simp only [String.toList_append, List.mem_append, not_or]
      exact ⟨⟨⟨⟨⟨⟨by decide, h⟩, by decide⟩, hname⟩, by decide⟩, hquote _⟩, by decide⟩
    have hhead : (hookImport hook outputRoot).toList.head? = some 'i' := by
      rw [heq]
      simp only [String.toList_append, List.append_assoc]
      rfl
    exact constants_of_head hfeed hhead (by decide) (by decide)

theorem constants_lazyObject : constants lazyObject = ["lazyObject"] := by
  delta constants rows lazyObject
  rw [String.toList_ofList]
  decide +kernel

/-- What the import of the configured hook declares. The name of its export is written as it is, so
it can bring along lines of its own. -/
def imported (config : Config) (outputRoot : String) : List String :=
  match config.resources.postProcess with
  | none => []
  | some hook => constants (hookImport hook outputRoot)

theorem imported_eq_nil {config : Config} {outputRoot : String}
    (h : ∀ hook, config.resources.postProcess = some hook → '\n' ∉ hook.exportName.toList) :
    imported config outputRoot = [] := by
  unfold imported
  cases hhook : config.resources.postProcess with
  | none => rfl
  | some hook => exact constants_hookImport (h hook hhook)

/-- The preamble declares the wrapper, after what the import of the hook declares. -/
theorem constants_text (config : Config) (outputRoot : String) :
    constants (text config outputRoot) = imported config outputRoot ++ ["lazyObject"] := by
  have hcomment : constants "// Generated by windmill-ts. Do not edit by hand." = [] := by
    decide +kernel
  have hzod : constants "import { z } from 'zod';" = [] := by decide +kernel
  have hclient : constants "import * as wmill from 'windmill-client';" = [] := by decide +kernel
  have hempty : constants "" = [] := by decide
  unfold text imported
  rw [constants_intercalate]
  cases config.resources.postProcess with
  | none => simp [hcomment, hzod, hclient, hempty, constants_lazyObject]
  | some hook => simp [hcomment, hzod, hclient, hempty, constants_lazyObject]

end Preamble

/-! ## Sections -/

namespace RunnableSection

/-- The artifacts that have a schema get a validator each, in their order. -/
theorem paths_validatorsPlan {self : RunnableSection} {scope : Scope} {index : Option InstanceIndex}
    {items : List Artifact} {validators : List (String × Validator)}
    (h : (self.validatorsPlan scope index items).result = .ok validators) :
    validators.map (·.1) = (items.filter (·.schema.isSome)).map (·.path) := by
  induction items generalizing validators with
  | nil =>
    cases h
    rfl
  | cons artifact rest ih =>
    cases hschema : artifact.schema with
    | none =>
      simp only [validatorsPlan, hschema] at h
      simp [hschema, ih h]
    | some schema =>
      simp only [validatorsPlan, hschema] at h
      obtain ⟨validator, -, hmap, -⟩ := Plan.andThen_ok h
      obtain ⟨others, hothers, rfl⟩ := Plan.map_ok hmap
      simp [hschema, ih hothers]

end RunnableSection

namespace Section

/-- The constants of a section. -/
def constantsOf (kind : SectionKind) : Material → List Constant
  | .instances _ => kind.helpers.map (.helper kind)
  | .artifacts items => kind.accessors.map (.helper kind) ++
      (items.filter (·.schema.isSome)).map (fun artifact => .artifact kind artifact.path) ++
      [.helper kind kind.table]

variable {scope : Scope} {index : Option InstanceIndex} {kind : SectionKind} {material : Material}
  {lines : List String}

/-- The table of the default instances declares itself, whatever its entries are. -/
theorem constants_defaults {entries : List String} (h : ∀ line ∈ entries, constants line = []) :
    (["export const resourceDefaults = \x7b"] ++ entries ++
      ["\x7d as const;"]).flatMap constants = ["resourceDefaults"] := by
  have hhead : constants "export const resourceDefaults = \x7b" = ["resourceDefaults"] := by
    decide +kernel
  have hclose : constants "\x7d as const;" = [] := by decide
  have hentries : entries.flatMap constants = [] := List.flatMap_eq_nil_iff.mpr h
  simp only [List.flatMap_append, List.flatMap_cons, List.flatMap_nil, hhead, hclose, hentries,
    List.append_nil]

/-- What the parts of a section of artifacts declare: the accessors, a constant for each validator,
and the table. -/
theorem constants_artifactParts {self : RunnableSection} {validators : List (String × Validator)}
    (hintact : ∀ part ∈ artifactParts self validators, part.Intact) :
    (artifactParts self validators).flatMap (fun part => part.lines.flatMap constants) =
      constants self.accessors ++ validators.map (fun entry => self.declarationName entry.1) ++
        [self.table] := by
  have hparts : artifactParts self validators = [.plain [self.accessors]] ++
      validators.map (fun entry => .const (self.declarationName entry.1) entry.2) ++
        [.table self.table
          (validators.map fun entry => (entry.1, self.declarationName entry.1))] := rfl
  rw [hparts] at hintact ⊢
  have hdeclarations : (validators.map fun entry =>
      Part.const (self.declarationName entry.1) entry.2).flatMap
        (fun part => part.lines.flatMap constants) =
      validators.map fun entry => self.declarationName entry.1 := by
    rw [List.flatMap_map, List.map_eq_flatMap]
    refine List.flatMap_congr fun entry hentry => ?_
    refine (hintact _ ?_).constants_lines id
    exact List.mem_append_left _ (List.mem_append_right _ (List.mem_map_of_mem hentry))
  have htable := (hintact (.table self.table _)
    (List.mem_append_right _ List.mem_cons_self)).constants_lines id
  have haccessors : (Part.plain [self.accessors]).lines.flatMap constants =
      constants self.accessors := List.flatMap_singleton ..
  rw [List.flatMap_append, List.flatMap_append, hdeclarations, List.flatMap_singleton,
    List.flatMap_singleton, htable, haccessors]
  rfl

/-- A section declares its constants, in this order. -/
theorem constants_lines (h : (plan scope index kind material).result = .ok lines)
    (hsuits : Suits kind material) :
    lines.flatMap constants = (constantsOf kind material).map Constant.name := by
  have hintact : ∀ part ∈ parts scope index kind material, part.Intact :=
    fun part hpart => intact_parts h hpart
  rw [lines_eq h, List.flatMap_assoc]
  cases material with
  | instances listed =>
    cases hsuits
    obtain ⟨_, -, hmap, -⟩ := Plan.andThen_ok h
    obtain ⟨defaults, hdefaults, -⟩ := Plan.map_ok hmap
    have haccessor := (exports_resourceAccessor scope.config.resources.postProcess.isSome).constants_eq
    simp only [parts, hdefaults, resourceParts, List.mem_cons, List.not_mem_nil, or_false,
      forall_eq_or_imp, forall_eq] at hintact
    obtain ⟨-, htable, htypes, -⟩ := hintact
    simp only [parts, hdefaults, resourceParts, List.flatMap_cons, List.flatMap_nil,
      htable.constants_lines id, htypes.constants_lines id]
    simp only [Part.lines, List.flatMap_cons, List.flatMap_nil, haccessor]
    rw [constants_defaults ?_]
    · rfl
    · intro line hline
      obtain ⟨entry, -, rfl⟩ := List.mem_map.mp hline
      exact constants_tableEntry _ (whole_quote _)
  | artifacts items =>
    obtain ⟨validators, hvalidators, -⟩ := Plan.map_ok h
    have haccessors := (exports_accessors scope.config hsuits).constants_eq
    have htable := table_ofKind scope.config hsuits
    have hpaths := RunnableSection.paths_validatorsPlan hvalidators
    have hnames : validators.map (fun entry =>
        (RunnableSection.ofKind scope.config kind).declarationName entry.1) =
        ((items.filter (·.schema.isSome)).map (·.path)).map
          fun path => identifier (kind.table ++ "_" ++ path) := by
      rw [← hpaths, List.map_map, ← htable]
      rfl
    simp only [parts, hvalidators] at hintact ⊢
    rw [constants_artifactParts hintact, haccessors, hnames, htable]
    simp [constantsOf, Constant.name, Function.comp_def]

/-- All of them are constants that the section can have. -/
theorem fits_constantsOf (hsuits : Suits kind material) {c : Constant}
    (hc : c ∈ constantsOf kind material) : c.Fits := by
  cases material with
  | instances listed =>
    obtain ⟨name, hname, rfl⟩ := List.mem_map.mp hc
    exact hname
  | artifacts items =>
    have hhelpers : kind.helpers = kind.accessors ++ [kind.table] := by
      cases kind with
      | resources => exact absurd rfl hsuits
      | scripts => rfl
      | flows => rfl
    simp only [constantsOf, List.mem_append, List.mem_map, List.mem_singleton] at hc
    rcases hc with (⟨name, hname, rfl⟩ | ⟨artifact, -, rfl⟩) | rfl
    · change name ∈ kind.helpers
      rw [hhelpers]
      exact List.mem_append_left _ hname
    · exact hsuits
    · change kind.table ∈ kind.helpers
      rw [hhelpers]
      exact List.mem_append_right _ List.mem_cons_self

/-- The section that a constant belongs to. -/
theorem kind_of_mem_constantsOf {c : Constant} (hc : c ∈ constantsOf kind material) :
    (∃ name, c = .helper kind name) ∨ ∃ path, c = .artifact kind path := by
  cases material with
  | instances listed =>
    obtain ⟨name, -, rfl⟩ := List.mem_map.mp hc
    exact Or.inl ⟨name, rfl⟩
  | artifacts items =>
    simp only [constantsOf, List.mem_append, List.mem_map, List.mem_singleton] at hc
    rcases hc with (⟨name, -, rfl⟩ | ⟨artifact, -, rfl⟩) | rfl
    · exact Or.inl ⟨name, rfl⟩
    · exact Or.inr ⟨artifact.path, rfl⟩
    · exact Or.inl ⟨kind.table, rfl⟩

/-- The paths of what a section is made of are distinct. -/
def DistinctPaths : Material → Prop
  | .instances _ => True
  | .artifacts items => (items.map (·.path)).Nodup

/-- Of artifacts with distinct paths each constant is declared once. -/
theorem nodup_constantsOf (hsuits : Suits kind material) (hpaths : DistinctPaths material) :
    (constantsOf kind material).Nodup := by
  have hhelper : ∀ {names : List String}, names.Nodup → (names.map (Constant.helper kind)).Nodup :=
    fun h => h.map fun _ _ heq => (Constant.helper.injEq .. ▸ heq).2
  cases material with
  | instances listed =>
    cases hsuits
    exact hhelper (by decide)
  | artifacts items =>
    have haccessors : kind.accessors.Nodup := by cases kind <;> decide
    have htable : kind.table ∉ kind.accessors := by cases kind <;> decide
    have hartifacts : ((items.filter (·.schema.isSome)).map
        fun artifact => Constant.artifact kind artifact.path).Nodup := by
      have hfiltered : ((items.filter (·.schema.isSome)).map (·.path)).Nodup :=
        hpaths.sublist (List.filter_sublist.map _)
      have hmap := hfiltered.map (f := Constant.artifact kind)
        fun _ _ heq => (Constant.artifact.injEq .. ▸ heq).2
      rwa [List.map_map] at hmap
    rw [constantsOf, List.nodup_append, List.nodup_append]
    refine ⟨⟨hhelper haccessors, hartifacts, ?_⟩, List.nodup_singleton _, ?_⟩
    · intro a ha b hb heq
      obtain ⟨name, -, rfl⟩ := List.mem_map.mp ha
      obtain ⟨artifact, -, rfl⟩ := List.mem_map.mp hb
      cases heq
    · intro a ha b hb heq
      rw [List.mem_singleton.mp hb] at heq
      subst heq
      simp [htable] at ha

end Section

/-! ## Demands -/

namespace Scope

variable {scope : Scope} {index : Option InstanceIndex}

/-- The constants of a demand. -/
def constantsOf (scope : Scope) (index : Option InstanceIndex) : Demand → List Constant
  | .resourceType name =>
    if (scope.registryAt index).hasInstances name
      then [.demanded (.resourceType name) .own, .demanded (.resourceType name) .references,
        .demanded (.resourceType name) .union]
      else [.demanded (.resourceType name) .own]
  | d => [.demanded d .own]

theorem names_constantsOf {d : Demand} (h : scope.Feasible index d) :
    (scope.parts index d).flatMap Part.names = (scope.constantsOf index d).map Constant.name := by
  cases d with
  | base64Content => rfl
  | storageObject => rfl
  | resourceType name =>
    rw [names_parts_resourceType h, constantsOf]
    split <;> rfl

/-- The lines of a demand declare its constants. -/
theorem constants_parts {d : Demand} (h : scope.Feasible index d) :
    ((scope.parts index d).flatMap Part.lines).flatMap constants =
      (scope.constantsOf index d).map Constant.name := by
  rw [← names_constantsOf h, List.flatMap_assoc]
  exact List.flatMap_congr fun part hpart =>
    (intact_parts hpart).constants_lines (isDeclaration_parts hpart).not_isPlain

theorem fits_constantsOf {d : Demand} {c : Constant} (hc : c ∈ scope.constantsOf index d) :
    c.Fits := by
  cases d with
  | base64Content => rw [List.mem_singleton.mp hc]; rfl
  | storageObject => rw [List.mem_singleton.mp hc]; rfl
  | resourceType name =>
    rw [constantsOf] at hc
    split at hc
    · simp only [List.mem_cons, List.not_mem_nil, or_false] at hc
      rcases hc with rfl | rfl | rfl <;> trivial
    · rw [List.mem_singleton.mp hc]
      trivial

/-- The demand that a constant belongs to. -/
theorem demand_of_mem_constantsOf {d : Demand} {c : Constant}
    (hc : c ∈ scope.constantsOf index d) : ∃ member, c = .demanded d member := by
  cases d with
  | base64Content => exact ⟨_, List.mem_singleton.mp hc⟩
  | storageObject => exact ⟨_, List.mem_singleton.mp hc⟩
  | resourceType name =>
    rw [constantsOf] at hc
    split at hc
    · simp only [List.mem_cons, List.not_mem_nil, or_false] at hc
      rcases hc with rfl | rfl | rfl <;> exact ⟨_, rfl⟩
    · exact ⟨_, List.mem_singleton.mp hc⟩

theorem nodup_constantsOf (d : Demand) : (scope.constantsOf index d).Nodup := by
  cases d with
  | base64Content => exact List.nodup_singleton _
  | storageObject => exact List.nodup_singleton _
  | resourceType name =>
    rw [constantsOf]
    split
    · simp
    · exact List.nodup_singleton _

end Scope

namespace Constant

/-- The constant by which a demand is referred to. -/
def ofDemand (registry : Registry) : Demand → Constant
  | .resourceType name =>
    .demanded (.resourceType name) (if registry.hasInstances name then .union else .own)
  | d => .demanded d .own

theorem name_ofDemand (registry : Registry) (d : Demand) :
    (ofDemand registry d).name = d.reference registry := by
  cases d with
  | base64Content => rfl
  | storageObject => rfl
  | resourceType name =>
    rw [ofDemand, Demand.reference]
    split <;> rfl

theorem ofDemand_mem_constantsOf {scope : Scope} {index : Option InstanceIndex} (d : Demand) :
    ofDemand (scope.registryAt index) d ∈ scope.constantsOf index d := by
  cases d with
  | base64Content => exact List.mem_cons_self
  | storageObject => exact List.mem_cons_self
  | resourceType name =>
    rw [ofDemand, Scope.constantsOf]
    split <;> simp

end Constant

end SchemaClient
