/-
SchemaClient.Proofs.Emission.Forcing — which pieces of the file can force a declaration.

The declarations of a piece are read off from its parts. A table opens with a bracket, and the shared
validators, the references to instances and the unions of a type with them open with `z.`, so all of
these force nothing. What is left are the validators of artifacts and those of types.

* `Part.declarations`, `Part.linesText_of_declarations` — the declarations of a part, as written.
* `Scope.forces_of_parts` — what the declarations of a demand can force.
* `Section.forces_of_parts` — what the declarations of a section can force.
-/
import SchemaClient.Proofs.Emission.Constants
import SchemaClient.Proofs.Validator.Core

namespace SchemaClient

/-! ## The declarations of a part -/

namespace Part

/-- The declarations of a part, each a name and an expression. -/
def declarations : Part → List Declaration
  | plain _ => []
  | fixed declaration => [declaration]
  | const name validator => [⟨name, validator.source⟩]
  | table name entries =>
    [⟨name, "(\x7b\n" ++ Outlet.linesText
      (entries.map fun (key, value) => Section.tableEntry key value) ++ "\x7d as const)"⟩]
  | types _ _ => []

/-- What is written of a part that makes a declaration is that declaration. -/
theorem linesText_of_declarations {part : Part} {declaration : Declaration}
    (h : declaration ∈ part.declarations) :
    Outlet.linesText part.lines = declaration.render ++ "\n" := by
  cases part with
  | plain _ => cases h
  | fixed _ =>
    cases List.mem_singleton.mp h
    simp [lines, Outlet.linesText]
  | const _ _ =>
    rw [List.mem_singleton.mp h]
    simp [lines, Outlet.linesText]
  | table name entries =>
    rw [List.mem_singleton.mp h]
    have hopen : " = lazyObject(() => (\x7b\n" = " = lazyObject(() => " ++ "(\x7b\n" := by decide
    simp [lines, Outlet.linesText_append, Outlet.linesText, Declaration.render, String.append_assoc]
    rw [hopen, String.append_assoc]
  | types _ _ => cases h

/-- A table forces nothing: its expression opens with a bracket. -/
theorem not_forces_table {name : String} {entries : List (String × String)}
    {declaration : Declaration} (h : declaration ∈ (table name entries).declarations)
    {other : String} (hother : Identifier.Valid other) : ¬ declaration.Forces other := by
  intro hforces
  rw [List.mem_singleton.mp h] at hforces
  have hhead := hforces.takeWhile_eq hother.dot_not_mem
  simp only [String.toList_append, List.append_assoc] at hhead
  have hmem : '(' ∈ other.toList := by
    rw [← hhead]
    exact List.mem_cons_self
  exact absurd (hother.isPart '(' hmem) (by decide)

end Part

/-! ## Fixed declarations -/

theorem not_forces_base64Content {other : String} (hother : Identifier.Valid other)
    (hz : other ≠ "z") : ¬ Declaration.base64Content.Forces other := by
  intro hforces
  have hhead : Declaration.base64Content.source.toList.takeWhile (· != '.') = "z".toList := by
    rw [Declaration.base64Content, String.toList_ofList]
    decide +kernel
  exact hz (String.toList_inj.mp ((hforces.takeWhile_eq hother.dot_not_mem).symm.trans hhead))

theorem not_forces_storageObject {other : String} (hother : Identifier.Valid other)
    (hz : other ≠ "z") : ¬ Declaration.storageObject.Forces other := by
  intro hforces
  have hcore := (Declaration.forces_iff (by decide) hother hz).mp hforces
  cases hcore

/-! ## Demands and sections -/

/-- Of the declarations that a demand makes only that of a type's own values can force anything, and
then it forces what the type wants. -/
theorem Scope.forces_of_parts {scope : Scope} {index : Option InstanceIndex} {d : Demand}
    (hfeasible : scope.Feasible index d) {part : Part} (hpart : part ∈ scope.parts index d)
    {declaration : Declaration} (hdeclaration : declaration ∈ part.declarations) {other : String}
    (hvalid : Identifier.Valid other) (hz : other ≠ "z") (hforces : declaration.Forces other) :
    ∃ name v c, d = .resourceType name ∧ declaration.name = typeName name ∧
      scope.ownValidator index name = .ok v ∧ v.core? = some other ∧
      c ∈ scope.wanted index d ∧ c.reference (scope.registryAt index) = other := by
  cases d with
  | base64Content =>
    rw [List.mem_singleton.mp hpart] at hdeclaration
    rw [List.mem_singleton.mp hdeclaration] at hforces
    exact absurd hforces (not_forces_base64Content hvalid hz)
  | storageObject =>
    rw [List.mem_singleton.mp hpart] at hdeclaration
    rw [List.mem_singleton.mp hdeclaration] at hforces
    exact absurd hforces (not_forces_storageObject hvalid hz)
  | resourceType name =>
    obtain ⟨known, v, rfl, hown, -, -⟩ := feasible_resourceType hfeasible
    simp only [parts, hown] at hpart
    rcases List.mem_cons.mp hpart with rfl | hpart
    · cases List.mem_singleton.mp hdeclaration
      have hreferences := references_ownValidator hown
      have hcore : v.core? = some other := by
        refine (Declaration.forces_iff (fun name hname => ?_) hvalid hz).mp hforces
        rw [hreferences] at hname
        obtain ⟨c, -, rfl⟩ := List.mem_map.mp hname
        exact c.valid_reference _
      have hmem := v.core_mem_references hcore
      rw [hreferences] at hmem
      obtain ⟨c, hc, hreference⟩ := List.mem_map.mp hmem
      exact ⟨name, v, c, rfl, rfl, hown, hcore, hc, hreference⟩
    · unfold instanceParts at hpart
      split at hpart
      · cases hpart
      · cases hpart
      · simp only [List.mem_cons, List.not_mem_nil, or_false] at hpart
        rcases hpart with rfl | rfl
        · cases List.mem_singleton.mp hdeclaration
          have hcore := (Declaration.forces_iff (fun name hname => ?_) hvalid hz).mp hforces
          · have hmem := Validator.core_mem_references _ hcore
            rw [references_references] at hmem
            cases hmem
          · rw [references_references] at hname
            cases hname
        · cases List.mem_singleton.mp hdeclaration
          have hcore := (Declaration.forces_iff (fun name hname => ?_) hvalid hz).mp hforces
          · cases hcore
          · simp only [Validator.references, Validator.listReferences, List.mem_append,
              List.mem_singleton, List.not_mem_nil, or_false] at hname
            rcases hname with rfl | rfl <;> exact identifier_valid _

/-- Of the declarations of a section only those of artifacts can force anything, and then it is what
the section demands. -/
theorem Section.forces_of_parts {scope : Scope} {index : Option InstanceIndex} {kind : SectionKind}
    {material : Material} {lines : List String}
    (h : (plan scope index kind material).result = .ok lines) (hsuits : Suits kind material)
    {part : Part} (hpart : part ∈ parts scope index kind material)
    {declaration : Declaration} (hdeclaration : declaration ∈ part.declarations) {other : String}
    (hvalid : Identifier.Valid other) (hz : other ≠ "z") (hforces : declaration.Forces other) :
    ∃ path, .artifact kind path ∈ constantsOf kind material ∧
      declaration.name = (Constant.artifact kind path).name ∧
      ∃ d ∈ (plan scope index kind material).demands,
        d.reference (scope.registryAt index) = other := by
  cases material with
  | instances listed =>
    obtain ⟨_, -, hmap, -⟩ := Plan.andThen_ok h
    obtain ⟨defaults, hdefaults, -⟩ := Plan.map_ok hmap
    simp only [parts, hdefaults, resourceParts, List.mem_cons, List.not_mem_nil, or_false] at hpart
    rcases hpart with rfl | rfl | rfl | rfl
    · cases hdeclaration
    · exact absurd hforces (Part.not_forces_table hdeclaration hvalid)
    · cases hdeclaration
    · cases hdeclaration
  | artifacts items =>
    obtain ⟨validators, hvalidators, -⟩ := Plan.map_ok h
    have hreferences := (validatorsPlan_ok hvalidators).2
    simp only [parts, hvalidators, artifactParts, List.mem_append, List.mem_singleton,
      List.mem_map] at hpart
    rcases hpart with (rfl | ⟨⟨path, v⟩, hentry, rfl⟩) | rfl
    · cases hdeclaration
    · cases List.mem_singleton.mp hdeclaration
      have hcore : v.core? = some other := by
        refine (Declaration.forces_iff (fun name hname => ?_) hvalid hz).mp hforces
        obtain ⟨d, -, rfl⟩ := hreferences _ hentry name hname
        exact d.valid_reference _
      have hpath : path ∈ (items.filter (·.schema.isSome)).map (·.path) := by
        rw [← RunnableSection.paths_validatorsPlan hvalidators]
        exact List.mem_map_of_mem (f := Prod.fst) hentry
      obtain ⟨artifact, hartifact, rfl⟩ := List.mem_map.mp hpath
      refine ⟨artifact.path, ?_, ?_, hreferences _ hentry other (v.core_mem_references hcore)⟩
      · exact List.mem_append_left _ (List.mem_append_right _
          (List.mem_map.mpr ⟨artifact, hartifact, rfl⟩))
      · simp only [RunnableSection.declarationName, Constant.name, table_ofKind scope.config hsuits]
    · exact absurd hforces (Part.not_forces_table hdeclaration hvalid)

end SchemaClient
