/-
SchemaClient.Proofs.Catalog.Grouping — the instance index as a whole.

Resources come into the index one after the other. What comes out are their types, in the order in
which they first come up, each with the paths of its resources in the order of the listing.

* `InstanceIndex.grouped` — some resources, those of one type next to each other.
* `InstanceIndex.ofList_eq` — the index of some resources.
* `InstanceIndex.grouped_perm` — grouping keeps every resource, and adds none.
* `InstanceIndex.mem_paths_of_default` — a default is one of the instances.
-/
import Mathlib.Data.List.Induction
import SchemaClient.Proofs.Catalog.Instances
import SchemaClient.Proofs.Lowering.Canonical

namespace SchemaClient

namespace Schema

/-- A text that comes last is kept if it is new. -/
theorem distinct_snoc (texts : List String) (text : String) :
    distinct (texts ++ [text]) =
      if text ∈ texts then distinct texts else distinct texts ++ [text] := by
  have hfold : distinct (texts ++ [text]) =
      if (distinct texts).contains text then distinct texts else distinct texts ++ [text] := by
    unfold distinct
    rw [List.foldl_append]
    rfl
  rw [hfold]
  simp only [List.contains_iff_mem, mem_distinct]

end Schema

namespace Table

variable {α : Type}

/-- A new name comes last. -/
theorem alter_of_not_mem {table : Table α} {name : String} (h : name ∉ names table)
    (f : Option α → α) : alter table name f = table ++ [(name, f none)] := by
  induction table with
  | nil => rfl
  | cons entry rest ih =>
    rw [names, List.map_cons, List.mem_cons, not_or] at h
    rw [alter, if_neg (Ne.symm h.1), ih h.2, List.cons_append]

/-- A name that is there keeps its place. -/
theorem alter_map {texts : List String} (hnodup : texts.Nodup) (value : String → α) {name : String}
    (h : name ∈ texts) (f : Option α → α) :
    alter (texts.map fun text => (text, value text)) name f =
      texts.map fun text => (text, if text = name then f (some (value text)) else value text) := by
  induction texts with
  | nil => cases h
  | cons first rest ih =>
    obtain ⟨hfirst, hrest⟩ := List.nodup_cons.mp hnodup
    simp only [List.map_cons, alter]
    by_cases heq : first = name
    · subst heq
      rw [if_pos rfl, if_pos rfl]
      refine congrArg _ (List.map_congr_left fun text htext => ?_)
      have hne : text ≠ first := fun heq => hfirst (heq ▸ htext)
      rw [if_neg hne]
    · rw [if_neg heq, if_neg heq, ih hrest ((List.mem_cons.mp h).resolve_left (Ne.symm heq))]

end Table

namespace InstanceIndex

variable {resources : List ResourceInstance}

/-- The paths of the resources of a type, in order. -/
def pathsOf (resources : List ResourceInstance) (name : String) : List String :=
  (resources.filter (·.resourceType == name)).map (·.path)

/-- The resources by their type: types in the order in which they first come up, and of each type
the resources in order. -/
def grouped (resources : List ResourceInstance) : List ResourceInstance :=
  (Schema.distinct (resources.map (·.resourceType))).flatMap fun name =>
    resources.filter (·.resourceType == name)

/-! ## The index -/

theorem ofList_snoc (resources : List ResourceInstance) (resource : ResourceInstance) :
    ofList (resources ++ [resource]) = (ofList resources).add resource := by
  unfold ofList
  rw [List.foldl_append]
  rfl

theorem pathsOf_snoc (resources : List ResourceInstance) (resource : ResourceInstance)
    (name : String) :
    pathsOf (resources ++ [resource]) name =
      if name = resource.resourceType then pathsOf resources name ++ [resource.path]
      else pathsOf resources name := by
  unfold pathsOf
  rw [List.filter_append, List.map_append]
  by_cases h : name = resource.resourceType
  · simp [h]
  · simp [h, Ne.symm h]

/-- There are paths of the types of the resources, and of no others. -/
theorem pathsOf_eq_nil {name : String} (h : name ∉ resources.map (·.resourceType)) :
    pathsOf resources name = [] := by
  rw [pathsOf, List.map_eq_nil_iff, List.filter_eq_nil_iff]
  intro resource hresource heq
  exact h (List.mem_map.mpr ⟨resource, hresource, beq_iff_eq.mp heq⟩)

/-- The index has the types of the resources, each once, with the paths of its resources. -/
theorem ofList_eq (resources : List ResourceInstance) :
    ofList resources =
      (Schema.distinct (resources.map (·.resourceType))).map fun name =>
        (name, pathsOf resources name) := by
  induction resources using List.reverseRecOn with
  | nil => rfl
  | append_singleton rest last ih =>
    rw [ofList_snoc, ih, add, List.map_append, List.map_singleton, Schema.distinct_snoc]
    by_cases h : last.resourceType ∈ rest.map (·.resourceType)
    · rw [if_pos h, Table.alter_map (Schema.nodup_distinct _) _ (Schema.mem_distinct.mpr h)]
      refine List.map_congr_left fun name _ => ?_
      rw [pathsOf_snoc]
      rfl
    · have hnames : last.resourceType ∉ Table.names
          ((Schema.distinct (rest.map (·.resourceType))).map fun name =>
            (name, pathsOf rest name)) := by
        rw [Table.names, List.map_map]
        simpa [Schema.mem_distinct] using h
      rw [if_neg h, Table.alter_of_not_mem hnames, List.map_append, List.map_singleton,
        pathsOf_snoc, if_pos rfl, pathsOf_eq_nil h]
      refine congrArg (· ++ _) (List.map_congr_left fun name hname => ?_)
      rw [pathsOf_snoc, if_neg]
      rintro rfl
      exact h (Schema.mem_distinct.mp hname)

theorem names_ofList (resources : List ResourceInstance) :
    Table.names (ofList resources) = Schema.distinct (resources.map (·.resourceType)) := by
  rw [ofList_eq, Table.names, List.map_map]
  exact List.map_id _

theorem nodup_names_ofList (resources : List ResourceInstance) :
    (Table.names (ofList resources)).Nodup := by
  rw [names_ofList]
  exact Schema.nodup_distinct _

theorem paths_ofList (resources : List ResourceInstance) (name : String) :
    (ofList resources).paths name = pathsOf resources name := by
  induction resources using List.reverseRecOn with
  | nil => rfl
  | append_singleton rest last ih =>
    rw [ofList_snoc, paths_add, pathsOf_snoc, ih]
    simp only [eq_comm]

theorem mem_pathsOf {name path : String} :
    path ∈ pathsOf resources name ↔
      ∃ resource ∈ resources, resource.resourceType = name ∧ resource.path = path := by
  simp [pathsOf, and_assoc]

/-! ## Grouping -/

/-- To take resources apart by some names, among which are all of their types, is to order them. -/
theorem flatMap_filter_perm {names : List String} (hnodup : names.Nodup)
    (hall : ∀ resource ∈ resources, resource.resourceType ∈ names) :
    (names.flatMap fun name => resources.filter (·.resourceType == name)).Perm resources := by
  induction names generalizing resources with
  | nil =>
    have hnil : resources = [] := List.eq_nil_iff_forall_not_mem.mpr fun r hr => nomatch hall r hr
    rw [hnil]
    exact .refl _
  | cons first rest ih =>
    obtain ⟨hfirst, hrest⟩ := List.nodup_cons.mp hnodup
    -- the other names take apart what is not of the first type
    have hothers : (rest.flatMap fun name => resources.filter (·.resourceType == name)) =
        rest.flatMap fun name =>
          (resources.filter fun r => !(r.resourceType == first)).filter
            (·.resourceType == name) := by
      refine List.flatMap_congr fun name hname => ?_
      rw [List.filter_filter]
      refine List.filter_congr fun r _ => ?_
      by_cases hr : r.resourceType = name
      · have hne : r.resourceType ≠ first := fun heq => hfirst (heq ▸ hr ▸ hname)
        simp [hr, hr ▸ hne]
      · simp [hr]
    have hlisted : ∀ r ∈ resources.filter fun r => !(r.resourceType == first),
        r.resourceType ∈ rest := by
      intro r hr
      obtain ⟨hmem, hne⟩ := List.mem_filter.mp hr
      have hne : r.resourceType ≠ first := by simpa using hne
      exact (List.mem_cons.mp (hall r hmem)).resolve_left hne
    rw [List.flatMap_cons, hothers]
    exact ((ih hrest hlisted).append_left _).trans (List.filter_append_perm _ _)

/-- Grouping keeps every resource, and adds none. -/
theorem grouped_perm (resources : List ResourceInstance) : (grouped resources).Perm resources :=
  flatMap_filter_perm (Schema.nodup_distinct _) fun _ hr =>
    Schema.mem_distinct.mpr (List.mem_map_of_mem hr)

/-- The entries of the index, one after the other, are the resources by their type. -/
theorem flatMap_ofList {β : Type} (resources : List ResourceInstance) (f : String → String → β) :
    (ofList resources).flatMap (fun (name, paths) => paths.map (f name)) =
      (grouped resources).map fun r => f r.resourceType r.path := by
  rw [ofList_eq, grouped, List.map_flatMap, List.flatMap_map]
  refine List.flatMap_congr fun name _ => ?_
  simp only [pathsOf, List.map_map]
  refine List.map_congr_left fun r hr => ?_
  have hname : r.resourceType = name := beq_iff_eq.mp (List.mem_filter.mp hr).2
  rw [hname]
  rfl

/-! ## Defaults -/

/-- A default is one of the instances. -/
theorem mem_paths_of_default {index : InstanceIndex} {configured : Table (Option String)}
    {name path : String} (h : index.default? configured name = .ok (some path)) :
    path ∈ index.paths name := by
  unfold default? at h
  simp only at h
  split at h
  · split at h
    · rename_i hcontains
      cases h
      simpa using hcontains
    · cases h
  · cases h
  · rename_i only _ hpaths
    cases h
    rw [hpaths]
    exact List.mem_singleton_self _
  · cases h

end InstanceIndex

end SchemaClient
