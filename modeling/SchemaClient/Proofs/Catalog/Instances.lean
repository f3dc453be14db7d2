/-
SchemaClient.Proofs.Catalog.Instances — which types the instance index has.

* `InstanceIndex.mem_names_ofList` — the types of the resources.
* `InstanceIndex.paths_ofList_ne_nil` — none of them has an empty list of paths.
-/
import SchemaClient.Catalog.Instances

namespace SchemaClient

namespace Table

variable {α : Type}

theorem find?_alter (table : Table α) (name other : String) (f : Option α → α) :
    find? (alter table name f) other =
      if name = other then some (f (find? table name)) else find? table other := by
  induction table with
  | nil => rfl
  | cons entry rest ih =>
    obtain ⟨n, value⟩ := entry
    simp only [alter]
    by_cases hn : n = name
    · subst hn
      rw [if_pos rfl]
      by_cases hother : n = other
      · simp [find?, hother]
      · simp [find?, hother]
    · rw [if_neg hn]
      simp only [find?, ih, if_neg hn]
      by_cases hother : name = other
      · subst hother
        simp only [if_neg hn, if_true]
      · rw [if_neg hother, if_neg hother]

theorem mem_names_iff (table : Table α) (name : String) :
    name ∈ names table ↔ (find? table name).isSome := by
  induction table with
  | nil => simp [names, find?]
  | cons entry rest ih =>
    obtain ⟨n, value⟩ := entry
    simp only [names, List.map_cons, List.mem_cons, find?]
    by_cases hn : n = name
    · simp [hn]
    · rw [if_neg hn, ← ih]
      simp [names, Ne.symm hn]

end Table

namespace InstanceIndex

theorem paths_add (index : InstanceIndex) (resource : ResourceInstance) (name : String) :
    (index.add resource).paths name =
      if resource.resourceType = name then index.paths name ++ [resource.path]
      else index.paths name := by
  simp only [paths, add, Table.find?_alter]
  split
  · rename_i heq
    subst heq
    rfl
  · rfl

/-- A type has paths if there is a resource of it. -/
theorem paths_ofList_ne_nil {resources : List ResourceInstance} {name : String} :
    (ofList resources).paths name ≠ [] ↔ ∃ r ∈ resources, r.resourceType = name := by
  have hfold : ∀ index : InstanceIndex, (resources.foldl add index).paths name ≠ [] ↔
      index.paths name ≠ [] ∨ ∃ r ∈ resources, r.resourceType = name := by
    induction resources with
    | nil => simp
    | cons first rest ih =>
      intro index
      rw [List.foldl_cons, ih, paths_add]
      by_cases hfirst : first.resourceType = name
      · simp [hfirst]
      · simp [hfirst]
  exact (hfold []).trans (by simp [paths, Table.find?])

/-- The index has the types of the resources. -/
theorem mem_names_ofList {resources : List ResourceInstance} {name : String} :
    name ∈ Table.names (ofList resources) ↔ ∃ r ∈ resources, r.resourceType = name := by
  have hfold : ∀ index : InstanceIndex, name ∈ Table.names (resources.foldl add index) ↔
      name ∈ Table.names index ∨ ∃ r ∈ resources, r.resourceType = name := by
    induction resources with
    | nil => simp
    | cons first rest ih =>
      intro index
      rw [List.foldl_cons, ih, Table.mem_names_iff, add, Table.find?_alter, Table.mem_names_iff]
      by_cases hfirst : first.resourceType = name
      · simp [hfirst]
      · simp [hfirst]
  exact (hfold []).trans (by simp [Table.names])

/-- Of a listing the index has the resources whose type the catalog has. -/
theorem ofListing_ok {catalog : TypeCatalog} {listing : Listing ResourceInstance}
    {index : InstanceIndex} (h : ofListing catalog listing = .ok index) :
    listing.failure = none ∧
      index = ofList (listing.items.filter fun r => Table.has catalog r.resourceType) := by
  unfold ofListing Listing.complete at h
  cases hfailure : listing.failure with
  | none =>
    rw [hfailure] at h
    exact ⟨rfl, (Except.ok.inj h).symm⟩
  | some error => rw [hfailure] at h; cases h

end InstanceIndex

end SchemaClient
