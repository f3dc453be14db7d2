/-
SchemaClient.Proofs.Catalog.Collecting — the instance index of a listing as it comes.

The items of a listing come one by one, until there are no more of them or there is an error
instead. Each that is of a type of the catalog joins the index; the index is lost if an error comes.

* `Listing.ofResults` — a listing as it comes.
* `InstanceIndex.ofListing_eq_foldlM` — the index, item by item.
* `InstanceIndex.Groups` — the items of a listing are there, by type and in order, and nothing else.
* `InstanceIndex.ofListing_groups` — the index of a listing without errors, and of one with errors.
-/
import SchemaClient.Catalog.Listing
import SchemaClient.Proofs.Catalog.Grouping

namespace SchemaClient

/-! ## Listings as they come -/

namespace Listing

variable {α : Type}

/-- A listing that has items, or an error in the place of an item. Nothing counts that comes after
the first error. -/
def ofResults : List (Except Error α) → Listing α
  | [] => ⟨[], none⟩
  | .ok item :: rest => (⟨[item], none⟩ : Listing α).append (ofResults rest)
  | .error error :: _ => failed error

theorem ofResults_map_ok (items : List α) : ofResults (items.map .ok) = ⟨items, none⟩ := by
  induction items with
  | nil => rfl
  | cons item rest ih => rw [List.map_cons, ofResults, ih, append, List.singleton_append]

theorem complete_ofResults_ok (item : α) (rest : List (Except Error α)) :
    (ofResults (.ok item :: rest)).complete = (ofResults rest).complete.map (item :: ·) := by
  simp only [ofResults, append, complete, List.singleton_append]
  cases (ofResults rest).failure <;> rfl

end Listing

/-! ## The order in which texts first come up -/

namespace Schema

/-- Texts that are kept come in the order of their first places. -/
theorem pairwise_distinct (texts : List String) :
    (distinct texts).Pairwise fun text other => texts.idxOf text < texts.idxOf other := by
  induction texts using List.reverseRecOn with
  | nil => exact .nil
  | append_singleton rest last ih =>
    have hrest : (distinct rest).Pairwise fun text other =>
        (rest ++ [last]).idxOf text < (rest ++ [last]).idxOf other := by
      refine ih.imp_of_mem fun htext hother hlt => ?_
      rwa [List.idxOf_append_of_mem (mem_distinct.mp htext),
        List.idxOf_append_of_mem (mem_distinct.mp hother)]
    rw [distinct_snoc]
    split
    · exact hrest
    · rename_i hlast
      refine List.pairwise_append.mpr
        ⟨hrest, List.pairwise_singleton _ _, fun text htext other hother => ?_⟩
      obtain rfl := List.mem_singleton.mp hother
      have htext := mem_distinct.mp htext
      rw [List.idxOf_append_of_mem htext, List.idxOf_append_of_notMem hlast]
      exact Nat.lt_add_right _ (List.idxOf_lt_length_of_mem htext)

theorem distinct_filter (texts : List String) (p : String → Bool) :
    distinct (texts.filter p) = (distinct texts).filter p := by
  induction texts using List.reverseRecOn with
  | nil => rfl
  | append_singleton rest last ih =>
    rw [List.filter_append, distinct_snoc]
    cases hlast : p last with
    | false =>
      rw [List.filter_singleton, hlast, cond_false, List.append_nil, ih]
      split
      · rfl
      · rw [List.filter_append, List.filter_singleton, hlast, cond_false, List.append_nil]
    | true =>
      have hmem : last ∈ rest.filter p ↔ last ∈ rest := by simp [hlast]
      rw [List.filter_singleton, hlast, cond_true, distinct_snoc, ih]
      simp only [hmem]
      split
      · rfl
      · rw [List.filter_append, List.filter_singleton, hlast, cond_true]

end Schema

namespace InstanceIndex

variable {catalog : TypeCatalog}

/-! ## Item by item -/

/-- A resource joins the index if the catalog has its type. -/
def addKnown (catalog : TypeCatalog) (index : InstanceIndex) (resource : ResourceInstance) :
    InstanceIndex :=
  if Table.has catalog resource.resourceType then index.add resource else index

/-- The index grows item by item, until there is an error. -/
theorem ofListing_eq_foldlM (catalog : TypeCatalog)
    (results : List (Except Error ResourceInstance)) :
    ofListing catalog (.ofResults results) =
      results.foldlM (fun index result => result.map (addKnown catalog index)) [] := by
  have hfold (index : InstanceIndex) :
      (Listing.ofResults results).complete.map
          (fun resources => resources.foldl (addKnown catalog) index) =
        results.foldlM (fun index result => result.map (addKnown catalog index)) index := by
    induction results generalizing index with
    | nil => rfl
    | cons result rest ih =>
      cases result with
      | error error => rfl
      | ok resource =>
        rw [List.foldlM_cons]
        refine Eq.trans ?_ (ih (addKnown catalog index resource))
        rw [Listing.complete_ofResults_ok]
        cases (Listing.ofResults rest).complete <;> rfl
  rw [← hfold]
  refine congrArg (fun f => Except.map f _) (funext fun resources => ?_)
  exact List.foldl_filter

/-! ## By type -/

/-- The paths of the resources of a type that is known are those of all resources of this type. -/
theorem pathsOf_known (catalog : TypeCatalog) (resources : List ResourceInstance) (name : String) :
    pathsOf (resources.filter fun r => Table.has catalog r.resourceType) name =
      if Table.has catalog name then pathsOf resources name else [] := by
  unfold pathsOf
  rw [List.filter_filter]
  split
  · rename_i hname
    refine congrArg _ (List.filter_congr fun r _ => ?_)
    rw [Bool.and_eq_left_iff_imp]
    intro htype
    rwa [beq_iff_eq.mp htype]
  · rename_i hname
    rw [List.map_eq_nil_iff, List.filter_eq_nil_iff]
    intro r _ hboth
    obtain ⟨htype, hknown⟩ := Bool.and_eq_true_iff.mp hboth
    exact hname (beq_iff_eq.mp htype ▸ hknown)

theorem names_known (catalog : TypeCatalog) (resources : List ResourceInstance) :
    Table.names (ofList (resources.filter fun r => Table.has catalog r.resourceType)) =
      (Schema.distinct (resources.map (·.resourceType))).filter (Table.has catalog) := by
  rw [names_ofList, ← Schema.distinct_filter, List.filter_map]
  rfl

/-- An index has of some resources those whose types a catalog has, by type and in order. -/
structure Groups (catalog : TypeCatalog) (resources : List ResourceInstance)
    (index : InstanceIndex) : Prop where
  paths : ∀ name,
    index.paths name = if Table.has catalog name then pathsOf resources name else []
  /-- The types are those of the catalog that some resource has. -/
  mem_names : ∀ name, name ∈ Table.names index ↔
    Table.has catalog name = true ∧ ∃ r ∈ resources, r.resourceType = name
  nodup_names : (Table.names index).Nodup
  /-- A type whose first resource comes earlier is in front. -/
  pairwise_names : (Table.names index).Pairwise fun name other =>
    (resources.map (·.resourceType)).idxOf name < (resources.map (·.resourceType)).idxOf other
  entries : ∀ name paths, (name, paths) ∈ index → paths = pathsOf resources name ∧ paths ≠ []

theorem groups_ofList (catalog : TypeCatalog) (resources : List ResourceInstance) :
    Groups catalog resources
      (ofList (resources.filter fun r => Table.has catalog r.resourceType)) where
  paths name := (paths_ofList _ name).trans (pathsOf_known catalog resources name)
  mem_names name := by
    simp only [names_known, List.mem_filter, Schema.mem_distinct, List.mem_map, and_comm]
  nodup_names := nodup_names_ofList _
  pairwise_names := by
    rw [names_known]
    exact (Schema.pairwise_distinct _).filter _
  entries name paths hentry := by
    have hname : name ∈ Table.names _ := List.mem_map_of_mem hentry
    have hknown : Table.has catalog name = true := by
      rw [names_known] at hname
      exact (List.mem_filter.mp hname).2
    rw [ofList_eq] at hentry
    obtain ⟨_, -, heq⟩ := List.mem_map.mp hentry
    obtain ⟨rfl, rfl⟩ := Prod.mk.inj heq
    refine ⟨by rw [pathsOf_known, if_pos hknown], ?_⟩
    rw [← paths_ofList]
    exact paths_ofList_ne_nil.mpr (mem_names_ofList.mp hname)

/-- The items before an error are collected, and those after it are not reached. -/
theorem foldlM_addKnown_error (catalog : TypeCatalog) (before : List ResourceInstance) (error : Error)
    (after : List (Except Error ResourceInstance)) (index : InstanceIndex) :
    (before.map Except.ok ++ Except.error error :: after).foldlM
        (fun index (result : Except Error ResourceInstance) => result.map (addKnown catalog index))
        index = .error error := by
  induction before generalizing index with
  | nil => rfl
  | cons resource rest ih => exact ih (addKnown catalog index resource)

/-- The items of a listing are collected one by one, up to the first error. Of a listing without
errors every resource of a type that the catalog has is in the index, with the others of its type and
in the order of the listing, and nothing else is. Of a listing with errors there is the first error,
and no index. -/
theorem ofListing_groups (catalog : TypeCatalog) :
    (∀ results : List (Except Error ResourceInstance),
      ofListing catalog (.ofResults results) =
        results.foldlM (fun index result => result.map (addKnown catalog index)) []) ∧
    (∀ resources : List ResourceInstance, ∃ index,
      ofListing catalog (.ofResults (resources.map .ok)) = .ok index ∧
        Groups catalog resources index) ∧
    ∀ (before : List ResourceInstance) (error : Error)
      (after : List (Except Error ResourceInstance)),
      ofListing catalog (.ofResults (before.map .ok ++ .error error :: after)) = .error error := by
  refine ⟨ofListing_eq_foldlM catalog, fun resources => ⟨_, ?_, groups_ofList catalog resources⟩,
    fun before error after => ?_⟩
  · rw [Listing.ofResults_map_ok]
    rfl
  · rw [ofListing_eq_foldlM, foldlM_addKnown_error]

/-- Resources of three types, of which the catalog has two. -/
example : ofListing [("s3", { name := "s3" }), ("db", { name := "db" })]
    (.ofResults
      [.ok ⟨"f/db1", "db"⟩, .ok ⟨"f/g", "ghost"⟩, .ok ⟨"f/b", "s3"⟩, .ok ⟨"f/db2", "db"⟩]) =
      .ok [("db", ["f/db1", "f/db2"]), ("s3", ["f/b"])] := by rfl

end InstanceIndex

end SchemaClient
