/-
SchemaClient.Proofs.Path.Ancestors — the paths that a path lies in.

The way up from a path is taken by its text alone: each step drops the last component, and it ends at
the root, or with a relative path where nothing is left. From a directory that is given by the names
on the way to it, these are the directories that it lies in.

* `Path.components_of_parent?` — a step up drops the last component.
* `Path.Climbs`, `Path.climbs_ancestors` — the chain of a path, and that it is complete.
* `Path.climbs_pathTo` — from a place in a tree the chain leads through those above it.
-/
import Mathlib.Data.List.Infix
import SchemaClient.Files.Tree
import SchemaClient.Proofs.Path.Components

namespace SchemaClient

namespace Path

variable {path parent : String}

/-! ## A step up -/

theorem filterMap_trimEnd (reversed : List String) :
    (trimEnd reversed).reverse.filterMap component? = reversed.reverse.filterMap component? := by
  induction reversed with
  | nil => rfl
  | cons part rest ih =>
    unfold trimEnd at ih ⊢
    cases hpart : component? part with
    | none => rw [List.dropWhile_cons_of_pos (by simp [hpart]), ih]; simp [hpart]
    | some c => rw [List.dropWhile_cons_of_neg (by simp [hpart])]

/-- What is left of trimmed parts ends with a component. -/
theorem isSome_of_trimEnd {reversed before : List String} {last : String}
    (h : trimEnd reversed = last :: before) : ∃ c, component? last = some c := by
  have hhead := List.head_dropWhile_not (fun part => (component? part).isNone)
    (l := reversed) (by unfold trimEnd at h; simp [h])
  unfold trimEnd at h
  simpa [h, Option.isSome_iff_exists] using hhead

theorem mem_of_mem_trimEnd {reversed : List String} {part : String} (h : part ∈ trimEnd reversed) :
    part ∈ reversed :=
  (List.dropWhile_sublist _).mem h

section

variable {first : String} {rest : List String}

/-- What the first part of a path is, which may be the only one. -/
def opening (first : String) (alone : Bool) : List Component :=
  if first = "" then (if alone then [] else [.root])
  else if first = "." then [.current]
  else (component? first).toList

/-- Whether a first part stands alone matters only if it is empty. -/
theorem opening_eq_of_ne (h : first ≠ "") (alone : Bool) :
    opening first alone = opening first false := by
  rw [opening, opening, if_neg h, if_neg h]

/-- A first part that is not empty is a component. -/
theorem exists_opening_of_ne (h : first ≠ "") (alone : Bool) : ∃ c, opening first alone = [c] := by
  rw [opening, if_neg h]
  by_cases hdot : first = "."
  · exact ⟨.current, if_pos hdot⟩
  · rw [if_neg hdot]
    cases hcomponent : component? first with
    | none => exact absurd (component?_eq_none.mp hcomponent) (not_or_intro h hdot)
    | some c => exact ⟨c, rfl⟩

theorem components_of_parts (h : parts path = first :: rest) :
    components path = opening first rest.isEmpty ++ rest.filterMap component? := by
  rw [components, h]
  rfl

theorem components_of_trimEnd_nil (h : parts path = first :: rest)
    (htrimmed : trimEnd rest.reverse = []) : components path = opening first rest.isEmpty := by
  have hrest := filterMap_trimEnd rest.reverse
  rw [htrimmed, List.reverse_reverse] at hrest
  rw [components_of_parts h, ← hrest, List.reverse_nil, List.filterMap_nil, List.append_nil]

/-- The last part that counts is the last component. What stands before it can be trimmed again. -/
theorem components_of_trimEnd_cons {last : String} {before : List String}
    (h : parts path = first :: rest) (htrimmed : trimEnd rest.reverse = last :: before) :
    ∃ c, components path =
      opening first false ++ (trimEnd before).reverse.filterMap component? ++ [c] := by
  obtain ⟨c, hc⟩ := isSome_of_trimEnd htrimmed
  have hrest := filterMap_trimEnd rest.reverse
  rw [htrimmed, List.reverse_reverse, List.reverse_cons, List.filterMap_append,
    List.filterMap_cons_some hc, List.filterMap_nil, ← filterMap_trimEnd before] at hrest
  have hmany : rest.isEmpty = false := by
    rw [List.isEmpty_eq_false_iff]
    rintro rfl
    cases htrimmed
  exact ⟨c, by rw [components_of_parts h, ← hrest, hmany, List.append_assoc]⟩

/-- What is kept of the parts of a path are the parts of the path that it lies in. -/
theorem parts_kept {last : String} {before : List String} (h : parts path = first :: rest)
    (htrimmed : trimEnd rest.reverse = last :: before) :
    parts (String.intercalate "/" (first :: (trimEnd before).reverse)) =
      first :: (trimEnd before).reverse := by
  have hparts : ∀ piece ∈ first :: (trimEnd before).reverse, piece ∈ parts path := by
    intro piece hpiece
    rw [h]
    rcases List.mem_cons.mp hpiece with rfl | hpiece
    · exact List.mem_cons_self
    · have hbefore := mem_of_mem_trimEnd (List.mem_reverse.mp hpiece)
      have hwhole : piece ∈ trimEnd rest.reverse := htrimmed ▸ List.mem_cons_of_mem _ hbefore
      exact List.mem_cons_of_mem _ (List.mem_reverse.mp (mem_of_mem_trimEnd hwhole))
  exact parts_intercalate (by simp) fun piece hpiece =>
    slash_not_mem_of_mem_parts (hparts piece hpiece)

end

/-- A path lies in no other and is empty or the root, or the one that it lies in lacks its last
component. -/
theorem parent?_cases (path : String) :
    (parent? path = none ∧ (components path = [] ∨ components path = [.root])) ∨
      ∃ parent last, parent? path = some parent ∧ components path = components parent ++ [last] := by
  obtain ⟨first, rest, hparts⟩ : ∃ first rest, parts path = first :: rest :=
    List.exists_cons_of_ne_nil fun h => partsAt_ne_nil _ _ (List.map_eq_nil_iff.mp h)
  unfold parent?
  rw [hparts]
  dsimp only
  rcases htrimmed : trimEnd rest.reverse with _ | ⟨last, before⟩
  · have hcomponents := components_of_trimEnd_nil hparts htrimmed
    dsimp only
    by_cases hfirst : first = ""
    · refine Or.inl ⟨if_pos hfirst, ?_⟩
      rw [hcomponents, opening, if_pos hfirst]
      cases rest.isEmpty
      · exact Or.inr rfl
      · exact Or.inl rfl
    · obtain ⟨c, hc⟩ := exists_opening_of_ne hfirst rest.isEmpty
      have hempty : components "" = [] := by decide
      exact Or.inr ⟨"", c, if_neg hfirst, by rw [hcomponents, hc, hempty]; rfl⟩
  · obtain ⟨c, hcomponents⟩ := components_of_trimEnd_cons hparts htrimmed
    dsimp only
    by_cases hroot : first = "" ∧ (trimEnd before).reverse.isEmpty = true
    · obtain ⟨rfl, hnil⟩ := hroot
      have hslash : components "/" = [.root] := by decide
      refine Or.inr ⟨"/", c, if_pos ⟨rfl, hnil⟩, ?_⟩
      rw [hcomponents, hslash, List.isEmpty_iff.mp hnil]
      rfl
    · refine Or.inr ⟨_, c, if_neg hroot, ?_⟩
      rw [hcomponents, components_of_parts (parts_kept hparts htrimmed)]
      by_cases hfirst : first = ""
      · have hkept : (trimEnd before).reverse.isEmpty = false := by
          simpa [hfirst] using hroot
        rw [hkept]
      · rw [opening_eq_of_ne hfirst (trimEnd before).reverse.isEmpty]

/-- A step up drops the last component. -/
theorem components_of_parent? (h : parent? path = some parent) :
    ∃ last, components path = components parent ++ [last] := by
  rcases parent?_cases path with ⟨hnone, -⟩ | ⟨found, last, hfound, hcomponents⟩
  · rw [hnone] at h
    cases h
  · rw [hfound] at h
    cases h
    exact ⟨last, hcomponents⟩

/-! ## The way up -/

/-- The chain of a path: each lies in the next, and the last one in no other. -/
inductive Climbs : String → List String → Prop where
  | top {path : String} : parent? path = none → Climbs path [path]
  | up {path parent : String} {above : List String} : parent? path = some parent →
      Climbs parent above → Climbs path (path :: above)

theorem length_components_le (path : String) : (components path).length ≤ (parts path).length := by
  obtain ⟨first, rest, hparts⟩ : ∃ first rest, parts path = first :: rest :=
    List.exists_cons_of_ne_nil fun h => partsAt_ne_nil _ _ (List.map_eq_nil_iff.mp h)
  have hopening : (opening first rest.isEmpty).length ≤ 1 := by
    by_cases hfirst : first = ""
    · rw [opening, if_pos hfirst]
      split <;> simp
    · obtain ⟨c, hc⟩ := exists_opening_of_ne hfirst rest.isEmpty
      rw [hc]
      simp
  have hrest := List.length_filterMap_le component? rest
  rw [components_of_parts hparts, hparts, List.length_append, List.length_cons]
  omega

theorem ancestorsWithin_of_none (h : parent? path = none) (fuel : Nat) :
    ancestorsWithin fuel path = [path] := by
  cases fuel <;> simp [ancestorsWithin, h]

theorem ancestorsWithin_of_some (h : parent? path = some parent) (fuel : Nat) :
    ancestorsWithin (fuel + 1) path = path :: ancestorsWithin fuel parent := by
  simp [ancestorsWithin, h]

/-- There are no more steps up than a path has components. -/
theorem climbs_ancestorsWithin {fuel : Nat} (h : (components path).length ≤ fuel) :
    Climbs path (ancestorsWithin fuel path) := by
  induction fuel generalizing path with
  | zero =>
    cases hparent : parent? path with
    | none =>
      rw [ancestorsWithin_of_none hparent]
      exact .top hparent
    | some parent =>
      obtain ⟨last, hlast⟩ := components_of_parent? hparent
      simp [hlast] at h
  | succ fuel ih =>
    cases hparent : parent? path with
    | none =>
      rw [ancestorsWithin_of_none hparent]
      exact .top hparent
    | some parent =>
      obtain ⟨last, hlast⟩ := components_of_parent? hparent
      rw [hlast, List.length_append, List.length_singleton] at h
      rw [ancestorsWithin_of_some hparent]
      exact .up hparent (ih (by omega))

/-- The chain of a path is complete. -/
theorem climbs_ancestors (path : String) : Climbs path (ancestors path) :=
  climbs_ancestorsWithin (length_components_le path)

theorem Climbs.unique {chain other : List String} (h : Climbs path chain)
    (hother : Climbs path other) : chain = other := by
  induction h generalizing other with
  | top hnone =>
    cases hother with
    | top => rfl
    | up hsome => rw [hnone] at hsome; cases hsome
  | up hsome _ ih =>
    cases hother with
    | top hnone => rw [hsome] at hnone; cases hnone
    | up hparent habove =>
      rw [hsome] at hparent
      cases hparent
      rw [ih habove]

/-! ## Places in a tree -/

/-- The path from the root to a place. -/
def pathTo (place : Place) : String := "/" ++ String.intercalate "/" place

section

variable {place : Place} {name : String}

theorem IsName.component? (h : IsName name) : component? name = some (.named name) :=
  (Component.Leads.named h).component?

theorem parts_pathTo (hne : place ≠ []) (h : ∀ name ∈ place, IsName name) :
    parts (pathTo place) = "" :: place := by
  have hparts : parts (pathTo place) = parts "" ++ parts (String.intercalate "/" place) :=
    parts_append_slash "" _
  rw [hparts, parts_intercalate hne fun piece hpiece => (h piece hpiece).slash_not_mem]
  rfl

theorem trimEnd_of_isName {names : List String} (h : ∀ name ∈ names, IsName name) :
    trimEnd names = names := by
  cases names with
  | nil => rfl
  | cons first rest =>
    refine List.dropWhile_cons_of_neg ?_
    simp [(h first List.mem_cons_self).component?]

/-- The root lies in no other directory. -/
theorem parent?_pathTo_nil : parent? (pathTo []) = none := by decide

/-- A directory that was reached by a name lies in the one that the name stands in. -/
theorem parent?_pathTo (hplace : ∀ name ∈ place, IsName name) (hname : IsName name) :
    parent? (pathTo (place ++ [name])) = some (pathTo place) := by
  have hall : ∀ piece ∈ place ++ [name], IsName piece := by
    intro piece hpiece
    rcases List.mem_append.mp hpiece with hpiece | hpiece
    · exact hplace piece hpiece
    · rwa [List.mem_singleton.mp hpiece]
  have htrimmed : trimEnd (place ++ [name]).reverse = name :: place.reverse := by
    rw [trimEnd_of_isName fun piece hpiece => hall piece (List.mem_reverse.mp hpiece)]
    simp
  have hkept : (trimEnd place.reverse).reverse = place := by
    rw [trimEnd_of_isName fun piece hpiece => hplace piece (List.mem_reverse.mp hpiece),
      List.reverse_reverse]
  rw [parent?, parts_pathTo (by simp) hall]
  dsimp only
  rw [htrimmed]
  dsimp only
  rw [hkept]
  cases place with
  | nil => rfl
  | cons first rest =>
    rw [if_neg (by simp), String.intercalate_cons_cons, String.empty_append]
    rfl

/-- From a place the chain leads through the places above it, up to the root. -/
theorem climbs_pathTo (h : ∀ name ∈ place, IsName name) :
    Climbs (pathTo place) (place.inits.reverse.map pathTo) := by
  induction place using List.reverseRecOn with
  | nil => exact .top parent?_pathTo_nil
  | append_singleton place name ih =>
    have hplace : ∀ name ∈ place, IsName name := fun name hname => h name (by simp [hname])
    have hinits : (place ++ [name]).inits.reverse = (place ++ [name]) :: place.inits.reverse := by
      simp [List.inits_append]
    rw [hinits, List.map_cons]
    exact .up (parent?_pathTo hplace (h name (by simp))) (ih hplace)

end

end Path

end SchemaClient
