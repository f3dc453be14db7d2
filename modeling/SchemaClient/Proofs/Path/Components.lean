/-
SchemaClient.Proofs.Path.Components — paths and their components.

A path says its components, and how it is written makes no other difference. So a path can be taken
apart and put together again.

* `Path.parts_intercalate` — texts without slashes are the parts of the path that they are joined to.
* `Path.Component.Leads` — the components that lead on from where a path stands.
* `Path.components_ofComponents` — the path of such components has these components.
-/
import Mathlib.Data.List.Basic
import Mathlib.Data.List.Induction
import SchemaClient.Path

namespace SchemaClient

namespace Path

variable {path part : String}

/-! ## Parts -/

theorem slash_not_mem_of_mem_parts (h : part ∈ parts path) : '/' ∉ part.toList := by
  obtain ⟨chars, hchars, rfl⟩ := List.mem_map.mp h
  rw [String.toList_ofList]
  intro hslash
  exact absurd (not_mark_of_mem_partsAt hchars hslash) (by decide)

theorem parts_of_slash_not_mem (h : '/' ∉ path.toList) : parts path = [path] := by
  have hnone : ∀ c ∈ path.toList, (c == '/') = false := by
    intro c hc
    have hne : c ≠ '/' := fun heq => h (heq ▸ hc)
    simpa using hne
  rw [parts, partsAt_of_not_mark hnone, List.map_singleton, String.ofList_toList]

theorem parts_append_slash (first second : String) :
    parts (first ++ "/" ++ second) = parts first ++ parts second := by
  have hlist : (first ++ "/" ++ second).toList = first.toList ++ '/' :: second.toList := by simp
  rw [parts, hlist, partsAt_append_mark (by decide), List.map_append]
  rfl

/-- Texts without slashes are the parts of the path that they are joined to. -/
theorem parts_intercalate {pieces : List String} (hne : pieces ≠ [])
    (h : ∀ piece ∈ pieces, '/' ∉ piece.toList) : parts (String.intercalate "/" pieces) = pieces := by
  induction pieces with
  | nil => exact absurd rfl hne
  | cons first rest ih =>
    have hfirst := parts_of_slash_not_mem (h first List.mem_cons_self)
    cases rest with
    | nil => rw [String.intercalate_singleton, hfirst]
    | cons second others =>
      have hrest := ih (by simp) fun piece hpiece => h piece (List.mem_cons_of_mem _ hpiece)
      rw [String.intercalate_cons_cons, parts_append_slash, hfirst, hrest]
      rfl

/-! ## Components that lead on -/

/-- A name that can stand between slashes. -/
structure IsName (name : String) : Prop where
  nonempty : name ≠ ""
  ne_current : name ≠ "."
  ne_up : name ≠ ".."
  slash_not_mem : '/' ∉ name.toList

/-- The components that lead on from a directory: back to the one it lies in, or to a name. -/
inductive Component.Leads : Component → Prop where
  | up : Leads .up
  | named {name : String} : IsName name → Leads (.named name)

theorem Component.Leads.slash_not_mem {c : Component} (h : c.Leads) : '/' ∉ c.text.toList := by
  cases h with
  | up => decide
  | named hname => exact hname.slash_not_mem

theorem Component.Leads.text_ne_empty {c : Component} (h : c.Leads) : c.text ≠ "" := by
  cases h with
  | up => decide
  | named hname => exact hname.nonempty

theorem Component.Leads.text_ne_current {c : Component} (h : c.Leads) : c.text ≠ "." := by
  cases h with
  | up => decide
  | named hname => exact hname.ne_current

theorem Component.Leads.component? {c : Component} (h : c.Leads) :
    Path.component? c.text = some c := by
  cases h with
  | up => decide
  | named hname =>
    rw [Path.component?, Component.text, if_neg (not_or_intro hname.nonempty hname.ne_current),
      if_neg hname.ne_up]

theorem leads_of_component? {c : Component} (hpart : '/' ∉ part.toList)
    (h : component? part = some c) : c.Leads := by
  unfold component? at h
  split at h
  · cases h
  · rename_i hplain
    split at h
    · cases h
      exact .up
    · rename_i hup
      cases h
      exact .named ⟨fun h => hplain (Or.inl h), fun h => hplain (Or.inr h), hup, hpart⟩

/-- Only the empty text and the dot are no components. -/
theorem component?_eq_none : component? part = none ↔ part = "" ∨ part = "." := by
  unfold component?
  split
  · simp [*]
  · rename_i hplain
    split <;> simp [hplain]

/-! ## Paths from the root -/

/-- A path from the root goes on with components that lead on. -/
theorem components_of_isAbsolute (h : isAbsolute path = true) :
    ∃ steps, components path = .root :: steps ∧ ∀ c ∈ steps, c.Leads := by
  obtain ⟨rest, hrest⟩ : ∃ rest, path.toList = '/' :: rest := by
    rw [isAbsolute, beq_iff_eq, List.head?_eq_some_iff] at h
    exact h
  have hparts : parts path = "" :: parts (String.ofList rest) := by
    rw [parts, hrest, partsAt, if_pos (by decide), List.map_cons, parts, String.toList_ofList]
  have hmore : (parts (String.ofList rest)).isEmpty = false := by
    rw [parts, List.isEmpty_map, List.isEmpty_eq_false_iff]
    exact partsAt_ne_nil _ _
  refine ⟨(parts (String.ofList rest)).filterMap component?, ?_, ?_⟩
  · rw [components, hparts]
    simp [hmore]
  · intro c hc
    obtain ⟨part, hpart, hc⟩ := List.mem_filterMap.mp hc
    exact leads_of_component? (slash_not_mem_of_mem_parts hpart) hc

/-! ## Paths of components -/

section

variable {steps : List Component}

theorem filterMap_component? (h : ∀ c ∈ steps, c.Leads) :
    (steps.map Component.text).filterMap component? = steps := by
  induction steps with
  | nil => rfl
  | cons first rest ih =>
    rw [List.map_cons, List.filterMap_cons_some (h first List.mem_cons_self).component?,
      ih fun c hc => h c (List.mem_cons_of_mem _ hc)]

theorem parts_joined (hne : steps ≠ []) (h : ∀ c ∈ steps, c.Leads) :
    parts (String.intercalate "/" (steps.map Component.text)) = steps.map Component.text := by
  refine parts_intercalate (by simpa using hne) fun piece hpiece => ?_
  obtain ⟨c, hc, rfl⟩ := List.mem_map.mp hpiece
  exact (h c hc).slash_not_mem

/-- Components that lead on can be read off the text that they are joined to. -/
theorem components_joined (h : ∀ c ∈ steps, c.Leads) :
    components (String.intercalate "/" (steps.map Component.text)) = steps := by
  cases steps with
  | nil => decide
  | cons first rest =>
    have hfirst := h first List.mem_cons_self
    rw [components, parts_joined (by simp) h]
    simp only [List.map_cons]
    rw [if_neg hfirst.text_ne_empty, if_neg hfirst.text_ne_current, hfirst.component?,
      filterMap_component? fun c hc => h c (List.mem_cons_of_mem _ hc)]
    rfl

/-- With a dot in front they can be read as well. -/
theorem components_dot_joined (h : ∀ c ∈ steps, c.Leads) :
    components ("./" ++ String.intercalate "/" (steps.map Component.text)) = .current :: steps := by
  have hparts : parts ("./" ++ String.intercalate "/" (steps.map Component.text)) =
      "." :: parts (String.intercalate "/" (steps.map Component.text)) :=
    parts_append_slash "." _
  have hrest : (parts (String.intercalate "/" (steps.map Component.text))).filterMap component? =
      steps := by
    cases steps with
    | nil => decide
    | cons first rest => rw [parts_joined (by simp) h, filterMap_component? h]
  rw [components, hparts]
  simp [hrest]

theorem joined_snoc (hne : steps ≠ []) (last : Component) :
    String.intercalate "/" ((steps ++ [last]).map Component.text) =
      String.intercalate "/" (steps.map Component.text) ++ "/" ++ last.text := by
  rw [List.map_append, String.intercalate_append_of_ne_nil (by simpa using hne) (by simp),
    List.map_singleton, String.intercalate_singleton]

/-- What components that lead on are joined to does not end with a slash. -/
theorem joined_getLast? (hne : steps ≠ []) (h : ∀ c ∈ steps, c.Leads) :
    ∃ c, (String.intercalate "/" (steps.map Component.text)).toList.getLast? = some c ∧
      c ≠ '/' := by
  obtain ⟨front, last, rfl⟩ := (List.eq_nil_or_concat' steps).resolve_left hne
  have hlast := h last (by simp)
  obtain ⟨c, hc⟩ : ∃ c, last.text.toList.getLast? = some c := by
    rw [← Option.isSome_iff_exists, List.getLast?_isSome]
    exact fun hnil => hlast.text_ne_empty (String.toList_inj.mp hnil)
  refine ⟨c, ?_, fun hslash => hlast.slash_not_mem (hslash ▸ List.mem_of_getLast? hc)⟩
  by_cases hfront : front = []
  · subst hfront
    simpa using hc
  · rw [joined_snoc hfront, String.toList_append, List.getLast?_append, hc]
    rfl

/-- Components that lead on are put together with slashes. -/
theorem ofComponents_eq (h : ∀ c ∈ steps, c.Leads) :
    ofComponents steps = String.intercalate "/" (steps.map Component.text) := by
  induction steps using List.reverseRecOn with
  | nil => rfl
  | append_singleton front last ih =>
    have hfront : ∀ c ∈ front, c.Leads := fun c hc => h c (by simp [hc])
    have hrelative : ¬ isAbsolute last.text = true := by
      rw [isAbsolute, beq_iff_eq]
      intro hslash
      exact (h last (by simp)).slash_not_mem (List.mem_of_head? hslash)
    have hstep : ofComponents (front ++ [last]) = join (ofComponents front) last.text := by
      simp [ofComponents]
    rw [hstep, ih hfront, join, if_neg hrelative]
    by_cases hnil : front = []
    · subst hnil
      simp
    · obtain ⟨c, hc, hslash⟩ := joined_getLast? hnil hfront
      have hopen : ¬ (String.intercalate "/" (front.map Component.text) = "" ∨
          (String.intercalate "/" (front.map Component.text)).toList.getLast? = some '/') := by
        rw [hc, Option.some.injEq]
        rintro (hempty | heq)
        · rw [hempty] at hc
          cases hc
        · exact hslash heq
      rw [if_neg hopen, joined_snoc hnil]

/-- The path of components that lead on has these components. -/
theorem components_ofComponents (h : ∀ c ∈ steps, c.Leads) :
    components (ofComponents steps) = steps := by
  rw [ofComponents_eq h, components_joined h]

end

end Path

end SchemaClient
