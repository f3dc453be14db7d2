/-
SchemaClient.Proofs.Lowering.Canonical — how the validators are made that lowering yields.

Lowering makes a validator out of those of the subschemas, in the preferred way at every place. So a
property that passes from the parts of such a validator to the whole holds of whatever a schema is
lowered to.

* `Lowering.Yields` — a property of whatever a lowering comes to.
* `Keywords.lower_yields` — one node.
* `Schema.of_lower` — a property that passes from the parts to the whole holds of the validator that
  a schema is lowered to.
* `Schema.canonical_of_lower` — in particular this validator is canonical.
-/
import Mathlib.Data.List.Nodup
import SchemaClient.Proofs.Lowering.Faults
import SchemaClient.Proofs.Validator.Canonical

namespace SchemaClient

namespace Lowering

variable {α β : Type}

/-- If the lowering comes to a result, that has the property. -/
def Yields (p : α → Prop) (x : Lowering α) : Prop := ∀ a, x.result = .ok a → p a

variable {p : α → Prop} {q : β → Prop} {x : Lowering α}

theorem Yields.pure {a : α} (h : p a) : Yields p (Pure.pure a) := by
  rintro b ⟨⟩
  exact h

theorem Yields.malformed (pointer : Pointer) (malformation : Malformation) :
    Yields p (malformed pointer malformation) :=
  fun _ h => nomatch h

theorem Yields.bind (hx : Yields p x) {f : α → Lowering β} (hf : ∀ a, p a → Yields q (f a)) :
    Yields q (x >>= f) := by
  intro b hb
  cases h : x.result with
  | error fault => rw [bind_of_error h] at hb; cases hb
  | ok a =>
    rw [bind_of_ok h] at hb
    exact hf a (hx a h) b hb

theorem Yields.map (hx : Yields p x) {g : α → β} (hg : ∀ a, p a → q (g a)) :
    Yields q (g <$> x) :=
  hx.bind fun a ha => .pure (hg a ha)

theorem yields_demand (d : Demand) : Yields (fun _ => True) (demand d) := fun _ _ => trivial

end Lowering

namespace Schema

/-- Equal texts are kept once. -/
theorem nodup_distinct (texts : List String) : (distinct texts).Nodup := by
  have hfold : ∀ (texts seen : List String), seen.Nodup →
      (texts.foldl (fun seen text => if seen.contains text then seen else seen ++ [text])
        seen).Nodup := by
    intro texts
    induction texts with
    | nil => exact fun _ hseen => hseen
    | cons text rest ih =>
      intro seen hseen
      refine ih _ ?_
      simp only
      split
      · exact hseen
      · rename_i hnew
        have hfresh : text ∉ seen := by simpa using hnew
        exact List.nodup_append.mpr ⟨hseen, List.nodup_singleton text, by
          rintro a ha _ hb rfl
          exact hfresh (List.mem_singleton.mp hb ▸ ha)⟩
  exact hfold texts [] .nil

end Schema

namespace Keywords

open Lowering Validator

/-- The keys that a node declares. -/
def propertyNames (k : Keywords) : List String :=
  match k.properties with
  | some (.obj properties) => Table.names properties
  | _ => []

section

variable {keyed : List String → Prop} {p : Validator → Prop} (hp : Compositional keyed p)

include hp

/-! ## Single values and modifiers -/

theorem of_literal (value : Json) : p (literal value) := by
  cases value with
  | null => exact hp.null
  | bool b => exact hp.literal trivial
  | num n => exact hp.literal trivial
  | str s => exact hp.literal trivial
  | arr items => exact hp.any
  | obj entries => exact hp.any

theorem of_enumeration (members : List Json) : p (enumeration members) := by
  unfold enumeration
  split
  · rename_i texts _
    have hdistinct := Schema.nodup_distinct texts
    generalize Schema.distinct texts = different at hdistinct ⊢
    match different with
    | [] => exact hp.never
    | [only] => exact hp.literal trivial
    | first :: second :: rest => exact hp.enumeration (by simp) hdistinct
  · refine hp.choice fun validator hmem => ?_
    obtain ⟨member, -, rfl⟩ := List.mem_map.mp hmem
    exact of_literal hp member

omit hp in
theorem description?_ne_empty {k : Keywords} {description : String}
    (h : k.description? = some description) : description ≠ "" := by
  unfold description? at h
  split at h
  · split at h
    · cases h
    · rename_i hempty
      cases h
      simpa [String.isEmpty_iff] using hempty
  · cases h

theorem of_describe {k : Keywords} {validator : Validator} (h : p validator) :
    p (k.describe validator) := by
  unfold describe
  cases hdescription : k.description? with
  | none => exact h
  | some description => exact hp.described h (description?_ne_empty hdescription)

theorem of_acceptNull {k : Keywords} {validator : Validator} (h : p validator) :
    p (k.acceptNull validator) := by
  unfold acceptNull
  split
  · exact hp.null
  · exact h
  · rename_i hnull hnullable
    split
    · exact hp.nullable h hnull hnullable
    · exact h

theorem of_decorate {k : Keywords} (hdefault : k.default ≠ some .null) {validator : Validator}
    (h : p validator) : p (k.decorate validator) := by
  have hdescribed := of_describe hp (k := k) (of_acceptNull hp (k := k) h)
  unfold decorate
  simp only
  cases hvalue : k.default with
  | none => exact hdescribed
  | some default => exact hp.defaulted hdescribed fun hnull => hdefault (hnull ▸ hvalue)

end

/-- Once a node is tidied its default is not null, and nothing after that gives it one. -/
theorem default_tidied_ne (k : Keywords) : k.tidied.default ≠ some .null := by
  have hnull : k.dropNullDefault.default ≠ some .null := by
    unfold dropNullDefault
    split
    · exact fun h => nomatch h
    · assumption
  have hforeign : ∀ k : Keywords, k.default ≠ some .null →
      k.dropForeignDefault.default ≠ some .null := by
    intro k h
    unfold dropForeignDefault
    split
    · split
      · exact h
      · exact fun h => nomatch h
    · exact h
  have henum : ∀ k : Keywords, k.dropNullEnum.default = k.default := by
    intro k
    unfold dropNullEnum
    split
    · split <;> rfl
    · rfl
  rw [tidied, henum]
  exact hforeign _ hnull

/-! ## One node -/

section

variable {keyed : List String → Prop} {p : Validator → Prop} (hp : Compositional keyed p)
  {sub : Json → Pointer → Lowering Validator} (h : ∀ schema pointer, Yields p (sub schema pointer))

section

include h

theorem lowerEach_yields (schemas : List Json) (pointer : Pointer) (index : Nat) :
    Yields (fun vs => ∀ v ∈ vs, p v) (lowerEach sub pointer index schemas) := by
  induction schemas generalizing index with
  | nil => exact .pure (by simp)
  | cons schema rest ih =>
    refine (h schema _).bind fun first hfirst => (ih (index + 1)).bind fun others hothers => ?_
    exact .pure (List.forall_mem_cons.mpr ⟨hfirst, hothers⟩)

theorem lowerList_yields (found : Json) (pointer : Pointer) :
    Yields (fun vs => ∀ v ∈ vs, p v) (lowerList sub pointer found) := by
  cases found with
  | arr schemas => exact lowerEach_yields h schemas pointer 0
  | _ => exact .malformed _ _

theorem lowerProperties_yields (properties : Entries) (pointer : Pointer)
    (required : List String) :
    Yields (fun ps : List (Property Validator) =>
        ps.map (·.name) = Table.names properties ∧ ∀ property ∈ ps, p property.validator)
      (lowerProperties sub pointer required properties) := by
  induction properties with
  | nil => exact .pure ⟨rfl, by simp⟩
  | cons entry rest ih =>
    obtain ⟨name, schema⟩ := entry
    refine (h schema _).bind fun first hfirst => ih.bind fun others hothers => .pure ⟨?_, ?_⟩
    · exact congrArg (name :: ·) hothers.1
    · exact List.forall_mem_cons.mpr ⟨hfirst, hothers.2⟩

theorem undeclared_yields (k : Keywords) (pointer : Pointer) :
    Yields (fun undeclared => ∀ rest, undeclared = .catchall rest → p rest)
      (k.undeclared sub pointer) := by
  unfold undeclared
  split
  · exact .pure fun _ h => nomatch h
  · exact .pure fun _ h => nomatch h
  · refine (h _ _).map fun v hv rest hrest => ?_
    cases hrest
    exact hv
  · exact .pure fun _ h => nomatch h

end

variable (k : Keywords) (pointer : Pointer)

include hp h

theorem lowerArray_yields : Yields (Nonnull p) (k.lowerArray sub pointer) := by
  have harray : ∀ {item : Validator} {minItems maxItems : Option Nat}, p item →
      Nonnull p (array item minItems maxItems) :=
    fun hitem => ⟨hp.array hitem _ _, by simp, by simp⟩
  unfold lowerArray
  split
  · exact (lowerList_yields h _ _).map fun items hitems => ⟨hp.tuple hitems, by simp, by simp⟩
  · exact (h _ _).map fun item hitem => harray hitem
  · exact (h _ _).map fun item hitem => harray hitem
  · exact .pure (harray hp.any)
  · exact .pure (harray hp.any)
  · exact .malformed _ _

variable (hkeys : keyed k.propertyNames)

include hkeys

theorem declaredProperties_yields :
    Yields (fun ps : List (Property Validator) =>
        keyed (ps.map (·.name)) ∧ ∀ property ∈ ps, p property.validator)
      (k.declaredProperties sub pointer) := by
  unfold propertyNames at hkeys
  unfold declaredProperties
  split
  · rename_i properties hproperties
    rw [hproperties] at hkeys
    intro ps hps
    obtain ⟨hnames, hall⟩ := lowerProperties_yields h _ _ _ ps hps
    exact ⟨hnames ▸ hkeys, hall⟩
  · exact .pure ⟨hp.bare, by simp⟩
  · exact .pure ⟨hp.bare, by simp⟩
  · exact .malformed _ _

theorem lowerObject_yields : Yields (Nonnull p) (k.lowerObject sub pointer) := by
  refine (declaredProperties_yields hp h k pointer hkeys).bind fun properties hproperties =>
    (undeclared_yields h k pointer).bind fun undeclared hundeclared => .pure ?_
  split
  · exact ⟨hp.record (hundeclared _ rfl), by simp, by simp⟩
  · exact ⟨hp.record hp.any, by simp, by simp⟩
  · rename_i hcatchall hstrip
    refine ⟨hp.object hproperties.1 hproperties.2 hundeclared fun hnil => ?_, by simp, by simp⟩
    cases undeclared with
    | catchall rest => exact absurd rfl (hcatchall rest hnil)
    | strip => exact absurd rfl (hstrip hnil)
    | loose => exact Or.inl rfl
    | strict => exact Or.inr rfl

theorem lowerKind_nonnull {kind : String} (hkind : kind ≠ "null") :
    Yields (Nonnull p) (k.lowerKind sub pointer kind) := by
  unfold lowerKind
  split
  · exact .pure ⟨hp.string _ _ _ _, by simp, by simp⟩
  · exact .pure ⟨hp.number _ _, by simp, by simp⟩
  · exact .pure ⟨hp.number _ _, by simp, by simp⟩
  · exact .pure ⟨hp.bool, by simp, by simp⟩
  · exact absurd rfl hkind
  · exact lowerArray_yields hp h k pointer
  · exact lowerObject_yields hp h k pointer hkeys
  · exact .pure ⟨hp.any, by simp, by simp⟩

theorem lowerKind_yields (kind : String) : Yields p (k.lowerKind sub pointer kind) := by
  by_cases hkind : kind = "null"
  · subst hkind
    exact .pure hp.null
  · exact fun v hv => (lowerKind_nonnull hp h k pointer hkeys hkind v hv).holds

/-- The validators of several kinds, none of which is null. -/
theorem lowerKinds_yields (kinds : List String) (hkinds : "null" ∉ kinds) :
    Yields (fun vs => ∀ v ∈ vs, Nonnull p v) (k.lowerKinds sub pointer kinds) := by
  induction kinds with
  | nil => exact .pure (by simp)
  | cons kind rest ih =>
    have hkind : kind ≠ "null" := fun heq => hkinds (heq ▸ List.mem_cons_self)
    have hrest := ih fun hmem => hkinds (List.mem_cons_of_mem _ hmem)
    refine (lowerKind_nonnull hp h k pointer hkeys hkind).bind fun first hfirst =>
      hrest.bind fun others hothers => ?_
    exact .pure (List.forall_mem_cons.mpr ⟨hfirst, hothers⟩)

theorem lowerKindList_yields (kinds : List String) :
    Yields p (k.lowerKindList sub pointer kinds) := by
  refine (lowerKinds_yields hp h k pointer hkeys (kinds.filter (· != "null")) (by simp)).bind
    fun alternatives halternatives => ?_
  have hchoice : p (choice alternatives) := hp.choice fun v hv => (halternatives v hv).holds
  split
  · match alternatives with
    | [] => exact .pure hp.null
    | [only] =>
      obtain ⟨honly, hnull, hnullable⟩ := halternatives only List.mem_cons_self
      exact .pure (hp.nullable honly hnull hnullable)
    | first :: second :: rest =>
      exact .pure (hp.nullable hchoice (by simp [choice]) (by simp [choice]))
  · exact .pure hchoice

theorem lowerByKind_yields : Yields p (k.lowerByKind sub pointer) := by
  unfold lowerByKind
  split
  · exact lowerKind_yields hp h k pointer hkeys _
  · exact lowerKindList_yields hp h k pointer hkeys _
  · exact .malformed _ _
  · split
    · exact lowerKind_yields hp h k pointer hkeys _
    · split
      · exact lowerKind_yields hp h k pointer hkeys _
      · exact .pure hp.any

theorem lowerShape_yields : Yields p (k.lowerShape sub pointer) := by
  unfold lowerShape
  split
  · exact .pure (of_literal hp _)
  · exact .pure (of_enumeration hp _)
  · exact (lowerList_yields h _ _).map fun _ => hp.choice
  · exact (lowerList_yields h _ _).map fun _ => hp.choice
  · refine (lowerList_yields h _ _).bind fun parts hparts => ?_
    split
    · exact .pure (hparts _ List.mem_cons_self)
    · rename_i hone
      refine .pure (hp.intersection (fun hlength => ?_) hparts)
      obtain ⟨only, rfl⟩ := List.length_eq_one_iff.mp hlength
      exact hone only rfl
  · split
    · exact .pure hp.any
    · exact lowerByKind_yields hp h k pointer hkeys

end

/-- Adjusting a node leaves its keys or drops them all. -/
theorem propertyNames_adjusted (k : Keywords) (loose : Bool) :
    (k.adjusted loose).propertyNames = k.propertyNames ∨
      (k.adjusted loose).propertyNames = [] := by
  have hselected : k.selected.propertyNames = k.propertyNames ∨ k.selected.propertyNames = [] := by
    unfold selected
    split
    · split
      · split
        · exact Or.inl rfl
        · exact Or.inr rfl
      · exact Or.inr rfl
    · exact Or.inl rfl
  have hloosened : ∀ k : Keywords, k.loosened.propertyNames = k.propertyNames := by
    intro k
    unfold loosened
    split <;> rfl
  unfold adjusted
  split
  · rwa [hloosened]
  · exact hselected

section

variable {keyed : List String → Prop} {p : Validator → Prop} {registry : Registry}
  (hp : Compositional keyed p)
  (href : ∀ d : Demand, (∀ name, d = .resourceType name → registry.known name = true) →
    p (.ref (d.reference registry)))

include hp href

theorem lowerResource_yields (name : String) : Yields p (lowerResource registry name) := by
  unfold lowerResource
  split
  · exact (yields_demand _).bind fun _ _ => .pure (href .storageObject fun _ h => nomatch h)
  · split
    · rename_i hknown
      refine (yields_demand _).bind fun _ _ => .pure (href (.resourceType name) ?_)
      rintro _ ⟨⟩
      exact hknown
    · exact .pure hp.any

/-- The validator of a node has the property, if those of its subschemas have it. -/
theorem lower_yields {sub : Json → Pointer → Lowering Validator} (k : Keywords)
    (hkeys : keyed k.propertyNames) (h : ∀ schema pointer, Yields p (sub schema pointer))
    (pointer : Pointer) (loose : Bool) : Yields p (k.lower registry loose sub pointer) := by
  have hfinish : ∀ v, p v → p (k.finish v) := fun _ => of_decorate hp (default_tidied_ne k)
  rw [lower_eq]
  split
  · refine (yields_demand _).bind fun _ _ => .pure (hfinish _ ?_)
    exact href .base64Content fun _ h => nomatch h
  · split
    · exact .pure (hfinish _ (hp.record hp.any))
    · split
      · exact (lowerResource_yields hp href _).map fun _ => of_describe hp
      · refine (lowerShape_yields hp h _ pointer ?_).map hfinish
        rcases propertyNames_adjusted k loose with hnames | hnames
        · rwa [hnames]
        · rw [hnames]
          exact hp.bare

end

end Keywords

namespace Schema

open Lowering Validator

/-- The keys of every object in a value are as they should be. -/
def Keyed (keyed : List String → Prop) (schema : Json) : Prop :=
  ∀ pointer entries, schema.LeadsTo pointer (.obj entries) → keyed (Table.names entries)

theorem Keyed.propertyNames {keyed : List String → Prop} {node : Entries} (hbare : keyed [])
    (h : Keyed keyed (.obj node)) : keyed (Keywords.ofEntries node).propertyNames := by
  unfold Keywords.propertyNames
  split
  · rename_i properties hproperties
    exact h _ _ (.entry (Table.mem_of_find? hproperties) .here)
  · exact hbare

/-- A property that passes from the parts of a validator to the whole holds of the validator that a
schema is lowered to, if it holds of the references among them. -/
theorem of_lower {keyed : List String → Prop} {p : Validator → Prop} {registry : Registry}
    {loose : Bool} {schema : Json} {validator : Validator} (hp : Compositional keyed p)
    (href : ∀ d : Demand, (∀ name, d = .resourceType name → registry.known name = true) →
      p (.ref (d.reference registry)))
    (hkeyed : Keyed keyed schema) (h : (lower registry loose schema).result = .ok validator) :
    p validator := by
  have hlevels : ∀ levels loose schema pointer, Keyed keyed schema →
      Yields p (lowerWithin registry levels loose schema pointer) := by
    intro levels
    induction levels with
    | zero =>
      intro loose schema pointer _
      cases schema with
      | bool value => cases value <;> first | exact .pure hp.any | exact .pure hp.never
      | _ => exact .pure hp.any
    | succ levels ih =>
      intro loose schema pointer hkeyed
      cases schema with
      | bool value => cases value <;> first | exact .pure hp.any | exact .pure hp.never
      | obj node =>
        -- lowering the node comes to nothing but its subschemas, and their keys are as they should be
        classical
        let sub (schema : Json) (pointer : Pointer) : Lowering Validator :=
          if Keyed keyed schema then lowerWithin registry levels false schema pointer
          else pure .any
        have hsub : ∀ schema pointer, Yields p (sub schema pointer) := by
          intro schema pointer
          by_cases hchild : Keyed keyed schema
          · simpa only [sub, if_pos hchild] using ih false schema pointer hchild
          · simpa only [sub, if_neg hchild] using Yields.pure hp.any
        have hsame : lowerWithin registry (levels + 1) loose (.obj node) pointer =
            (Keywords.ofEntries node).lower registry loose sub pointer := by
          refine Keywords.lower_congr Lowering.equal loose pointer rfl (fun _ _ => rfl) ?_
            fun _ _ _ => trivial
          intro steps schema hchild
          have hkeyed' : Keyed keyed schema := fun pointer entries hleads =>
            hkeyed _ _ (hchild.leads.append hleads)
          exact (if_pos hkeyed').symm
        rw [hsame]
        exact Keywords.lower_yields hp href _ (hkeyed.propertyNames hp.bare) hsub pointer loose
      | _ => exact .pure hp.any
  exact hlevels schema.height loose schema [] hkeyed validator h

/-- Every validator that a schema is lowered to is canonical, with the names that lowering refers
to. -/
theorem canonical_of_lower {named : String → Prop} {registry : Registry} {loose : Bool}
    {schema : Json} {validator : Validator} (hbase64 : named Declaration.base64Content.name)
    (hstorage : named Declaration.storageObject.name)
    (htype : ∀ name, registry.known name = true →
      named ((Demand.resourceType name).reference registry))
    (h : (lower registry loose schema).result = .ok validator) : Canonical named validator := by
  refine of_lower (compositional_canonical named) (fun d hknown => .ref ?_) (fun _ _ _ => trivial) h
  cases d with
  | base64Content => exact hbase64
  | storageObject => exact hstorage
  | resourceType name => exact htype name (hknown name rfl)

end Schema

end SchemaClient
