/-
SchemaClient.Proofs.Validator.Alike — validators that are written alike.

Some differences between validators do not show in their expressions: an intersection without parts
is written as what accepts anything, one that stands first in another is written like its parts, a
property that has a default is not marked whether it is required or not, and values show in their
texts only. `Identified` makes one such difference at one place, `Alike` any number of them.

* `Validator.Identified`, `Validator.Alike` — the relations.
* `Validator.Alike.source_eq` — validators that are alike have the same expression.
* `Validator.Alike.lift`, `Validator.Alike.places` — what is made of validators that are alike is
  alike.
-/
import Mathlib.Logic.Relation
import SchemaClient.Proofs.Validator.Determined

namespace SchemaClient

/-! ## Texts of values -/

theorem Number.isNumeral_of_mem_text {n : Number} {c : Char} (hc : c ∈ n.text.toList) :
    isNumeral c = true := by
  cases n with
  | int n =>
    rw [text, String.toList_ofList] at hc
    exact isNumeral_of_mem_integerText hc
  | float x =>
    rw [text, String.toList_ofList] at hc
    exact isNumeral_of_mem_floatText hc

/-- No other value is written like null. -/
theorem Json.eq_null_of_text {value : Json} (h : value.text = "null") : value = .null := by
  have hhead : value.text.toList.head? = some 'n' := by rw [h]; rfl
  cases value with
  | null => rfl
  | bool b => cases b <;> exact absurd h (by decide)
  | num n =>
    have hmem : 'n' ∈ n.text.toList := List.mem_of_mem_head? hhead
    exact absurd (Number.isNumeral_of_mem_text hmem) (by decide)
  | str s =>
    rw [text, toList_quote] at hhead
    cases hhead
  | arr items =>
    cases items with
    | nil => exact absurd h (by decide)
    | cons item rest =>
      rw [text, String.toList_append, String.toList_append] at hhead
      cases hhead
  | obj entries =>
    cases entries with
    | nil => exact absurd h (by decide)
    | cons first rest =>
      obtain ⟨key, found⟩ := first
      rw [text] at hhead
      simp only [String.toList_append, List.append_assoc] at hhead
      cases hhead

/-- The limits are the same as they are written. -/
structure Bounds.SameText (a b : Bounds) : Prop where
  min : a.min.map Number.text = b.min.map Number.text
  max : a.max.map Number.text = b.max.map Number.text
  exclusiveMin : a.exclusiveMin.map Number.text = b.exclusiveMin.map Number.text
  exclusiveMax : a.exclusiveMax.map Number.text = b.exclusiveMax.map Number.text
  multipleOf : a.multipleOf.map Number.text = b.multipleOf.map Number.text

namespace Validator

/-! ## The relations -/

/-- The validators differ at one place, in a way that does not show. -/
inductive Identified : Validator → Validator → Prop where
  /-- An intersection without parts and what accepts anything. -/
  | noParts : Identified (intersection []) any
  /-- An intersection whose first part is one of two parts or more, and the flattened one. -/
  | nested (first second : Validator) (inner others : List Validator) :
      Identified (intersection (intersection (first :: second :: inner) :: others))
        (intersection (first :: second :: (inner ++ others)))
  /-- Whether a property that has a default is required. -/
  | required {name : String} {v : Validator} (before after : List (Property Validator))
      (undeclared : Undeclared Validator) (hdefault : v.hasDefault = true) :
      Identified (object (before ++ ⟨name, v, true⟩ :: after) undeclared)
        (object (before ++ ⟨name, v, false⟩ :: after) undeclared)
  /-- Numbers that are written the same way. -/
  | bounds {a b : Bounds} (integer : Bool) (htext : a.SameText b) :
      Identified (number integer a) (number integer b)
  /-- Values that are written the same way. -/
  | literal {a b : Json} (htext : a.text = b.text) : Identified (literal a) (literal b)
  | default {a b : Json} (inner : Validator) (htext : a.text = b.text) :
      Identified (defaulted inner a) (defaulted inner b)
  -- the places inside of a validator
  | item {v w : Validator} (h : Identified v w) (minItems maxItems : Option Nat) :
      Identified (array v minItems maxItems) (array w minItems maxItems)
  | element {v w : Validator} (h : Identified v w) (before after : List Validator) :
      Identified (tuple (before ++ v :: after)) (tuple (before ++ w :: after))
  | property {v w : Validator} (h : Identified v w) (name : String) (required : Bool)
      (before after : List (Property Validator)) (undeclared : Undeclared Validator) :
      Identified (object (before ++ ⟨name, v, required⟩ :: after) undeclared)
        (object (before ++ ⟨name, w, required⟩ :: after) undeclared)
  | rest {v w : Validator} (h : Identified v w) (properties : List (Property Validator)) :
      Identified (object properties (.catchall v)) (object properties (.catchall w))
  | value {v w : Validator} (h : Identified v w) : Identified (record v) (record w)
  | alternative {v w : Validator} (h : Identified v w) (before after : List Validator) :
      Identified (union (before ++ v :: after)) (union (before ++ w :: after))
  | part {v w : Validator} (h : Identified v w) (before after : List Validator) :
      Identified (intersection (before ++ v :: after)) (intersection (before ++ w :: after))
  | nullable {v w : Validator} (h : Identified v w) : Identified (nullable v) (nullable w)
  | described {v w : Validator} (h : Identified v w) (description : String) :
      Identified (described v description) (described w description)
  | defaulted {v w : Validator} (h : Identified v w) (value : Json) :
      Identified (defaulted v value) (defaulted w value)

/-- The validators are equal up to identifications, anywhere inside of them and in both
directions. -/
def Alike : Validator → Validator → Prop := Relation.EqvGen Identified

/-! ## They are written alike -/

section

variable {vs ws : List Validator} (h : vs.map source = ws.map source)

include h

theorem sources_congr : sources vs = sources ws := by rw [sources_eq, sources_eq, h]

theorem intersected_congr (left : String) : intersected left vs = intersected left ws := by
  induction vs generalizing ws left with
  | nil => rw [List.map_eq_nil_iff.mp h.symm]
  | cons v vs ih =>
    cases ws with
    | nil => cases h
    | cons w ws =>
      obtain ⟨hfirst, hrest⟩ := List.cons.inj h
      rw [intersected_cons, intersected_cons, hfirst, ih hrest]

theorem source_union_congr : (union vs).source = (union ws).source := by
  have hlength : vs.length = ws.length := by
    rw [← List.length_map source, h, List.length_map]
  match vs, ws with
  | [], [] => rfl
  | [v], [w] => exact (List.cons.inj h).1
  | _ :: _ :: _, _ :: _ :: _ =>
    rw [source_union (by simp), source_union (by simp), sources_eq, sources_eq, h]

theorem source_intersection_congr : (intersection vs).source = (intersection ws).source := by
  cases vs with
  | nil => rw [List.map_eq_nil_iff.mp h.symm]
  | cons v vs =>
    cases ws with
    | nil => cases h
    | cons w ws =>
      obtain ⟨hfirst, hrest⟩ := List.cons.inj h
      rw [source_intersection, source_intersection, hfirst, intersected_congr hrest]

end

theorem shape_congr {ps qs : List (Property Validator)} (h : ps.map entry = qs.map entry) :
    shape ps = shape qs := by
  rw [shape_eq, shape_eq, h]

theorem intersected_append (left : String) (first second : List Validator) :
    intersected left (first ++ second) = intersected (intersected left first) second := by
  induction first generalizing left with
  | nil => rfl
  | cons part rest ih => rw [List.cons_append, intersected_cons, intersected_cons, ih]

namespace Identified

variable {v w : Validator}

theorem hasDefault_eq (h : Identified v w) : v.hasDefault = w.hasDefault := by
  induction h with
  | described _ _ ih => exact ih
  | _ => rfl

theorem source_eq (h : Identified v w) : v.source = w.source := by
  have hplace : ∀ {α β : Type} {f : α → β} {a b : α} (before after : List α), f a = f b →
      (before ++ a :: after).map f = (before ++ b :: after).map f := by
    intro α β f a b before after h
    simp only [List.map_append, List.map_cons, h]
  induction h with
  | noParts => rfl
  | nested first second inner others =>
    rw [source_intersection, source_intersection, source_intersection, ← List.cons_append,
      intersected_append]
  | required before after undeclared hdefault =>
    rw [source_object, source_object, shape_congr (hplace before after ?_)]
    simp [entry, mark?, hdefault]
  | bounds integer htext =>
    have hbounds := htext
    obtain ⟨hmin, hmax, hexclusiveMin, hexclusiveMax, hmultipleOf⟩ := hbounds
    change "z.number()" ++ _ ++ boundsSource _ = "z.number()" ++ _ ++ boundsSource _
    rw [boundsSource_eq, boundsSource_eq, hmin, hmax, hexclusiveMin, hexclusiveMax, hmultipleOf]
  | @literal a b htext =>
    by_cases hnull : a = .null
    · subst hnull
      rw [Json.eq_null_of_text htext.symm]
    · have hnull' : b ≠ .null := by
        rintro rfl
        exact hnull (Json.eq_null_of_text htext)
      rw [source_literal hnull, source_literal hnull', htext]
  | default inner htext => rw [source_defaulted, source_defaulted, htext]
  | item _ minItems maxItems ih => rw [source_array, source_array, ih]
  | element _ before after ih =>
    rw [source_tuple, source_tuple, sources_congr (hplace before after ih)]
  | property h name required before after undeclared ih =>
    rw [source_object, source_object, shape_congr (hplace before after ?_)]
    simp only [entry, mark?, ih, h.hasDefault_eq]
  | rest _ properties ih =>
    rw [source_object, source_object, catchallSource_catchall, catchallSource_catchall, ih]
    rfl
  | value _ ih => rw [source_record, source_record, ih]
  | alternative _ before after ih => exact source_union_congr (hplace before after ih)
  | part _ before after ih => exact source_intersection_congr (hplace before after ih)
  | nullable _ ih => rw [source_nullable, source_nullable, ih]
  | described _ description ih => rw [source_described, source_described, ih]
  | defaulted _ value ih => rw [source_defaulted, source_defaulted, ih]

end Identified

namespace Alike

variable {u v w : Validator}

theorem refl (v : Validator) : Alike v v := Relation.EqvGen.refl v

theorem of_identified (h : Identified v w) : Alike v w := Relation.EqvGen.rel v w h

theorem symm (h : Alike v w) : Alike w v := Relation.EqvGen.symm v w h

theorem trans (h : Alike u v) (h' : Alike v w) : Alike u w := Relation.EqvGen.trans u v w h h'

/-- What no identification changes is the same for validators that are alike. -/
theorem value_eq {α : Type} {f : Validator → α} (hf : ∀ v w, Identified v w → f v = f w)
    (h : Alike v w) : f v = f w := by
  induction h with
  | rel v w h => exact hf v w h
  | refl _ => rfl
  | symm _ _ _ ih => exact ih.symm
  | trans _ _ _ _ _ ih ih' => exact ih.trans ih'

/-- Validators that are alike have the same expression. -/
theorem source_eq (h : Alike v w) : v.source = w.source :=
  h.value_eq fun _ _ => Identified.source_eq

theorem hasDefault_eq (h : Alike v w) : v.hasDefault = w.hasDefault :=
  h.value_eq fun _ _ => Identified.hasDefault_eq

/-! ## What is made of validators that are alike -/

theorem lift {f : Validator → Validator}
    (hf : ∀ v w, Identified v w → Identified (f v) (f w)) (h : Alike v w) :
    Alike (f v) (f w) := by
  induction h with
  | rel v w h => exact of_identified (hf v w h)
  | refl v => exact refl (f v)
  | symm _ _ _ ih => exact ih.symm
  | trans _ _ _ _ _ ih ih' => exact ih.trans ih'

/-- Of lists that are related place by place, if each place may be changed. -/
theorem places {α : Type} {r : α → α → Prop} {f : List α → Validator}
    (hf : ∀ {a b}, r a b → ∀ before after,
      Alike (f (before ++ a :: after)) (f (before ++ b :: after)))
    {as bs : List α} (h : List.Forall₂ r as bs) : Alike (f as) (f bs) := by
  -- the places are changed from the left, behind those that have been changed
  have hbehind : ∀ before, Alike (f (before ++ as)) (f (before ++ bs)) := by
    induction h with
    | nil => exact fun before => refl _
    | @cons a b as bs hfirst _ ih =>
      intro before
      have hothers := ih (before ++ [b])
      rw [List.append_assoc, List.append_assoc] at hothers
      exact (hf hfirst before as).trans hothers
  exact hbehind []

/-- Of lists of validators that are alike. -/
theorem list {f : List Validator → Validator}
    (hf : ∀ {v w}, Identified v w → ∀ before after,
      Identified (f (before ++ v :: after)) (f (before ++ w :: after)))
    {vs ws : List Validator} (h : List.Forall₂ Alike vs ws) : Alike (f vs) (f ws) :=
  places (fun halike before after => halike.lift fun _ _ h => hf h before after) h

end Alike

/-- Properties of one name with values that are alike; whether they are required is the same, or does
not show. -/
structure PropertyAlike (p q : Property Validator) : Prop where
  name : p.name = q.name
  validator : Alike p.validator q.validator
  required : p.required = q.required ∨ q.validator.hasDefault = true

/-- Objects with properties that are alike. -/
theorem Alike.object {ps qs : List (Property Validator)} (h : List.Forall₂ PropertyAlike ps qs)
    (undeclared : Undeclared Validator) : Alike (.object ps undeclared) (.object qs undeclared) := by
  have hrequired : ∀ {name : String} {v : Validator} {a b : Bool}
      (before after : List (Property Validator)), a = b ∨ v.hasDefault = true →
      Alike (.object (before ++ ⟨name, v, a⟩ :: after) undeclared)
        (.object (before ++ ⟨name, v, b⟩ :: after) undeclared) := by
    rintro name v a b before after (rfl | hdefault)
    · exact .refl _
    · cases a <;> cases b
      · exact .refl _
      · exact (of_identified (.required before after undeclared hdefault)).symm
      · exact of_identified (.required before after undeclared hdefault)
      · exact .refl _
  refine places (f := (.object · undeclared)) ?_ h
  rintro ⟨name, v, a⟩ ⟨_, w, b⟩ ⟨rfl, hvalidator, hmark⟩ before after
  have hvalue : Alike (.object (before ++ ⟨name, v, a⟩ :: after) undeclared)
      (.object (before ++ ⟨name, w, a⟩ :: after) undeclared) :=
    hvalidator.lift (f := fun v => .object (before ++ ⟨name, v, a⟩ :: after) undeclared)
      fun _ _ h => .property h name a before after undeclared
  exact hvalue.trans (hrequired before after hmark)

end Validator

end SchemaClient
