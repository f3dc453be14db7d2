/-
SchemaClient.Proofs.Validator.Unambiguous — an expression determines its validator.

A canonical validator is determined by its expression, up to the differences that do not show. The
proof is an induction on the validator. What it is made of can be read off the calls of the
expression: the last one if that is a modifier, the first one otherwise, with the constraints that
follow. Then the expressions of the parts are the same, so by induction the parts are alike.

An intersection is read from its last part. The parts before that are not a part of the validator
themselves, so they have an induction of their own (`determined_gathered`).

* `Validator.Determined` — only validators that are alike have the expression.
* `Validator.Canonical.sameCalls` — what the expression tells about a constructor.
* `Validator.Canonical.exists_apply` — what it tells about a modifier.
* `Validator.Canonical.determined` — canonical validators are determined.
-/
import Mathlib.Data.List.Induction
import SchemaClient.Proofs.Validator.Alike

namespace SchemaClient

namespace Validator

variable {v w : Validator}

/-- Canonical validators with the same expression are alike. -/
def Determined (v : Validator) : Prop :=
  ∀ w, Canonical Named w → v.source = w.source → Alike v w

/-! ## What is read off an expression -/

/-- The same constructor is called with the same argument, and has the same constraints. -/
structure SameCalls (v w : Validator) : Prop where
  form : w.form = v.form
  opening : v.opening = w.opening
  argument : v.argument = w.argument
  constraints : v.constraints = w.constraints

namespace Canonical

theorem calls_eq (hv : Canonical Named v) (hw : Canonical Named w) (h : v.source = w.source) :
    v.head = w.head ∧ v.links = w.links := by
  obtain ⟨hhead, hlinks, -⟩ := hv.source_append_inj hw stops_nil stops_nil
    (congrArg (fun text => text.toList ++ []) h)
  exact ⟨hhead, hlinks⟩

/-- What is made by a constructor shares its expression with what the same call makes. -/
theorem sameCalls (hv : Canonical Named v) (hw : Canonical Named w) (hmade : v.form ≠ .modified)
    (href : v.form ≠ .ref) (h : v.source = w.source) : SameCalls v w := by
  obtain ⟨-, hlinks⟩ := hv.calls_eq hw h
  have hmade' : w.form ≠ .modified := by
    rwa [ne_eq, form_eq_modified_iff, ← hlinks, ← form_eq_modified_iff]
  have href' : w.form ≠ .ref := by
    rwa [ne_eq, form_eq_ref_iff, ← hlinks, ← form_eq_ref_iff]
  rw [(head_eq_and_links_eq hmade href).2, (head_eq_and_links_eq hmade' href').2] at hlinks
  obtain ⟨hcall, hgivens⟩ := List.cons.inj hlinks
  obtain ⟨hopening, hargument⟩ := Link.mk.inj hcall
  have hform := form_eq_of_opening hmade href hmade' href' hopening
  have hmethods : v.constraints.map Prod.fst = w.constraints.map Prod.fst := by
    rw [methods_constraints, methods_constraints, hform]
  have hnodup : (v.constraints.map Prod.fst).Nodup := by
    rw [methods_constraints]
    exact Form.nodup_constraints _ v.form.mem_all
  exact ⟨hform.symm, hopening, hargument, Link.givens_inj hmethods hnodup hgivens⟩

theorem of_apply {named : String → Prop} {m : Modifier} {inner : Validator}
    (h : Canonical named (m.apply inner)) : Canonical named inner := by
  cases m with
  | nullable => cases h with | nullable hinner _ _ => exact hinner
  | described description => cases h with | described hinner _ => exact hinner
  | defaulted default => cases h with | defaulted hinner _ => exact hinner

/-- What is modified shares its expression with what is modified in the same way. -/
theorem exists_apply {m : Modifier} {inner : Validator} (hv : Canonical Named (m.apply inner))
    (hw : Canonical Named w) (h : (m.apply inner).source = w.source) :
    ∃ (m' : Modifier) (inner' : Validator), w = m'.apply inner' ∧ m.link = m'.link ∧
      inner.source = inner'.source := by
  obtain ⟨hhead, hlinks⟩ := hv.calls_eq hw h
  rw [links_apply] at hlinks
  have hmodified : w.form = .modified :=
    form_eq_modified_iff.mpr ⟨m, hlinks ▸ List.mem_append_right _ (List.mem_singleton.mpr rfl)⟩
  obtain ⟨m', inner', rfl⟩ := exists_apply_of_form hmodified
  rw [head_apply, head_apply] at hhead
  rw [links_apply] at hlinks
  obtain ⟨hbefore, hlast⟩ := List.append_inj' hlinks rfl
  exact ⟨m', inner', rfl, List.singleton_inj.mp hlast,
    hv.of_apply.source_congr hw.of_apply hhead hbefore⟩

end Canonical

/-! ## Modifiers and names -/

theorem Modifier.alike_apply {m m' : Modifier} (hlink : m.link = m'.link) (h : Alike v w) :
    Alike (m.apply v) (m'.apply w) := by
  cases m with
  | nullable =>
    cases m' with
    | nullable => exact h.lift fun _ _ => .nullable
    | _ => exact absurd hlink (by simp [link])
  | described description =>
    cases m' with
    | described description' =>
      cases quote_injective (Link.mk.inj hlink).2
      exact h.lift fun _ _ h => .described h description
    | _ => exact absurd hlink (by simp [link])
  | defaulted default =>
    cases m' with
    | defaulted default' =>
      have hinner : Alike (v.defaulted default) (w.defaulted default) :=
        h.lift fun _ _ h => .defaulted h default
      exact hinner.trans (.of_identified (.default w (Link.mk.inj hlink).2))
    | _ => exact absurd hlink (by simp [link])

theorem determined_apply {m : Modifier} {inner : Validator} (hv : Canonical Named (m.apply inner))
    (h : Determined inner) : Determined (m.apply inner) := by
  intro w hw hsource
  obtain ⟨m', inner', rfl, hlink, hinner⟩ := hv.exists_apply hw hsource
  exact Modifier.alike_apply hlink (h inner' hw.of_apply hinner)

theorem determined_ref {name : String} (hname : Named name) : Determined (ref name) := by
  intro w hw hsource
  obtain ⟨hhead, hlinks⟩ := (Canonical.ref hname).calls_eq hw hsource
  obtain ⟨name', rfl⟩ := exists_ref_of_form (form_eq_ref_iff.mpr hlinks.symm)
  have hnames : name = name' := hhead
  rw [hnames]
  exact .refl _

/-! ## Constants and constraints -/

/-- Where all validators of a form are alike. -/
theorem determined_of_form (hv : Canonical Named v) (hmade : v.form ≠ .modified)
    (href : v.form ≠ .ref) (h : ∀ w, w.form = v.form → Alike v w) : Determined v :=
  fun w hw hsource => h w (hv.sameCalls hw hmade href hsource).form

/-- What accepts anything, in either way to put it. -/
theorem determined_of_form_any (hv : Canonical Named v) (hform : v.form = .any) : Determined v := by
  have hany : ∀ {v : Validator}, v.form = .any → Alike v any := by
    intro v h
    cases v with
    | any => exact .refl _
    | intersection parts =>
      cases parts with
      | nil => exact .of_identified .noParts
      | cons _ _ => cases h
    | _ => cases h
  refine determined_of_form hv (by simp [hform]) (by simp [hform]) fun w h => ?_
  exact (hany hform).trans (hany (h.trans hform)).symm

theorem determined_never : Determined never := by
  refine determined_of_form .never nofun nofun fun w h => ?_
  cases w with
  | never => exact .refl _
  | intersection parts => cases parts <;> cases h
  | _ => cases h

theorem determined_null : Determined null := by
  refine determined_of_form .null nofun nofun fun w h => ?_
  cases w with
  | null => exact .refl _
  | intersection parts => cases parts <;> cases h
  | _ => cases h

theorem determined_bool : Determined bool := by
  refine determined_of_form .bool nofun nofun fun w h => ?_
  cases w with
  | bool => exact .refl _
  | intersection parts => cases parts <;> cases h
  | _ => cases h

theorem determined_number (integer : Bool) (bounds : Bounds) :
    Determined (number integer bounds) := by
  intro w hw hsource
  obtain ⟨hform, -, -, hconstraints⟩ :=
    (Canonical.number integer bounds).sameCalls hw nofun nofun hsource
  cases hw with
  | number integer' bounds' =>
    simp only [constraints, List.cons.injEq, Prod.mk.injEq, true_and, and_true] at hconstraints
    obtain ⟨hinteger, hmin, hexclusiveMin, hmax, hexclusiveMax, hmultipleOf⟩ := hconstraints
    have hflag : integer = integer' := by
      cases integer <;> cases integer' <;> first | rfl | cases hinteger
    cases hflag
    exact .of_identified (.bounds integer ⟨hmin, hmax, hexclusiveMin, hexclusiveMax, hmultipleOf⟩)
  | @intersection parts _ _ => cases parts <;> cases hform
  | _ => cases hform

theorem determined_string (format : Option TextFormat) (pattern : Option String)
    (minLength maxLength : Option Nat) : Determined (string format pattern minLength maxLength) := by
  intro w hw hsource
  obtain ⟨hform, hopening, -, hconstraints⟩ :=
    (Canonical.string format pattern minLength maxLength).sameCalls hw nofun nofun hsource
  cases hw with
  | string format' pattern' minLength' maxLength' =>
    simp only [constraints, List.cons.injEq, Prod.mk.injEq, true_and, and_true] at hconstraints
    obtain ⟨hpattern, hmin, hmax⟩ := hconstraints
    cases formatMethod_injective hopening
    cases Option.map_injective (fun _ _ => regex_injective) hpattern
    cases Option.map_injective (fun _ _ => sizeText_injective) hmin
    cases Option.map_injective (fun _ _ => sizeText_injective) hmax
    exact .refl _
  | @intersection parts _ _ => cases parts <;> cases hform
  | _ => cases hform

theorem bracketed_injective {a b : String} (h : "[" ++ a ++ "]" = "[" ++ b ++ "]") : a = b :=
  (String.append_right_inj _).mp ((String.append_left_inj _).mp h)

theorem determined_enumeration {members : List String}
    (hv : Canonical Named (enumeration members)) : Determined (enumeration members) := by
  intro w hw hsource
  obtain ⟨hform, -, hargument, -⟩ := hv.sameCalls hw nofun nofun hsource
  cases hw with
  | enumeration _ _ =>
    cases members_injective (bracketed_injective hargument)
    exact .refl _
  | @intersection parts _ _ => cases parts <;> cases hform
  | _ => cases hform

theorem determined_literal {value : Json} (hv : Canonical Named (literal value)) :
    Determined (literal value) := by
  intro w hw hsource
  obtain ⟨hform, -, hargument, -⟩ := hv.sameCalls hw nofun nofun hsource
  cases hw with
  | literal _ => exact .of_identified (.literal hargument)
  | @intersection parts _ _ => cases parts <;> cases hform
  | _ => cases hform

/-! ## Parts -/

/-- Lists with the same values are related element by element, if elements with the same value
are. -/
theorem forall₂_of_map_eq {α β : Type} {f : α → β} {r : α → α → Prop} {as bs : List α}
    (hr : ∀ a ∈ as, ∀ b ∈ bs, f a = f b → r a b) (h : as.map f = bs.map f) :
    List.Forall₂ r as bs := by
  induction as generalizing bs with
  | nil =>
    rw [List.map_eq_nil_iff.mp h.symm]
    exact .nil
  | cons a as ih =>
    cases bs with
    | nil => cases h
    | cons b bs =>
      obtain ⟨hfirst, hrest⟩ := List.cons.inj h
      have hothers : ∀ a ∈ as, ∀ b ∈ bs, f a = f b → r a b := fun a ha b hb =>
        hr a (List.mem_cons_of_mem _ ha) b (List.mem_cons_of_mem _ hb)
      exact .cons (hr a List.mem_cons_self b List.mem_cons_self hfirst) (ih hothers hrest)

theorem determined_array {item : Validator} {minItems maxItems : Option Nat}
    (hv : Canonical Named (array item minItems maxItems)) (hitem : Determined item) :
    Determined (array item minItems maxItems) := by
  intro w hw hsource
  obtain ⟨hform, -, hargument, hconstraints⟩ := hv.sameCalls hw nofun nofun hsource
  cases hw with
  | array hitem' minItems' maxItems' =>
    simp only [constraints, List.cons.injEq, Prod.mk.injEq, true_and, and_true] at hconstraints
    cases Option.map_injective (fun _ _ => sizeText_injective) hconstraints.1
    cases Option.map_injective (fun _ _ => sizeText_injective) hconstraints.2
    exact (hitem _ hitem' hargument).lift fun _ _ h => .item h minItems maxItems
  | @intersection parts _ _ => cases parts <;> cases hform
  | _ => cases hform

theorem determined_record {value : Validator} (hv : Canonical Named (record value))
    (hvalue : Determined value) : Determined (record value) := by
  intro w hw hsource
  obtain ⟨hform, -, hargument, -⟩ := hv.sameCalls hw nofun nofun hsource
  cases hw with
  | record hvalue' =>
    exact (hvalue _ hvalue' ((String.append_right_inj _).mp hargument)).lift fun _ _ => .value
  | @intersection parts _ _ => cases parts <;> cases hform
  | _ => cases hform

theorem forall₂_alike {vs ws : List Validator} (hvs : ∀ v ∈ vs, Canonical Named v)
    (hws : ∀ w ∈ ws, Canonical Named w) (hdetermined : ∀ v ∈ vs, Determined v)
    (h : sources vs = sources ws) : List.Forall₂ Alike vs ws :=
  forall₂_of_map_eq (fun v hv w hw => hdetermined v hv w (hws w hw)) (sources_inj hvs hws h)

theorem determined_tuple {items : List Validator} (hitems : ∀ item ∈ items, Canonical Named item)
    (hdetermined : ∀ item ∈ items, Determined item) : Determined (tuple items) := by
  intro w hw hsource
  obtain ⟨hform, -, hargument, -⟩ := (Canonical.tuple hitems).sameCalls hw nofun nofun hsource
  cases hw with
  | tuple hitems' =>
    have hsources := bracketed_injective hargument
    exact .list (fun h => .element h) (forall₂_alike hitems hitems' hdetermined hsources)
  | @intersection parts _ _ => cases parts <;> cases hform
  | _ => cases hform

theorem determined_union {alternatives : List Validator} (hmany : 2 ≤ alternatives.length)
    (halternatives : ∀ alternative ∈ alternatives, Canonical Named alternative)
    (hdetermined : ∀ alternative ∈ alternatives, Determined alternative) :
    Determined (union alternatives) := by
  intro w hw hsource
  obtain ⟨hform, -, hargument, -⟩ :=
    (Canonical.union hmany halternatives).sameCalls hw nofun nofun hsource
  cases hw with
  | union _ halternatives' =>
    have hsources := bracketed_injective hargument
    exact .list (fun h => .alternative h)
      (forall₂_alike halternatives halternatives' hdetermined hsources)
  | @intersection parts _ _ => cases parts <;> cases hform
  | _ => cases hform

/-! ## Objects -/

/-- What is written of a property determines it, if its validator is determined. -/
theorem propertyAlike_of_entry {p q : Property Validator} (hq : Canonical Named q.validator)
    (hdetermined : Determined p.validator) (h : entry p = entry q) : PropertyAlike p q := by
  obtain ⟨hname, hsource, hmark⟩ := Entry.mk.inj h
  have halike := hdetermined q.validator hq hsource
  refine ⟨hname, halike, ?_⟩
  cases hdefault : q.validator.hasDefault with
  | true => exact Or.inr rfl
  | false =>
    rw [mark?, mark?, halike.hasDefault_eq, hdefault] at hmark
    refine Or.inl ?_
    cases hp : p.required <;> cases hq : q.required <;> simp_all

/-- What an object does with other keys is the same, or it is the same but for the validator. -/
theorem undeclared_cases {undeclared undeclared' : Undeclared Validator}
    (hmethod : objectMethod undeclared = objectMethod undeclared')
    (hrest : (rest? undeclared).map source = (rest? undeclared').map source) :
    undeclared = undeclared' ∨ ∃ rest rest', undeclared = .catchall rest ∧
      undeclared' = .catchall rest' ∧ rest.source = rest'.source := by
  match undeclared, undeclared' with
  | .strip, .strip => exact Or.inl rfl
  | .loose, .loose => exact Or.inl rfl
  | .strict, .strict => exact Or.inl rfl
  | .catchall rest, .catchall rest' => exact Or.inr ⟨rest, rest', rfl, rfl, Option.some.inj hrest⟩

theorem determined_object {properties : List (Property Validator)} {undeclared : Undeclared Validator}
    (hv : Canonical Named (object properties undeclared))
    (hproperties : ∀ property ∈ properties, Determined property.validator)
    (hundeclared : ∀ rest, undeclared = .catchall rest → Determined rest) :
    Determined (object properties undeclared) := by
  intro w hw hsource
  obtain ⟨hform, hopening, hargument, hconstraints⟩ := hv.sameCalls hw nofun nofun hsource
  cases hw with
  | @object properties' _ hcanonical' hundeclared' _ =>
    cases hv with
    | object hcanonical _ _ =>
      have hentries := shape_inj hcanonical hcanonical' hargument
      have halike : Alike (object properties undeclared) (object properties' undeclared) :=
        .object (forall₂_of_map_eq (fun p hp q hq =>
          propertyAlike_of_entry (hcanonical' q hq) (hproperties p hp)) hentries) undeclared
      have hrest := (Prod.mk.inj (List.singleton_inj.mp hconstraints)).2
      rcases undeclared_cases hopening hrest with rfl | ⟨rest, rest', rfl, rfl, hrests⟩
      · exact halike
      · have hothers := hundeclared rest rfl rest' (hundeclared' rest' rfl) hrests
        exact halike.trans (hothers.lift fun _ _ h => .rest h properties')
  | @intersection parts _ _ => cases parts <;> cases hform
  | _ => cases hform

/-! ## Intersections -/

section

variable {init : List Validator} (hinit : init ≠ []) (last : Validator)

theorem form_intersection_concat (init : List Validator) (last : Validator) :
    (intersection (init ++ [last])).form = .intersection := by
  cases init <;> rfl

theorem exists_concat_of_form {named : String → Prop} (hw : Canonical named w)
    (h : w.form = .intersection) : ∃ init last, init ≠ [] ∧ w = intersection (init ++ [last]) := by
  cases hw with
  | @intersection parts hmany _ =>
    cases parts with
    | nil => cases h
    | cons first rest =>
      refine ⟨(first :: rest).dropLast, (first :: rest).getLast (List.cons_ne_nil _ _), ?_, ?_⟩
      · cases rest with
        | nil => exact absurd rfl hmany
        | cons second rest => exact List.cons_ne_nil _ _
      · rw [List.dropLast_concat_getLast]
  | _ => cases h

include hinit

theorem gathered_concat : gathered (init ++ [last]) = intersection (init ++ [last]) := by
  match init with
  | [_] => rfl
  | _ :: _ :: _ => rfl

theorem argument_intersection_concat :
    (intersection (init ++ [last])).argument = (gathered init).source ++ ", " ++ last.source := by
  match init with
  | first :: rest =>
    have hbefore : (first :: (rest ++ [last])).dropLast = first :: rest := by
      rw [← List.cons_append, List.dropLast_concat]
    have hbehind : (first :: (rest ++ [last])).getLast (List.cons_ne_nil _ _) = last := by simp
    rw [List.cons_append, argument, hbefore, hbehind]

/-- The parts before the last one may be gathered. -/
theorem alike_gathered :
    Alike (intersection (init ++ [last])) (intersection [gathered init, last]) := by
  match init with
  | [only] => exact .refl _
  | first :: second :: inner =>
    exact (Alike.of_identified (.nested first second inner [last])).symm

end

/-- Intersections are alike if the last parts are, and what is gathered before them. -/
theorem alike_intersection_concat {init init' : List Validator} {last last' : Validator}
    (hinit : init ≠ []) (hinit' : init' ≠ []) (hbefore : Alike (gathered init) (gathered init'))
    (hlast : Alike last last') :
    Alike (intersection (init ++ [last])) (intersection (init' ++ [last'])) := by
  have hpair : Alike (intersection [gathered init, last]) (intersection [gathered init', last']) :=
    .list (fun h => .part h) (.cons hbefore (.cons hlast .nil))
  exact ((alike_gathered hinit last).trans hpair).trans (alike_gathered hinit' last').symm

/-- The parts of an intersection, gathered, are determined if each of them is. -/
theorem determined_gathered {parts : List Validator} (hne : parts ≠ [])
    (hparts : ∀ part ∈ parts, Canonical Named part) (h : ∀ part ∈ parts, Determined part) :
    Determined (gathered parts) := by
  induction parts using List.reverseRecOn with
  | nil => exact absurd rfl hne
  | append_singleton init last ih =>
    obtain ⟨hcanonical, hcanonicalLast⟩ := List.forall_mem_append.mp hparts
    obtain ⟨hbefore, hlast⟩ := List.forall_mem_append.mp h
    by_cases hinit : init = []
    · rw [hinit]
      exact hlast last (List.mem_singleton.mpr rfl)
    · have hv := canonical_gathered hparts
      rw [gathered_concat hinit] at hv ⊢
      have hform := form_intersection_concat init last
      intro w hw hsource
      have hsame := hv.sameCalls hw (by simp [hform]) (by simp [hform]) hsource
      obtain ⟨init', last', hinit', rfl⟩ := exists_concat_of_form hw (hsame.form.trans hform)
      cases hw with
      | intersection _ hparts' =>
        obtain ⟨hcanonical', hcanonicalLast'⟩ := List.forall_mem_append.mp hparts'
        have hargument := hsame.argument
        rw [argument_intersection_concat hinit, argument_intersection_concat hinit'] at hargument
        obtain ⟨hfirst, hsecond⟩ := pair_inj (canonical_gathered hcanonical)
          (canonical_gathered hcanonical') hargument
        exact alike_intersection_concat hinit hinit'
          (ih hinit hcanonical hbefore _ (canonical_gathered hcanonical') hfirst)
          (hlast last (List.mem_singleton.mpr rfl) last'
            (hcanonicalLast' last' (List.mem_singleton.mpr rfl)) hsecond)

/-! ## All forms -/

/-- Canonical validators are determined by their expressions. -/
theorem Canonical.determined (h : Canonical Named v) : Determined v := by
  have hself := h
  induction h with
  | any => exact determined_of_form_any hself rfl
  | never => exact determined_never
  | null => exact determined_null
  | bool => exact determined_bool
  | number integer bounds => exact determined_number integer bounds
  | string format pattern minLength maxLength =>
    exact determined_string format pattern minLength maxLength
  | enumeration => exact determined_enumeration hself
  | literal => exact determined_literal hself
  | array hitem _ _ ih => exact determined_array hself (ih hitem)
  | tuple hitems ih =>
    exact determined_tuple hitems fun item hmem => ih item hmem (hitems item hmem)
  | object hproperties hundeclared _ ihproperties ihundeclared =>
    exact determined_object hself
      (fun property hmem => ihproperties property hmem (hproperties property hmem))
      fun rest hrest => ihundeclared rest hrest (hundeclared rest hrest)
  | record hvalue ih => exact determined_record hself (ih hvalue)
  | union hmany halternatives ih =>
    exact determined_union hmany halternatives fun alternative hmem =>
      ih alternative hmem (halternatives alternative hmem)
  | @intersection parts hmany hparts ih =>
    cases parts with
    | nil => exact determined_of_form_any hself rfl
    | cons first rest =>
      have hgathered : gathered (first :: rest) = .intersection (first :: rest) := by
        cases rest with
        | nil => exact absurd rfl hmany
        | cons second rest => rfl
      rw [← hgathered]
      exact determined_gathered (List.cons_ne_nil _ _) hparts fun part hmem =>
        ih part hmem (hparts part hmem)
  | ref hname => exact determined_ref hname
  | nullable hinner _ _ ih => exact determined_apply (m := .nullable) hself (ih hinner)
  | described hinner _ ih => exact determined_apply (m := .described _) hself (ih hinner)
  | defaulted hinner _ ih => exact determined_apply (m := .defaulted _) hself (ih hinner)

end Validator

end SchemaClient
