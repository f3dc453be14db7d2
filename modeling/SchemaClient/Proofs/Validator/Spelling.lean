/-
SchemaClient.Proofs.Validator.Spelling — the expression of a validator as a chain.

Every expression is a chain: it begins with `z`, or with the name of another declaration, and all the
rest are calls. The first call is that of the constructor, with everything that the form is made of
in its argument; then come the constraints that are there, in a fixed order; then the modifiers, from
the inside out. Which methods there are does not overlap, so the form of a validator can be read off
its first call and its modifiers off the last ones.

* `Validator.head`, `Validator.links` — the name and the calls of an expression.
* `Validator.form_eq_of_opening` — the method of the constructor determines the form.
* `Validator.form_eq_modified_iff`, `Validator.form_eq_ref_iff` — modifiers and names show in the
  calls.
* `Validator.Canonical.source_eq` — the expression is made of its name and its calls.
* `Validator.Canonical.sound_links` — every argument closes what it opens.
-/
import SchemaClient.Proofs.Emission.Intact
import SchemaClient.Proofs.Text.Chain
import SchemaClient.Proofs.Validator.Canonical

namespace SchemaClient

namespace Validator

/-! ## Methods -/

/-- What is called on an expression as a whole. -/
inductive Modifier where
  | nullable
  | described (description : String)
  | defaulted (default : Json)

namespace Modifier

def apply : Modifier → Validator → Validator
  | nullable, inner => .nullable inner
  | described description, inner => .described inner description
  | defaulted default, inner => .defaulted inner default

def link : Modifier → Link
  | nullable => ⟨"nullable", ""⟩
  | described description => ⟨"describe", quote description⟩
  | defaulted default => ⟨"prefault", default.text⟩

end Modifier

/-- The forms of validators whose expressions can be told apart; an intersection without parts is
written as what accepts anything. -/
inductive Form where
  | any
  | never
  | null
  | bool
  | number
  | string
  | enumeration
  | literal
  | array
  | tuple
  | object
  | record
  | union
  | intersection
  | ref
  | modified
  deriving DecidableEq

def form : Validator → Form
  | any => .any
  | never => .never
  | null => .null
  | bool => .bool
  | number _ _ => .number
  | string _ _ _ _ => .string
  | enumeration _ => .enumeration
  | literal _ => .literal
  | array _ _ _ => .array
  | tuple _ => .tuple
  | object _ _ => .object
  | record _ => .record
  | union _ => .union
  | intersection [] => .any
  | intersection (_ :: _) => .intersection
  | ref _ => .ref
  | nullable _ => .modified
  | described _ _ => .modified
  | defaulted _ _ => .modified

/-- The methods that construct the validators of a form. -/
def Form.methods : Form → List String
  | .any => ["any"]
  | .never => ["never"]
  | .null => ["null"]
  | .bool => ["boolean"]
  | .number => ["number"]
  | .string => ["string", "email", "url", "uuid", "iso.datetime", "iso.date", "iso.time"]
  | .enumeration => ["enum"]
  | .literal => ["literal"]
  | .array => ["array"]
  | .tuple => ["tuple"]
  | .object => ["object", "looseObject", "strictObject"]
  | .record => ["record"]
  | .union => ["union"]
  | .intersection => ["intersection"]
  | .ref => []
  | .modified => []

/-- The methods of the constraints that a form may have, in their order. -/
def Form.constraintMethods : Form → List String
  | .number => ["int", "gte", "gt", "lte", "lt", "multipleOf"]
  | .string => ["regex", "min", "max"]
  | .array => ["min", "max"]
  | .object => ["catchall"]
  | _ => []

/-- All forms. -/
def Form.all : List Form :=
  [.any, .never, .null, .bool, .number, .string, .enumeration, .literal, .array, .tuple, .object,
    .record, .union, .intersection, .ref, .modified]

theorem Form.mem_all (f : Form) : f ∈ all := by cases f <;> decide

def modifierMethods : List String := ["nullable", "describe", "prefault"]

/-- The method of a text format. -/
def formatMethod : Option TextFormat → String
  | none => "string"
  | some .email => "email"
  | some .url => "url"
  | some .uuid => "uuid"
  | some .dateTime => "iso.datetime"
  | some .date => "iso.date"
  | some .time => "iso.time"

/-- The method that constructs an object. -/
def objectMethod : Undeclared Validator → String
  | .loose => "looseObject"
  | .strict => "strictObject"
  | .strip => "object"
  | .catchall _ => "object"

/-- What holds for the values of undeclared keys. -/
def rest? : Undeclared Validator → Option Validator
  | .catchall rest => some rest
  | _ => none

/-! ## The calls of an expression -/

/-- The method of the constructor. -/
def opening : Validator → String
  | any => "any"
  | never => "never"
  | null => "null"
  | bool => "boolean"
  | number _ _ => "number"
  | string format _ _ _ => formatMethod format
  | enumeration _ => "enum"
  | literal _ => "literal"
  | array _ _ _ => "array"
  | tuple _ => "tuple"
  | object _ undeclared => objectMethod undeclared
  | record _ => "record"
  | union _ => "union"
  | intersection [] => "any"
  | intersection (_ :: _) => "intersection"
  | _ => ""

/-- The argument of the constructor. An intersection is that of all parts but the last one with the
last one. -/
def argument : Validator → String
  | enumeration members => "[" ++ String.intercalate ", " (members.map quote) ++ "]"
  | literal value => value.text
  | array item _ _ => item.source
  | tuple items => "[" ++ sources items ++ "]"
  | object properties _ => shape properties
  | record value => "z.string(), " ++ value.source
  | union alternatives => "[" ++ sources alternatives ++ "]"
  | intersection (first :: rest) => (gathered (first :: rest).dropLast).source ++ ", " ++
      ((first :: rest).getLast (List.cons_ne_nil _ _)).source
  | _ => ""

/-- The constraints, each with its argument if it is there. -/
def constraints : Validator → List (String × Option String)
  | number integer bounds =>
    [("int", if integer then some "" else none), ("gte", bounds.min.map Number.text),
      ("gt", bounds.exclusiveMin.map Number.text), ("lte", bounds.max.map Number.text),
      ("lt", bounds.exclusiveMax.map Number.text),
      ("multipleOf", bounds.multipleOf.map Number.text)]
  | string _ pattern minLength maxLength =>
    [("regex", pattern.map fun text => "new RegExp(" ++ quote text ++ ")"),
      ("min", minLength.map sizeText), ("max", maxLength.map sizeText)]
  | array _ minItems maxItems =>
    [("min", minItems.map sizeText), ("max", maxItems.map sizeText)]
  | object _ undeclared => [("catchall", (rest? undeclared).map source)]
  | _ => []

/-- The call of the constructor and the constraints. -/
def made (v : Validator) : List Link := ⟨v.opening, v.argument⟩ :: Link.givens v.constraints

/-- What an expression begins with. -/
def head : Validator → String
  | ref name => name
  | nullable inner => inner.head
  | described inner _ => inner.head
  | defaulted inner _ => inner.head
  | _ => "z"

/-- The calls of an expression. -/
def links : Validator → List Link
  | ref _ => []
  | nullable inner => inner.links ++ [Modifier.nullable.link]
  | described inner description => inner.links ++ [(Modifier.described description).link]
  | defaulted inner default => inner.links ++ [(Modifier.defaulted default).link]
  | v => v.made

theorem head_apply (m : Modifier) (v : Validator) : (m.apply v).head = v.head := by
  cases m <;> rfl

theorem links_apply (m : Modifier) (v : Validator) : (m.apply v).links = v.links ++ [m.link] := by
  cases m <;> rfl

theorem exists_apply_of_form {v : Validator} (h : v.form = .modified) :
    ∃ (m : Modifier) (inner : Validator), v = m.apply inner := by
  cases v with
  | nullable inner => exact ⟨.nullable, inner, rfl⟩
  | described inner description => exact ⟨.described description, inner, rfl⟩
  | defaulted inner default => exact ⟨.defaulted default, inner, rfl⟩
  | intersection parts => cases parts <;> cases h
  | _ => cases h

theorem exists_ref_of_form {v : Validator} (h : v.form = .ref) : ∃ name, v = ref name := by
  cases v with
  | ref name => exact ⟨name, rfl⟩
  | intersection parts => cases parts <;> cases h
  | _ => cases h

/-- Everything else is made by a constructor. -/
theorem head_eq_and_links_eq {v : Validator} (hmade : v.form ≠ .modified) (href : v.form ≠ .ref) :
    v.head = "z" ∧ v.links = v.made := by
  cases v with
  | ref _ => exact absurd rfl href
  | nullable _ => exact absurd rfl hmade
  | described _ _ => exact absurd rfl hmade
  | defaulted _ _ => exact absurd rfl hmade
  | _ => exact ⟨rfl, rfl⟩

/-! ## Which methods are called -/

/-- The methods of constructors and constraints are neither modifiers nor what marks a property that
may be missing, and no method has a bracket in its name. -/
def Ordinary (method : String) : Prop :=
  method ∉ modifierMethods ∧ method ≠ "optional" ∧ '(' ∉ method.toList

instance (method : String) : Decidable (Ordinary method) := inferInstanceAs (Decidable (_ ∧ _ ∧ _))

namespace Form

theorem ordinary_methods : ∀ f ∈ all, ∀ method ∈ f.methods, Ordinary method := by decide

theorem ordinary_constraints : ∀ f ∈ all, ∀ method ∈ f.constraintMethods, Ordinary method := by
  decide

theorem nodup_constraints : ∀ f ∈ all, f.constraintMethods.Nodup := by decide

/-- No method constructs validators of two forms. -/
theorem methods_disjoint :
    ∀ f ∈ all, ∀ g ∈ all, ∀ method ∈ f.methods, method ∈ g.methods → f = g := by decide

end Form

theorem formatMethod_mem (format : Option TextFormat) :
    formatMethod format ∈ Form.string.methods := by
  cases format with
  | none => decide
  | some format => cases format <;> decide

theorem objectMethod_mem (undeclared : Undeclared Validator) :
    objectMethod undeclared ∈ Form.object.methods := by
  cases undeclared <;> simp [objectMethod, Form.methods]

/-- The method of the constructor is one of those of the form. -/
theorem opening_mem {v : Validator} (hmade : v.form ≠ .modified) (href : v.form ≠ .ref) :
    v.opening ∈ v.form.methods := by
  cases v with
  | string format _ _ _ => exact formatMethod_mem format
  | object _ undeclared => exact objectMethod_mem undeclared
  | intersection parts => cases parts <;> exact List.mem_singleton.mpr rfl
  | ref _ => exact absurd rfl href
  | nullable _ => exact absurd rfl hmade
  | described _ _ => exact absurd rfl hmade
  | defaulted _ _ => exact absurd rfl hmade
  | _ => exact List.mem_singleton.mpr rfl

/-- The method of the constructor determines the form. -/
theorem form_eq_of_opening {v w : Validator} (hv : v.form ≠ .modified) (hv' : v.form ≠ .ref)
    (hw : w.form ≠ .modified) (hw' : w.form ≠ .ref) (h : v.opening = w.opening) :
    v.form = w.form :=
  Form.methods_disjoint _ v.form.mem_all _ w.form.mem_all _ (opening_mem hv hv')
    (h ▸ opening_mem hw hw')

theorem methods_constraints (v : Validator) :
    v.constraints.map Prod.fst = v.form.constraintMethods := by
  cases v with
  | intersection parts => cases parts <;> rfl
  | _ => rfl

/-- Constructors and constraints are called by ordinary methods. -/
theorem ordinary_of_mem_made {v : Validator} (hmade : v.form ≠ .modified) (href : v.form ≠ .ref) :
    ∀ link ∈ v.made, Ordinary link.method := by
  intro link hlink
  rcases List.mem_cons.mp hlink with rfl | hlink
  · exact Form.ordinary_methods _ v.form.mem_all _ (opening_mem hmade href)
  · refine Form.ordinary_constraints _ v.form.mem_all _ ?_
    rw [← methods_constraints]
    exact List.mem_map.mpr ⟨_, Link.method_of_mem_givens hlink, rfl⟩

theorem Modifier.method_mem (m : Modifier) : m.link.method ∈ modifierMethods := by
  cases m <;> simp [link, modifierMethods]

/-- It can be seen in the calls of a validator whether a modifier made it, -/
theorem form_eq_modified_iff {v : Validator} :
    v.form = .modified ↔ ∃ m : Modifier, m.link ∈ v.links := by
  constructor
  · intro h
    obtain ⟨m, inner, rfl⟩ := exists_apply_of_form h
    refine ⟨m, ?_⟩
    rw [links_apply]
    exact List.mem_append_right _ (List.mem_singleton.mpr rfl)
  · rintro ⟨m, hmem⟩
    by_contra hmade
    by_cases href : v.form = .ref
    · obtain ⟨name, rfl⟩ := exists_ref_of_form href
      cases hmem
    · rw [(head_eq_and_links_eq hmade href).2] at hmem
      exact (ordinary_of_mem_made hmade href _ hmem).1 m.method_mem

/-- and whether it is a name. -/
theorem form_eq_ref_iff {v : Validator} : v.form = .ref ↔ v.links = [] := by
  constructor
  · intro h
    obtain ⟨name, rfl⟩ := exists_ref_of_form h
    rfl
  · intro h
    by_contra href
    by_cases hmade : v.form = .modified
    · obtain ⟨m, hmem⟩ := form_eq_modified_iff.mp hmade
      rw [h] at hmem
      cases hmem
    · rw [(head_eq_and_links_eq hmade href).2] at h
      cases h

/-! ## The expression -/

theorem call?_eq {α : Type} (method : String) (print : α → String) (argument : Option α)
    (rest : List (String × Option String)) :
    call? method print argument ++ Link.texts (Link.givens rest) =
      Link.texts (Link.givens ((method, argument.map print) :: rest)) := by
  cases argument with
  | none => exact String.empty_append
  | some argument => rfl

theorem limitsSource_eq (min max : Option Nat) : limitsSource min max =
    Link.texts (Link.givens [("min", min.map sizeText), ("max", max.map sizeText)]) := by
  rw [← call?_eq, ← call?_eq]
  simp [limitsSource, Link.givens]

theorem boundsSource_eq (bounds : Bounds) : boundsSource bounds =
    Link.texts (Link.givens [("gte", bounds.min.map Number.text),
      ("gt", bounds.exclusiveMin.map Number.text), ("lte", bounds.max.map Number.text),
      ("lt", bounds.exclusiveMax.map Number.text),
      ("multipleOf", bounds.multipleOf.map Number.text)]) := by
  simp only [← call?_eq]
  simp [boundsSource, Link.givens, String.append_assoc]

theorem catchallSource_eq (undeclared : Undeclared Validator) : catchallSource undeclared =
    Link.texts (Link.givens [("catchall", (rest? undeclared).map source)]) := by
  cases undeclared with
  | catchall rest => exact String.append_empty.symm
  | strip => rfl
  | loose => rfl
  | strict => rfl

theorem formatSource_eq (format : Option TextFormat) :
    formatSource format = "z." ++ formatMethod format ++ "(" ++ "" ++ ")" := by
  cases format with
  | none => rfl
  | some format => cases format <;> rfl

theorem objectConstructor_eq (undeclared : Undeclared Validator) :
    objectConstructor undeclared = "z." ++ objectMethod undeclared := by
  cases undeclared <;> rfl

theorem intersected_concat (left : String) (parts : List Validator) (last : Validator) :
    intersected left (parts ++ [last]) =
      "z.intersection(" ++ intersected left parts ++ ", " ++ last.source ++ ")" := by
  induction parts generalizing left with
  | nil => rfl
  | cons part rest ih =>
    rw [List.cons_append, intersected_cons, intersected_cons, ih]

theorem source_gathered (first : Validator) (rest : List Validator) :
    (gathered (first :: rest)).source = intersected first.source rest := by
  cases rest with
  | nil => rfl
  | cons second rest => rfl

/-- An intersection of several parts is that of all but the last one with the last one. -/
theorem source_intersection_concat {init : List Validator} (hinit : init ≠ []) (last : Validator) :
    (intersection (init ++ [last])).source =
      "z.intersection(" ++ (gathered init).source ++ ", " ++ last.source ++ ")" := by
  cases init with
  | nil => exact absurd rfl hinit
  | cons first rest =>
    rw [List.cons_append, source_intersection, intersected_concat, source_gathered]

theorem source_union {alternatives : List Validator} (hmany : 2 ≤ alternatives.length) :
    (union alternatives).source = "z.union([" ++ sources alternatives ++ "])" := by
  match alternatives with
  | [] => cases hmany
  | [_] => exact absurd hmany (by simp)
  | first :: second :: rest =>
    rw [source_union_more, sources_cons, moreSources_cons]
    simp only [String.append_assoc]

/-- A constructor that takes a list. -/
theorem bracketed_eq (method items : String) :
    "z." ++ method ++ "([" ++ items ++ "])" =
      "z." ++ method ++ "(" ++ ("[" ++ items ++ "]") ++ ")" ++ "" := by
  have hopen : "([" = "(" ++ "[" := rfl
  have hclose : "])" = "]" ++ ")" := rfl
  simp only [hopen, hclose, String.append_assoc, String.append_empty]

/-- The call of the constructor with its argument, and the constraints behind it, as they are
written. -/
def madeText (v : Validator) : String :=
  "z." ++ v.opening ++ "(" ++ v.argument ++ ")" ++ Link.texts (Link.givens v.constraints)

theorem source_number (integer : Bool) (bounds : Bounds) :
    (number integer bounds).source = (number integer bounds).madeText := by
  have hint : (if integer then ".int()" else "") ++ boundsSource bounds =
      Link.texts (Link.givens (number integer bounds).constraints) := by
    rw [boundsSource_eq]
    cases integer with
    | false => exact String.empty_append
    | true => rfl
  rw [madeText, ← hint, ← String.append_assoc]
  rfl

theorem source_string (format : Option TextFormat) (pattern : Option String)
    (minLength maxLength : Option Nat) : (string format pattern minLength maxLength).source =
      (string format pattern minLength maxLength).madeText := by
  have hsource : (string format pattern minLength maxLength).source = formatSource format ++
      (call? "regex" (fun text => "new RegExp(" ++ quote text ++ ")") pattern ++
        limitsSource minLength maxLength) := String.append_assoc
  rw [hsource, formatSource_eq, limitsSource_eq, call?_eq]
  rfl

theorem source_record_made (value : Validator) : (record value).source = (record value).madeText := by
  have hopen : "z.record(z.string(), " = "z." ++ "record" ++ "(" ++ "z.string(), " := rfl
  change _ = "z." ++ "record" ++ "(" ++ ("z.string(), " ++ value.source) ++ ")" ++ ""
  simp only [source_record, hopen, String.append_assoc, String.append_empty]

theorem source_intersection_made {parts : List Validator} (hmany : parts.length ≠ 1) :
    (intersection parts).source = (intersection parts).madeText := by
  match parts with
  | [] => rfl
  | first :: second :: rest =>
    have hinit : (first :: second :: rest).dropLast ≠ [] := by simp
    have hsource := source_intersection_concat hinit
      ((first :: second :: rest).getLast (List.cons_ne_nil _ _))
    rw [List.dropLast_concat_getLast] at hsource
    have hopen : "z.intersection(" = "z." ++ "intersection" ++ "(" := rfl
    change _ = "z." ++ "intersection" ++ "(" ++ (_ ++ ", " ++ _) ++ ")" ++ ""
    simp only [hsource, hopen, String.append_assoc, String.append_empty]

variable {named : String → Prop}

namespace Canonical

/-- What a constructor makes is written as that. -/
theorem source_made {v : Validator} (h : Canonical named v) (hmade : v.form ≠ .modified)
    (href : v.form ≠ .ref) : v.source = v.madeText := by
  cases h with
  | any => rfl
  | never => rfl
  | null => rfl
  | bool => rfl
  | number integer bounds => exact source_number integer bounds
  | string format pattern minLength maxLength =>
    exact source_string format pattern minLength maxLength
  | enumeration _ _ => exact bracketed_eq "enum" _
  | @literal value hliteral =>
    have hnull : value ≠ .null := by rintro rfl; exact hliteral
    rw [source_literal hnull]
    exact String.append_empty.symm
  | array _ minItems maxItems =>
    rw [source_array, limitsSource_eq]
    rfl
  | tuple _ => exact bracketed_eq "tuple" _
  | object _ _ _ =>
    rw [source_object, objectConstructor_eq, catchallSource_eq]
    rfl
  | record _ => exact source_record_made _
  | union hmany _ =>
    rw [source_union hmany]
    exact bracketed_eq "union" _
  | intersection hmany _ => exact source_intersection_made hmany
  | ref _ => exact absurd rfl href
  | nullable _ _ _ => exact absurd rfl hmade
  | described _ _ => exact absurd rfl hmade
  | defaulted _ _ => exact absurd rfl hmade

/-- The expression of a canonical validator is a chain. -/
theorem source_eq {v : Validator} (h : Canonical named v) :
    v.source = v.head ++ Link.texts v.links := by
  have hmodified : ∀ {inner : Validator} {mark : String} {link : Link},
      inner.source = inner.head ++ Link.texts inner.links → mark = link.text →
        inner.source ++ mark = inner.head ++ Link.texts (inner.links ++ [link]) := by
    rintro inner mark link hinner rfl
    rw [hinner, Link.texts_append, Link.texts_singleton, String.append_assoc]
  have hmade : ∀ {v : Validator}, Canonical named v → v.form ≠ .modified → v.form ≠ .ref →
      v.source = v.head ++ Link.texts v.links := by
    intro v hv hmade href
    have hdot : "z." = "z" ++ "." := rfl
    obtain ⟨hhead, hlinks⟩ := head_eq_and_links_eq hmade href
    rw [hv.source_made hmade href, hhead, hlinks, madeText, made, Link.texts_cons]
    simp only [hdot, Link.text, String.append_assoc]
  have hself := h
  induction h with
  | ref _ => exact String.append_empty.symm
  | nullable hinner _ _ ih => exact hmodified (ih hinner) rfl
  | @described inner description hinner _ ih =>
    rw [source_described, String.append_assoc, String.append_assoc]
    exact hmodified (ih hinner) (by rw [← String.append_assoc]; rfl)
  | @defaulted inner default hinner _ ih =>
    rw [source_defaulted, String.append_assoc, String.append_assoc]
    exact hmodified (ih hinner) (by rw [← String.append_assoc]; rfl)
  | @intersection parts _ _ _ => cases parts <;> exact hmade hself (by simp [form]) (by simp [form])
  | _ => exact hmade hself (by simp [form]) (by simp [form])

/-! ### Its calls are sound -/

theorem whole_source {v : Validator} (h : Canonical named v)
    (hnamed : ∀ name, named name → Whole name) : Whole v.source :=
  v.whole_source fun name hname => hnamed name (h.named_of_mem_references name hname)

theorem whole_sources {vs : List Validator} (h : ∀ v ∈ vs, Canonical named v)
    (hnamed : ∀ name, named name → Whole name) : Whole (sources vs) := by
  refine Validator.whole_sources vs fun name hname => ?_
  obtain ⟨v, hv, hname⟩ := mem_listReferences.mp hname
  exact hnamed name ((h v hv).named_of_mem_references name hname)

/-- The argument of a constructor closes what it opens. -/
theorem whole_argument {v : Validator} (h : Canonical named v)
    (hnamed : ∀ name, named name → Whole name) : Whole v.argument := by
  have hempty : Whole "" := Leads.empty []
  have hcomma : Whole ", " := by decide
  have hopen : Leads [] "[" ['['] := by decide
  have hclose : Leads ['['] "]" [] := by decide
  cases h with
  | enumeration _ _ =>
    refine (hopen.insert (whole_intercalate fun text htext => ?_)).append hclose
    obtain ⟨member, -, rfl⟩ := List.mem_map.mp htext
    exact whole_quote member
  | @literal value _ => exact value.whole_text
  | array hitem _ _ => exact hitem.whole_source hnamed
  | tuple hitems => exact (hopen.insert (whole_sources hitems hnamed)).append hclose
  | @object properties _ hproperties _ _ =>
    refine whole_shape properties fun name hname => ?_
    obtain ⟨property, hproperty, hname⟩ := mem_propertyReferences.mp hname
    exact hnamed name ((hproperties property hproperty).named_of_mem_references name hname)
  | record hvalue =>
    have hkeys : Whole "z.string(), " := by decide
    exact hkeys.append (hvalue.whole_source hnamed)
  | union _ halternatives => exact (hopen.insert (whole_sources halternatives hnamed)).append hclose
  | @intersection parts _ hparts =>
    cases parts with
    | nil => exact hempty
    | cons first rest =>
      have hinit := canonical_gathered fun part hpart =>
        hparts part (List.dropLast_subset _ hpart)
      have hlast := hparts _ (List.getLast_mem (List.cons_ne_nil first rest))
      exact ((hinit.whole_source hnamed).append hcomma).append (hlast.whole_source hnamed)
  | _ => exact hempty

/-- So do those of the constraints. -/
theorem whole_constraint {v : Validator} (h : Canonical named v)
    (hnamed : ∀ name, named name → Whole name) {method argument : String}
    (hmem : (method, some argument) ∈ v.constraints) : Whole argument := by
  have hprinted : ∀ {α : Type} {print : α → String} {limit : Option α},
      (∀ a ∈ limit, Whole (print a)) → some argument = limit.map print → Whole argument := by
    intro α print limit hprint heq
    obtain ⟨a, ha, rfl⟩ := Option.map_eq_some_iff.mp heq.symm
    exact hprint a ha
  cases h with
  | number integer bounds =>
    simp only [constraints, List.mem_cons, Prod.mk.injEq, List.not_mem_nil, or_false] at hmem
    rcases hmem with ⟨-, hint⟩ | ⟨-, h⟩ | ⟨-, h⟩ | ⟨-, h⟩ | ⟨-, h⟩ | ⟨-, h⟩
    · split at hint
      · cases hint
        exact Leads.empty []
      · cases hint
    all_goals exact hprinted (fun n _ => n.whole_text) h
  | string format pattern minLength maxLength =>
    simp only [constraints, List.mem_cons, Prod.mk.injEq, List.not_mem_nil, or_false] at hmem
    rcases hmem with ⟨-, h⟩ | ⟨-, h⟩ | ⟨-, h⟩
    · have hopen : Leads [] "new RegExp(" ['('] := by decide
      have hclose : Leads ['('] ")" [] := by decide
      exact hprinted (fun text _ => (hopen.insert (whole_quote text)).append hclose) h
    all_goals exact hprinted (fun n _ => whole_sizeText n) h
  | array _ minItems maxItems =>
    simp only [constraints, List.mem_cons, Prod.mk.injEq, List.not_mem_nil, or_false] at hmem
    rcases hmem with ⟨-, h⟩ | ⟨-, h⟩
    all_goals exact hprinted (fun n _ => whole_sizeText n) h
  | @object _ undeclared _ hundeclared _ =>
    simp only [constraints, List.mem_cons, Prod.mk.injEq, List.not_mem_nil, or_false] at hmem
    refine hprinted (fun rest hrest => ?_) hmem.2
    cases undeclared with
    | catchall other =>
      cases hrest
      exact (hundeclared _ rfl).whole_source hnamed
    | strip => cases hrest
    | loose => cases hrest
    | strict => cases hrest
  | intersection _ _ => exact absurd hmem (by simp [constraints])
  | _ => cases hmem

end Canonical

theorem Modifier.sound_link (m : Modifier) : m.link.Sound := by
  cases m with
  | nullable => exact ⟨by decide, Leads.empty []⟩
  | described description => exact ⟨by simp [link], whole_quote description⟩
  | defaulted default => exact ⟨by simp [link], default.whole_text⟩

namespace Canonical

/-- What holds of the calls of constructors and of modifiers holds of all calls. -/
theorem forall_links {p : Link → Prop} {v : Validator} (h : Canonical named v)
    (hmade : ∀ v, Canonical named v → v.form ≠ .modified → v.form ≠ .ref → ∀ link ∈ v.made, p link)
    (hmodifier : ∀ m : Modifier, p m.link) : ∀ link ∈ v.links, p link := by
  have happly : ∀ {inner : Validator}, (∀ link ∈ inner.links, p link) → ∀ m : Modifier,
      ∀ link ∈ inner.links ++ [m.link], p link := by
    intro inner hinner m link hlink
    rcases List.mem_append.mp hlink with hlink | hlink
    · exact hinner link hlink
    · rw [List.mem_singleton.mp hlink]
      exact hmodifier m
  have hself := h
  induction h with
  | ref _ => exact fun _ hlink => nomatch hlink
  | nullable hinner _ _ ih => exact happly (ih hinner) .nullable
  | described hinner _ ih => exact happly (ih hinner) (.described _)
  | defaulted hinner _ ih => exact happly (ih hinner) (.defaulted _)
  | @intersection parts _ _ _ =>
    cases parts <;> exact hmade _ hself (by simp [form]) (by simp [form])
  | _ => exact hmade _ hself (by simp [form]) (by simp [form])

theorem sound_links {v : Validator} (h : Canonical named v)
    (hnamed : ∀ name, named name → Whole name) : ∀ link ∈ v.links, link.Sound := by
  refine h.forall_links (fun v hv hmade href link hlink => ?_) Modifier.sound_link
  refine ⟨(ordinary_of_mem_made hmade href link hlink).2.2, ?_⟩
  rcases List.mem_cons.mp hlink with rfl | hlink
  · exact hv.whole_argument hnamed
  · exact hv.whole_constraint hnamed (Link.method_of_mem_givens hlink)

/-- No call of an expression is what marks a property that may be missing. -/
theorem method_ne_optional {v : Validator} (h : Canonical named v) :
    ∀ link ∈ v.links, link.method ≠ "optional" := by
  have hmodifier : "optional" ∉ modifierMethods := by decide
  refine h.forall_links (fun v hv hmade href link hlink => ?_)
    fun m heq => hmodifier (heq ▸ m.method_mem)
  exact (ordinary_of_mem_made hmade href link hlink).2.1

end Canonical

end Validator

end SchemaClient
