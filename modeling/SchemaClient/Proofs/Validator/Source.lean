/-
SchemaClient.Proofs.Validator.Source — the expression of a validator closes what it opens.

Property names, descriptions, patterns, enumeration members, literals and defaults come from outside.
They are all printed as string literals or JSON texts, so whatever they hold, the expression around
them stays as it is: every string ends where its writer ended it, and the brackets outside of strings
are nested.

* `Validator.whole_source` — if the names in it are whole, the expression of a validator is.
-/
import SchemaClient.Proofs.Json.Text
import SchemaClient.Proofs.Lowering.References

namespace SchemaClient

namespace Validator

/-! ## The expressions of the forms that have parts -/

section

variable (item first second value inner : Validator) (rest items : List Validator)

theorem source_literal {json : Json} (h : json ≠ .null) :
    (literal json).source = "z.literal(" ++ json.text ++ ")" := by
  cases json <;> first | rfl | contradiction

theorem source_array (min max : Option Nat) :
    (array item min max).source = "z.array(" ++ item.source ++ ")" ++ limitsSource min max := rfl

theorem source_tuple : (tuple items).source = "z.tuple([" ++ sources items ++ "])" := rfl

theorem source_object (properties : List (Property Validator)) (undeclared : Undeclared Validator) :
    (object properties undeclared).source =
      objectConstructor undeclared ++ "(" ++ shape properties ++ ")" ++
        catchallSource undeclared := rfl

theorem source_record : (record value).source = "z.record(z.string(), " ++ value.source ++ ")" :=
  rfl

theorem source_union_one : (union [item]).source = item.source := rfl

theorem source_union_more : (union (first :: second :: rest)).source =
    "z.union([" ++ first.source ++ ", " ++ second.source ++ moreSources rest ++ "])" := rfl

theorem source_intersection :
    (intersection (first :: rest)).source = intersected first.source rest := rfl

theorem source_nullable : (nullable inner).source = inner.source ++ ".nullable()" := rfl

theorem source_described (description : String) : (described inner description).source =
    inner.source ++ ".describe(" ++ quote description ++ ")" := rfl

theorem source_defaulted (default : Json) : (defaulted inner default).source =
    inner.source ++ ".prefault(" ++ default.text ++ ")" := rfl

theorem sources_cons : sources (item :: rest) = item.source ++ moreSources rest := rfl

theorem moreSources_cons :
    moreSources (item :: rest) = ", " ++ item.source ++ moreSources rest := rfl

theorem intersected_cons (left : String) : intersected left (item :: rest) =
    intersected ("z.intersection(" ++ left ++ ", " ++ item.source ++ ")") rest := rfl

theorem shape_cons (property : Property Validator) (rest : List (Property Validator)) :
    shape (property :: rest) = "\x7b " ++ quote property.name ++ ": " ++
      property.validator.source ++ optionalMark property ++ moreShape rest := rfl

theorem moreShape_cons (property : Property Validator) (rest : List (Property Validator)) :
    moreShape (property :: rest) = ", " ++ quote property.name ++ ": " ++
      property.validator.source ++ optionalMark property ++ moreShape rest := rfl

theorem catchallSource_catchall :
    catchallSource (.catchall value) = ".catchall(" ++ value.source ++ ")" := rfl

end

/-! ## Method calls -/

/-- A method call is whole if its argument is. -/
theorem whole_call? {α : Type} {method : String} {print : α → String} {argument : Option α}
    (hmethod : Whole method) (hprint : ∀ a, Whole (print a)) :
    Whole (call? method print argument) := by
  cases argument with
  | none => exact Leads.empty []
  | some a =>
    have hdot : Whole "." := by decide
    have hopen : Leads [] "(" ['('] := by decide
    have hclose : Leads ['('] ")" [] := by decide
    exact (Leads.append (hdot.append hmethod) hopen).insert (hprint a) |>.append hclose

theorem whole_sizeText (n : Nat) : Whole (sizeText n) :=
  whole_of_isInert fun _ hc => isInert_of_isNumeral (isNumeral_of_mem_digitsOf hc)

theorem whole_limitsSource (min max : Option Nat) : Whole (limitsSource min max) :=
  (whole_call? (by decide) whole_sizeText).append (whole_call? (by decide) whole_sizeText)

theorem whole_boundsSource (bounds : Bounds) : Whole (boundsSource bounds) := by
  have hcall : ∀ {method : String} {argument : Option Number}, Whole method →
      Whole (call? method Number.text argument) :=
    fun hmethod => whole_call? hmethod Number.whole_text
  exact ((((hcall (by decide)).append (hcall (by decide))).append (hcall (by decide))).append
    (hcall (by decide))).append (hcall (by decide))

theorem whole_formatSource (format : Option TextFormat) : Whole (formatSource format) := by
  cases format with
  | none => decide
  | some format => cases format <;> decide

theorem whole_regex (pattern : Option String) :
    Whole (call? "regex" (fun text => "new RegExp(" ++ quote text ++ ")") pattern) := by
  have hopen : Leads [] "new RegExp(" ['('] := by decide
  have hclose : Leads ['('] ")" [] := by decide
  exact whole_call? (by decide) fun text => (hopen.insert (whole_quote text)).append hclose

theorem whole_optionalMark (property : Property Validator) : Whole (optionalMark property) := by
  unfold optionalMark
  split <;> decide

theorem whole_objectConstructor {α : Type} (undeclared : Undeclared α) :
    Whole (objectConstructor undeclared) := by
  have hloose : Whole "z.looseObject" := by decide
  have hstrict : Whole "z.strictObject" := by decide
  have hobject : Whole "z.object" := by decide
  cases undeclared <;> assumption

/-- Texts separated by commas. -/
theorem whole_intercalate {texts : List String} (h : ∀ text ∈ texts, Whole text) :
    Whole (String.intercalate ", " texts) := by
  have hcomma : Whole ", " := by decide
  match texts with
  | [] => exact Leads.empty []
  | [only] =>
    rw [String.intercalate_singleton]
    exact h only List.mem_cons_self
  | first :: second :: rest =>
    rw [String.intercalate_cons_cons]
    refine ((h first List.mem_cons_self).append hcomma).append (whole_intercalate ?_)
    exact fun text htext => h text (List.mem_cons_of_mem _ htext)

/-! ## Expressions -/

mutual

/-- The expression of a validator closes what it opens, if the names in it do. -/
theorem whole_source :
    ∀ v : Validator, (∀ name ∈ v.references, Whole name) → Whole v.source
  | any, _ => by decide
  | never, _ => by decide
  | null, _ => by decide
  | bool, _ => by decide
  | number integer bounds, _ => by
    have hinteger : Whole (if integer then ".int()" else "") := by cases integer <;> decide
    have hnumber : Whole "z.number()" := by decide
    exact (hnumber.append hinteger).append (whole_boundsSource bounds)
  | string format pattern minLength maxLength, _ =>
    ((whole_formatSource format).append (whole_regex pattern)).append
      (whole_limitsSource minLength maxLength)
  | enumeration members, _ => by
    have hopen : Leads [] "z.enum([" ['[', '('] := by decide
    have hclose : Leads ['[', '('] "])" [] := by decide
    have hmembers : Whole (String.intercalate ", " (members.map quote)) := by
      refine whole_intercalate fun text htext => ?_
      obtain ⟨member, -, rfl⟩ := List.mem_map.mp htext
      exact whole_quote member
    exact (hopen.insert hmembers).append hclose
  | literal json, _ => by
    by_cases hnull : json = .null
    · rw [hnull]
      decide
    · have hopen : Leads [] "z.literal(" ['('] := by decide
      have hclose : Leads ['('] ")" [] := by decide
      rw [source_literal hnull]
      exact (hopen.insert json.whole_text).append hclose
  | array item minItems maxItems, h => by
    have hopen : Leads [] "z.array(" ['('] := by decide
    have hclose : Leads ['('] ")" [] := by decide
    rw [source_array]
    exact ((hopen.insert (whole_source item h)).append hclose).append
      (whole_limitsSource minItems maxItems)
  | tuple items, h => by
    have hopen : Leads [] "z.tuple([" ['[', '('] := by decide
    have hclose : Leads ['[', '('] "])" [] := by decide
    rw [source_tuple]
    exact (hopen.insert (whole_sources items h)).append hclose
  | object properties undeclared, h => by
    obtain ⟨hproperties, hundeclared⟩ := List.forall_mem_append.mp h
    have hopen : Leads [] "(" ['('] := by decide
    have hclose : Leads ['('] ")" [] := by decide
    rw [source_object]
    exact (((Leads.append (whole_objectConstructor undeclared) hopen).insert
      (whole_shape properties hproperties)).append hclose).insert
        (whole_catchallSource undeclared hundeclared)
  | record value, h => by
    have hopen : Leads [] "z.record(z.string(), " ['('] := by decide
    have hclose : Leads ['('] ")" [] := by decide
    rw [source_record]
    exact (hopen.insert (whole_source value h)).append hclose
  | union [], _ => by decide
  | union [only], h => by
    rw [source_union_one]
    exact whole_source only (List.forall_mem_append.mp h).1
  | union (first :: second :: rest), h => by
    obtain ⟨hfirst, hothers⟩ := List.forall_mem_append.mp h
    obtain ⟨hsecond, hrest⟩ := List.forall_mem_append.mp hothers
    have hopen : Leads [] "z.union([" ['[', '('] := by decide
    have hcomma : Whole ", " := by decide
    have hclose : Leads ['[', '('] "])" [] := by decide
    rw [source_union_more]
    exact ((((hopen.insert (whole_source first hfirst)).insert hcomma).insert
      (whole_source second hsecond)).insert (whole_moreSources rest hrest)).append hclose
  | intersection [], _ => by decide
  | intersection (first :: rest), h => by
    obtain ⟨hfirst, hrest⟩ := List.forall_mem_append.mp h
    rw [source_intersection]
    exact whole_intersected rest (whole_source first hfirst) hrest
  | ref name, h => h name (List.mem_singleton.mpr rfl)
  | nullable inner, h => by
    have hmark : Whole ".nullable()" := by decide
    rw [source_nullable]
    exact (whole_source inner h).append hmark
  | described inner description, h => by
    have hopen : Leads [] ".describe(" ['('] := by decide
    have hclose : Leads ['('] ")" [] := by decide
    rw [source_described]
    exact ((Leads.append (whole_source inner h) hopen).insert
      (whole_quote description)).append hclose
  | defaulted inner default, h => by
    have hopen : Leads [] ".prefault(" ['('] := by decide
    have hclose : Leads ['('] ")" [] := by decide
    rw [source_defaulted]
    exact ((Leads.append (whole_source inner h) hopen).insert default.whole_text).append hclose

theorem whole_sources :
    ∀ vs : List Validator, (∀ name ∈ listReferences vs, Whole name) → Whole (sources vs)
  | [], _ => Leads.empty []
  | first :: rest, h => by
    obtain ⟨hfirst, hrest⟩ := List.forall_mem_append.mp h
    rw [sources_cons]
    exact (whole_source first hfirst).append (whole_moreSources rest hrest)

theorem whole_moreSources :
    ∀ vs : List Validator, (∀ name ∈ listReferences vs, Whole name) → Whole (moreSources vs)
  | [], _ => Leads.empty []
  | next :: rest, h => by
    obtain ⟨hnext, hrest⟩ := List.forall_mem_append.mp h
    have hcomma : Whole ", " := by decide
    rw [moreSources_cons]
    exact (hcomma.append (whole_source next hnext)).append (whole_moreSources rest hrest)

theorem whole_intersected :
    ∀ (parts : List Validator) {left : String}, Whole left →
      (∀ name ∈ listReferences parts, Whole name) → Whole (intersected left parts)
  | [], _, hleft, _ => hleft
  | part :: rest, left, hleft, h => by
    obtain ⟨hpart, hrest⟩ := List.forall_mem_append.mp h
    have hopen : Leads [] "z.intersection(" ['('] := by decide
    have hcomma : Whole ", " := by decide
    have hclose : Leads ['('] ")" [] := by decide
    rw [intersected_cons]
    refine whole_intersected rest ?_ hrest
    exact (((hopen.insert hleft).insert hcomma).insert (whole_source part hpart)).append hclose

theorem whole_shape :
    ∀ properties : List (Property Validator),
      (∀ name ∈ propertyReferences properties, Whole name) → Whole (shape properties)
  | [], _ => by decide
  | ⟨name, validator, required⟩ :: rest, h => by
    obtain ⟨hvalidator, hrest⟩ := List.forall_mem_append.mp h
    have hopen : Leads [] "\x7b " ['{'] := by decide
    have hcolon : Whole ": " := by decide
    rw [shape_cons]
    exact ((((hopen.insert (whole_quote name)).insert hcolon).insert
      (whole_source validator hvalidator)).insert (whole_optionalMark _)).append
        (leads_moreShape rest hrest)

/-- The rest of an object's keys closes its brace. -/
theorem leads_moreShape :
    ∀ properties : List (Property Validator),
      (∀ name ∈ propertyReferences properties, Whole name) →
        Leads ['{'] (moreShape properties) []
  | [], _ => by decide
  | ⟨name, validator, required⟩ :: rest, h => by
    obtain ⟨hvalidator, hrest⟩ := List.forall_mem_append.mp h
    have hcomma : Whole ", " := by decide
    have hcolon : Whole ": " := by decide
    rw [moreShape_cons]
    exact (((((hcomma.leads _).insert (whole_quote name)).insert hcolon).insert
      (whole_source validator hvalidator)).insert (whole_optionalMark _)).append
        (leads_moreShape rest hrest)

theorem whole_catchallSource :
    ∀ undeclared : Undeclared Validator,
      (∀ name ∈ undeclaredReferences undeclared, Whole name) → Whole (catchallSource undeclared)
  | .strip, _ => Leads.empty []
  | .loose, _ => Leads.empty []
  | .strict, _ => Leads.empty []
  | .catchall validator, h => by
    have hopen : Leads [] ".catchall(" ['('] := by decide
    have hclose : Leads ['('] ")" [] := by decide
    rw [catchallSource_catchall]
    exact (hopen.insert (whole_source validator h)).append hclose

end

end Validator

end SchemaClient
