/-
SchemaClient.Proofs.Validator.Core — what the expression of a validator opens with.

An expression is either built by a constructor of the library, so it opens with `z.`, or it is a
name with method calls behind it. Which of the two can be seen in the validator: it is a name if
nothing but method calls is put around one.

* `Opens` — a text is a name, or a name with a method called on it.
* `Validator.core?` — the name that is left when the method calls are taken off.
* `Validator.opens_source` — the expression opens with the core, or with `z` if there is none.
* `Declaration.forces_iff` — what a declaration forces is the core of its validator.
-/
import SchemaClient.Proofs.Emission.Intact

namespace SchemaClient

/-! ## What a text opens with -/

/-- The text applies a method to the name. -/
def Calls (text name : String) : Prop := ∃ call, text = name ++ "." ++ call

/-- The text is the bare name, or applies a method to it. -/
def Opens (text name : String) : Prop := text = name ∨ Calls text name

variable {text name other : String}

/-- Whatever follows a method call, it stays one. -/
theorem Calls.append (h : Calls text name) (more : String) : Calls (text ++ more) name := by
  obtain ⟨call, rfl⟩ := h
  exact ⟨call ++ more, String.append_assoc⟩

namespace Opens

/-- What is put around a name is a method call on it. -/
theorem call (h : Opens text name) {mark : String} (hmark : ∃ rest, mark = "." ++ rest) :
    Calls (text ++ mark) name := by
  obtain ⟨rest, rfl⟩ := hmark
  rcases h with rfl | ⟨first, rfl⟩
  · exact ⟨rest, String.append_assoc.symm⟩
  · exact ⟨first ++ ("." ++ rest), String.append_assoc⟩

/-- The name is what stands before the first dot. -/
theorem takeWhile_eq (h : Opens text name) (hdot : '.' ∉ name.toList) :
    text.toList.takeWhile (· != '.') = name.toList := by
  have hall : ∀ c ∈ name.toList, (c != '.') = true := by
    intro c hc
    have hne : c ≠ '.' := fun heq => hdot (heq ▸ hc)
    simpa using hne
  rcases h with rfl | ⟨call, rfl⟩
  · rw [← List.append_nil text.toList, List.takeWhile_append_of_pos hall]
    rfl
  · rw [String.toList_append, String.toList_append, List.append_assoc,
      List.takeWhile_append_of_pos hall]
    simp

theorem unique (h : Opens text name) (h' : Opens text other) (hdot : '.' ∉ name.toList)
    (hdot' : '.' ∉ other.toList) : name = other :=
  String.toList_inj.mp ((h.takeWhile_eq hdot).symm.trans (h'.takeWhile_eq hdot'))

end Opens

theorem Identifier.Valid.dot_not_mem (h : Valid name) : '.' ∉ name.toList := by
  intro hmem
  exact absurd (h.isPart '.' hmem) (by decide)

/-! ## The core of a validator -/

namespace Validator

mutual

/-- The name that is left of a validator when the method calls are taken off. -/
def core? : Validator → Option String
  | ref name => some name
  | nullable inner => inner.core?
  | described inner _ => inner.core?
  | defaulted inner _ => inner.core?
  | union alternatives => onlyCore? alternatives
  | intersection parts => onlyCore? parts
  | _ => none

/-- The core of the only validator in a list. -/
def onlyCore? : List Validator → Option String
  | [only] => only.core?
  | _ => none

end

/-- The constructor of a text opens with `z`. -/
theorem calls_formatSource (format : Option TextFormat) : Calls (formatSource format) "z" := by
  cases format with
  | none => exact ⟨"string()", by decide⟩
  | some format =>
    cases format with
    | email => exact ⟨"email()", by decide⟩
    | url => exact ⟨"url()", by decide⟩
    | uuid => exact ⟨"uuid()", by decide⟩
    | dateTime => exact ⟨"iso.datetime()", by decide⟩
    | date => exact ⟨"iso.date()", by decide⟩
    | time => exact ⟨"iso.time()", by decide⟩

theorem calls_objectConstructor {α : Type} (undeclared : Undeclared α) :
    Calls (objectConstructor undeclared) "z" := by
  have hobject : Calls "z.object" "z" := ⟨"object", by decide⟩
  have hloose : Calls "z.looseObject" "z" := ⟨"looseObject", by decide⟩
  have hstrict : Calls "z.strictObject" "z" := ⟨"strictObject", by decide⟩
  cases undeclared <;> assumption

/-- An intersection of two parts or more opens with `z`, however many there are. -/
theorem calls_intersected {left : String} (h : Calls left "z") (parts : List Validator) :
    Calls (intersected left parts) "z" := by
  induction parts generalizing left with
  | nil => exact h
  | cons part rest ih =>
    have hopen : Calls "z.intersection(" "z" := ⟨"intersection(", by decide⟩
    rw [intersected_cons]
    exact ih (((hopen.append _).append _).append _ |>.append _)

/-- The expression of a validator opens with its core, or with `z` if it has none. -/
theorem opens_source : ∀ v : Validator, Opens v.source (v.core?.getD "z")
  | any => Or.inr ⟨"any()", by decide⟩
  | never => Or.inr ⟨"never()", by decide⟩
  | null => Or.inr ⟨"null()", by decide⟩
  | bool => Or.inr ⟨"boolean()", by decide⟩
  | number integer bounds => by
    have hnumber : Calls "z.number()" "z" := ⟨"number()", by decide⟩
    exact Or.inr ((hnumber.append _).append _)
  | string format pattern minLength maxLength =>
    Or.inr (((calls_formatSource format).append _).append _)
  | enumeration members => by
    have henum : Calls "z.enum([" "z" := ⟨"enum([", by decide⟩
    exact Or.inr ((henum.append _).append _)
  | literal json => by
    by_cases hnull : json = .null
    · rw [hnull]
      exact Or.inr ⟨"null()", by decide⟩
    · have hliteral : Calls "z.literal(" "z" := ⟨"literal(", by decide⟩
      rw [source_literal hnull]
      exact Or.inr ((hliteral.append _).append _)
  | array item minItems maxItems => by
    have harray : Calls "z.array(" "z" := ⟨"array(", by decide⟩
    rw [source_array]
    exact Or.inr (((harray.append _).append _).append _)
  | tuple items => by
    have htuple : Calls "z.tuple([" "z" := ⟨"tuple([", by decide⟩
    rw [source_tuple]
    exact Or.inr ((htuple.append _).append _)
  | object properties undeclared => by
    rw [source_object]
    exact Or.inr (((((calls_objectConstructor undeclared).append _).append _).append _).append _)
  | record value => by
    have hrecord : Calls "z.record(z.string(), " "z" := ⟨"record(z.string(), ", by decide⟩
    rw [source_record]
    exact Or.inr ((hrecord.append _).append _)
  | union [] => Or.inr ⟨"never()", by decide⟩
  | union [only] => opens_source only
  | union (first :: second :: rest) => by
    have hunion : Calls "z.union([" "z" := ⟨"union([", by decide⟩
    rw [source_union_more]
    exact Or.inr (((((hunion.append _).append _).append _).append _).append _)
  | intersection [] => Or.inr ⟨"any()", by decide⟩
  | intersection [only] => opens_source only
  | intersection (first :: second :: rest) => by
    have hopen : Calls "z.intersection(" "z" := ⟨"intersection(", by decide⟩
    rw [source_intersection, intersected_cons]
    exact Or.inr (calls_intersected ((((hopen.append _).append _).append _).append _) rest)
  | ref name => Or.inl rfl
  | nullable inner => by
    rw [source_nullable]
    exact Or.inr ((opens_source inner).call ⟨"nullable()", by decide⟩)
  | described inner description => by
    rw [source_described]
    exact Or.inr ((((opens_source inner).call ⟨"describe(", by decide⟩).append _).append _)
  | defaulted inner default => by
    rw [source_defaulted]
    exact Or.inr ((((opens_source inner).call ⟨"prefault(", by decide⟩).append _).append _)

mutual

/-- The core of a validator is one of the names in it. -/
theorem core_mem_references : ∀ v : Validator, v.core? = some name → name ∈ v.references
  | ref _ => fun h => List.mem_singleton.mpr (Option.some.inj h).symm
  | nullable inner => fun h => core_mem_references inner h
  | described inner _ => fun h => core_mem_references inner h
  | defaulted inner _ => fun h => core_mem_references inner h
  | union alternatives => fun h => onlyCore_mem_references alternatives h
  | intersection parts => fun h => onlyCore_mem_references parts h
  | any => fun h => nomatch h
  | never => fun h => nomatch h
  | null => fun h => nomatch h
  | bool => fun h => nomatch h
  | number _ _ => fun h => nomatch h
  | string _ _ _ _ => fun h => nomatch h
  | enumeration _ => fun h => nomatch h
  | literal _ => fun h => nomatch h
  | array _ _ _ => fun h => nomatch h
  | tuple _ => fun h => nomatch h
  | object _ _ => fun h => nomatch h
  | record _ => fun h => nomatch h

theorem onlyCore_mem_references :
    ∀ vs : List Validator, onlyCore? vs = some name → name ∈ listReferences vs
  | [only] => fun h => List.mem_append_left _ (core_mem_references only h)
  | [] => fun h => nomatch h
  | _ :: _ :: _ => fun h => nomatch h

end

end Validator

/-! ## What a declaration forces -/

/-- To use the declaration is to use the other one: its expression is the bare name of the other, or
applies a method to it. -/
def Declaration.Forces (declaration : Declaration) (name : String) : Prop :=
  Opens declaration.source name

/-- A declaration forces a name if and only if that is what is left of its validator without the
method calls. -/
theorem Declaration.forces_iff {validator : Validator}
    (hreferences : ∀ other ∈ validator.references, Identifier.Valid other)
    (hname : Identifier.Valid name) (hz : name ≠ "z") {own : String} :
    (Declaration.mk own validator.source).Forces name ↔ validator.core? = some name := by
  have hopens := validator.opens_source
  unfold Forces
  cases hcore : validator.core? with
  | none =>
    rw [hcore] at hopens
    refine ⟨fun h => ?_, fun h => nomatch h⟩
    exact absurd (h.unique hopens hname.dot_not_mem (by decide)) hz
  | some core =>
    rw [hcore] at hopens
    have hvalid := hreferences core (validator.core_mem_references hcore)
    constructor
    · intro h
      rw [h.unique hopens hname.dot_not_mem hvalid.dot_not_mem]
      rfl
    · intro h
      cases h
      exact hopens

end SchemaClient
