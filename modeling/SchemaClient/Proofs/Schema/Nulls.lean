/-
SchemaClient.Proofs.Schema.Nulls — a schema without the keywords that are null.

Fifteen keywords may be written with null to say nothing. They are left out of a schema by leaving
them out of each node that can be come to through subschemas; what only stands in a node as a value
(a literal, the members of an `enum`, a default) is left as it is.

* `Schema.pruned`, `Schema.prunedEntries` — a schema and a node without them.
* `Keywords.pruned`, `Keywords.ofEntries_prunedEntries` — the keywords of such a node.
-/
import SchemaClient.Proofs.Schema.Validity
import SchemaClient.Schema.Lowering

namespace SchemaClient

namespace Table

variable {α : Type}

/-- The value of a name that is kept is what it was. -/
theorem find?_filter (keep : String → Bool) (table : Table α) (name : String) :
    find? (table.filter fun entry => keep entry.1) name =
      if keep name then find? table name else none := by
  induction table with
  | nil => simp [find?]
  | cons first rest ih =>
    obtain ⟨other, value⟩ := first
    rw [List.filter_cons]
    by_cases hname : other = name
    · subst hname
      by_cases hkeep : keep other = true
      · simp only [hkeep, if_true, find?]
      · simp only [hkeep, Bool.false_eq_true, if_false, ih]
    · by_cases hkeep : keep other = true
      · simp only [hkeep, if_true, find?, if_neg hname, ih]
      · simp only [hkeep, Bool.false_eq_true, if_false, find?, if_neg hname, ih]

theorem find?_map {β : Type} (f : String → α → β) (table : Table α) (name : String) :
    find? (table.map fun entry => (entry.1, f entry.1 entry.2)) name =
      (find? table name).map (f name) := by
  induction table with
  | nil => rfl
  | cons first rest ih =>
    obtain ⟨other, value⟩ := first
    rw [List.map_cons, find?, find?, ih]
    by_cases hname : other = name
    · subst hname
      rw [if_pos rfl, if_pos rfl]
      rfl
    · rw [if_neg hname, if_neg hname]

end Table

namespace Schema

/-! ## Leaving nulls out -/

/-- The keywords that say nothing when they are null. -/
def quietKeywords : List String :=
  ["type", "enum", "anyOf", "oneOf", "allOf", "properties", "items", "required",
    "additionalProperties", "format", "pattern", "contentEncoding", "description", "default",
    "nullable"]

/-- Whether a node gives a keyword as null. -/
def givesNull (node : Entries) (keyword : String) : Bool :=
  match Table.find? node keyword with
  | some .null => true
  | _ => false

/-- A node without those of these keywords that are null. -/
def dropNulls (node : Entries) : Entries :=
  node.filter fun entry => !(quietKeywords.contains entry.1 && givesNull node entry.1)

mutual

/-- A schema without keywords that are null. -/
def pruned : Json → Json
  | .obj node => .obj (dropNulls (prunedUnder node))
  | schema => schema

/-- The entries of a node, with subschemas without keywords that are null. -/
def prunedUnder : List (String × Json) → Entries
  | [] => []
  | (keyword, operand) :: rest => (keyword, prunedOperand keyword operand) :: prunedUnder rest

/-- What stands under a keyword, with subschemas without keywords that are null. -/
def prunedOperand (keyword : String) : Json → Json
  | .arr schemas =>
    if listKeywords.contains keyword then .arr (prunedSchemas schemas) else .arr schemas
  | .obj entries =>
    if keyword = "properties" then .obj (prunedProperties entries)
    else if keyword = "items" ∨ keyword = "additionalProperties" then
      .obj (dropNulls (prunedUnder entries))
    else .obj entries
  | operand => operand

def prunedSchemas : List Json → List Json
  | [] => []
  | schema :: rest => pruned schema :: prunedSchemas rest

def prunedProperties : List (String × Json) → Entries
  | [] => []
  | (name, schema) :: rest => (name, pruned schema) :: prunedProperties rest

end

/-- A node without keywords that are null, nor with such below it. -/
def prunedEntries (node : Entries) : Entries := dropNulls (prunedUnder node)

theorem pruned_obj (node : Entries) : pruned (.obj node) = .obj (prunedEntries node) := rfl

theorem prunedSchemas_eq (schemas : List Json) : prunedSchemas schemas = schemas.map pruned := by
  induction schemas with
  | nil => rfl
  | cons schema rest ih => rw [prunedSchemas, ih, List.map_cons]

theorem prunedUnder_eq (node : Entries) :
    prunedUnder node = node.map fun entry => (entry.1, prunedOperand entry.1 entry.2) := by
  induction node with
  | nil => rfl
  | cons first rest ih => rw [prunedUnder, ih, List.map_cons]

theorem prunedOperand_eq_null {keyword : String} {operand : Json} :
    prunedOperand keyword operand = .null ↔ operand = .null := by
  cases operand with
  | arr schemas =>
    rw [prunedOperand]
    split <;> simp
  | obj entries =>
    rw [prunedOperand]
    split
    · simp
    · split <;> simp
  | _ => simp [prunedOperand]

/-! ## Keywords of a node -/

/-- A keyword that is null is not there. -/
def quiet : Option Json → Option Json
  | some .null => none
  | operand => operand

theorem quiet_eq_some {operand : Option Json} {found : Json} :
    quiet operand = some found ↔ operand = some found ∧ found ≠ .null := by
  unfold quiet
  split
  · simp only [reduceCtorEq, Option.some.injEq, false_iff, not_and, not_not]
    exact fun h => h.symm
  · rename_i hnull
    exact ⟨fun h => ⟨h, fun hfound => hnull (hfound ▸ h)⟩, And.left⟩

theorem quiet_of_ne {operand : Option Json} (h : operand ≠ some .null) :
    quiet operand = operand := by
  unfold quiet
  split
  · exact absurd rfl h
  · rfl

theorem bind_quiet {α : Type} {f : Json → Option α} (hf : f .null = none) (operand : Option Json) :
    (quiet operand).bind f = operand.bind f := by
  unfold quiet
  split
  · exact hf.symm
  · rfl

/-- What stands under a keyword other than null is still there. -/
theorem quiet_map_of_ne {keyword : String} {operand : Option Json} (h : operand ≠ some .null) :
    quiet (operand.map (prunedOperand keyword)) = operand.map (prunedOperand keyword) := by
  refine quiet_of_ne fun hnull => h ?_
  obtain ⟨found, hfound, hprunedNull⟩ := Option.map_eq_some_iff.mp hnull
  rw [hfound, prunedOperand_eq_null.mp hprunedNull]

theorem find?_dropNulls (node : Entries) (keyword : String) :
    Table.find? (dropNulls node) keyword =
      if quietKeywords.contains keyword then quiet (Table.find? node keyword)
      else Table.find? node keyword := by
  unfold dropNulls
  rw [Table.find?_filter fun key => !(quietKeywords.contains key && givesNull node key)]
  unfold givesNull quiet
  cases quietKeywords.contains keyword with
  | false => rfl
  | true =>
    simp only [Bool.true_and, if_true]
    split <;> simp_all

theorem find?_prunedEntries (node : Entries) (keyword : String) :
    Table.find? (prunedEntries node) keyword =
      if quietKeywords.contains keyword then
        quiet ((Table.find? node keyword).map (prunedOperand keyword))
      else (Table.find? node keyword).map (prunedOperand keyword) := by
  rw [prunedEntries, find?_dropNulls, prunedUnder_eq, Table.find?_map]

/-- Under a keyword that holds no subschemas nothing is left out. -/
theorem prunedOperand_of_not_mem {keyword : String}
    (h : keyword ∉ ["properties", "additionalProperties"] ++ listKeywords) :
    prunedOperand keyword = id := by
  funext operand
  simp only [List.mem_append, List.mem_cons, List.not_mem_nil, or_false, not_or] at h
  cases operand with
  | arr schemas => rw [prunedOperand, if_neg (by simpa using h.2)]; rfl
  | obj entries =>
    have hitems : keyword ≠ "items" := fun heq => h.2 (heq ▸ by decide)
    rw [prunedOperand, if_neg h.1.1, if_neg (by simp [hitems, h.1.2])]
    rfl
  | _ => rfl

end Schema

namespace Keywords

open Schema (quiet prunedOperand)

/-- The keywords of a node without those that are null, nor with such below it. -/
def pruned (k : Keywords) : Keywords :=
  { k with
    type := quiet k.type
    format := quiet k.format
    contentEncoding := quiet k.contentEncoding
    enum := quiet k.enum
    default := quiet k.default
    description := quiet k.description
    nullable := quiet k.nullable
    anyOf := quiet (k.anyOf.map (prunedOperand "anyOf"))
    oneOf := quiet (k.oneOf.map (prunedOperand "oneOf"))
    allOf := quiet (k.allOf.map (prunedOperand "allOf"))
    properties := quiet (k.properties.map (prunedOperand "properties"))
    additionalProperties :=
      quiet (k.additionalProperties.map (prunedOperand "additionalProperties"))
    required := quiet k.required
    items := quiet (k.items.map (prunedOperand "items"))
    pattern := quiet k.pattern }

theorem ofEntries_prunedEntries (node : Entries) :
    ofEntries (Schema.prunedEntries node) = (ofEntries node).pruned := by
  have hquiet : ∀ keyword ∈ Schema.quietKeywords,
      Table.find? (Schema.prunedEntries node) keyword =
        quiet ((Table.find? node keyword).map (prunedOperand keyword)) := by
    intro keyword h
    rw [Schema.find?_prunedEntries, if_pos (List.contains_iff_mem.mpr h)]
  have hother : ∀ keyword ∉ Schema.quietKeywords,
      Table.find? (Schema.prunedEntries node) keyword =
        (Table.find? node keyword).map (prunedOperand keyword) := by
    intro keyword h
    rw [Schema.find?_prunedEntries, if_neg (by rwa [List.contains_iff_mem])]
  have hvalue : ∀ keyword ∉ ["properties", "additionalProperties"] ++ Schema.listKeywords,
      (Table.find? node keyword).map (prunedOperand keyword) = Table.find? node keyword := by
    intro keyword h
    rw [Schema.prunedOperand_of_not_mem h, Option.map_id_apply]
  unfold ofEntries pruned
  simp (disch := decide) only [hquiet, hother, hvalue]

end Keywords

end SchemaClient
