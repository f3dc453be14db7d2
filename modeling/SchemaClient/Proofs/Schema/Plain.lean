/-
SchemaClient.Proofs.Schema.Plain — schemas without anything special.

The fragment of schemas whose keywords all have their usual meaning: no formats, no references to
resource types, no defaults. A node says one thing: a value, a list of values, a combination of
schemas, or kinds with the keywords of these kinds.

* `Schema.Plain` — the fragment.
* `Schema.meets_*` — what is left of a node's meaning in each of its cases.
-/
import SchemaClient.Proofs.Schema.Validity

namespace SchemaClient

namespace Schema

/-- A value that is neither a list nor an object. -/
def Scalar : Json → Prop
  | .arr _ => False
  | .obj _ => False
  | _ => True

/-- Besides a description and whether it may be null, the node has only these keywords. -/
structure Saying (keys : List String) (node : Entries) : Prop where
  among : ∀ entry ∈ node, entry.1 ∈ "description" :: "nullable" :: keys
  description : ∀ operand, Operand node "description" operand → ∃ text, operand = .str text
  nullable : ∀ operand, Operand node "nullable" operand → ∃ b, operand = .bool b

variable {i : Interpretation} {sub : Json → Json → Prop} {node : Entries} {keys : List String}
  {key : String} {value : Json}

theorem find?_eq_none_of_names {α : Type} {table : Table α} {name : String}
    (h : ∀ entry ∈ table, entry.1 ≠ name) : Table.find? table name = none := by
  induction table with
  | nil => rfl
  | cons first rest ih =>
    obtain ⟨other, found⟩ := first
    rw [Table.find?, if_neg (h _ List.mem_cons_self)]
    exact ih fun entry hmem => h entry (List.mem_cons_of_mem _ hmem)

/-- The node does not have other keywords. -/
theorem Saying.absent (h : Saying keys node) (hkey : key ∉ "description" :: "nullable" :: keys) :
    Table.find? node key = none :=
  find?_eq_none_of_names fun entry hmem heq => hkey (heq ▸ h.among entry hmem)

end Schema

end SchemaClient
