/-
SchemaClient.Run.Ledger — what the sections of a run share.

All sections of a run, in whatever order they get on, share one LEDGER: the identities of the
declarations that have been made, the texts put off until the end of the output, and the index of
resource instances once somebody asked for it.

* `Work` — a computation on the ledger that may fail. What it wrote before failing stays written.
* `once` — make declarations under an identity, at most once in a run. The identity is claimed
  before the declarations are built, so a build that comes back to it finds it taken; a build that
  fails gives it back.
-/
import SchemaClient.Catalog.Instances
import SchemaClient.Declaration

namespace SchemaClient

structure Ledger where
  /-- The identities of declarations that have been made or are being made. -/
  claimed : List String := []
  /-- The texts that are written at the end of the output. -/
  deferred : List String := []
  index : Option InstanceIndex := none

/-- A computation on the ledger that may fail. -/
abbrev Work (α : Type) := ExceptT Error (StateM Ledger) α

namespace Ledger

def claim (ledger : Ledger) (identity : String) : Ledger :=
  { ledger with claimed := identity :: ledger.claimed }

def release (ledger : Ledger) (identity : String) : Ledger :=
  { ledger with claimed := ledger.claimed.erase identity }

/-- Put texts off until the end of the output. -/
def defer (ledger : Ledger) (texts : List String) : Ledger :=
  { ledger with deferred := ledger.deferred ++ texts }

/-- Whether a type has instances, as far as is known. -/
def hasInstances (ledger : Ledger) (resourceType : String) : Bool :=
  match ledger.index with
  | none => false
  | some index => !(index.paths resourceType).isEmpty

end Ledger

namespace Work

/-- Make the declarations that `build` gives under `identity`, unless that has been done. -/
def once (identity : String) (build : Work (List Declaration)) : Work Unit := fun ledger =>
  if ledger.claimed.contains identity then (.ok (), ledger)
  else match build (ledger.claim identity) with
    | (.ok declarations, after) => (.ok (), after.defer (declarations.map Declaration.render))
    | (.error error, after) => (.error error, after.release identity)

end Work

end SchemaClient
