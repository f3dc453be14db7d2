/-
SchemaClient.Section.Basic — the three parts of the generated file.

A section fetches what it needs, lowers the schemas it found and writes its text, in STEPS: between
two steps of one section the others may take steps of their own. Within a step nothing else
happens.

* `Stage` — how far a section has got, with what it has in hand.
* `Phase` — what it announces to whoever watches the run.
-/
import SchemaClient.Catalog.Instances
import SchemaClient.Run.Output

namespace SchemaClient

inductive SectionKind where
  | resources
  | scripts
  | flows
  deriving DecidableEq, Repr

namespace SectionKind

def label : SectionKind → String
  | resources => "resources"
  | scripts => "scripts"
  | flows => "flows"

/-- The sections in the order of their texts. -/
def order : List SectionKind := [resources, scripts, flows]

end SectionKind

/-- What a section announces. -/
inductive Phase where
  | fetching
  | transforming
  | emitting
  | done
  | errored (message : String)
  deriving DecidableEq, Repr

/-- Whether nothing is announced afterwards. -/
def Phase.isTerminal : Phase → Bool
  | done => true
  | errored _ => true
  | _ => false

/-- What a section has fetched. -/
inductive Material where
  | instances (index : InstanceIndex)
  | artifacts (items : List Artifact)

/-- How far a section has got. -/
inductive Stage where
  | idle
  /-- The listing is complete; the instance index may still be wanted. -/
  | listed (items : List Artifact)
  /-- Everything is fetched. -/
  | gathered (material : Material)
  /-- The lines to be written are known. -/
  | composed (lines : List String)
  | finished (result : Except Error Unit)

/-- A section of a run: its stage, what it writes to, and what it has announced so far. -/
structure Section where
  kind : SectionKind
  stage : Stage := .idle
  outlet : Outlet := .fresh
  announced : List Phase := []

namespace Section

/-- Announce a phase. -/
def announce (s : Section) (phase : Phase) : Section :=
  { s with announced := s.announced ++ [phase] }

/-- Go on to a stage. -/
def enter (s : Section) (stage : Stage) : Section := { s with stage := stage }

/-- End, one way or the other. -/
def conclude (s : Section) : Except Error Unit → Section
  | .ok () => (s.enter (.finished (.ok ()))).announce .done
  | .error error => (s.enter (.finished (.error error))).announce (.errored error.message)

end Section

end SchemaClient
