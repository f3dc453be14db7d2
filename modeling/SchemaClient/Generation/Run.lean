/-
SchemaClient.Generation.Run — a whole run.

The resource types are listed first; if that fails nothing is written. The preamble is written, the
enabled sections run side by side, each into a buffer of its own, and what they wrote is appended in
a fixed order. A section that failed contributes nothing and is reported. Last come the deferred
declarations.

* `Board` — the sections of a run and the ledger they share.
* `Board.play` — steps of the sections in a given order.
* `generateWith` — a run whose sections take their first steps in a given order.
* `generate` — a run whose sections go one after the other.
-/
import SchemaClient.Generation.Preamble
import SchemaClient.Section.Step

namespace SchemaClient

/-- How a section of a run came out. -/
inductive Outcome where
  | generated
  | disabled
  | failed (error : Error)

/-- One outcome for each section, in the order of the sections. -/
abbrev Report := List (SectionKind × Outcome)

namespace Report

/-- The sections that failed, with their errors. -/
def failures (report : Report) : List (SectionKind × Error) :=
  report.filterMap fun (kind, outcome) =>
    match outcome with
    | .failed error => some (kind, error)
    | _ => none

/-- Whether no section failed. -/
def isSuccess (report : Report) : Bool := report.failures.isEmpty

end Report

/-- The sections of a run and the ledger they share. -/
structure Board where
  ledger : Ledger := {}
  sections : List Section

namespace Board

variable {m : Type → Type} [Monad m]

/-- Whether a section is to be generated; resources always are. -/
def isEnabled (config : Config) : SectionKind → Bool
  | .resources => true
  | .scripts => config.scripts.enabled
  | .flows => config.flows.enabled

/-- The board before any step. -/
def start (config : Config) : Board where
  sections := (SectionKind.order.filter (isEnabled config)).map fun kind => { kind := kind }

/-- Let the sections of a kind do something. -/
def update (kind : SectionKind) (act : Section → StateT Ledger m Section) :
    List Section → StateT Ledger m (List Section)
  | [] => pure []
  | s :: rest => do
    let s ← if s.kind = kind then act s else pure s
    pure (s :: (← update kind act rest))

/-- Let the section of a kind take a step. -/
def step (source : Source m) (scope : Scope) (board : Board) (kind : SectionKind) : m Board := do
  let (sections, ledger) ← (update kind (·.step source scope) board.sections).run board.ledger
  pure ⟨ledger, sections⟩

/-- Let sections take steps in the order of a schedule. -/
def play (source : Source m) (scope : Scope) (schedule : List SectionKind) (board : Board) :
    m Board :=
  schedule.foldlM (step source scope) board

/-- A schedule by which one section after the other runs to its end. -/
def sequential : List SectionKind := SectionKind.order.flatMap (List.replicate 4)

/-- How the section of a kind came out. -/
def outcome (board : Board) (kind : SectionKind) : Outcome :=
  match (board.sections.find? (·.kind == kind)).bind Section.result? with
  | none => .disabled
  | some (.ok ()) => .generated
  | some (.error error) => .failed error

/-- The text that the section of a kind contributes. -/
def contribution (board : Board) (kind : SectionKind) : Option String :=
  match board.outcome kind with
  | .generated => (board.sections.find? (·.kind == kind)).map (·.outlet.text)
  | _ => none

/-- Append what the sections contribute. -/
def assemble (board : Board) (outlet : Outlet) : List SectionKind → Outlet × Except Error Unit
  | [] => (outlet, .ok ())
  | kind :: rest =>
    match board.contribution kind with
    | none => board.assemble outlet rest
    | some text =>
      match outlet.append text with
      | (outlet, .ok ()) => board.assemble outlet rest
      | failed => failed

/-- The report of a run. -/
def report (board : Board) : Report :=
  SectionKind.order.map fun kind => (kind, board.outcome kind)

/-- What the sections announced. -/
def announced (board : Board) : List (SectionKind × Phase) :=
  board.sections.flatMap fun s => s.announced.map fun phase => (s.kind, phase)

end Board

/-- What a run leaves: its report or error, what its sections announced, and what it wrote to. -/
structure Generation where
  result : Except Error Report
  announced : List (SectionKind × Phase) := []
  outlet : Outlet

/-- A run whose sections first take steps by a schedule and are then completed one by one. -/
def generateWith {m : Type → Type} [Monad m] (schedule : List SectionKind) (source : Source m)
    (config : Config) (outputRoot : String) (outlet : Outlet) : m Generation := do
  match ← source.resourceTypes with
  | .error error => pure { result := .error error, outlet := outlet }
  | .ok catalog =>
    match outlet.writeLine (Preamble.text config outputRoot) with
    | (outlet, .error error) => pure { result := .error error, outlet := outlet }
    | (outlet, .ok ()) =>
      let scope : Scope := ⟨catalog, config, outputRoot⟩
      let board ← Board.play source scope (schedule ++ Board.sequential) (Board.start config)
      let ended (outlet : Outlet) (result : Except Error Unit) : Generation :=
        ⟨result.map fun _ => board.report, board.announced, outlet⟩
      match board.assemble outlet SectionKind.order with
      | (outlet, .error error) => pure (ended outlet (.error error))
      | (outlet, .ok ()) =>
        let (outlet, result) := outlet.finish board.ledger.deferred
        pure (ended outlet result)

/-- A run whose sections go one after the other. -/
def generate {m : Type → Type} [Monad m] (source : Source m) (config : Config)
    (outputRoot : String) (outlet : Outlet) : m Generation :=
  generateWith [] source config outputRoot outlet

end SchemaClient
