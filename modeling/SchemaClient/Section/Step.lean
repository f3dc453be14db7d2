/-
SchemaClient.Section.Step — how a section gets on.

* `step` — one step: list, await the instance index, lower and compose, write.
* `complete` — as many steps as any section takes; a finished section stays as it is.
-/
import SchemaClient.Section.Runnables

namespace SchemaClient

namespace Section

variable {m : Type → Type} [Monad m]

/-- Do some work on the ledger within a step. -/
def working {α : Type} (work : Work α) : StateT Ledger m (Except Error α) := fun ledger =>
  pure (work ledger)

/-- Go on with what was fetched, or end with the error. -/
def proceed {α : Type} (s : Section) (result : Except Error α) (next : α → Stage) : Section :=
  match result with
  | .ok value => s.enter (next value)
  | .error error => s.conclude (.error error)

/-- Complete the listing of artifacts. -/
def list (s : Section) (listing : Listing Artifact) : Section :=
  s.proceed listing.complete .listed

/-- The lines of a section from what it fetched. -/
def compose (scope : Scope) (kind : SectionKind) : Material → Work (List String)
  | .instances index => composeResources scope index
  | .artifacts items =>
    match kind with
    | .flows => (RunnableSection.flows scope.config).compose scope items
    | _ => (RunnableSection.scripts scope.config).compose scope items

/-- Write the section's lines and end. -/
def emit (s : Section) (lines : List String) : Section :=
  let (outlet, result) := s.outlet.writeLines lines
  { s with outlet := outlet }.conclude result

/-- One step. -/
def step (source : Source m) (scope : Scope) (s : Section) : StateT Ledger m Section := do
  match s.stage with
  | .idle =>
    let s := s.announce .fetching
    match s.kind with
    | .resources => pure (s.proceed (← scope.instances source) fun index =>
        .gathered (.instances index))
    | .scripts => pure (s.list (← source.scripts))
    | .flows => pure (s.list (← source.flows))
  | .listed items =>
    if RunnableSection.needsInstances scope.catalog items then
      pure (s.proceed (← scope.instances source) fun _ => .gathered (.artifacts items))
    else pure (s.enter (.gathered (.artifacts items)))
  | .gathered material =>
    let s := s.announce .transforming
    pure (s.proceed (← working (compose scope s.kind material)) .composed)
  | .composed lines => pure ((s.announce .emitting).emit lines)
  | .finished _ => pure s

/-- Run a section to its end. -/
def complete (source : Source m) (scope : Scope) (s : Section) : StateT Ledger m Section := do
  let s ← s.step source scope
  let s ← s.step source scope
  let s ← s.step source scope
  s.step source scope

/-- How a section ended; one that has not ended has no result. -/
def result? (s : Section) : Option (Except Error Unit) :=
  match s.stage with
  | .finished result => some result
  | _ => none

end Section

end SchemaClient
