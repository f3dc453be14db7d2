/-
SchemaClient.Run.Contexts — the contexts of a run.

The parts of a run write through CONTEXTS. The root writes to the output. Every other context is a
child of one that was there before, and writes to a buffer of its own until its text is taken from
it. All of them share the ledger of the run.

Contexts are numbered in the order in which they are made; the root is number 0. One whose text was
taken, or that was finished, is out of use: nothing can be done with it any more.
-/
import SchemaClient.Run.Ledger
import SchemaClient.Run.Output

namespace SchemaClient

structure Context where
  outlet : Outlet
  inUse : Bool := true

/-- The contexts of a run and what they share. -/
structure Contexts where
  ledger : Ledger := {}
  all : List Context

namespace Contexts

/-- The root alone. -/
def root (sink : Sink) : Contexts := { all := [{ outlet := .sink sink }] }

/-- What a context writes to, if it is in use. -/
def outlet? (contexts : Contexts) (c : Nat) : Option Outlet :=
  match contexts.all[c]? with
  | some ⟨outlet, true⟩ => some outlet
  | _ => none

/-- The text that was taken from a context. -/
def taken? (contexts : Contexts) (c : Nat) : Option String :=
  match contexts.all[c]? with
  | some ⟨outlet, false⟩ => some outlet.text
  | _ => none

/-- Let a context write to this outlet from now on. -/
def keep (contexts : Contexts) (c : Nat) (outlet : Outlet) : Contexts :=
  { contexts with all := contexts.all.set c { outlet := outlet } }

/-- Put a context out of use. -/
def drop (contexts : Contexts) (c : Nat) (outlet : Outlet) : Contexts :=
  { contexts with all := contexts.all.set c { outlet := outlet, inUse := false } }

/-- Make a child. Whose it is makes no difference to it. -/
def child (contexts : Contexts) : Contexts :=
  { contexts with all := contexts.all ++ [{ outlet := .fresh }] }

/-- Write a line through a context. -/
def write (contexts : Contexts) (c : Nat) (text : String) :
    Option (Contexts × Except Error Unit) :=
  (contexts.outlet? c).map fun outlet =>
    let (outlet, result) := outlet.writeLine text
    (contexts.keep c outlet, result)

/-- Write a text through a context as it is. -/
def append (contexts : Contexts) (c : Nat) (text : String) :
    Option (Contexts × Except Error Unit) :=
  (contexts.outlet? c).map fun outlet =>
    let (outlet, result) := outlet.append text
    (contexts.keep c outlet, result)

/-- Do some work on the ledger. Through which context it is done makes no difference. -/
def work {α : Type} (contexts : Contexts) (act : Work α) : Contexts × Except Error α :=
  let (result, ledger) := act contexts.ledger
  ({ contexts with ledger := ledger }, result)

/-- Put a text off until the end of the output. -/
def deferText (contexts : Contexts) (text : String) : Contexts :=
  { contexts with ledger := contexts.ledger.defer [text] }

/-- Take the text of a context from it. A sink keeps its text to itself. -/
def take (contexts : Contexts) (c : Nat) : Option (Contexts × String) :=
  (contexts.outlet? c).map fun outlet => (contexts.drop c outlet, outlet.text)

/-- Write through a context what the whole run has put off, and end its use. -/
def finish (contexts : Contexts) (c : Nat) : Option (Contexts × Except Error Unit) :=
  (contexts.outlet? c).map fun outlet =>
    let (deferred, ledger) := contexts.ledger.takeDeferred
    let (outlet, result) := outlet.finish deferred
    ({ contexts with ledger := ledger }.drop c outlet, result)

end Contexts

end SchemaClient
