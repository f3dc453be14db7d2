/-
SchemaClient.Run.Output — where generated text goes.

* `Sink` — an output that takes bytes, at most so many in all and at most so many per call; it
  remembers what it took and when it was flushed and shut down.
* `Outlet` — what a part of a run writes to: the sink, or a buffer of its own.

A text is written as its bytes and then a line break. Whatever fits is taken before an error is
reported.
-/
import SchemaClient.Error
import SchemaClient.Run.Ledger

namespace SchemaClient

inductive SinkEvent where
  | flush
  | shutdown
  deriving DecidableEq, Repr

def SinkEvent.name : SinkEvent → String
  | flush => "flush"
  | shutdown => "shutdown"

structure Sink where
  content : Bytes := []
  /-- How many more bytes fit; `none` is no limit. -/
  room : Option Nat := none
  /-- How many bytes one call takes at most; `none` is no limit. -/
  perCall : Option Nat := none
  /-- What else was asked of it, each with how many bytes it had taken by then. -/
  events : List (Nat × SinkEvent) := []

namespace Sink

/-- How many of `wanted` bytes the next call takes. -/
def accepts (sink : Sink) (wanted : Nat) : Nat :=
  min (min wanted (sink.perCall.getD wanted)) (sink.room.getD wanted)

/-- Take bytes; the caller knows that they fit. -/
def take (sink : Sink) (bytes : Bytes) : Sink :=
  { sink with content := sink.content ++ bytes, room := sink.room.map (· - bytes.length) }

/-- Write all bytes, call by call. -/
def write (sink : Sink) (bytes : Bytes) : Sink × Except Error Unit :=
  if bytes = [] then (sink, .ok ())
  else if sink.room = some 0 then (sink, .error (.io .full))
  else
    let taken := sink.accepts bytes.length
    if 0 < taken then (sink.take (bytes.take taken)).write (bytes.drop taken)
    else (sink, .error (.io .nothingTaken))
termination_by bytes.length
decreasing_by
  have : 0 < bytes.length := List.length_pos_iff.2 ‹_›
  simp only [List.length_drop]
  omega

/-- Flush the sink, then shut it down. -/
def close (sink : Sink) : Sink :=
  let taken := sink.content.length
  { sink with events := sink.events ++ [(taken, .flush), (taken, .shutdown)] }

end Sink

/-- Where a part of a run writes. -/
inductive Outlet where
  | sink (sink : Sink)
  | buffer (text : String)

namespace Outlet

/-- An empty buffer. -/
def fresh : Outlet := buffer ""

/-- Write a text as it is. -/
def append (outlet : Outlet) (text : String) : Outlet × Except Error Unit :=
  match outlet with
  | sink s =>
    let (s, result) := s.write (Utf8.encode text)
    (sink s, result)
  | buffer own => (buffer (own ++ text), .ok ())

/-- Write a text and a line break. -/
def writeLine (outlet : Outlet) (text : String) : Outlet × Except Error Unit :=
  match outlet.append text with
  | (outlet, .ok ()) => outlet.append "\n"
  | failed => failed

/-- Write texts, each with a line break, until one cannot be written. -/
def writeLines (outlet : Outlet) : List String → Outlet × Except Error Unit
  | [] => (outlet, .ok ())
  | text :: rest =>
    match outlet.writeLine text with
    | (outlet, .ok ()) => outlet.writeLines rest
    | failed => failed

/-- The text a buffer holds; a sink keeps its text to itself. -/
def text : Outlet → String
  | sink _ => ""
  | buffer text => text

/-- Write the deferred texts in ascending order, then close the sink if there is one. -/
def finish (outlet : Outlet) (deferred : List String) : Outlet × Except Error Unit :=
  match outlet.writeLines (deferred.mergeSort fun a b => decide (a ≤ b)) with
  | (sink s, .ok ()) => (sink s.close, .ok ())
  | other => other

end Outlet

namespace Ledger

/-- The deferred texts, and the ledger without them. -/
def takeDeferred (ledger : Ledger) : List String × Ledger :=
  (ledger.deferred, { ledger with deferred := [] })

end Ledger

end SchemaClient
