/-
SchemaClient.Http.Transport — requests and what comes back.

How requests travel is left to a `Transport` in some monad: a network, or a table of answers. Before
a request is handed over, `Request.refusal?` says whether it can be sent at all: its URL has to be
one for the web, and its token has to fit in a header.
-/
import SchemaClient.Error
import SchemaClient.Url.Endpoint

namespace SchemaClient

/-- A request for what is at a URL; the token goes with it as a header. -/
structure Request where
  url : Endpoint
  token : String
  deriving DecidableEq, Repr

/-- What becomes of a request. -/
inductive Reply where
  | answer (status : Nat) (body : Bytes)
  /-- An answer whose body breaks off. -/
  | cutShort (status : Nat)
  /-- No answer; the detail is what the network says about it. -/
  | lost (detail : List String)

/-- How requests travel, how time passes between them, and in which order they are answered. -/
structure Transport (m : Type → Type) where
  send : Request → m Reply
  /-- Wait for some milliseconds. -/
  wait : Nat → m Unit
  /-- Which of so many open requests is answered next; the oldest has the number 0. -/
  next : Nat → m Nat

namespace Request

/-- The header that the token is sent in. -/
def authorization (request : Request) : String := "Bearer " ++ request.token

/-- Whether a header can hold a byte: everything but control characters, of which the tab is the one
exception. -/
def isHeaderByte (byte : UInt8) : Bool := byte == 9 || (32 ≤ byte && byte != 127)

/-- The characters that a domain name may have but that no request can be made with. -/
def isUnsendable (c : Char) : Bool := c ∈ ['"', '\x60', '{', '}']

/-- Why a request cannot be sent. -/
def refusal? (request : Request) : Option HttpFault :=
  if !(Utf8.encode request.authorization).all isHeaderByte then some .illegalHeader
  else if request.url.origin.scheme ∉ ["http", "https"] then some (.illegalScheme request.url.text)
  else if request.url.origin.host.text.any isUnsendable then some (.illegalHost request.url.text)
  else none

/-- What a reply means for who sent the request. -/
def outcome {α : Type} (url : String) (read : Bytes → Except Error α) : Reply → Except Error α
  | .answer status body => if Http.isSuccess status then read body else .error (.status url status)
  | .cutShort status =>
    .error (if Http.isSuccess status then .http url .truncatedBody else .status url status)
  | .lost detail => .error (.http url (.unanswered url detail))

/-- Send a request once and read the answer. -/
def perform {m : Type → Type} [Monad m] {α : Type} (request : Request) (transport : Transport m)
    (read : Bytes → Except Error α) : m (Except Error α) := do
  let url := request.url.text
  match request.refusal? with
  | some fault => return .error (.http url fault)
  | none => return outcome url read (← transport.send request)

end Request

end SchemaClient
