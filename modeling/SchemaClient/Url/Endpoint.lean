/-
SchemaClient.Url.Endpoint — the URLs that requests go to.

An endpoint is an origin, the segments of a path and the pairs of a query. A segment is put on a path
as it is: a slash in it is escaped. The segments `.` and `..` are left out; tabs and line ends vanish
from the others, and one that becomes `.` or `..` only thereby counts as a step in the path.
-/
import SchemaClient.Url.Origin

namespace SchemaClient

/-- Where a request goes. -/
structure Endpoint where
  origin : Origin
  /-- The segments of the path, escaped. -/
  path : List (List Char) := []
  query : List (String × String) := []
  deriving DecidableEq, Repr

namespace Endpoint

/-- Put a segment at the end of a path. -/
def push (path : List (List Char)) (segment : String) : List (List Char) :=
  if segment = "." ∨ segment = ".." then path
  else
    let kept := segment.toList.filter fun c => c != '\t' && c != '\n' && c != '\r'
    if kept = ['.'] then path ++ [[]]
    else if kept = ['.', '.'] then path.dropLast ++ [[]]
    else path ++ [Url.escaped Url.pathKeeps kept]

/-- The endpoint with more segments behind its path. -/
def extend (endpoint : Endpoint) (segments : List String) : Endpoint :=
  { endpoint with path := segments.foldl push endpoint.path }

/-- A pair of the query as it is written. -/
def pairText (pair : String × String) : List Char :=
  Url.queryText pair.1.toList ++ '=' :: Url.queryText pair.2.toList

/-- What a request asks the server for: the path and the query. -/
def target (endpoint : Endpoint) : String :=
  let path := endpoint.path.flatMap ('/' :: ·)
  let query := List.intercalate ['&'] (endpoint.query.map pairText)
  String.ofList ((if path.isEmpty then ['/'] else path) ++
    (if endpoint.query.isEmpty then [] else '?' :: query))

/-- The whole URL. -/
def text (endpoint : Endpoint) : String := endpoint.origin.text ++ endpoint.target

example : push [['w']] "a/b c" = [['w'], "a%2Fb%20c".toList] := by decide +kernel
example : push [['w']] ".." = [['w']] := by decide +kernel

end Endpoint

end SchemaClient
