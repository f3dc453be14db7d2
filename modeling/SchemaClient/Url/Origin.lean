/-
SchemaClient.Url.Origin — where a URL leads.

Of a URL only its origin matters here: the scheme, the host and the port number. Blanks and
control characters around the URL do not count, nor do tabs and line ends inside it. Some schemes
have a special form: they always have a host, any number of slashes may stand in front of it, and a
backslash is as good as a slash. A URL of another scheme has no origin, unless it wraps a URL that
has one.

* `Origin.ofUrl` — the origin of a URL.
* `Origin.text` — the origin as the beginning of a URL.
-/
import SchemaClient.Url.Host

namespace SchemaClient

/-- Where a URL leads. -/
structure Origin where
  scheme : String
  host : Host
  /-- The port, unless it is the one that the scheme has anyway. -/
  port : Option Nat := none
  deriving DecidableEq, Repr

namespace Url

/-! ## Schemes -/

/-- The schemes of special form that have an origin, with their ports. -/
def schemePorts : List (String × Nat) :=
  [("http", 80), ("https", 443), ("ws", 80), ("wss", 443), ("ftp", 21)]

def isSchemeChar (c : Char) : Bool := c.isAlphanum || c == '+' || c == '-' || c == '.'

/-- The scheme of a URL, in small letters, and what follows the colon. -/
def scheme? (url : List Char) : Option (String × List Char) :=
  match url.dropWhile isSchemeChar with
  | ':' :: rest =>
    if url.head?.any Char.isAlpha then
      some (String.ofList ((url.takeWhile isSchemeChar).map Char.toLower), rest)
    else none
  | _ => none

theorem scheme?_rest_lt {url rest : List Char} {scheme : String}
    (h : scheme? url = some (scheme, rest)) : rest.length < url.length := by
  unfold scheme? at h
  split at h
  · next r hr =>
    split at h
    · obtain ⟨-, rfl⟩ := Prod.mk.inj (Option.some.inj h)
      have := (List.dropWhile_sublist isSchemeChar (l := url)).length_le
      rw [hr] at this
      exact this
    · simp at h
  · simp at h

/-! ## Servers -/

/-- Whether a character ends the part of a URL that names the server. -/
def endsServer (special : Bool) (c : Char) : Bool :=
  c == '/' || c == '?' || c == '#' || (special && c == '\\')

/-- How many characters the host at the front of a text has: up to a colon outside brackets. -/
def hostLength (inside : Bool) : List Char → Nat
  | [] => 0
  | c :: rest =>
    if c = ':' ∧ ¬inside then 0
    else hostLength (if c = '[' then true else if c = ']' then false else inside) rest + 1

/-- The port that digits are; none if there are none. -/
def port? (digits : List Char) : Except UrlFault (Option Nat) :=
  if digits.isEmpty then .ok none
  else match numberIn? 10 digits with
    | some port => if port < 65536 then .ok (some port) else .error .invalidPort
    | none => .error .invalidPort

/-- Read the name of a server: perhaps a user and an at sign, the host, perhaps a colon and a port.
`check` looks at the host before the port is read. -/
def server {α : Type} (special : Bool) (check : List Char → Except UrlFault α) (text : List Char) :
    Except UrlFault (α × Option Nat) := do
  let name := text.takeWhile fun c => !endsServer special c
  let hostAndPort := (name.reverse.takeWhile (· != '@')).reverse
  let user := (name.take (name.length - hostAndPort.length)).dropLast
  let hasUser := hostAndPort.length < name.length
  if hasUser && user.isEmpty && hostAndPort.isEmpty && name.length < text.length then
    throw .emptyHost
  let host := hostAndPort.take (hostLength false hostAndPort)
  if special && host.isEmpty then throw .emptyHost
  let result ← check host
  let port ← match hostAndPort.drop host.length with
    | ':' :: digits =>
      if host.isEmpty then throw .emptyHost
      port? (digits.takeWhile (· != '\\'))
    | _ => pure none
  if host.isEmpty && user != [] && user != [':'] then throw .emptyHost
  return (result, port)

/-! ## Origins -/

/-- Whether a text is a drive letter and its colon. -/
def isDrive (text : List Char) : Bool :=
  match text with
  | [letter, mark] => letter.isAlpha && (mark == ':' || mark == '|')
  | _ => false

/-- Check the host of a file's URL, which comes after two slashes. -/
def checkFile (text : List Char) : Except UrlFault Unit :=
  let isSlash (c : Char) : Bool := c == '/' || c == '\\'
  match text with
  | a :: b :: rest =>
    let host := rest.takeWhile fun c => !endsServer true c
    if isSlash a && isSlash b && !host.isEmpty && !isDrive host then
      (Host.ofText host).map fun _ => ()
    else .ok ()
  | _ => .ok ()

/-- Check a URL of a scheme of no special form. -/
def checkOther (text : List Char) : Except UrlFault Unit :=
  match text with
  | '/' :: '/' :: rest => (server false Host.checkOpaque rest).map fun _ => ()
  | _ => .ok ()

/-- The URL that a wrapping URL wraps. -/
def wrapped (text : List Char) : List Char :=
  let inner := (text.takeWhile fun c => c != '?' && c != '#').dropWhile (· == ' ')
  (inner.reverse.dropWhile (· == ' ')).reverse

theorem length_wrapped_le (text : List Char) : (wrapped text).length ≤ text.length := by
  unfold wrapped
  have trailing := (List.dropWhile_sublist (· == ' ')
    (l := ((text.takeWhile fun c => c != '?' && c != '#').dropWhile (· == ' ')).reverse)).length_le
  have leading := (List.dropWhile_sublist (· == ' ')
    (l := text.takeWhile fun c => c != '?' && c != '#')).length_le
  have all := (List.takeWhile_sublist (fun c => c != '?' && c != '#') (l := text)).length_le
  simp only [List.length_reverse] at *
  omega

/-- The origin of a URL without blanks around it or line ends in it; none if it has no origin. -/
def origin? (url : List Char) : Except UrlFault (Option Origin) :=
  match h : scheme? url with
  | none => .error .noScheme
  | some (scheme, rest) =>
    match schemePorts.lookup scheme with
    | some ownPort => do
      let isSlash (c : Char) : Bool := c == '/' || c == '\\'
      let (host, port) ← server true Host.ofText (rest.dropWhile isSlash)
      return some ⟨scheme, host, port.filter (· != ownPort)⟩
    | none =>
      if scheme = "file" then (checkFile rest).map fun _ => none
      else do
        checkOther rest
        have : (wrapped rest).length < url.length :=
          Nat.lt_of_le_of_lt (length_wrapped_le rest) (scheme?_rest_lt h)
        if scheme = "blob" then
          match origin? (wrapped rest) with
          | .ok origin => return origin
          | .error _ => return none
        else return none
termination_by url.length

/-- A URL without what does not count. -/
def cleaned (url : String) : List Char :=
  let isOutside (c : Char) : Bool := c ≤ ' '
  let inner := ((url.toList.dropWhile isOutside).reverse.dropWhile isOutside).reverse
  inner.filter fun c => c != '\t' && c != '\n' && c != '\r'

end Url

namespace Origin

/-- The origin of a URL. -/
def ofUrl (url : String) : Except UrlFault Origin := do
  match ← Url.origin? (Url.cleaned url) with
  | some origin => return origin
  | none => throw .noScheme

/-- The origin as the beginning of a URL. -/
def text (origin : Origin) : String :=
  let port := match origin.port with
    | some port => ':' :: digitsOf port
    | none => []
  origin.scheme ++ "://" ++ String.ofList (origin.host.text ++ port)

end Origin

end SchemaClient
