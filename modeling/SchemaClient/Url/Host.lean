/-
SchemaClient.Url.Host — the host of a URL.

A host between square brackets is an address of version 6. Every other one is read as a domain name,
after its escapes; if that ends in a number it has to be an address of version 4.

* `UrlFault` — why a text is no URL.
* `Host` — the host of a URL.
-/
import SchemaClient.Url.Address
import SchemaClient.Url.Domain
import SchemaClient.Url.Escape

namespace SchemaClient

/-- Why a text is no URL. -/
inductive UrlFault where
  | emptyHost
  /-- The name of the host cannot be one. -/
  | invalidDomain
  | invalidPort
  | invalidIpv4
  | invalidIpv6
  /-- The host of a scheme of no special form has a character that no host has. -/
  | invalidCharacter
  | noScheme
  deriving DecidableEq, Repr

def UrlFault.message : UrlFault → String
  | emptyHost => "empty host"
  | invalidDomain => "invalid international domain name"
  | invalidPort => "invalid port number"
  | invalidIpv4 => "invalid IPv4 address"
  | invalidIpv6 => "invalid IPv6 address"
  | invalidCharacter => "invalid domain character"
  | noScheme => "relative URL without a base"

inductive Host where
  | domain (name : List Char)
  | ipv4 (address : Nat)
  | ipv6 (pieces : List Nat)
  deriving DecidableEq, Repr

namespace Host

def text : Host → List Char
  | domain name => name
  | ipv4 address => Url.Ipv4.text address
  | ipv6 pieces => '[' :: Url.Ipv6.text pieces ++ [']']

/-- The address between square brackets. -/
def bracketed (text : List Char) : Except UrlFault Host :=
  match (Url.Ipv6.ofText? text.dropLast).filter fun _ => text.getLast? == some ']' with
  | some pieces => .ok (ipv6 pieces)
  | none => .error .invalidIpv6

/-- The host that a text is. -/
def ofText (text : List Char) : Except UrlFault Host :=
  match text with
  | '[' :: rest => bracketed rest
  | text =>
    match Domain.ofBytes? (Url.unescaped text) with
    | none => .error .invalidDomain
    | some [] => .error .emptyHost
    | some name =>
      if Url.Ipv4.isMeant name then
        match Url.Ipv4.ofHost? name with
        | some address => .ok (ipv4 address)
        | none => .error .invalidIpv4
      else .ok (domain name)

/-- The characters that are in no host, whatever the scheme. -/
def isForbidden (c : Char) : Bool :=
  c ∈ ['\x00', '\t', '\n', '\r', ' ', '#', '/', ':', '<', '>', '?', '@', '[', '\\', ']', '^', '|']

/-- Check the host of a scheme of no special form, of which nothing else is known. -/
def checkOpaque (text : List Char) : Except UrlFault Unit :=
  match text with
  | '[' :: rest => (bracketed rest).map fun _ => ()
  | text => if text.any isForbidden then .error .invalidCharacter else .ok ()

end Host

end SchemaClient
