/-
SchemaClient.Error — everything that can go wrong in a run.

Each error is a cause with the data its message needs; `Error.message` is the only place where the
wording stands. Some causes are the effect of a deeper one, which `Error.causes` words: reports that
show the whole chain append those.
-/
import SchemaClient.Files.Basic
import SchemaClient.Http.Status
import SchemaClient.Url.Host
import SchemaClient.Yaml.Fault

namespace SchemaClient

/-- Why a request got no usable answer. -/
inductive HttpFault where
  /-- No answer came back; `detail` is what the network says about it. -/
  | unanswered (url : String) (detail : List String)
  /-- The answer ended before its body did. -/
  | truncatedBody
  /-- The token cannot stand in a header. -/
  | illegalHeader
  /-- The URL's scheme is not one that requests can be made with. -/
  | illegalScheme (url : String)
  /-- The URL's host has a character that no request can be made with. -/
  | illegalHost (url : String)
  deriving DecidableEq, Repr

def HttpFault.message : HttpFault → String
  | unanswered url _ => "error sending request for url (" ++ url ++ ")"
  | truncatedBody => "error decoding response body"
  | illegalHeader => "builder error"
  | illegalScheme url | illegalHost url => "builder error for url (" ++ url ++ ")"

/-- What lies behind a fault of the network. -/
def HttpFault.causes : HttpFault → List String
  | unanswered _ detail => detail
  | truncatedBody => []
  | illegalHeader => ["failed to parse header value"]
  | illegalScheme _ => ["URL scheme is not allowed"]
  | illegalHost _ => ["Parsed Url is not a valid Uri"]

inductive Error where
  | http (url : String) (fault : HttpFault)
  | status (url : String) (code : Nat)
  | decode (url : String) (message : String)
  | remoteUrl (remote : String) (fault : UrlFault)
  | catalog (listing : String) (message : String)
  | invalidResourceDefault (resourceType path : String) (available : List String)
  | instancesUnresolved (resourceType : String)
  | invalidSchema (location message : String)
  | config (path : String) (fault : Yaml.Fault)
  | ambiguousConfig (directory files : String)
  | workspaceNotFound (name : String)
  | workspaceStore (path message : String)
  | io (fault : IoFault)

namespace Error

/-- The text of an error. -/
def message : Error → String
  | http url fault => "request to " ++ url ++ " failed: " ++ fault.message
  | status url code => url ++ " responded with status " ++ Http.statusText code
  | decode url message => "failed to decode response from " ++ url ++ ": " ++ message
  | remoteUrl remote fault => "invalid remote url `" ++ remote ++ "`: " ++ fault.message
  | catalog listing message => "catalog listing of " ++ listing ++ " failed: " ++ message
  | invalidResourceDefault resourceType path available =>
    "default resource `" ++ path ++ "` configured for resource type `" ++ resourceType ++
      "` is not one of its instances (found: " ++
      (if available.isEmpty then "no instances" else String.intercalate ", " available) ++ ")"
  | instancesUnresolved resourceType =>
    "resource type `" ++ resourceType ++
      "` was referenced before resource instances were resolved"
  | invalidSchema location message => "invalid schema at " ++ location ++ ": " ++ message
  | config path fault => "failed to parse configuration file " ++ path ++ ": " ++ fault.message
  | ambiguousConfig directory files =>
    "multiple configuration files found in " ++ directory ++ ": " ++ files ++
      "; please use only one"
  | workspaceNotFound name =>
    "workspace `" ++ name ++ "` not found in the Windmill CLI store"
  | workspaceStore path message =>
    "malformed Windmill CLI store entry in " ++ path ++ ": " ++ message
  | io fault => fault.message

/-- The texts of the causes behind an error, the nearest first. -/
def causes : Error → List String
  | http _ fault => fault.message :: fault.causes
  | remoteUrl _ fault => [fault.message]
  | config _ fault => [fault.message]
  | _ => []

/-- Whether trying again may help: after a network failure or when the server says that it failed.
A request that could not even be built, or whose answer broke off, would only do so again. -/
def isRetryable : Error → Bool
  | http _ (.unanswered _ _) => true
  | http _ _ => false
  | status _ code => Http.isServerError code
  | _ => false

end Error

end SchemaClient
