/-
SchemaClient.Catalog.Client — a workspace on a server.

Every request that fails for a reason that may pass is repeated as the retry policy says. Resource
types and the paths of scripts come in one answer. Resources and flows come in pages, which are asked
for one after the other until one is empty. Of each script and each flow the details are asked for
separately, several at a time; scripts that have been archived are left out.

* `Client.get` — one request, with its repetitions, and its decoded answer.
* `Client.source` — the workspace as a source.
-/
import SchemaClient.Catalog.Decoding
import SchemaClient.Catalog.Listing
import SchemaClient.Http.Retry
import SchemaClient.Http.Transport

namespace SchemaClient

/-- Access to a workspace on a server. -/
structure Client where
  origin : Origin
  workspace : String
  token : String
  retry : RetryPolicy := {}
  /-- How many details are asked for at a time; at least one. -/
  concurrency : Nat := 5
  /-- How many pages of a listing are asked for at most. -/
  pageLimit : Nat := UInt32.size - 1

namespace Client

/-- A client for the server that a URL leads to. -/
def connect (remote workspace token : String) : Except Error Client :=
  match Origin.ofUrl remote with
  | .ok origin => .ok { origin := origin, workspace := workspace, token := token }
  | .error fault => .error (.remoteUrl remote fault)

/-! ## Endpoints -/

/-- The parts of a path between slashes, as segments. -/
def segments (path : String) : List String := (partsAt (· == '/') path.toList).map String.ofList

/-- An endpoint of the workspace. -/
def endpoint (client : Client) (path : List String) (query : List (String × String) := []) :
    Endpoint :=
  { ({ origin := client.origin } : Endpoint).extend (["api", "w", client.workspace] ++ path) with
    query := query }

/-- How many items a page has at most. -/
def pageSize : Nat := 20

/-- The resource types whose resources no client has a use for. -/
def excludedTypes : String := "cache,state,app_theme,app_custom"

/-- An endpoint for one page of a listing. -/
def pageEndpoint (client : Client) (path : List String) (filter : List (String × String))
    (number : Nat) : Endpoint :=
  client.endpoint path
    ([("page", toString number), ("per_page", toString pageSize)] ++ filter)

def typesEndpoint (client : Client) : Endpoint := client.endpoint ["resources", "type", "list"]

/-- An endpoint for one page of the resources, of one type or of all. -/
def resourcesEndpoint (client : Client) (resourceType : Option String) (number : Nat) : Endpoint :=
  client.pageEndpoint ["resources", "list"]
    (("resource_type_exclude", excludedTypes) ::
      (resourceType.map fun type => ("resource_type", type)).toList) number

def scriptPathsEndpoint (client : Client) : Endpoint := client.endpoint ["scripts", "list_paths"]

def scriptEndpoint (client : Client) (path : String) : Endpoint :=
  client.endpoint (["scripts", "get", "p"] ++ segments path)

def flowsEndpoint (client : Client) (number : Nat) : Endpoint :=
  client.pageEndpoint ["flows", "list"] [] number

def flowEndpoint (client : Client) (path : String) : Endpoint :=
  client.endpoint (["flows", "get"] ++ segments path)

/-! ## Requests -/

variable {m : Type → Type} [Monad m] {α : Type}

/-- Ask for what is at an endpoint, repeatedly if the policy says so, and decode the answer. -/
def get (client : Client) (transport : Transport m) (decoder : Json.Decoder α) (url : Endpoint) :
    m (Except Error α) :=
  withRetry client.retry transport.wait
    (Request.perform ⟨url, client.token⟩ transport (decodeAnswer decoder url.text))

/-- A script, unless it has been archived. -/
def script (client : Client) (transport : Transport m) (path : String) :
    m (Except Error (Option Artifact)) := do
  let detail ← client.get transport ScriptDetail.decoder (client.scriptEndpoint path)
  return detail.map fun detail => if detail.archived then none else some detail.artifact

/-- A flow in full. -/
def flow (client : Client) (transport : Transport m) (listed : FlowListing) :
    m (Except Error (Option Artifact)) := do
  let detail ← client.get transport Artifact.decoder (client.flowEndpoint listed.path)
  return detail.map some

/-- What is fetched for the items of a listing, several at a time. -/
def fetchAll (client : Client) (transport : Transport m) {β : Type}
    (fetch : β → m (Except Error (Option α))) (page : Nat → m (Except Error (List β)))
    (limit : Nat) : m (Listing α) :=
  Listing.ofFetches (max 1 client.concurrency) transport.next fetch page limit 1 [] []

/-- The workspace as a source. The paths of the scripts are a single page. -/
def source (client : Client) (transport : Transport m) : Source m where
  resourceTypes := do
    let types ← client.get transport (Json.Decoder.list ResourceType.decoder) client.typesEndpoint
    return types.map TypeCatalog.ofList
  resources resourceType :=
    Listing.ofPages (fun number => client.get transport (Json.Decoder.list ResourceInstance.decoder)
      (client.resourcesEndpoint resourceType number)) client.pageLimit 1
  scripts :=
    client.fetchAll transport (client.script transport)
      (fun _ => client.get transport (Json.Decoder.list Json.Decoder.text)
        client.scriptPathsEndpoint) 1
  flows :=
    client.fetchAll transport (client.flow transport)
      (fun number => client.get transport (Json.Decoder.list FlowListing.decoder)
        (client.flowsEndpoint number)) client.pageLimit

end Client

end SchemaClient
