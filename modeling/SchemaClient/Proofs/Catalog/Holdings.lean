/-
SchemaClient.Proofs.Catalog.Holdings — a server that holds a workspace.

`Holdings` is what there is in a workspace, with the listings cut into pages as its server sends
them; `memory` has the same items in the same order. If the server answers every request at once,
the listings over the network give what the workspace in memory gives.

* `Holdings.requests` — the requests that the listing of a section takes.
* `Holdings.Served` — a server answers these requests, each with what it holds.
* `Client.asks_fetchAll` — a listing whose items are fetched one by one.
* `Holdings.Served.asks_resources`, `asks_scripts`, `asks_flows` — the listings of the server.
-/
import Mathlib.Data.List.Nodup
import SchemaClient.Proofs.Catalog.Requests
import SchemaClient.Section.Basic

namespace SchemaClient

/-- A flow as it is listed. -/
def FlowListing.of (flow : Artifact) : FlowListing := ⟨flow.path⟩

/-- What a listing keeps of a script. -/
def ScriptDetail.kept (script : ScriptDetail) : Option Artifact :=
  if script.archived then none else some script.artifact

/-- What a workspace holds. Resources and flows are listed page by page. -/
structure Holdings where
  types : List ResourceType := []
  resources : List (List ResourceInstance) := []
  scripts : List ScriptDetail := []
  flows : List (List Artifact) := []

/-- Pages that a client can ask for: only the one behind the last is empty, and it has a number. -/
structure Client.Paged {α : Type} (client : Client) (pages : List (List α)) : Prop where
  nonempty : [] ∉ pages
  bounded : pages.length < client.pageLimit

namespace Client

variable (client : Client)

/-- The requests for the pages of a listing, the empty one among them. -/
def pageRequests {α : Type} (endpoint : Nat → Endpoint) (pages : List (List α)) : List Request :=
  (List.range' 1 (pages.length + 1)).map fun number => client.request (endpoint number)

def scriptRequest (script : ScriptDetail) : Request :=
  client.request (client.scriptEndpoint script.artifact.path)

def flowRequest (flow : Artifact) : Request := client.request (client.flowEndpoint flow.path)

end Client

namespace Holdings

/-- The workspace in memory that has the same items, but for the scripts that are archived. -/
def memory (holdings : Holdings) : MemoryCatalog where
  types := holdings.types
  resources := holdings.resources.flatten
  scripts := (holdings.scripts.filter fun script => !script.archived).map (·.artifact)
  flows := holdings.flows.flatten

theorem scripts_memory (holdings : Holdings) :
    holdings.memory.scripts = holdings.scripts.filterMap ScriptDetail.kept := by
  rw [memory]
  induction holdings.scripts with
  | nil => rfl
  | cons script rest ih =>
    rw [List.filterMap_cons, ← ih]
    cases harchived : script.archived <;> simp [ScriptDetail.kept, harchived]

/-- The requests that the listing of a section takes: one for each page, and one for each script or
flow. -/
def requests (holdings : Holdings) (client : Client) : SectionKind → List Request
  | .resources => client.pageRequests (client.resourcesEndpoint none) holdings.resources
  | .scripts =>
    client.request client.scriptPathsEndpoint :: holdings.scripts.map client.scriptRequest
  | .flows =>
    client.pageRequests client.flowsEndpoint holdings.flows ++
      holdings.flows.flatten.map client.flowRequest

/-- Every request that a client needs is answered at once with what the workspace holds, and no two
scripts or flows are at the same URL. -/
structure Served (holdings : Holdings) (client : Client) {σ : Type}
    (transport : Transport (StateM σ)) (log : σ → List Request) : Prop where
  /-- Waiting for an answer sends nothing. -/
  quiet : ∀ opened state, log (transport.next opened state).2 = log state
  types : transport.Answers log (.list ResourceType.decoder) (client.request client.typesEndpoint)
    holdings.types
  resources : ∀ number items, (holdings.resources ++ [[]])[number]? = some items →
    transport.Answers log (.list ResourceInstance.decoder)
      (client.request (client.resourcesEndpoint none (1 + number))) items
  resourcesPaged : client.Paged holdings.resources
  scriptPaths : transport.Answers log (.list .text) (client.request client.scriptPathsEndpoint)
    (holdings.scripts.map (·.artifact.path))
  scripts : ∀ script ∈ holdings.scripts,
    transport.Answers log ScriptDetail.decoder (client.scriptRequest script) script
  scriptsDistinct :
    (holdings.scripts.map fun script => (client.scriptEndpoint script.artifact.path).text).Nodup
  flowListings : ∀ number items,
    (holdings.flows.map (·.map FlowListing.of) ++ [[]])[number]? = some items →
      transport.Answers log (.list FlowListing.decoder)
        (client.request (client.flowsEndpoint (1 + number))) items
  flowsPaged : client.Paged holdings.flows
  flows : ∀ flow ∈ holdings.flows.flatten,
    transport.Answers log Artifact.decoder (client.flowRequest flow) flow
  flowsDistinct :
    (holdings.flows.flatten.map fun flow => (client.flowEndpoint flow.path).text).Nodup

end Holdings

/-! ## Listings that fetch their items -/

variable {σ α β γ : Type} {client : Client} {transport : Transport (StateM σ)}
  {log : σ → List Request}

/-- What is kept of each detail can be told from its key. -/
theorem exists_find {details : List γ} {key : γ → β} (hkey : (details.map key).Nodup)
    (kept : γ → Option α) :
    ∃ find : β → Option α, ∀ detail ∈ details, find (key detail) = kept detail := by
  classical
  refine ⟨fun item => if h : ∃ detail ∈ details, key detail = item then kept h.choose else none,
    fun detail hdetail => ?_⟩
  have hexists : ∃ other ∈ details, key other = key detail := ⟨detail, hdetail, rfl⟩
  obtain ⟨hmem, heq⟩ := hexists.choose_spec
  exact (dif_pos hexists).trans (congrArg kept (List.inj_on_of_nodup_map hkey hmem hdetail heq))

namespace Fetch

theorem open?_map_asked (items : List β) : open? (items.map (asked (α := α))) = items := by
  induction items with
  | nil => rfl
  | cons item rest ih => rw [List.map_cons, open?, ih]

theorem filterMap_map_asked (find : β → Option α) (items : List β) :
    (items.map asked).filterMap (found find) = items.filterMap find := by
  rw [List.filterMap_map]
  rfl

end Fetch

/-- If a detail is fetched for each item, the listing has what is kept of the details. -/
theorem Client.asks_fetchAll (client : Client) (fetch : β → StateM σ (Except Error (Option α)))
    (request : β → Request) {page : Nat → StateM σ (Except Error (List β))} {limit : Nat}
    {details : List γ} {key : γ → β} {kept : γ → Option α} {requests : List Request}
    (hquiet : ∀ opened state, log (transport.next opened state).2 = log state)
    (hkey : (details.map key).Nodup)
    (hfeeds : Listing.Feeds log page limit 1 (details.map key) requests)
    (hfetch : ∀ detail ∈ details,
      Asks log (fetch (key detail)) (.ok (kept detail)) [request (key detail)]) :
    Asks log (client.fetchAll transport fetch page limit) ⟨details.filterMap kept, none⟩
      (requests ++ details.map fun detail => request (key detail)) := by
  obtain ⟨find, hfind⟩ := exists_find hkey kept
  have hbound : 0 < max 1 client.concurrency := Nat.lt_of_lt_of_le Nat.one_pos (Nat.le_max_left ..)
  have hasks := Listing.asks_ofFetches find request hbound hquiet hfeeds (List.nil_append _).symm
    (fun item hitem => by
      rw [List.nil_append, Fetch.open?_map_asked] at hitem
      obtain ⟨detail, hdetail, rfl⟩ := List.mem_map.1 hitem
      rw [hfind detail hdetail]
      exact hfetch detail hdetail)
    (fun error herror => by simp at herror)
  rw [List.nil_append, Fetch.open?_map_asked, Fetch.filterMap_map_asked, List.filterMap_map,
    List.map_map] at hasks
  rw [← List.filterMap_congr hfind]
  exact hasks.perm List.perm_append_comm

/-! ## The listings of the server -/

namespace Holdings.Served

variable {holdings : Holdings}

theorem asks_resourceTypes (h : holdings.Served client transport log) :
    Asks log (client.source transport).resourceTypes (.ok (TypeCatalog.ofList holdings.types))
      [client.request client.typesEndpoint] :=
  (Client.asks_get h.types).map (·.map TypeCatalog.ofList)

theorem asks_resources (h : holdings.Served client transport log) :
    Asks log ((client.source transport).resources none) ⟨holdings.memory.resources, none⟩
      (holdings.requests client .resources) := by
  refine Listing.asks_ofPages (Listing.feeds_of_pages _
    (fun number => client.request (client.resourcesEndpoint none number))
    h.resourcesPaged.bounded h.resourcesPaged.nonempty 1 fun number items hitems => ?_)
  exact Client.asks_get (h.resources number items hitems)

theorem asks_scripts (h : holdings.Served client transport log) :
    Asks log (client.source transport).scripts ⟨holdings.memory.scripts, none⟩
      (holdings.requests client .scripts) := by
  have hkey : (holdings.scripts.map (·.artifact.path)).Nodup := by
    refine .of_map (fun path => (client.scriptEndpoint path).text) ?_
    rw [List.map_map]
    exact h.scriptsDistinct
  rw [holdings.scripts_memory]
  have hfeeds := Listing.feeds_of_page
    (fun _ => client.get transport (.list .text) client.scriptPathsEndpoint) 1
    (Client.asks_get h.scriptPaths)
  refine client.asks_fetchAll (client.script transport)
    (fun path => client.request (client.scriptEndpoint path)) h.quiet hkey hfeeds
    fun script hscript => ?_
  exact (Client.asks_get (h.scripts script hscript)).map (·.map ScriptDetail.kept)

theorem asks_flows (h : holdings.Served client transport log) :
    Asks log (client.source transport).flows ⟨holdings.memory.flows, none⟩
      (holdings.requests client .flows) := by
  have hkey : (holdings.flows.flatten.map FlowListing.of).Nodup := by
    refine .of_map (fun listed => (client.flowEndpoint listed.path).text) ?_
    rw [List.map_map]
    exact h.flowsDistinct
  have hnonempty : [] ∉ holdings.flows.map (·.map FlowListing.of) := by
    simpa using h.flowsPaged.nonempty
  have hfeeds := Listing.feeds_of_pages
    (fun number => client.get transport (.list FlowListing.decoder) (client.flowsEndpoint number))
    (fun number => client.request (client.flowsEndpoint number)) (by simpa using h.flowsPaged.bounded)
    hnonempty 1 fun number items hitems => Client.asks_get (h.flowListings number items hitems)
  rw [← List.map_flatten, List.length_map] at hfeeds
  have hdetails : ∀ flow ∈ holdings.flows.flatten,
      Asks log (client.flow transport (.of flow)) (.ok (some flow)) [client.flowRequest flow] :=
    fun flow hflow => (Client.asks_get (h.flows flow hflow)).map (·.map some)
  have hasks := client.asks_fetchAll (client.flow transport)
    (fun listed => client.request (client.flowEndpoint listed.path)) h.quiet hkey hfeeds hdetails
  rw [List.filterMap_some] at hasks
  exact hasks.perm (.refl _)

end Holdings.Served

end SchemaClient
