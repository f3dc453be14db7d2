/-
SchemaClient.Proofs.Catalog.Locations — no two requests of a run go to the same URL.

All URLs of a workspace begin alike. What is behind that tells the listings apart, the page of a
listing is told by its number, and details by their own URLs.

* `Client.behind` — a URL without what all URLs of the workspace have in front.
* `Client.pageEndpoint_injective` — the page of a listing can be told from its URL.
* `Holdings.nodup_requests` — the URLs of the requests that the sections of a run take.
-/
import SchemaClient.Proofs.Catalog.Holdings
import SchemaClient.Proofs.Url.Endpoint

namespace SchemaClient

namespace Client

variable (client : Client)

/-- The path of the workspace. -/
def stem : List (List Char) := (["api", "w", client.workspace] : List String).foldl Endpoint.push []

/-- What all URLs of the workspace have in front. -/
def front : List Char := client.origin.text.toList ++ client.stem.flatMap ('/' :: ·)

/-- A URL without what all URLs of the workspace have in front. -/
def behind (url : String) : List Char := url.toList.drop client.front.length

variable {client}

theorem path_endpoint (path : List String) (query : List (String × String)) :
    (client.endpoint path query).path = path.foldl Endpoint.push client.stem :=
  List.foldl_append

theorem behind_endpoint {path : List String} {query : List (String × String)}
    {first : List Char} {others : List (List Char)}
    (h : path.foldl Endpoint.push client.stem = client.stem ++ first :: others) :
    client.behind (client.endpoint path query).text =
      (first :: others).flatMap ('/' :: ·) ++ Endpoint.suffix query := by
  have hpath := (client.path_endpoint path query).trans h
  have hne : (client.endpoint path query).path ≠ [] := by simp [hpath]
  rw [behind, Endpoint.toList_text hne, hpath, List.flatMap_append, List.append_assoc,
    ← List.append_assoc (Origin.text _).toList]
  exact List.drop_left

/-- Behind the workspace, an endpoint of ordinary segments is these segments. -/
theorem behind_of_isPlain {first : String} {others : List String} {query : List (String × String)}
    (h : (first :: others).all Endpoint.isPlain = true) :
    client.behind (client.endpoint (first :: others) query).text =
      ((first :: others).map String.toList).flatMap ('/' :: ·) ++ Endpoint.suffix query :=
  behind_endpoint (Endpoint.foldl_push_of_isPlain h client.stem)

/-- Segments behind ordinary ones leave all of these as they are but the last. -/
theorem behind_of_segments (client : Client) {first : String} {others : List String} {last : String}
    (h : (first :: others ++ [last]).all Endpoint.isPlain = true) (segments : List String) :
    ∃ kept rest, (kept = last.toList ∨ kept = []) ∧
      client.behind (client.endpoint (first :: others ++ [last] ++ segments)).text =
        ((first :: others).map String.toList).flatMap ('/' :: ·) ++
          (kept :: rest).flatMap ('/' :: ·) := by
  have hkeeps : Endpoint.Keeps (client.stem ++ (first :: others).map String.toList) last.toList
      ((first :: others ++ [last]).foldl Endpoint.push client.stem) := by
    rw [Endpoint.foldl_push_of_isPlain h, List.map_append, ← List.append_assoc]
    exact ⟨_, _, rfl, .inl rfl⟩
  obtain ⟨kept, rest, hfold, hkept⟩ := Endpoint.foldl_push_keeps hkeeps segments
  rw [← List.foldl_append, List.append_assoc client.stem] at hfold
  refine ⟨kept, rest, hkept, (behind_endpoint hfold).trans ?_⟩
  rw [← List.flatMap_append]
  exact List.append_nil _

/-! ## Pages -/

/-- The page of a listing can be told from its URL. -/
theorem pageEndpoint_injective {first : String} {others : List String}
    (h : (first :: others).all Endpoint.isPlain = true) (filter : List (String × String)) :
    Function.Injective fun number => (client.pageEndpoint (first :: others) filter number).text := by
  intro number other heq
  have hbehind := congrArg client.behind heq
  simp only [pageEndpoint, behind_of_isPlain h] at hbehind
  have hquery := List.append_cancel_left hbehind
  simp only [Endpoint.suffix, List.cons_append, List.nil_append, List.isEmpty_cons, List.map_cons,
    List.intercalate_cons_cons, Endpoint.pairText, Url.queryText_toString, List.cons.injEq,
    List.append_assoc, true_and, Bool.false_eq_true, if_false] at hquery
  have hdigits := List.append_cancel_right (List.cons.inj (List.append_cancel_left hquery)).2
  have hnumbers := congrArg (Nat.ofDigitChars 10 · 0) hdigits
  simpa only [Nat.ofDigitChars_toDigits (by decide : 1 < 10) (by decide)] using hnumbers

theorem behind_pageEndpoint (client : Client) {first : String} {others : List String}
    (h : (first :: others).all Endpoint.isPlain = true) (filter : List (String × String))
    (number : Nat) :
    ((first :: others).map String.toList).flatMap ('/' :: ·) <+:
      client.behind (client.pageEndpoint (first :: others) filter number).text := by
  rw [pageEndpoint, behind_of_isPlain h]
  exact List.prefix_append ..

/-! ## Listings -/

theorem behind_typesEndpoint :
    client.behind client.typesEndpoint.text = "/resources/type/list".toList :=
  (behind_of_isPlain (by decide)).trans (by decide)

theorem behind_resourcesEndpoint (client : Client) (number : Nat) :
    "/resources/list".toList <+: client.behind (client.resourcesEndpoint none number).text :=
  client.behind_pageEndpoint (by decide : ["resources", "list"].all Endpoint.isPlain = true) _
    number

theorem behind_scriptPathsEndpoint :
    client.behind client.scriptPathsEndpoint.text = "/scripts/list_paths".toList :=
  (behind_of_isPlain (by decide)).trans (by decide)

theorem behind_scriptEndpoint (client : Client) (path : String) :
    "/scripts/get/".toList <+: client.behind (client.scriptEndpoint path).text := by
  have hplain : ("scripts" :: ["get"] ++ ["p"]).all Endpoint.isPlain = true := by decide
  obtain ⟨kept, rest, -, heq⟩ := client.behind_of_segments hplain (segments path)
  have hbehind : client.behind (client.scriptEndpoint path).text =
      "/scripts/get/".toList ++ (kept ++ rest.flatMap ('/' :: ·)) := heq
  rw [hbehind]
  exact List.prefix_append ..

theorem behind_flowsEndpoint (client : Client) (number : Nat) :
    "/flows/list".toList <+: client.behind (client.flowsEndpoint number).text :=
  client.behind_pageEndpoint (by decide : ["flows", "list"].all Endpoint.isPlain = true) _
    number

/-- A flow is not where the listing of the flows is: its path can do away with the segment that all
flows have in front, but not replace it. -/
theorem behind_flowEndpoint (client : Client) (path : String) :
    "/flows/".toList <+: client.behind (client.flowEndpoint path).text ∧
      (client.behind (client.flowEndpoint path).text)[7]? ≠ some 'l' := by
  have hplain : ("flows" :: [] ++ ["get"]).all Endpoint.isPlain = true := by decide
  obtain ⟨kept, rest, hkept, heq⟩ := client.behind_of_segments hplain (segments path)
  have hbehind : client.behind (client.flowEndpoint path).text =
      "/flows/".toList ++ (kept ++ rest.flatMap ('/' :: ·)) := heq
  rw [hbehind]
  refine ⟨List.prefix_append .., ?_⟩
  rcases hkept with rfl | rfl
  · simp
  · cases rest with
    | nil => decide
    | cons first others => simp

end Client

open Client

/-! ## All requests of a run -/

/-- What the URLs of a section's requests have behind the workspace: the name of the section. -/
def SectionKind.opening (kind : SectionKind) : List Char := '/' :: kind.label.toList ++ ['/']

theorem SectionKind.eq_of_opening {kind other : SectionKind} {text : List Char}
    (h : kind.opening <+: text) (hother : other.opening <+: text) : kind = other := by
  rcases List.prefix_or_prefix_of_prefix h hother with h | h <;>
    cases kind <;> cases other <;> first | rfl | exact absurd h (by decide)

namespace Holdings

variable {holdings : Holdings} {client : Client}

theorem opening_requests {kind : SectionKind} {request : Request}
    (h : request ∈ holdings.requests client kind) :
    kind.opening <+: client.behind request.url.text := by
  cases kind with
  | resources =>
    obtain ⟨number, -, rfl⟩ := List.mem_map.1 h
    exact .trans (by decide) (client.behind_resourcesEndpoint number)
  | scripts =>
    rcases List.mem_cons.1 h with rfl | h
    · have hpaths : client.behind (client.request client.scriptPathsEndpoint).url.text = _ :=
        behind_scriptPathsEndpoint
      rw [hpaths]
      decide
    · obtain ⟨script, -, rfl⟩ := List.mem_map.1 h
      exact .trans (by decide) (client.behind_scriptEndpoint script.artifact.path)
  | flows =>
    rcases List.mem_append.1 h with h | h
    · obtain ⟨number, -, rfl⟩ := List.mem_map.1 h
      exact .trans (by decide) (client.behind_flowsEndpoint number)
    · obtain ⟨flow, -, rfl⟩ := List.mem_map.1 h
      exact .trans (by decide) (client.behind_flowEndpoint flow.path).1

theorem nodup_pageRequests {α : Type} {endpoint : Nat → Endpoint}
    (h : Function.Injective fun number => (endpoint number).text) (pages : List (List α)) :
    ((client.pageRequests endpoint pages).map (·.url.text)).Nodup := by
  rw [pageRequests, List.map_map]
  exact (List.nodup_range' 1).map h

/-- The requests of a section go to URLs of their own. -/
theorem nodup_requests_section
    (hscripts :
      (holdings.scripts.map fun script => (client.scriptEndpoint script.artifact.path).text).Nodup)
    (hflows : (holdings.flows.flatten.map fun flow => (client.flowEndpoint flow.path).text).Nodup)
    (kind : SectionKind) : ((holdings.requests client kind).map (·.url.text)).Nodup := by
  cases kind with
  | resources => exact nodup_pageRequests (pageEndpoint_injective (by decide) _) _
  | scripts =>
    rw [requests, List.map_cons, List.map_map]
    refine List.nodup_cons.2 ⟨fun hmem => ?_, hscripts⟩
    obtain ⟨script, -, heq⟩ := List.mem_map.1 hmem
    have hprefix := client.behind_scriptEndpoint script.artifact.path
    have hpaths : client.behind (client.scriptEndpoint script.artifact.path).text = _ :=
      (congrArg client.behind heq).trans behind_scriptPathsEndpoint
    rw [hpaths] at hprefix
    exact absurd hprefix (by decide)
  | flows =>
    rw [requests, List.map_append, List.map_map]
    refine List.nodup_append.2
      ⟨nodup_pageRequests (pageEndpoint_injective (by decide) _) _, hflows, ?_⟩
    intro url hurl url' hurl' heq
    obtain ⟨request, hrequest, rfl⟩ := List.mem_map.1 hurl
    obtain ⟨number, -, rfl⟩ := List.mem_map.1 hrequest
    obtain ⟨flow, -, rfl⟩ := List.mem_map.1 hurl'
    obtain ⟨rest, hrest⟩ := client.behind_flowsEndpoint number
    refine (client.behind_flowEndpoint flow.path).2 ?_
    have hpage : client.behind (client.flowEndpoint flow.path).text = _ :=
      (congrArg client.behind heq.symm).trans hrest.symm
    rw [hpage]
    rfl

/-- The requests of different sections, and the one for the resource types, go to URLs of their
own. -/
theorem nodup_requests
    (hscripts :
      (holdings.scripts.map fun script => (client.scriptEndpoint script.artifact.path).text).Nodup)
    (hflows : (holdings.flows.flatten.map fun flow => (client.flowEndpoint flow.path).text).Nodup)
    {kinds : List SectionKind} (hkinds : kinds.Nodup) :
    ((client.request client.typesEndpoint :: kinds.flatMap (holdings.requests client)).map
      (·.url.text)).Nodup := by
  rw [List.map_cons, List.map_flatMap]
  refine List.nodup_cons.2 ⟨fun hmem => ?_, List.nodup_flatMap.2 ⟨fun kind _ =>
    nodup_requests_section hscripts hflows kind, hkinds.imp fun hne => ?_⟩⟩
  · obtain ⟨kind, -, hmem⟩ := List.mem_flatMap.1 hmem
    obtain ⟨request, hrequest, heq⟩ := List.mem_map.1 hmem
    have htypes : client.behind request.url.text = _ :=
      (congrArg client.behind heq).trans behind_typesEndpoint
    have hopening := opening_requests hrequest
    rw [htypes] at hopening
    obtain rfl : kind = .resources := SectionKind.eq_of_opening hopening (by decide)
    obtain ⟨number, -, rfl⟩ := List.mem_map.1 hrequest
    have hprefix := client.behind_resourcesEndpoint number
    rw [show client.behind (client.resourcesEndpoint none number).text = _ from htypes] at hprefix
    exact absurd hprefix (by decide)
  · intro url hurl hurl'
    obtain ⟨request, hrequest, rfl⟩ := List.mem_map.1 hurl
    obtain ⟨request', hrequest', heq⟩ := List.mem_map.1 hurl'
    have hopening := opening_requests hrequest'
    rw [heq] at hopening
    exact hne (SectionKind.eq_of_opening (opening_requests hrequest) hopening)

end Holdings

end SchemaClient
