/-
SchemaClient.Proofs.Catalog.Pagination — the pages of a listing, one after the other.

A server replies to every request as it likes, and differently each time. Even so a listing is what
its pages are, up to the first that is empty or that cannot be had; and each of them has been asked
for as often as it takes for its last attempt, before the next one and never after it.

* `Server` — the replies to all requests; `Server.transport` is the network before it.
* `Client.get_transport` — what is at an endpoint, with the repetitions that it takes.
* `Listing.ofPages_eq` — a listing whose pages are told by the order in which they are asked for.
* `Client.resources_transport` — the resources of a server, and all that is done to get them.
-/
import SchemaClient.Proofs.Catalog.Locations
import SchemaClient.Proofs.Http.Retry

namespace SchemaClient

variable {α : Type}

/-! ## Servers -/

/-- What is replied to a request that has been sent so many times before. -/
abbrev Server := Request → Nat → Reply

/-- What an attempt at a request sends: nothing, if the request cannot be sent. -/
def Request.sent (request : Request) : List (Deed Request) :=
  match request.refusal? with
  | some _ => []
  | none => [.tried request]

theorem Request.sent_of_sendable {request : Request} (h : request.refusal? = none) :
    request.sent = [.tried request] := by
  rw [sent, h]

namespace Server

variable (server : Server)

/-- The network before a server. What is sent, and how long one waits, is written down. -/
def transport : Transport (StateM (List (Deed Request))) where
  send request := fun journal =>
    (server request (journal.count (.tried request)), journal ++ [.tried request])
  wait := Deed.wait
  next _ := pure 0

/-- What an attempt at a request comes to, if so many have been made before. -/
def outcome (request : Request) (read : Bytes → Except Error α) (n : Nat) : Except Error α :=
  match request.refusal? with
  | some fault => .error (.http request.url.text fault)
  | none => Request.outcome request.url.text read (server request n)

variable {server}

theorem perform_transport (request : Request) (read : Bytes → Except Error α)
    (journal : List (Deed Request)) :
    request.perform server.transport read journal =
      (server.outcome request read (journal.count (.tried request)),
        journal ++ request.sent) := by
  unfold Request.perform outcome Request.sent
  cases request.refusal? with
  | some fault => exact Prod.ext rfl (List.append_nil journal).symm
  | none => rfl

theorem stateBefore_perform (policy : RetryPolicy) (request : Request)
    (read : Bytes → Except Error α) (journal : List (Deed Request)) (n : Nat) :
    policy.stateBefore Deed.wait (request.perform server.transport read) journal n =
      journal ++ policy.repeated request.sent n :=
  RetryPolicy.stateBefore_eq
    (fun before => congrArg Prod.snd (perform_transport request read before)) journal n

/-- The attempts at a request that has not been sent before. Those at a request that cannot be sent
are not counted, but all come to the same. -/
theorem outcomesFrom_perform {request : Request} {journal : List (Deed Request)}
    (hnew : .tried request ∉ journal) (policy : RetryPolicy) (read : Bytes → Except Error α) :
    policy.outcomesFrom Deed.wait (request.perform server.transport read) journal =
      server.outcome request read := by
  funext n
  rw [RetryPolicy.outcomesFrom, stateBefore_perform, perform_transport]
  cases hrefusal : request.refusal? with
  | some fault => simp only [outcome, hrefusal]
  | none =>
    rw [Request.sent_of_sendable hrefusal, List.count_append, List.count_eq_zero.2 hnew,
      RetryPolicy.count_repeated, Nat.zero_add]

end Server

/-- What is at an endpoint is what the last attempt to get it comes to. -/
theorem Client.get_transport {server : Server} {client : Client} {url : Endpoint}
    {journal : List (Deed Request)} (hnew : .tried (client.request url) ∉ journal)
    (decoder : Json.Decoder α) {outcomes : Nat → Except Error α}
    (houtcomes : server.outcome (client.request url) (decodeAnswer decoder url.text) = outcomes) :
    client.get server.transport decoder url journal =
      (outcomes (client.retry.lastAttempt outcomes),
        journal ++ client.retry.deeds (client.request url).sent
          (client.retry.lastAttempt outcomes)) := by
  have hfrom := (Server.outcomesFrom_perform hnew client.retry
    (decodeAnswer decoder url.text)).trans houtcomes
  have hget : client.get server.transport decoder url journal =
      (client.request url).perform server.transport (decodeAnswer decoder url.text)
        (client.retry.stateBefore Deed.wait
          ((client.request url).perform server.transport (decodeAnswer decoder url.text)) journal
          (client.retry.lastAttempt outcomes)) :=
    withRetry_eq (hfrom.symm ▸ client.retry.isLeast_lastAttempt outcomes)
  rw [hget]
  refine Prod.ext (congrFun hfrom _) ?_
  rw [Server.stateBefore_perform, Server.perform_transport, RetryPolicy.deeds, List.append_assoc]

theorem RetryPolicy.mem_of_mem_deeds {ρ : Type} {policy : RetryPolicy} {attempt : List (Deed ρ)}
    {what : ρ} {last : Nat} (h : .tried what ∈ policy.deeds attempt last) :
    .tried what ∈ attempt := by
  rw [deeds, repeated, List.mem_append, List.mem_flatMap] at h
  rcases h with ⟨i, -, h⟩ | h
  · simpa using h
  · exact h

theorem Request.eq_of_mem_sent {request other : Request}
    (h : .tried other ∈ request.sent) : other = request := by
  unfold sent at h
  split at h
  · cases h
  · exact Deed.tried.inj (List.mem_singleton.1 h)

/-! ## Pages -/

namespace Listing

/-- A page that is not followed by another: it is empty, or it cannot be had. -/
inductive Closes : Except Error (List α) → Prop where
  | empty : Closes (.ok [])
  | failed (error : Error) : Closes (.error error)

/-- A page as a listing of its own. -/
def ofPage : Except Error (List α) → Listing α
  | .ok items => ⟨items, none⟩
  | .error error => failed error

variable {σ : Type} {page : Nat → StateM σ (Except Error (List α))} {limit number last : Nat}

theorem ofPages_of_closes {state : σ} (h : Closes (page number state).1) :
    ofPages page (limit + 1) number state =
      (⟨[], (ofPage (page number state).1).failure⟩, (page number state).2) := by
  rw [ofPages, StateM.bind_apply]
  generalize hpage : page number state = answer at h ⊢
  obtain ⟨result, next⟩ := answer
  cases h <;> rfl

theorem ofPages_of_not_closes {state : σ} (h : ¬ Closes (page number state).1) :
    ofPages page (limit + 1) number state =
      ((ofPage (page number state).1).append
          (ofPages page limit (number + 1) (page number state).2).1,
        (ofPages page limit (number + 1) (page number state).2).2) := by
  rw [ofPages, StateM.bind_apply]
  generalize hpage : page number state = answer at h ⊢
  obtain ⟨result, next⟩ := answer
  cases result with
  | error error => exact absurd (.failed error) h
  | ok items =>
    cases items with
    | nil => exact absurd .empty h
    | cons item rest => rfl

/-- A listing whose pages are known, as long as they are asked for in their order. The induction is
on the number of pages that may still be asked for. -/
theorem ofPages_eq {pages : Nat → Except Error (List α)} (state : Nat → σ)
    (hpages : ∀ n, number ≤ n → page n (state n) = (pages n, state (n + 1)))
    (hlast : IsLeast {n | number ≤ n ∧ Closes (pages n)} last) (hlimit : last < number + limit) :
    ofPages page limit number (state number) =
      (⟨(List.range' number (last - number)).flatMap fun n => (ofPage (pages n)).items,
        (ofPage (pages last)).failure⟩, state (last + 1)) := by
  induction limit generalizing number with
  | zero => exact absurd hlast.1.1 (by omega)
  | succ limit ih =>
    obtain ⟨⟨hle, hcloses⟩, hleast⟩ := hlast
    have hpage := hpages number (Nat.le_refl number)
    by_cases hnow : Closes (pages number)
    · obtain rfl : number = last := Nat.le_antisymm hle (hleast ⟨Nat.le_refl number, hnow⟩)
      rw [ofPages_of_closes (by rwa [hpage]), hpage, Nat.sub_self]
      rfl
    · have hlt : number < last := Nat.lt_of_le_of_ne hle fun heq => hnow (heq ▸ hcloses)
      rw [ofPages_of_not_closes (by rwa [hpage]), hpage,
        ih (fun n hn => hpages n (Nat.le_of_succ_le hn))
          ⟨⟨hlt, hcloses⟩, fun n hn => hleast ⟨Nat.le_of_succ_le hn.1, hn.2⟩⟩ (by omega),
        show last - number = last - (number + 1) + 1 by omega, List.range'_succ,
        List.flatMap_cons]
      cases hresult : pages number with
      | error error => exact absurd (hresult ▸ .failed error) hnow
      | ok items => rfl

end Listing

/-! ## The pages of the resources -/

namespace Client

/-- What tells the resources that are listed from others: the types that are left out, and the one
type that is asked for, if not all of them are. -/
def resourceFilters (resourceType : Option String) : List (String × String) :=
  ("resource_type_exclude", excludedTypes) ::
    (resourceType.map fun type => ("resource_type", type)).toList

/-- The request for a page of the resources. -/
def pageRequest (client : Client) (resourceType : Option String) (number : Nat) : Request :=
  client.request (client.pageEndpoint ["resources", "list"] (resourceFilters resourceType) number)

theorem pageRequest_injective (client : Client) (resourceType : Option String) :
    Function.Injective (client.pageRequest resourceType) := fun _ _ heq =>
  pageEndpoint_injective (by decide) (resourceFilters resourceType)
    (congrArg (·.url.text) heq)

end Client

namespace Server

variable (server : Server) (client : Client) (resourceType : Option String)

/-- What the attempts at a page of the resources come to. -/
def pageOutcome (number : Nat) : Nat → Except Error (List ResourceInstance) :=
  server.outcome (client.pageRequest resourceType number)
    (decodeAnswer (.list ResourceInstance.decoder)
      (client.pageRequest resourceType number).url.text)

/-- The last attempt at a page, counted from zero. -/
noncomputable def lastPageAttempt (number : Nat) : Nat :=
  client.retry.lastAttempt (server.pageOutcome client resourceType number)

/-- What a page is in the end. -/
noncomputable def page (number : Nat) : Except Error (List ResourceInstance) :=
  server.pageOutcome client resourceType number (server.lastPageAttempt client resourceType number)

/-- All that is done to get the first pages: the attempts at each, with the waits between them. -/
noncomputable def pageDeeds (count : Nat) : List (Deed Request) :=
  (List.range' 1 count).flatMap fun number =>
    client.retry.deeds (client.pageRequest resourceType number).sent
      (server.lastPageAttempt client resourceType number)

variable {server client resourceType}

theorem pageDeeds_succ (count : Nat) :
    server.pageDeeds client resourceType (count + 1) =
      server.pageDeeds client resourceType count ++
        client.retry.deeds (client.pageRequest resourceType (count + 1)).sent
          (server.lastPageAttempt client resourceType (count + 1)) := by
  rw [pageDeeds, List.range'_concat, List.flatMap_append, List.flatMap_singleton, Nat.one_mul,
    Nat.add_comm 1 count]
  rfl

/-- A page that comes after others has not been asked for with them. -/
theorem not_mem_pageDeeds {count number : Nat} (h : count < number) :
    .tried (client.pageRequest resourceType number) ∉
      server.pageDeeds client resourceType count := by
  intro hmem
  obtain ⟨other, hother, htried⟩ := List.mem_flatMap.1 hmem
  have hsame := Request.eq_of_mem_sent (RetryPolicy.mem_of_mem_deeds htried)
  obtain rfl := client.pageRequest_injective resourceType hsame
  rw [List.mem_range'_1] at hother
  omega

end Server

/-- Whatever a server replies: if some page is the first that is empty or that cannot be had, the
resources are those of the pages before it, in their order, and the listing ends with it or with its
error. These pages have been asked for one after the other, the attempts at each being those up to
its last, and nothing else has been done. Pages have numbers of 32 bits. -/
theorem Client.resources_transport (client : Client) (server : Server)
    (resourceType : Option String) {last : Nat} (hbound : last ≤ client.pageLimit)
    (hlast : IsLeast {number | 1 ≤ number ∧
      Listing.Closes (server.page client resourceType number)} last) :
    (client.source server.transport).resources resourceType [] =
      (⟨(List.range' 1 (last - 1)).flatMap fun number =>
          (Listing.ofPage (server.page client resourceType number)).items,
        (Listing.ofPage (server.page client resourceType last)).failure⟩,
        server.pageDeeds client resourceType last) := by
  -- the pages before a page have been asked for when it is its turn
  refine Listing.ofPages_eq (fun number => server.pageDeeds client resourceType (number - 1))
    (fun number hnumber => ?_) hlast (by omega)
  obtain ⟨before, rfl⟩ : ∃ before, number = before + 1 := ⟨number - 1, by omega⟩
  rw [Nat.add_sub_cancel, Nat.add_sub_cancel, Server.pageDeeds_succ]
  exact client.get_transport (Server.not_mem_pageDeeds (Nat.lt_succ_self before)) _ rfl

/-! ## A server that stops halfway -/

/-- A client for a server on this machine. -/
def haltingClient : Client where
  origin := ⟨"http", .domain "localhost".toList, none⟩
  workspace := "w"
  token := "t"

abbrev haltingRequest (number : Nat) : Request := haltingClient.pageRequest none number

/-- The first page is there at the second attempt, the others are not. -/
def haltingServer : Server := fun request n =>
  if request = haltingRequest 1 then
    match n with
    | 0 => .answer 503 []
    | _ => .answer 200 (Utf8.encode r#"[{"path":"f/r","resource_type":"db"}]"#)
  else .answer 404 []

/-- The outcome of the attempt that finds the first page. -/
theorem pageOutcome_halting_found :
    haltingServer.pageOutcome haltingClient none 1 1 = .ok [⟨"f/r", "db"⟩] := by
  with_unfolding_all rfl

theorem pageOutcome_halting_missing (n : Nat) : haltingServer.pageOutcome haltingClient none 2 n =
    .error (.status (haltingRequest 2).url.text 404) := by
  with_unfolding_all rfl

theorem lastPageAttempt_halting_one : haltingServer.lastPageAttempt haltingClient none 1 = 1 := by
  have hunavailable : haltingServer.pageOutcome haltingClient none 1 0 =
      .error (.status (haltingRequest 1).url.text 503) := by
    with_unfolding_all rfl
  refine RetryPolicy.lastAttempt_eq ⟨.success pageOutcome_halting_found, fun n hends => ?_⟩
  refine Nat.one_le_iff_ne_zero.2 fun hzero => ?_
  exact RetryPolicy.not_ends hunavailable (.server (by decide) (by decide)) (by decide)
    (hzero ▸ hends)

theorem lastPageAttempt_halting_two : haltingServer.lastPageAttempt haltingClient none 2 = 0 := by
  refine RetryPolicy.lastAttempt_eq
    ⟨.lasting (pageOutcome_halting_missing 0) ?_, fun n _ => Nat.zero_le n⟩
  rintro (⟨hlow, -⟩ | _)
  omega

theorem page_halting_one : haltingServer.page haltingClient none 1 = .ok [⟨"f/r", "db"⟩] := by
  rw [Server.page, lastPageAttempt_halting_one]
  exact pageOutcome_halting_found

/-- The resource of the first page is listed before the error of the second. The first page has been
asked for twice, the second once, the third not at all. -/
theorem resources_transport_halting :
    2 ≤ haltingClient.pageLimit ∧
    IsLeast {number | 1 ≤ number ∧
      Listing.Closes (haltingServer.page haltingClient none number)} 2 ∧
    (haltingClient.source haltingServer.transport).resources none [] =
      (⟨[⟨"f/r", "db"⟩], some (.status (haltingRequest 2).url.text 404)⟩,
        [.tried (haltingRequest 1), .waited (haltingClient.retry.backoff 0),
          .tried (haltingRequest 1), .tried (haltingRequest 2)]) := by
  have hlimit : 2 ≤ haltingClient.pageLimit := by decide
  have htwo : haltingServer.page haltingClient none 2 = _ := pageOutcome_halting_missing _
  have hlast : IsLeast {number | 1 ≤ number ∧
      Listing.Closes (haltingServer.page haltingClient none number)} 2 := by
    refine ⟨⟨by decide, htwo ▸ .failed _⟩, fun number hnumber => ?_⟩
    refine Nat.lt_of_le_of_ne hnumber.1 fun hone => ?_
    have hcloses := hone ▸ hnumber.2
    rw [page_halting_one] at hcloses
    cases hcloses
  have hfirst : (haltingRequest 1).refusal? = none := by decide +kernel
  have hsecond : (haltingRequest 2).refusal? = none := by decide +kernel
  refine ⟨hlimit, hlast, (Client.resources_transport haltingClient haltingServer none hlimit
    hlast).trans ?_⟩
  rw [Server.pageDeeds_succ, Server.pageDeeds_succ, lastPageAttempt_halting_one,
    lastPageAttempt_halting_two, Request.sent_of_sendable hfirst,
    Request.sent_of_sendable hsecond, htwo, show List.range' 1 (2 - 1) = [1] from rfl,
    List.flatMap_singleton, page_halting_one]
  rfl

end SchemaClient
