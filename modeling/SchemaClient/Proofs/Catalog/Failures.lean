/-
SchemaClient.Proofs.Catalog.Failures — the errors that listings end in.

* `Gives.bind_elim` — an answer that takes several requests is put together from theirs.
* `Source.Raises` — a listing of the workspace can end in this error.
* `MemoryCatalog.raises` — in memory a listing fails if it is told to, and in one way only.
* `Client.raises` — on a server it is the error of a request.
-/
import SchemaClient.Catalog.Client
import SchemaClient.Proofs.Http.Retry
import SchemaClient.Proofs.Section.Steps

namespace SchemaClient

variable {σ α β : Type}

/-! ## Requests one after the other -/

theorem Gives.bind_elim {first : StateM σ α} {next : α → StateM σ β} {b : β}
    (h : Gives (first >>= next) b) : ∃ a, Gives first a ∧ Gives (next a) b := by
  obtain ⟨state, rfl⟩ := h
  exact ⟨(first.run state).1, ⟨state, rfl⟩, (first.run state).2, rfl⟩

theorem Gives.pure_elim {a b : α} (h : Gives (pure a : StateM σ α) b) : b = a := by
  obtain ⟨state, rfl⟩ := h
  rfl

/-! ## Sources -/

/-- A listing of the workspace can end in this error. -/
inductive Source.Raises (source : Source (StateM σ)) (error : Error) : Prop where
  | resourceTypes : Gives source.resourceTypes (.error error) → Raises source error
  | resources {filter : Option String} {listing : Listing ResourceInstance} :
      Gives (source.resources filter) listing → listing.failure = some error → Raises source error
  | scripts {listing : Listing Artifact} :
      Gives source.scripts listing → listing.failure = some error → Raises source error
  | flows {listing : Listing Artifact} :
      Gives source.flows listing → listing.failure = some error → Raises source error

/-- What is made of a result has no error of its own. -/
theorem error_of_map {result : Except Error α} {f : α → β} {error : Error}
    (h : result.map f = .error error) : result = .error error := by
  cases result with
  | ok a => cases h
  | error other =>
    cases h
    rfl

theorem Listing.failure_of_complete {listing : Listing α} {error : Error}
    (h : listing.complete = .error error) : listing.failure = some error := by
  unfold complete at h
  cases hfailure : listing.failure with
  | none => rw [hfailure] at h; cases h
  | some other => rw [hfailure] at h; cases h; rfl

theorem InstanceIndex.failure_of_ofListing {catalog : TypeCatalog}
    {listing : Listing ResourceInstance} {error : Error}
    (h : ofListing catalog listing = .error error) : listing.failure = some error :=
  Listing.failure_of_complete (error_of_map h)

/-! ## Workspaces in memory -/

namespace MemoryCatalog

theorem failure_listing {catalog : MemoryCatalog} {kind : ListingKind} {items : List α}
    {error : Error} (h : (catalog.listing kind items).failure = some error) :
    error = failure kind := by
  unfold listing at h
  split at h
  · exact (Option.some.inj h).symm
  · cases h

/-- A listing in memory ends in no other error than the one it is told to. -/
theorem raises {catalog : MemoryCatalog} {error : Error}
    (h : (catalog.source : Source (StateM σ)).Raises error) : ∃ kind, error = failure kind := by
  cases h with
  | resourceTypes h =>
    have hcomplete := error_of_map h.pure_elim.symm
    exact ⟨_, failure_listing (Listing.failure_of_complete hcomplete)⟩
  | resources h hfailure => rw [h.pure_elim] at hfailure; exact ⟨_, failure_listing hfailure⟩
  | scripts h hfailure => rw [h.pure_elim] at hfailure; exact ⟨_, failure_listing hfailure⟩
  | flows h hfailure => rw [h.pure_elim] at hfailure; exact ⟨_, failure_listing hfailure⟩

end MemoryCatalog

/-! ## Workspaces on a server -/

/-- The errors of requests: no answer, an answer that says no, or one that cannot be read. -/
def Error.isOfRequest : Error → Bool
  | http _ _ => true
  | status _ _ => true
  | decode _ _ => true
  | _ => false

theorem Request.isOfRequest_outcome {url : String} {read : Bytes → Except Error α} {reply : Reply}
    {error : Error} (hread : ∀ body error, read body = .error error → error.isOfRequest = true)
    (h : outcome url read reply = .error error) : error.isOfRequest = true := by
  cases reply with
  | answer status body =>
    simp only [outcome] at h
    split at h
    · exact hread body error h
    · cases h; rfl
  | cutShort status =>
    cases h
    split <;> rfl
  | lost detail => cases h; rfl

theorem Request.isOfRequest_perform {request : Request} {transport : Transport (StateM σ)}
    {read : Bytes → Except Error α} {error : Error}
    (hread : ∀ body error, read body = .error error → error.isOfRequest = true)
    (h : Gives (request.perform transport read) (.error error)) : error.isOfRequest = true := by
  unfold perform at h
  cases hrefusal : request.refusal? with
  | some fault =>
    rw [hrefusal] at h
    cases h.pure_elim
    rfl
  | none =>
    rw [hrefusal] at h
    obtain ⟨reply, -, h⟩ := h.bind_elim
    exact isOfRequest_outcome hread h.pure_elim.symm

/-- However often an operation is repeated, what comes of it is what comes of an attempt. -/
theorem gives_of_withRetry {policy : RetryPolicy} {wait : Nat → StateM σ Unit}
    {operation : StateM σ (Except Error α)} {result : Except Error α}
    (h : Gives (withRetry policy wait operation) result) : Gives operation result := by
  obtain ⟨start, rfl⟩ := h
  obtain ⟨state, heq⟩ := exists_withRetry_eq policy wait operation start
  exact ⟨state, (congrArg Prod.fst heq).symm⟩

namespace Listing

theorem failure_append {first second : Listing α} {error : Error}
    (h : (first.append second).failure = some error) :
    first.failure = some error ∨ second.failure = some error := by
  unfold append at h
  split at h
  · exact Or.inl h
  · exact Or.inr h

/-- A listing in pages fails with the error of a page. -/
theorem failure_ofPages {page : Nat → StateM σ (Except Error (List α))} {limit number : Nat}
    {listing : Listing α} {error : Error} (h : Gives (ofPages page limit number) listing)
    (hfailure : listing.failure = some error) : ∃ number, Gives (page number) (.error error) := by
  induction limit generalizing number listing with
  | zero => rw [h.pure_elim] at hfailure; cases hfailure
  | succ limit ih =>
    obtain ⟨result, hresult, h⟩ := h.bind_elim
    cases result with
    | error other =>
      rw [h.pure_elim] at hfailure
      cases hfailure
      exact ⟨number, hresult⟩
    | ok items =>
      cases items with
      | nil => rw [h.pure_elim] at hfailure; cases hfailure
      | cons first rest =>
        obtain ⟨others, hothers, h⟩ := h.bind_elim
        rw [h.pure_elim] at hfailure
        rcases failure_append hfailure with hfailure | hfailure
        · cases hfailure
        · exact ih hothers hfailure

/-- A listing that fetches something for each item fails with the error of a page, or of fetching.
The fetches under way are part of the invariant: what they have found came from fetching. -/
theorem failure_ofFetches {bound : Nat} {next : Nat → StateM σ Nat}
    {fetch : β → StateM σ (Except Error (Option α))} {page : Nat → StateM σ (Except Error (List β))}
    {limit number : Nat} {flight : List (Fetch β α)} {waiting : List β} {listing : Listing α}
    {error : Error}
    (h : Gives (ofFetches bound next fetch page limit number flight waiting) listing)
    (hflight : ∀ error, .answered (.error error) ∈ flight → ∃ item, Gives (fetch item) (.error error))
    (hfailure : listing.failure = some error) :
    (∃ number, Gives (page number) (.error error)) ∨ ∃ item, Gives (fetch item) (.error error) := by
  fun_induction ofFetches bound next fetch page limit number flight waiting generalizing listing with
  | case1 limit number flight waiting other rest hold =>
    rw [h.pure_elim] at hfailure
    cases hfailure
    exact Or.inr (hflight _ (Fetch.eq_of_oldest? hold ▸ List.mem_cons_self))
  | case2 limit number flight waiting found rest hold ih =>
    rw [Fetch.eq_of_oldest? hold] at hflight
    obtain ⟨others, hothers, h⟩ := h.bind_elim
    rw [h.pure_elim] at hfailure
    rcases failure_append hfailure with hfailure | hfailure
    · cases hfailure
    · exact ih hothers (fun other hmem => hflight other (List.mem_cons_of_mem _ hmem)) hfailure
  | case3 limit number flight waiting hold flight' waiting' hbegin ih =>
    obtain ⟨item, rfl, rfl⟩ := Fetch.eq_of_begin? hbegin
    exact ih h (fun other hmem => hflight other (by simpa using hmem)) hfailure
  | case4 limit number flight waiting hold hbegin opened isFed ihlast ihpage =>
    rename_i ihfetch
    obtain ⟨choice, -, h⟩ := h.bind_elim
    split at h
    case isTrue hpage =>
      obtain ⟨result, hresult, h⟩ := h.bind_elim
      split at h
      · rw [h.pure_elim] at hfailure
        cases hfailure
        exact Or.inl ⟨number, hresult⟩
      · exact ihlast choice hpage h hflight hfailure
      · exact ihpage choice hpage _ h hflight hfailure
    case isFalse =>
      split at h
      · next before item after hpick =>
        obtain ⟨found, hfound, h⟩ := h.bind_elim
        rw [Fetch.eq_of_pick? hpick] at hflight
        refine ihfetch choice before item after hpick found h (fun other hmem => ?_) hfailure
        rcases List.mem_append.1 hmem with hmem | hmem
        · exact hflight other (List.mem_append_left _ hmem)
        · cases hmem with
          | head => exact ⟨item, hfound⟩
          | tail _ hmem =>
            exact hflight other (List.mem_append_right _ (List.mem_cons_of_mem _ hmem))
      · rw [h.pure_elim] at hfailure
        cases hfailure

end Listing

namespace Client

variable {client : Client} {transport : Transport (StateM σ)} {error : Error}

theorem isOfRequest_get {decoder : Json.Decoder α} {url : Endpoint}
    (h : Gives (client.get transport decoder url) (.error error)) : error.isOfRequest = true := by
  refine Request.isOfRequest_perform (fun body error hread => ?_) (gives_of_withRetry h)
  unfold decodeAnswer at hread
  cases hdecode : decoder.read body with
  | ok value => rw [hdecode] at hread; cases hread
  | error message => rw [hdecode] at hread; cases hread; rfl

/-- What is made of an answer adds no error. -/
theorem isOfRequest_get_map {decoder : Json.Decoder α} {url : Endpoint} {f : α → β}
    (h : Gives (do return (← client.get transport decoder url).map f) (.error error)) :
    error.isOfRequest = true := by
  obtain ⟨answer, hanswer, h⟩ := h.bind_elim
  rw [error_of_map h.pure_elim.symm] at hanswer
  exact isOfRequest_get hanswer

theorem isOfRequest_fetchAll {fetch : β → StateM σ (Except Error (Option α))}
    {page : Nat → StateM σ (Except Error (List β))} {limit : Nat} {listing : Listing α}
    (hfetch : ∀ item, Gives (fetch item) (.error error) → error.isOfRequest = true)
    (hpage : ∀ number, Gives (page number) (.error error) → error.isOfRequest = true)
    (h : Gives (client.fetchAll transport fetch page limit) listing)
    (hfailure : listing.failure = some error) : error.isOfRequest = true := by
  rcases Listing.failure_ofFetches h (fun _ hmem => absurd hmem List.not_mem_nil) hfailure with
    ⟨number, h⟩ | ⟨item, h⟩
  · exact hpage number h
  · exact hfetch item h

/-- A listing on a server ends in no other errors than those of requests. -/
theorem raises (h : (client.source transport).Raises error) : error.isOfRequest = true := by
  cases h with
  | resourceTypes h => exact isOfRequest_get_map h
  | resources h hfailure =>
    obtain ⟨number, h⟩ := Listing.failure_ofPages h hfailure
    exact isOfRequest_get h
  | scripts h hfailure =>
    exact isOfRequest_fetchAll (fun _ => isOfRequest_get_map) (fun _ => isOfRequest_get) h hfailure
  | flows h hfailure =>
    exact isOfRequest_fetchAll (fun _ => isOfRequest_get_map) (fun _ => isOfRequest_get) h hfailure

end Client

end SchemaClient
