/-
SchemaClient.Proofs.Catalog.Requests — the requests that a listing takes.

A listing is put together from several answers. If each of its requests is answered at once, it
comes out as the items of all pages in their order, whichever request is answered next; and each
page and each item has been asked for once.

* `Asks` — a computation always comes to this result, and sends these requests.
* `Transport.Answers` — a request that is answered at once.
* `Client.asks_get` — a request that is answered at once is not repeated.
* `Listing.Feeds` — the pages of a listing, up to the empty one.
* `Listing.asks_ofPages`, `Listing.asks_ofFetches` — what is put together from these pages.
-/
import SchemaClient.Catalog.Client

namespace SchemaClient

variable {σ α β : Type} {log : σ → List Request}

/-! ## Requests of a computation -/

/-- In every state a computation comes to this result, and the log tells that it has sent these
requests, in some order. -/
def Asks (log : σ → List Request) (action : StateM σ α) (result : α) (requests : List Request) :
    Prop :=
  ∀ state, (action state).1 = result ∧ (log (action state).2).Perm (log state ++ requests)

namespace Asks

variable {action first : StateM σ α} {next : α → StateM σ β} {a : α} {b : β}
  {requests later : List Request}

theorem pure (result : α) : Asks log (pure result : StateM σ α) result [] := fun state =>
  ⟨rfl, by rw [List.append_nil]; rfl⟩

theorem perm (h : Asks log action a requests) (hperm : requests.Perm later) :
    Asks log action a later := fun state =>
  ⟨(h state).1, (h state).2.trans (hperm.append_left _)⟩

theorem bind (hfirst : Asks log first a requests) (hnext : Asks log (next a) b later) :
    Asks log (first >>= next) b (requests ++ later) := by
  intro state
  obtain ⟨hvalue, hlog⟩ := hfirst state
  obtain ⟨hvalue', hlog'⟩ := hnext (first state).2
  have hrun : (first >>= next) state = next a (first state).2 := by
    rw [← hvalue]
    rfl
  rw [hrun]
  refine ⟨hvalue', hlog'.trans ?_⟩
  rw [← List.append_assoc]
  exact hlog.append_right later

theorem map (h : Asks log action a requests) (f : α → β) :
    Asks log (do return f (← action)) (f a) requests := by
  have hbind : Asks log (action >>= fun a => Pure.pure (f a)) (f a) (requests ++ []) :=
    h.bind (.pure (f a))
  rwa [List.append_nil] at hbind

/-- What sends nothing can go first; it does not matter what comes of it. -/
theorem of_quiet (hquiet : ∀ state, log (first state).2 = log state)
    (hnext : ∀ a, Asks log (next a) b requests) : Asks log (first >>= next) b requests := by
  intro state
  have hlog := hnext (first state).1 (first state).2
  rw [hquiet] at hlog
  exact hlog

end Asks

/-! ## Requests that are answered -/

/-- A request can be sent and is answered, in every state, with a body that is read as this value;
and the log has it then. -/
structure Transport.Answers (transport : Transport (StateM σ)) (log : σ → List Request)
    (decoder : Json.Decoder α) (request : Request) (value : α) : Prop where
  sendable : request.refusal? = none
  answer : ∀ state, ∃ body, (transport.send request state).1 = .answer 200 body ∧
    decoder.read body = .ok value
  logged : ∀ state, log (transport.send request state).2 = log state ++ [request]

theorem Request.asks_perform {transport : Transport (StateM σ)} {decoder : Json.Decoder α}
    {request : Request} {value : α} (h : transport.Answers log decoder request value) (url : String) :
    Asks log (request.perform transport (decodeAnswer decoder url)) (.ok value) [request] := by
  intro state
  obtain ⟨body, hanswer, hread⟩ := h.answer state
  have hdecode : decodeAnswer decoder url body = .ok value := by
    rw [decodeAnswer, hread]
    rfl
  have hrun : request.perform transport (decodeAnswer decoder url) state =
      (outcome request.url.text (decodeAnswer decoder url) (transport.send request state).1,
        (transport.send request state).2) := by
    rw [perform, h.sendable]
    rfl
  rw [hrun, h.logged, hanswer]
  exact ⟨hdecode, .refl _⟩

/-- What succeeds at the first attempt is not repeated. -/
theorem asks_withRetry {policy : RetryPolicy} {wait : Nat → StateM σ Unit}
    {operation : StateM σ (Except Error α)} {value : α} {requests : List Request}
    (h : Asks log operation (.ok value) requests) :
    Asks log (withRetry policy wait operation) (.ok value) requests := by
  rw [withRetry, attempts, ← List.append_nil requests]
  exact h.bind (.pure _)

/-- The request for what is at an endpoint. -/
def Client.request (client : Client) (url : Endpoint) : Request := ⟨url, client.token⟩

theorem Client.asks_get {client : Client} {transport : Transport (StateM σ)}
    {decoder : Json.Decoder α} {url : Endpoint} {value : α}
    (h : transport.Answers log decoder (client.request url) value) :
    Asks log (client.get transport decoder url) (.ok value) [client.request url] :=
  asks_withRetry (Request.asks_perform h url.text)

/-! ## Pages -/

namespace Listing

/-- These items come on the pages from a page on, each of which is asked for by these requests. The
last page is the empty one, unless no more than so many pages are asked for. -/
inductive Feeds (log : σ → List Request) (page : Nat → StateM σ (Except Error (List β))) :
    (limit number : Nat) → List β → List Request → Prop where
  | spent {number : Nat} : Feeds log page 0 number [] []
  | last {limit number : Nat} {requests : List Request} :
      Asks log (page number) (.ok []) requests → Feeds log page (limit + 1) number [] requests
  | more {limit number : Nat} {items others : List β} {requests later : List Request} :
      items ≠ [] → Asks log (page number) (.ok items) requests →
      Feeds log page limit (number + 1) others later →
        Feeds log page (limit + 1) number (items ++ others) (requests ++ later)

variable {page : Nat → StateM σ (Except Error (List β))}

/-- Pages that are followed by an empty one. -/
theorem feeds_of_pages (page : Nat → StateM σ (Except Error (List β))) (request : Nat → Request)
    {pages : List (List β)} {limit : Nat} (hlimit : pages.length < limit) (hne : [] ∉ pages) (number : Nat)
    (hpages : ∀ i items, (pages ++ [[]])[i]? = some items →
      Asks log (page (number + i)) (.ok items) [request (number + i)]) :
    Feeds log page limit number pages.flatten
      ((List.range' number (pages.length + 1)).map request) := by
  induction pages generalizing limit number with
  | nil =>
    cases limit with
    | zero => cases hlimit
    | succ limit => exact .last (hpages 0 [] rfl)
  | cons items rest ih =>
    cases limit with
    | zero => cases hlimit
    | succ limit =>
      simp only [List.mem_cons, not_or] at hne
      have hrest := ih (Nat.lt_of_succ_lt_succ hlimit) hne.2 (number + 1) fun i others hi => by
        have hi' : (items :: rest ++ [[]])[i + 1]? = some others := hi
        rw [Nat.add_assoc, Nat.add_comm 1 i]
        exact hpages (i + 1) others hi'
      exact .more (Ne.symm hne.1) (hpages 0 items rfl) hrest

/-- A listing that comes on a single page. -/
theorem feeds_of_page (page : Nat → StateM σ (Except Error (List β))) (number : Nat)
    {items : List β} {requests : List Request}
    (hpage : Asks log (page number) (.ok items) requests) :
    Feeds log page 1 number items requests := by
  cases items with
  | nil => exact .last hpage
  | cons item rest =>
    have hfeeds : Feeds log page 1 number (item :: rest ++ []) (requests ++ []) :=
      .more (List.cons_ne_nil item rest) hpage .spent
    rwa [List.append_nil, List.append_nil] at hfeeds

theorem asks_ofPages {limit number : Nat} {items : List β} {requests : List Request}
    (h : Feeds log page limit number items requests) :
    Asks log (ofPages page limit number) ⟨items, none⟩ requests := by
  induction h with
  | spent => exact .pure _
  | @last limit number requests hpage =>
    rw [← List.append_nil requests]
    exact hpage.bind (.pure _)
  | @more limit number items others requests later hne hpage hrest ih =>
    refine hpage.bind ?_
    cases items with
    | nil => exact absurd rfl hne
    | cons item rest => exact ih.map (append ⟨item :: rest, none⟩)

end Listing

/-! ## Fetches under way -/

namespace Fetch

/-- What a fetch adds to the listing, if it adds something. -/
def found (find : β → Option α) : Fetch β α → Option α
  | .asked item => find item
  | .answered (.ok found) => found
  | .answered (.error _) => none

theorem open?_append (first second : List (Fetch β α)) :
    open? (first ++ second) = open? first ++ open? second := by
  induction first with
  | nil => rfl
  | cons fetch rest ih => cases fetch <;> simp only [List.cons_append, open?, ih]

theorem open?_asked (before rest : List (Fetch β α)) (item : β) :
    open? (before ++ .asked item :: rest) = open? before ++ item :: open? rest :=
  open?_append before (.asked item :: rest)

theorem open?_answered (before rest : List (Fetch β α)) (found : Except Error (Option α)) :
    open? (before ++ .answered found :: rest) = open? before ++ open? rest :=
  open?_append before (.answered found :: rest)

/-- The answer to a fetch does not change what there is to be found. -/
theorem filterMap_answered (find : β → Option α) (before rest : List (Fetch β α)) (item : β) :
    (before ++ .answered (.ok (find item)) :: rest).filterMap (found find) =
      (before ++ .asked item :: rest).filterMap (found find) := by
  simp only [List.filterMap_append, List.filterMap_cons, found]

/-- A fetch that has begun is open, is the oldest and has come to its end, or is behind another. -/
theorem eq_nil_of_oldest? {flight : List (Fetch β α)} (hold : oldest? flight = none)
    (hopen : open? flight = []) : flight = [] := by
  cases flight with
  | nil => rfl
  | cons fetch rest =>
    cases fetch with
    | asked item => cases hopen
    | answered found => cases hold

theorem open?_of_pick? {number : Nat} {flight : List (Fetch β α)} (h : pick? number flight = none) :
    open? flight = [] := by
  induction flight generalizing number with
  | nil => rfl
  | cons fetch rest ih =>
    cases fetch with
    | answered found => exact ih (Option.map_eq_none_iff.1 h)
    | asked item =>
      cases number with
      | zero => cases h
      | succ number =>
        simp only [pick?] at h
        split at h <;> cases h

end Fetch

namespace Listing

/-- Whichever request is answered next, what is found comes in the order of the items, and each of
them has been fetched once. The induction is on the computation; the agenda has the fetches under way
and those that are to follow them. -/
theorem asks_ofFetches {bound : Nat} {next : Nat → StateM σ Nat}
    {fetch : β → StateM σ (Except Error (Option α))} {page : Nat → StateM σ (Except Error (List β))}
    {limit number : Nat} {flight agenda : List (Fetch β α)} {waiting items : List β}
    {requests : List Request} (find : β → Option α) (request : β → Request) (hbound : 0 < bound)
    (hquiet : ∀ opened state, log (next opened state).2 = log state)
    (hfeeds : Feeds log page limit number items requests)
    (hagenda : agenda = flight ++ (waiting ++ items).map .asked)
    (hfetch : ∀ item ∈ Fetch.open? agenda, Asks log (fetch item) (.ok (find item)) [request item])
    (hfound : ∀ error, .answered (.error error) ∉ agenda) :
    Asks log (ofFetches bound next fetch page limit number flight waiting)
      ⟨agenda.filterMap (Fetch.found find), none⟩ ((Fetch.open? agenda).map request ++ requests) := by
  fun_induction ofFetches bound next fetch page limit number flight waiting
    generalizing agenda items requests with
  | case1 limit number flight waiting error rest hold =>
    obtain rfl := Fetch.eq_of_oldest? hold
    exact absurd (hagenda ▸ List.mem_cons_self) (hfound error)
  | case2 limit number flight waiting found rest hold ih =>
    obtain rfl := Fetch.eq_of_oldest? hold
    subst hagenda
    have hrest := ih hfeeds rfl hfetch fun error h => hfound error (List.mem_cons_of_mem _ h)
    have hall := hrest.map (append ⟨found.toList, none⟩)
    cases found <;> exact hall
  | case3 limit number flight waiting hold flight' waiting' hbegin ih =>
    obtain ⟨item, rfl, rfl⟩ := Fetch.eq_of_begin? hbegin
    exact ih hfeeds (by simpa using hagenda) hfetch hfound
  | case4 limit number flight waiting hold hbegin opened isFed ihlast =>
    rename_i ihpage ihfetch
    refine .of_quiet (hquiet _) fun choice => ?_
    split
    case isTrue hpage =>
      have hfed := Bool.and_eq_true_iff.1 hpage.1
      obtain rfl := List.isEmpty_iff.1 (Bool.and_eq_true_iff.1 hfed.1).1
      cases hfeeds with
      | spent => cases hfed.2
      | last hasks =>
        refine (hasks.bind (ihlast choice hpage .spent hagenda hfetch hfound)).perm ?_
        rw [List.append_nil]
        exact List.perm_append_comm
      | @more limit _ items others requests later hne hasks hrest =>
        cases items with
        | nil => exact absurd rfl hne
        | cons item rest =>
          refine (hasks.bind (ihpage choice hpage _ hrest hagenda hfetch hfound)).perm ?_
          exact List.perm_append_comm_assoc ..
    case isFalse hpage =>
      split
      · next before item after hpick =>
        obtain rfl := Fetch.eq_of_pick? hpick
        rw [List.append_assoc, List.cons_append] at hagenda
        generalize hrest : after ++ (waiting ++ items).map .asked = rest at hagenda
        subst hagenda
        have hbegun : before ++ .answered (.ok (find item)) :: rest =
            before ++ .answered (.ok (find item)) :: after ++ (waiting ++ items).map .asked := by
          rw [List.append_assoc, List.cons_append, hrest]
        have hopen : ∀ other ∈ Fetch.open? (before ++ .answered (.ok (find item)) :: rest),
            other ∈ Fetch.open? (before ++ .asked item :: rest) := by
          intro other hother
          rw [Fetch.open?_answered, List.mem_append] at hother
          rw [Fetch.open?_asked, List.mem_append, List.mem_cons]
          exact hother.imp_right .inr
        have hlater := ihfetch choice before item after hpick (.ok (find item)) hfeeds hbegun
          (fun other hother => hfetch other (hopen other hother))
          (fun error herror => hfound error (by simpa using herror))
        rw [Fetch.filterMap_answered] at hlater
        refine ((hfetch item (by simp [Fetch.open?_asked])).bind hlater).perm ?_
        rw [Fetch.open?_answered, Fetch.open?_asked, List.map_append, List.map_append, List.map_cons,
          List.append_assoc, List.append_assoc]
        exact List.perm_append_comm_assoc ..
      · next hpick =>
        obtain rfl := Fetch.eq_nil_of_oldest? hold (Fetch.open?_of_pick? hpick)
        have hroom : waiting.isEmpty = true := by
          cases waiting with
          | nil => rfl
          | cons item rest => simp [Fetch.begin?, hbound] at hbegin
        cases hfeeds with
        | spent =>
          obtain rfl := List.isEmpty_iff.1 hroom
          subst hagenda
          exact .pure _
        | last => exact absurd ⟨by simp [isFed, hroom, hbound], Nat.zero_le choice⟩ hpage
        | more => exact absurd ⟨by simp [isFed, hroom, hbound], Nat.zero_le choice⟩ hpage

end Listing

end SchemaClient
