/-
SchemaClient.Catalog.Listing — listings that are put together from several answers.

A listing may come in pages, which are asked for one after the other until one is empty. If there is
more to fetch for each of its items, that is done for several items at a time: new fetches begin as
long as there is room, and a page is asked for while the fetches for the one before are under way.
Which of the open requests is answered next is up to the network; what is found is handed on in the
order of the listing all the same.

* `Listing.ofPages` — the items of all pages, up to the first failure.
* `Fetch` — a fetch that has begun and whose turn to be handed on has not come.
* `Listing.ofFetches` — what is fetched for the items of all pages, up to the first failure.
-/
import SchemaClient.Catalog.Basic

namespace SchemaClient

namespace Listing

variable {α : Type}

/-- What two listings yield one after the other, if the first has not failed. -/
def append (first second : Listing α) : Listing α :=
  match first.failure with
  | some _ => first
  | none => ⟨first.items ++ second.items, second.failure⟩

/-- A listing of nothing but a failure. -/
def failed (error : Error) : Listing α := ⟨[], some error⟩

variable {m : Type → Type} [Monad m]

/-- The items of at most `limit` pages from a page on, until a page is empty or cannot be had. -/
def ofPages (page : Nat → m (Except Error (List α))) : (limit number : Nat) → m (Listing α)
  | 0, _ => return ⟨[], none⟩
  | limit + 1, number => do
    match ← page number with
    | .error error => return .failed error
    | .ok [] => return ⟨[], none⟩
    | .ok items => return (⟨items, none⟩ : Listing α).append (← ofPages page limit (number + 1))

end Listing

/-! ## Fetches under way -/

/-- A fetch for an item that has begun. -/
inductive Fetch (β α : Type) where
  | asked (item : β)
  /-- It has come to its end, but others that began earlier have not. -/
  | answered (found : Except Error (Option α))

namespace Fetch

variable {β α : Type}

/-- The items that have been asked for without an answer. -/
def open? : List (Fetch β α) → List β
  | [] => []
  | .asked item :: rest => item :: open? rest
  | .answered _ :: rest => open? rest

/-- What the oldest fetch has found, if it has come to its end, and the others. -/
def oldest? : List (Fetch β α) → Option (Except Error (Option α) × List (Fetch β α))
  | .answered found :: rest => some (found, rest)
  | _ => none

/-- The next of the items that wait joins the fetches, if there is one and there is room for it. -/
def begin? (bound : Nat) (flight : List (Fetch β α)) :
    List β → Option (List (Fetch β α) × List β)
  | [] => none
  | item :: rest => if flight.length < bound then some (flight ++ [.asked item], rest) else none

/-- The open fetch of a number, or the last one: its item, and the fetches before and after it. -/
def pick? (number : Nat) : List (Fetch β α) → Option (List (Fetch β α) × β × List (Fetch β α))
  | [] => none
  | .answered found :: rest =>
    (pick? number rest).map fun (before, item, after) => (.answered found :: before, item, after)
  | .asked item :: rest =>
    match number with
    | 0 => some ([], item, rest)
    | number + 1 =>
      match pick? number rest with
      | some (before, other, after) => some (.asked item :: before, other, after)
      | none => some ([], item, rest)

/-- How much there is left to do for fetches: to be answered and to be handed on. -/
def load : List (Fetch β α) → Nat
  | [] => 0
  | .asked _ :: rest => load rest + 2
  | .answered _ :: rest => load rest + 1

theorem load_append (first second : List (Fetch β α)) :
    load (first ++ second) = load first + load second := by
  induction first with
  | nil => simp [load]
  | cons fetch rest ih => cases fetch <;> simp only [List.cons_append, load, ih] <;> omega

theorem eq_of_oldest? {flight rest : List (Fetch β α)} {found : Except Error (Option α)}
    (h : oldest? flight = some (found, rest)) : flight = .answered found :: rest := by
  unfold oldest? at h
  split at h
  · cases h; rfl
  · cases h

theorem eq_of_begin? {bound : Nat} {flight flight' : List (Fetch β α)} {waiting waiting' : List β}
    (h : begin? bound flight waiting = some (flight', waiting')) :
    ∃ item, waiting = item :: waiting' ∧ flight' = flight ++ [.asked item] := by
  cases waiting with
  | nil => cases h
  | cons item rest =>
    simp only [begin?] at h
    split at h
    · cases h; exact ⟨item, rfl, rfl⟩
    · cases h

theorem eq_of_pick? {number : Nat} {flight before after : List (Fetch β α)} {item : β}
    (h : pick? number flight = some (before, item, after)) :
    flight = before ++ .asked item :: after := by
  induction flight generalizing number before with
  | nil => cases h
  | cons fetch rest ih =>
    cases fetch with
    | answered found =>
      obtain ⟨⟨before', item', after'⟩, hrest, heq⟩ := Option.map_eq_some_iff.1 h
      cases heq
      rw [ih hrest, List.cons_append]
    | asked other =>
      cases number with
      | zero => cases h; rfl
      | succ number =>
        simp only [pick?] at h
        split at h
        · next hrest => cases h; rw [ih hrest, List.cons_append]
        · cases h; rfl

end Fetch

namespace Listing

variable {β α : Type} {m : Type → Type} [Monad m]

/-- What is fetched for items, from a state in which `flight` has the fetches that have begun, the
oldest first, and `waiting` the items of the page at hand that are to follow them. No more than
`bound` fetches are under way at a time. At most `limit` more pages are asked for, the next of which
has the number `number`; it is asked for once no item waits and there is room for one. -/
def ofFetches (bound : Nat) (next : Nat → m Nat) (fetch : β → m (Except Error (Option α)))
    (page : Nat → m (Except Error (List β))) (limit number : Nat) (flight : List (Fetch β α))
    (waiting : List β) : m (Listing α) :=
  match _ : Fetch.oldest? flight with
  | some (.error error, _) => return .failed error
  | some (.ok found, rest) => do
    return (⟨found.toList, none⟩ : Listing α).append
      (← ofFetches bound next fetch page limit number rest waiting)
  | none =>
    match _ : Fetch.begin? bound flight waiting with
    | some (flight', waiting') => ofFetches bound next fetch page limit number flight' waiting'
    | none => do
      let opened := (Fetch.open? flight).length
      let isFed := waiting.isEmpty && flight.length < bound && 0 < limit
      let choice ← next (if isFed then opened + 1 else opened)
      if _ : isFed ∧ opened ≤ choice then
        match ← page number with
        | .error error => return .failed error
        | .ok [] => ofFetches bound next fetch page 0 number flight waiting
        | .ok items => ofFetches bound next fetch page (limit - 1) (number + 1) flight items
      else
        match _ : Fetch.pick? choice flight with
        | some (before, item, after) =>
          let found ← fetch item
          ofFetches bound next fetch page limit number (before ++ .answered found :: after) waiting
        | none => return ⟨[], none⟩
termination_by (limit, 3 * waiting.length + Fetch.load flight)
decreasing_by
  · have hflight := Fetch.eq_of_oldest? ‹_›
    rw [hflight]
    apply Prod.Lex.right
    simp only [Fetch.load]
    omega
  · obtain ⟨item, rfl, rfl⟩ := Fetch.eq_of_begin? ‹_›
    apply Prod.Lex.right
    simp only [Fetch.load_append, Fetch.load, List.length_cons]
    omega
  · have ⟨hfed, _⟩ := ‹isFed = true ∧ opened ≤ choice›
    exact Prod.Lex.left _ _ (of_decide_eq_true (Bool.and_eq_true_iff.1 hfed).2)
  · have ⟨hfed, _⟩ := ‹isFed = true ∧ opened ≤ choice›
    exact Prod.Lex.left _ _ (Nat.sub_one_lt_of_lt (of_decide_eq_true (Bool.and_eq_true_iff.1 hfed).2))
  · have hflight := Fetch.eq_of_pick? ‹_›
    rw [hflight]
    apply Prod.Lex.right
    simp only [Fetch.load_append, Fetch.load]
    omega

end Listing

end SchemaClient
