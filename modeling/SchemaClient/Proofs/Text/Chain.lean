/-
SchemaClient.Proofs.Text.Chain — names with method calls behind them.

A chain is a name and the calls that follow it, `name.method(argument).method(argument)`. The name
ends at the first character that may not stand in one, a method at its opening bracket, and an
argument, whatever it contains, at the bracket that closes it. So a chain determines its name and its
calls, also where more text follows: all that is asked of this text is that it could not be read as a
part of the chain.

* `Link`, `Link.texts` — one call, and several.
* `Stops` — a text that does not continue a chain.
* `chain_append_inj` — a chain determines its name and its calls.
* `Link.givens_inj` — calls that are made only if there is an argument for them.
-/
import SchemaClient.Proofs.Text.Delimited
import SchemaClient.Proofs.Text.Identifier

namespace SchemaClient

/-- A method call. -/
structure Link where
  method : String
  argument : String
  deriving DecidableEq

namespace Link

/-- The call as it is written. -/
def text (link : Link) : String := "." ++ link.method ++ "(" ++ link.argument ++ ")"

/-- Calls as they are written, one after the other. -/
def texts : List Link → String
  | [] => ""
  | link :: rest => link.text ++ texts rest

/-- The name of the method has no bracket in it, and the argument closes every bracket it opens. -/
structure Sound (link : Link) : Prop where
  method : '(' ∉ link.method.toList
  argument : Whole link.argument

@[simp] theorem texts_nil : texts [] = "" := rfl

@[simp] theorem texts_cons (link : Link) (rest : List Link) :
    texts (link :: rest) = link.text ++ texts rest := rfl

theorem texts_append (first second : List Link) :
    texts (first ++ second) = texts first ++ texts second := by
  induction first with
  | nil => simp
  | cons link rest ih => rw [List.cons_append, texts_cons, texts_cons, ih, String.append_assoc]

theorem texts_singleton (link : Link) : texts [link] = link.text := String.append_empty

theorem toList_texts_cons (link : Link) (rest : List Link) (s : List Char) :
    (texts (link :: rest)).toList ++ s =
      '.' :: (link.method.toList ++ '(' :: (link.argument.toList ++
        ')' :: ((texts rest).toList ++ s))) := by
  simp [text, String.toList_append]

end Link

/-! ## Where a chain ends -/

/-- The text does not continue a chain: it begins neither with a character that may stand in a name
nor with the dot of a call. -/
def Stops (s : List Char) : Prop := ∀ c ∈ s.head?, Identifier.isPart c = false ∧ c ≠ '.'

theorem stops_nil : Stops [] := fun _ h => nomatch h

theorem stops_cons {c : Char} {s : List Char} (hpart : Identifier.isPart c = false)
    (hdot : c ≠ '.') : Stops (c :: s) := by
  intro d hd
  cases hd
  exact ⟨hpart, hdot⟩

/-- Calls determine each other, up to where no further call begins. -/
theorem Link.texts_append_inj {links others : List Link} {s t : List Char}
    (hlinks : ∀ link ∈ links, link.Sound) (hothers : ∀ link ∈ others, link.Sound)
    (hs : Stops s) (ht : Stops t) (h : (texts links).toList ++ s = (texts others).toList ++ t) :
    links = others ∧ s = t := by
  induction links generalizing others with
  | nil =>
    cases others with
    | nil => exact ⟨rfl, h⟩
    | cons other rest =>
      have hnone : (texts []).toList ++ s = s := rfl
      rw [toList_texts_cons, hnone] at h
      exact absurd rfl (hs '.' (by rw [h]; rfl)).2
  | cons link rest ih =>
    cases others with
    | nil =>
      have hnone : (texts []).toList ++ t = t := rfl
      rw [toList_texts_cons, hnone] at h
      exact absurd rfl (ht '.' (by rw [← h]; rfl)).2
    | cons other rest' =>
      obtain ⟨hmethod, hargument⟩ := hlinks link List.mem_cons_self
      obtain ⟨hmethod', hargument'⟩ := hothers other List.mem_cons_self
      rw [toList_texts_cons, toList_texts_cons] at h
      obtain ⟨hname, hbehind⟩ :=
        Identifier.append_mark_inj hmethod hmethod' (List.cons.inj h).2
      obtain ⟨hargs, hbehind⟩ := hargument.append_inj hargument' (by decide) hbehind
      obtain ⟨rfl, hs⟩ := ih (fun l hl => hlinks l (List.mem_cons_of_mem _ hl))
        (fun l hl => hothers l (List.mem_cons_of_mem _ hl)) hbehind
      obtain ⟨method, argument⟩ := link
      obtain ⟨method', argument'⟩ := other
      cases String.toList_inj.mp hname
      cases hargs
      exact ⟨rfl, hs⟩

/-- A longest run of characters of one class. -/
theorem run_append_inj {p : Char → Bool} {a b s t : List Char} (ha : ∀ c ∈ a, p c = true)
    (hb : ∀ c ∈ b, p c = true) (hs : ∀ c ∈ s.head?, p c = false) (ht : ∀ c ∈ t.head?, p c = false)
    (h : a ++ s = b ++ t) : a = b ∧ s = t := by
  have htake : ∀ {run rest : List Char}, (∀ c ∈ run, p c = true) →
      (∀ c ∈ rest.head?, p c = false) → (run ++ rest).takeWhile p = run := by
    intro run rest hrun hrest
    rw [List.takeWhile_append_of_pos hrun]
    cases rest with
    | nil => rw [List.takeWhile_nil, List.append_nil]
    | cons c rest => rw [List.takeWhile_cons_of_neg (by simp [hrest c rfl]), List.append_nil]
  have hsame : a = b := by rw [← htake ha hs, h, htake hb ht]
  subst hsame
  exact ⟨rfl, List.append_cancel_left h⟩

/-- What stands behind the name of a chain does not continue the name. -/
theorem Link.not_isPart_head {links : List Link} {s : List Char} (hs : Stops s) :
    ∀ c ∈ ((texts links).toList ++ s).head?, Identifier.isPart c = false := by
  cases links with
  | nil => exact fun c hc => (hs c hc).1
  | cons link rest =>
    intro c hc
    rw [toList_texts_cons] at hc
    cases hc
    decide

/-- A chain determines its name and its calls, whatever follows. -/
theorem chain_append_inj {name other : String} {links links' : List Link} {s t : List Char}
    (hname : ∀ c ∈ name.toList, Identifier.isPart c = true)
    (hother : ∀ c ∈ other.toList, Identifier.isPart c = true)
    (hlinks : ∀ link ∈ links, link.Sound) (hlinks' : ∀ link ∈ links', link.Sound)
    (hs : Stops s) (ht : Stops t)
    (h : (name ++ Link.texts links).toList ++ s = (other ++ Link.texts links').toList ++ t) :
    name = other ∧ links = links' ∧ s = t := by
  rw [String.toList_append, String.toList_append, List.append_assoc, List.append_assoc] at h
  obtain ⟨hnames, hbehind⟩ := run_append_inj hname hother (Link.not_isPart_head hs)
    (Link.not_isPart_head ht) h
  obtain ⟨hcalls, hrest⟩ := Link.texts_append_inj hlinks hlinks' hs ht hbehind
  exact ⟨String.toList_inj.mp hnames, hcalls, hrest⟩

/-! ## Optional calls -/

namespace Link

/-- The calls of methods that have an argument; a method without one is not called. -/
def givens : List (String × Option String) → List Link
  | [] => []
  | (_, none) :: rest => givens rest
  | (method, some argument) :: rest => ⟨method, argument⟩ :: givens rest

theorem method_of_mem_givens {calls : List (String × Option String)} {link : Link}
    (h : link ∈ givens calls) : (link.method, some link.argument) ∈ calls := by
  induction calls with
  | nil => cases h
  | cons call rest ih =>
    obtain ⟨method, argument⟩ := call
    cases argument with
    | none => exact List.mem_cons_of_mem _ (ih h)
    | some argument =>
      rcases List.mem_cons.mp h with rfl | h
      · exact List.mem_cons_self
      · exact List.mem_cons_of_mem _ (ih h)

/-- Calls of different methods in a fixed order determine which of them are made, and with which
arguments. -/
theorem givens_inj {calls others : List (String × Option String)}
    (hmethods : calls.map Prod.fst = others.map Prod.fst) (hnodup : (calls.map Prod.fst).Nodup)
    (h : givens calls = givens others) : calls = others := by
  induction calls generalizing others with
  | nil =>
    cases others with
    | nil => rfl
    | cons _ _ => cases hmethods
  | cons call rest ih =>
    cases others with
    | nil => cases hmethods
    | cons other rest' =>
      obtain ⟨method, argument⟩ := call
      obtain ⟨method', argument'⟩ := other
      obtain ⟨hmethod, hrests⟩ := List.cons.inj hmethods
      obtain ⟨hfirst, hdistinct⟩ := List.nodup_cons.mp hnodup
      cases hmethod
      -- a method is called at the head of the list or nowhere
      have habsent : ∀ (argument : String) {later : List (String × Option String)},
          later.map Prod.fst = rest.map Prod.fst → (⟨method, argument⟩ : Link) ∉ givens later := by
        intro argument later hlater hmem
        refine hfirst ?_
        rw [← hlater]
        exact List.mem_map.mpr ⟨_, method_of_mem_givens hmem, rfl⟩
      cases argument with
      | none =>
        cases argument' with
        | none => rw [ih hrests hdistinct h]
        | some argument' =>
          refine absurd ?_ (habsent argument' rfl)
          have hcalls : givens rest = ⟨method, argument'⟩ :: givens rest' := h
          rw [hcalls]
          exact List.mem_cons_self
      | some argument =>
        cases argument' with
        | none =>
          refine absurd ?_ (habsent argument hrests.symm)
          have hcalls : ⟨method, argument⟩ :: givens rest = givens rest' := h
          rw [← hcalls]
          exact List.mem_cons_self
        | some argument' =>
          obtain ⟨hsame, hrest⟩ := List.cons.inj h
          cases hsame
          rw [ih hrests hdistinct hrest]

/-- A call that may follow others is the last one if it is there, as no other is of its method. -/
theorem append_given_inj {method : String} {argument argument' : Option String}
    {links others : List Link} (hlinks : ∀ link ∈ links, link.method ≠ method)
    (hothers : ∀ link ∈ others, link.method ≠ method)
    (h : links ++ givens [(method, argument)] = others ++ givens [(method, argument')]) :
    links = others ∧ argument = argument' := by
  cases argument with
  | none =>
    cases argument' with
    | none => exact ⟨List.append_cancel_right h, rfl⟩
    | some argument' =>
      have hcalls : links = others ++ [⟨method, argument'⟩] := (List.append_nil links).symm.trans h
      exact absurd rfl (hlinks ⟨method, argument'⟩ (hcalls ▸ by simp))
  | some argument =>
    cases argument' with
    | none =>
      have hcalls : links ++ [⟨method, argument⟩] = others := h.trans (List.append_nil others)
      exact absurd rfl (hothers ⟨method, argument⟩ (hcalls ▸ by simp))
    | some argument' =>
      obtain ⟨hrest, hlast⟩ := List.append_inj' h rfl
      cases hlast
      exact ⟨hrest, rfl⟩

end Link

end SchemaClient
