/-
SchemaClient.Proofs.Validator.Determined — what an expression determines.

The expression of a canonical validator determines the name it begins with and its calls, whatever
follows it. So in a list of expressions, or among the keys of an object, each one ends where it does:
what stands between them could not be read as a part of either.

* `Validator.Named` — the names that another declaration may have.
* `Validator.Canonical.source_append_inj` — one expression.
* `Validator.sources_inj`, `Validator.shape_inj` — lists of them, and the keys of an object.
-/
import SchemaClient.Proofs.Text.Separated
import SchemaClient.Proofs.Validator.Spelling

namespace SchemaClient

namespace Validator

/-- A name that another declaration may have: an identifier, and not that of the library. -/
def Named (name : String) : Prop := Identifier.Valid name ∧ name ≠ "z"

theorem Named.whole {name : String} (h : Named name) : Whole name := h.1.whole

variable {v w : Validator} {s t : List Char}

namespace Canonical

theorem head_eq_z_or_named (h : Canonical Named v) : v.head = "z" ∨ Named v.head := by
  induction h with
  | ref hname => exact Or.inr hname
  | nullable _ _ _ ih => exact ih
  | described _ _ ih => exact ih
  | defaulted _ _ ih => exact ih
  | _ => exact Or.inl rfl

theorem isPart_head (h : Canonical Named v) : ∀ c ∈ v.head.toList, Identifier.isPart c = true := by
  rcases h.head_eq_z_or_named with hz | hnamed
  · intro c hc
    rw [hz] at hc
    rw [List.mem_singleton.mp hc]
    decide
  · exact hnamed.1.isPart

theorem source_ne_empty (h : Canonical Named v) : v.source ≠ "" := by
  intro hempty
  rw [h.source_eq, String.append_eq_empty_iff] at hempty
  rcases h.head_eq_z_or_named with hz | hnamed
  · rw [hz] at hempty
    exact absurd hempty.1 (by decide)
  · exact hnamed.1.nonempty hempty.1

/-- A mark behind an expression is a further call, if it is there. -/
theorem marked_append_inj {mark mark' : Option String} (hv : Canonical Named v)
    (hw : Canonical Named w) (hmark : ∀ argument ∈ mark, Whole argument)
    (hmark' : ∀ argument ∈ mark', Whole argument) (hs : Stops s) (ht : Stops t)
    (h : (v.source ++ Link.texts (Link.givens [("optional", mark)])).toList ++ s =
      (w.source ++ Link.texts (Link.givens [("optional", mark')])).toList ++ t) :
    v.head = w.head ∧ v.links = w.links ∧ mark = mark' ∧ s = t := by
  have hsound : ∀ {v : Validator} {mark : Option String}, Canonical Named v →
      (∀ argument ∈ mark, Whole argument) →
        ∀ link ∈ v.links ++ Link.givens [("optional", mark)], link.Sound := by
    intro v mark hv hmark link hlink
    rcases List.mem_append.mp hlink with hlink | hlink
    · exact hv.sound_links (fun _ => Named.whole) link hlink
    · have hgiven := Link.method_of_mem_givens hlink
      obtain ⟨hmethod, hargument⟩ := Prod.mk.inj (List.mem_singleton.mp hgiven)
      exact ⟨by rw [hmethod]; decide, hmark _ hargument.symm⟩
  rw [hv.source_eq, hw.source_eq, String.append_assoc, String.append_assoc, ← Link.texts_append,
    ← Link.texts_append] at h
  obtain ⟨hhead, hlinks, hrest⟩ := chain_append_inj hv.isPart_head hw.isPart_head
    (hsound hv hmark) (hsound hw hmark') hs ht h
  obtain ⟨hcalls, hmarks⟩ := Link.append_given_inj hv.method_ne_optional hw.method_ne_optional hlinks
  exact ⟨hhead, hcalls, hmarks, hrest⟩

/-- The expression of a canonical validator determines what it begins with and all its calls,
whatever follows. -/
theorem source_append_inj (hv : Canonical Named v) (hw : Canonical Named w) (hs : Stops s)
    (ht : Stops t) (h : v.source.toList ++ s = w.source.toList ++ t) :
    v.head = w.head ∧ v.links = w.links ∧ s = t := by
  have hnone : ∀ argument ∈ (none : Option String), Whole argument := fun _ h => nomatch h
  obtain ⟨hhead, hlinks, -, hrest⟩ := marked_append_inj hv hw hnone hnone hs ht
    (by simpa only [Link.givens, Link.texts_nil, String.append_empty] using h)
  exact ⟨hhead, hlinks, hrest⟩

theorem source_congr (hv : Canonical Named v) (hw : Canonical Named w) (hhead : v.head = w.head)
    (hlinks : v.links = w.links) : v.source = w.source := by
  rw [hv.source_eq, hw.source_eq, hhead, hlinks]

end Canonical

/-! ## Lists -/

/-- Expressions are separated by commas. -/
theorem sources_eq (vs : List Validator) : sources vs = String.intercalate ", " (vs.map source) := by
  have hcons : ∀ (v : Validator) (vs : List Validator),
      v.source ++ moreSources vs = String.intercalate ", " ((v :: vs).map source) := by
    intro v vs
    induction vs generalizing v with
    | nil => rw [moreSources, List.map_singleton, String.intercalate_singleton, String.append_empty]
    | cons next rest ih =>
      rw [moreSources_cons, String.append_assoc, ih next]
      simp only [List.map_cons, String.intercalate_cons_cons, String.append_assoc]
  cases vs with
  | nil => exact String.intercalate_nil.symm
  | cons v vs => exact hcons v vs

variable {vs ws : List Validator}

/-- The expressions in a list are determined by the list. -/
theorem sources_inj (hvs : ∀ v ∈ vs, Canonical Named v) (hws : ∀ w ∈ ws, Canonical Named w)
    (h : sources vs = sources ws) : vs.map source = ws.map source := by
  rw [sources_eq, sources_eq] at h
  refine intercalate_inj (fun v hv w hw s t hs ht heq => ?_) (fun v hv => (hvs v hv).source_ne_empty)
    (fun w hw => (hws w hw).source_ne_empty) h
  obtain ⟨hhead, hlinks, hrest⟩ := (hvs v hv).source_append_inj (hws w hw) hs ht heq
  exact ⟨(hvs v hv).source_congr (hws w hw) hhead hlinks, hrest⟩

/-- Two expressions with a comma between them. -/
theorem pair_inj {v' w' : Validator} (hv : Canonical Named v) (hw : Canonical Named w)
    (h : v.source ++ ", " ++ v'.source = w.source ++ ", " ++ w'.source) :
    v.source = w.source ∧ v'.source = w'.source := by
  have hlists := congrArg String.toList h
  simp only [String.append_assoc, String.toList_append] at hlists
  obtain ⟨hhead, hlinks, hrest⟩ := hv.source_append_inj hw (stops_comma _) (stops_comma _) hlists
  exact ⟨hv.source_congr hw hhead hlinks, String.toList_inj.mp (List.append_cancel_left hrest)⟩

/-! ## The keys of an object -/

/-- The argument of the call that marks a property whose key may be missing. -/
def mark? (property : Property Validator) : Option String :=
  if !property.required && !property.validator.hasDefault then some "" else none

theorem optionalMark_eq (property : Property Validator) :
    optionalMark property = Link.texts (Link.givens [("optional", mark? property)]) := by
  unfold optionalMark mark?
  split <;> rfl

theorem whole_mark {property : Property Validator} :
    ∀ argument ∈ mark? property, Whole argument := by
  intro argument hargument
  unfold mark? at hargument
  split at hargument
  · cases hargument
    exact Leads.empty []
  · cases hargument

/-- What is written of a property: its key, the expression of its value, and the mark. -/
structure Entry where
  key : String
  source : String
  mark? : Option String

def Entry.text (entry : Entry) : String :=
  quote entry.key ++ ": " ++ (entry.source ++ Link.texts (Link.givens [("optional", entry.mark?)]))

def entry (property : Property Validator) : Entry :=
  ⟨property.name, property.validator.source, mark? property⟩

/-- The keys of an object, as they are written. -/
def Entry.shape : List Entry → String
  | [] => "{}"
  | first :: rest => "\x7b " ++ (String.intercalate ", " ((first :: rest).map text) ++ " \x7d")

theorem Entry.shape_ne_shape_nil (first : Entry) (rest : List Entry) :
    shape (first :: rest) ≠ shape [] := by
  intro h
  have hlist := congrArg String.toList h
  rw [shape, shape, String.toList_append] at hlist
  exact absurd (List.cons.inj (List.cons.inj hlist).2).1 (by decide)

theorem shape_eq (properties : List (Property Validator)) :
    shape properties = Entry.shape (properties.map entry) := by
  have hcons : ∀ (p : Property Validator) (ps : List (Property Validator)),
      (entry p).text ++ moreShape ps =
        String.intercalate ", " (((p :: ps).map entry).map Entry.text) ++ " \x7d" := by
    intro p ps
    induction ps generalizing p with
    | nil => rw [moreShape, List.map_singleton, List.map_singleton, String.intercalate_singleton]
    | cons next rest ih =>
      have hnext : moreShape (next :: rest) = ", " ++ ((entry next).text ++ moreShape rest) := by
        rw [moreShape_cons, optionalMark_eq]
        simp only [entry, Entry.text, String.append_assoc]
      rw [hnext, ih next]
      simp only [List.map_cons, String.intercalate_cons_cons, String.append_assoc]
  cases properties with
  | nil => rfl
  | cons p ps =>
    have hshape := hcons p ps
    rw [List.map_cons] at hshape
    rw [List.map_cons, Entry.shape, ← hshape, shape_cons, optionalMark_eq]
    simp only [entry, Entry.text, String.append_assoc]

variable {p q : Property Validator} {ps qs : List (Property Validator)}

/-- A key with its expression and its mark is determined, whatever follows it. -/
theorem apart_entry (hp : Canonical Named p.validator) (hq : Canonical Named q.validator) :
    Apart (fun p => (entry p).text) entry p q := by
  intro s t hs ht h
  simp only [Entry.text, String.append_assoc, String.toList_append, List.append_assoc] at h
  obtain ⟨hname, hbehind⟩ := quote_append_inj h
  have hvalue := List.append_cancel_left hbehind
  rw [← List.append_assoc, ← List.append_assoc, ← String.toList_append, ← String.toList_append]
    at hvalue
  obtain ⟨hhead, hlinks, hmark, hrest⟩ :=
    hp.marked_append_inj hq whole_mark whole_mark hs ht hvalue
  exact ⟨Entry.mk.injEq .. ▸ ⟨hname, hp.source_congr hq hhead hlinks, hmark⟩, hrest⟩

/-- The keys of an object are determined, each with its expression and its mark. -/
theorem shape_inj (hps : ∀ p ∈ ps, Canonical Named p.validator)
    (hqs : ∀ q ∈ qs, Canonical Named q.validator) (h : shape ps = shape qs) :
    ps.map entry = qs.map entry := by
  have hclose : Ends " \x7d".toList := ⟨stops_cons (by decide) (by decide), by decide⟩
  rw [shape_eq, shape_eq] at h
  cases ps with
  | nil =>
    cases qs with
    | nil => rfl
    | cons q qs => exact absurd h.symm (Entry.shape_ne_shape_nil _ _)
  | cons p ps =>
    cases qs with
    | nil => exact absurd h (Entry.shape_ne_shape_nil _ _)
    | cons q qs =>
      have hentries := congrArg String.toList ((String.append_right_inj _).mp h)
      rw [String.toList_append, String.toList_append, ← List.map_cons, ← List.map_cons,
        List.map_map, List.map_map] at hentries
      exact (intercalate_append_inj (fun p hp q hq => apart_entry (hps p hp) (hqs q hq)) hclose
        hclose hentries).1

/-! ## Constants in expressions -/

theorem sizeText_injective {m n : Nat} (h : sizeText m = sizeText n) : m = n := by
  have hdigits : digitsOf m = digitsOf n := by
    have hlists := congrArg String.toList h
    rwa [sizeText, sizeText, String.toList_ofList, String.toList_ofList] at hlists
  have hvalue : ∀ n, Nat.ofDigitChars 10 (digitsOf n) 0 = n := fun n =>
    Nat.ofDigitChars_toDigits (by decide) (by decide)
  rw [← hvalue m, hdigits, hvalue]

theorem regex_injective {a b : String}
    (h : "new RegExp(" ++ quote a ++ ")" = "new RegExp(" ++ quote b ++ ")") : a = b := by
  have hlists := congrArg String.toList h
  simp only [String.append_assoc, String.toList_append] at hlists
  exact (quote_append_inj (List.append_cancel_left hlists)).1

theorem formatMethod_injective {f g : Option TextFormat} (h : formatMethod f = formatMethod g) :
    f = g := by
  rcases f with - | (_ | _ | _ | _ | _ | _) <;> rcases g with - | (_ | _ | _ | _ | _ | _) <;>
    first | rfl | exact absurd h (by decide)

/-- Quoted texts with commas between them. -/
theorem members_injective {ms ns : List String}
    (h : String.intercalate ", " (ms.map quote) = String.intercalate ", " (ns.map quote)) :
    ms = ns := by
  have hne : ∀ text : String, quote text ≠ "" := by
    intro text hempty
    exact absurd (congrArg String.toList hempty) (by simp [toList_quote])
  have hmembers := intercalate_inj (fun _ _ _ _ _ _ _ _ => quote_append_inj) (fun m _ => hne m)
    (fun n _ => hne n) h
  rwa [List.map_id', List.map_id'] at hmembers

end Validator

end SchemaClient
