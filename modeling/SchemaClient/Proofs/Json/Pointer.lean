/-
SchemaClient.Proofs.Json.Pointer — the place that a pointer stands for.

As text a pointer is a location: a step follows each slash, and in a step a tilde only occurs where
one of two characters is escaped. Whoever reads a location by these rules alone gets back the steps
that it was written for, whatever characters the keys have, and also when a key is empty.

* `Pointer.ofText?` — the steps of a location.
* `Pointer.ofText?_text` — the text of a pointer is read as this pointer.
* `Pointer.text_injective` — so it tells the pointer apart from every other.
* `Json.LeadsTo` — a pointer leads from a value to a place inside it.
* `Json.LeadsTo.unique` — when no object has a key twice, a pointer leads to one place at most.
* `Json.Resolves` — a location leads to a place in a document.
-/
import Mathlib.Data.List.Nodup
import SchemaClient.Json.Basic
import SchemaClient.Text.Parts

namespace SchemaClient

namespace Pointer

/-! ## Steps -/

theorem escape_cons (c : Char) (step : List Char) :
    escape (c :: step) = escape [c] ++ escape step := by
  simp [escape]

/-- The three ways to write a character. -/
theorem escape_singleton (c : Char) :
    (escape [c] = ['~', '0'] ∧ c = '~') ∨ (escape [c] = ['~', '1'] ∧ c = '/') ∨
      (escape [c] = [c] ∧ c ≠ '~' ∧ c ≠ '/') := by
  unfold escape
  rw [List.flatMap_singleton]
  split
  · exact Or.inl ⟨rfl, ‹_›⟩
  · split
    · exact Or.inr (Or.inl ⟨rfl, ‹_›⟩)
    · exact Or.inr (Or.inr ⟨rfl, ‹_›, ‹_›⟩)

/-- Read an escaped step. A tilde that escapes neither of the two characters is an error. -/
def unescape? : List Char → Option (List Char)
  | [] => some []
  | '~' :: '0' :: rest => (unescape? rest).map ('~' :: ·)
  | '~' :: '1' :: rest => (unescape? rest).map ('/' :: ·)
  | c :: rest => if c = '~' then none else (unescape? rest).map (c :: ·)

theorem unescape?_escape (step : List Char) : unescape? (escape step) = some step := by
  induction step with
  | nil => rfl
  | cons c rest ih =>
    rw [escape_cons]
    rcases escape_singleton c with ⟨hc, rfl⟩ | ⟨hc, rfl⟩ | ⟨hc, htilde, -⟩ <;> rw [hc]
    · simp [unescape?, ih]
    · simp [unescape?, ih]
    · simp [unescape?, ih, htilde]

theorem not_mem_escape (step : List Char) : '/' ∉ escape step := by
  intro h
  obtain ⟨c, -, hc⟩ := List.mem_flatMap.mp h
  split at hc
  · simp at hc
  · split at hc
    · simp at hc
    · rename_i hslash
      exact hslash (List.mem_singleton.mp hc).symm

/-- A position in a list can be read off its step. -/
theorem position_inj {i j : Nat} (h : toString i = toString j) : i = j := by
  have hdigits : Nat.toDigits 10 i = Nat.toDigits 10 j := by
    simpa only [Nat.toString_eq_repr, Nat.toList_repr] using congrArg String.toList h
  have hnumbers := congrArg (Nat.ofDigitChars 10 · 0) hdigits
  simpa only [Nat.ofDigitChars_toDigits (by decide : 1 < 10) (by decide)] using hnumbers

/-! ## Locations -/

/-- The steps from the root of a document to a place in it. -/
def ofText? (location : String) : Option Pointer :=
  match partsAt (· == '/') location.toList with
  | ['#'] :: steps => steps.mapM fun step => (unescape? step).map String.ofList
  | _ => none

/-- A text without slashes, and behind it the steps of a pointer. -/
theorem partsAt_steps {first : List Char} (hfirst : '/' ∉ first) (pointer : Pointer) :
    partsAt (· == '/') (first ++ pointer.flatMap fun step => '/' :: escape step.toList) =
      first :: pointer.map fun step => escape step.toList := by
  have hpart {part : List Char} (h : '/' ∉ part) : partsAt (· == '/') part = [part] :=
    partsAt_of_not_mark fun c hc => by simpa using fun heq : c = '/' => h (heq ▸ hc)
  induction pointer generalizing first with
  | nil => simpa using hpart hfirst
  | cons step rest ih =>
    rw [List.flatMap_cons, List.cons_append, partsAt_append_mark (by decide), hpart hfirst,
      ih (not_mem_escape _), List.map_cons, List.singleton_append]

theorem mapM_unescape (pointer : Pointer) :
    (pointer.map fun step => escape step.toList).mapM
      (fun step => (unescape? step).map String.ofList) = some pointer := by
  induction pointer with
  | nil => rfl
  | cons step rest ih =>
    rw [List.map_cons, List.mapM_cons, ih, unescape?_escape, Option.map_some, String.ofList_toList]
    rfl

/-- The text of a pointer is read as this pointer. -/
theorem ofText?_text (pointer : Pointer) : ofText? pointer.text = some pointer := by
  have hroot : '/' ∉ ['#'] := by decide
  rw [ofText?, text, String.toList_ofList, ← List.singleton_append, partsAt_steps hroot]
  exact mapM_unescape pointer

/-- Keys with a slash and a tilde, and an empty one. -/
example : ofText? "#/properties/a~1b~0/items/0/" =
    some ["properties", "a/b~", "items", "0", ""] := by decide

/-- The text of a pointer tells it apart from every other. -/
theorem text_injective {pointer pointer' : Pointer} (h : pointer.text = pointer'.text) :
    pointer = pointer' :=
  Option.some.inj ((ofText?_text pointer).symm.trans (h ▸ ofText?_text pointer'))

end Pointer

namespace Table

theorem mem_of_find? {α : Type} {table : Table α} {name : String} {value : α}
    (h : find? table name = some value) : (name, value) ∈ table := by
  induction table with
  | nil => cases h
  | cons first rest ih =>
    obtain ⟨other, found⟩ := first
    rw [find?] at h
    split at h
    · cases h
      subst other
      exact List.mem_cons_self
    · exact List.mem_cons_of_mem _ (ih h)

end Table

namespace Json

/-! ## Places in a value -/

/-- A pointer leads from a value to a place inside it: at each step to what stands under that key of
an object, or at that position of a list. -/
inductive LeadsTo : Json → Pointer → Json → Prop where
  | here {json : Json} : LeadsTo json [] json
  | entry {entries : Entries} {key : String} {value found : Json} {rest : Pointer} :
      (key, value) ∈ entries → LeadsTo value rest found → LeadsTo (.obj entries) (key :: rest) found
  | item {items : List Json} {i : Nat} {value found : Json} {rest : Pointer} :
      items[i]? = some value → LeadsTo value rest found →
        LeadsTo (.arr items) (toString i :: rest) found

theorem LeadsTo.append {json middle found : Json} {pointer rest : Pointer}
    (h : LeadsTo json pointer middle) (h' : LeadsTo middle rest found) :
    LeadsTo json (pointer ++ rest) found := by
  induction h with
  | here => exact h'
  | entry hmem _ ih => exact .entry hmem (ih h')
  | item hitem _ ih => exact .item hitem (ih h')

/-- No object in the value has a key twice. -/
def Distinct (json : Json) : Prop :=
  ∀ pointer entries, LeadsTo json pointer (.obj entries) → (Table.names entries).Nodup

theorem distinct_arr_iff {items : List Json} :
    (Json.arr items).Distinct ↔ ∀ item ∈ items, item.Distinct := by
  constructor
  · intro h item hitem pointer entries hleads
    obtain ⟨i, hi⟩ := List.getElem?_of_mem hitem
    exact h _ _ (.item hi hleads)
  · intro h pointer entries hleads
    cases hleads with
    | item hi hleads => exact h _ (List.mem_of_getElem? hi) _ _ hleads

theorem distinct_obj_iff {entries : Entries} :
    (Json.obj entries).Distinct ↔
      (Table.names entries).Nodup ∧ ∀ entry ∈ entries, entry.2.Distinct := by
  constructor
  · intro h
    refine ⟨h [] entries .here, fun (key, value) hentry pointer inner hleads => ?_⟩
    exact h _ _ (.entry hentry hleads)
  · rintro ⟨hnodup, hall⟩ pointer inner hleads
    cases hleads with
    | here => exact hnodup
    | entry hmem hleads => exact hall _ hmem _ _ hleads

/-- A value that is neither a list nor an object has no key at all. -/
theorem distinct_scalar {json : Json} (hitems : json.asArray? = none)
    (hentries : json.asObject? = none) : json.Distinct := by
  intro pointer entries hleads
  cases hleads with
  | here => cases hentries
  | entry => cases hentries
  | item => cases hitems

/-- When no object has a key twice, a pointer leads to one place at most. -/
theorem LeadsTo.unique {json found found' : Json} {pointer : Pointer} (hdistinct : json.Distinct)
    (h : LeadsTo json pointer found) (h' : LeadsTo json pointer found') : found = found' := by
  induction h with
  | here =>
    cases h'
    rfl
  | @entry entries key value _ rest hmem _ ih =>
    cases h' with
    | @entry _ _ value' _ _ hmem' hrest' =>
      have hsame := List.inj_on_of_nodup_map (hdistinct [] entries .here) hmem hmem' rfl
      obtain rfl : value = value' := congrArg Prod.snd hsame
      exact ih (fun pointer entries hleads => hdistinct _ _ (.entry hmem hleads)) hrest'
  | @item items i value _ rest hitem _ ih =>
    generalize hstep : toString i :: rest = steps at h'
    cases h' with
    | here => cases hstep
    | @item _ j value' _ _ hitem' hrest' =>
      obtain ⟨hindex, rfl⟩ := List.cons.inj hstep
      obtain rfl : i = j := Pointer.position_inj hindex
      obtain rfl : value = value' := Option.some.inj (hitem.symm.trans hitem')
      exact ih (fun pointer entries hleads => hdistinct _ _ (.item hitem hleads)) hrest'

/-- A location leads to a place in a document. -/
def Resolves (json : Json) (location : String) (found : Json) : Prop :=
  ∃ pointer, Pointer.ofText? location = some pointer ∧ json.LeadsTo pointer found

theorem LeadsTo.resolves {json found : Json} {pointer : Pointer} (h : json.LeadsTo pointer found) :
    json.Resolves pointer.text found := ⟨pointer, Pointer.ofText?_text pointer, h⟩

/-- When no object has a key twice, a location leads to one place at most. -/
theorem Resolves.unique {json found other : Json} {location : String} (hdistinct : json.Distinct)
    (h : json.Resolves location found) (h' : json.Resolves location other) : found = other := by
  obtain ⟨pointer, hpointer, hleads⟩ := h
  obtain ⟨pointer', hpointer', hleads'⟩ := h'
  obtain rfl : pointer = pointer' := Option.some.inj (hpointer.symm.trans hpointer')
  exact hleads.unique hdistinct hleads'

end Json

end SchemaClient
