/-
SchemaClient.Proofs.Json.Objects — objects of texts are read as they are written.

An object whose values are texts is written as its keys and values, quoted. A record reads it entry by
entry: a key that is the name of a field, then the text that the field takes.

* `Json.Decoder.recordEntry_text` — reading one entry.
* `Json.Decoder.record_texts` — reading all of them, whatever follows the object.
-/
import SchemaClient.Json.Decoder
import SchemaClient.Json.Printer
import SchemaClient.Proofs.Json.Strings

namespace SchemaClient

namespace Json

open Reader

/-! ## The next byte -/

theorem Reader.peekWord?_cons {b : UInt8} (h : isBlank b = false) (rest : Bytes) :
    peekWord? (b :: rest) = .ok (some b, b :: rest) := by
  have htake : takeWhile isBlank (b :: rest) = .ok ([], b :: rest) := by
    rw [takeWhile, List.takeWhile_cons, List.dropWhile_cons, h]
    rfl
  rw [peekWord?, bind_of_ok htake]
  rfl

namespace Decoder

variable {rest : Bytes}

theorem start_cons {b : UInt8} (h : Reader.isBlank b = false) (rest : Bytes) :
    start (b :: rest) = .ok (b, b :: rest) := by
  rw [start, bind_of_ok (peekWord?_cons h rest)]
  rfl

theorem text_quote (depth : Nat) (value : String) (rest : Bytes) :
    text depth (Utf8.encode (quote value) ++ rest) = .ok (value, rest) := by
  obtain ⟨more, hbytes, hread⟩ := encode_quote value
  rw [hbytes, List.cons_append, text, bind_of_ok (start_cons (by decide) _), if_pos rfl,
    bind_of_ok (skip_cons _ _), hread]

/-! ## Entries -/

theorem keyFollows_first (key : String) (rest : Bytes) :
    keyFollows true (Utf8.encode (quote key) ++ rest) =
      .ok (true, Utf8.encode (quote key) ++ rest) := by
  obtain ⟨more, hbytes, -⟩ := encode_quote key
  have hbrace : byte '"' ≠ byte '}' := by decide
  rw [hbytes, List.cons_append, keyFollows, bind_of_ok (peekWord?_cons (by decide) _)]
  simp only [if_neg hbrace, if_true]
  rfl

theorem keyFollows_next (key : String) (rest : Bytes) :
    keyFollows false (byte ',' :: (Utf8.encode (quote key) ++ rest)) =
      .ok (true, Utf8.encode (quote key) ++ rest) := by
  obtain ⟨more, hbytes, -⟩ := encode_quote key
  have hbrace : byte ',' ≠ byte '}' := by decide
  rw [hbytes, List.cons_append, keyFollows, bind_of_ok (peekWord?_cons (by decide) _)]
  simp only [if_neg hbrace, Bool.false_eq_true, if_false, if_true]
  rw [bind_of_ok (skip_cons _ _), bind_of_ok (peekWord?_cons (by decide) _)]
  rfl

theorem keyFollows_end (first : Bool) (rest : Bytes) :
    keyFollows first (byte '}' :: rest) = .ok (false, byte '}' :: rest) := by
  rw [keyFollows, bind_of_ok (peekWord?_cons (by decide) _)]
  rfl

section

variable {σ : Type} {entry : String → σ → Reader σ} {key : String} {state next : σ}
  {text after : Bytes}

/-- An entry is read by its key, whatever stands before the key. -/
theorem entryStep_of_keyFollows {first : Bool} {before : Bytes}
    (hfollows : keyFollows first before = .ok (true, Utf8.encode (quote key) ++ text))
    (h : entry key state text = .ok (next, after)) :
    entryStep entry (first, state) before = .ok (.again (false, next), after) := by
  obtain ⟨more, hbytes, hread⟩ := encode_quote key
  rw [hbytes, List.cons_append] at hfollows
  rw [entryStep, bind_of_ok (under_of_ok hfollows _)]
  simp only [if_true]
  rw [bind_of_ok (skip_cons _ _), bind_of_ok (under_of_ok (hread text) _), bind_of_ok h]
  rfl

theorem entryStep_end (first : Bool) (rest : Bytes) :
    entryStep entry (first, state) (byte '}' :: rest) = .ok (.done state, rest) := by
  rw [entryStep, bind_of_ok (under_of_ok (keyFollows_end first rest) _)]
  rfl

end

/-! ## Records -/

/-- The entries of an object whose values are texts. -/
def texts (pairs : List (String × String)) : List (String × Json) :=
  pairs.map fun (key, value) => (key, .str value)

section

variable {α : Type} {shape : RecordShape Decoder α} {depth : Nat} {key : String} {seen : List String}
  {record : α} {put : String → String → α → α}

theorem valueOf_of_ok {β : Type} {reader : Reader β} {value : β} {text : Bytes}
    (h : reader text = .ok (value, rest)) :
    valueOf key reader (byte ':' :: text) = .ok (value, rest) := by
  have hcolon : colon (byte ':' :: text) = .ok ((), text) := by
    rw [colon, bind_of_ok (peekWord?_cons (by decide) _)]
    rfl
  rw [valueOf, bind_of_ok hcolon, under_of_ok h]

/-- The field of a key has to be there, and takes a text. -/
def TakesText (shape : RecordShape Decoder α) (put : String → String → α → α) (key : String) : Prop :=
  shape.fields.find? (·.name == key) = some (.mustHave key DataFormat.text (put key))

theorem recordEntry_text (hfield : TakesText shape put key) (hseen : key ∉ seen) (value : String)
    (rest : Bytes) :
    recordEntry shape depth key (seen, record)
        (byte ':' :: (Utf8.encode (quote value) ++ rest)) =
      .ok ((key :: seen, put key value record), rest) := by
  -- to map what a decoder reads is to read it and then to go on
  have hread : (Field.mustHave (D := Decoder) key DataFormat.text (put key)).read depth
      (Utf8.encode (quote value) ++ rest) = .ok (put key value, rest) :=
    bind_of_ok (text_quote depth value rest) fun value => pure (put key value)
  rw [recordEntry, hfield]
  simp only [List.contains_eq_mem, hseen, decide_false, Bool.false_eq_true, if_false]
  rw [bind_of_ok (valueOf_of_ok hread)]
  rfl

/-- The bytes of an entry, and what follows it. -/
theorem encode_entry (key value more : String) (rest : Bytes) :
    Utf8.encode (quote key ++ ":" ++ quote value ++ more) ++ rest =
      Utf8.encode (quote key) ++
        byte ':' :: (Utf8.encode (quote value) ++ (Utf8.encode more ++ rest)) := by
  have hcolon : Utf8.encode ":" = [byte ':'] := by rw [Utf8.encode_eq]; rfl
  rw [Utf8.encode_append, Utf8.encode_append, Utf8.encode_append, hcolon]
  simp

/-- One entry is read, and the next ones from where it ends. -/
theorem loop_entry {first : Bool} {before : Bytes} {value : String} (hfield : TakesText shape put key)
    (hseen : key ∉ seen)
    (hfollows : keyFollows first before =
      .ok (true, Utf8.encode (quote key) ++ byte ':' :: (Utf8.encode (quote value) ++ rest)))
    (hlength : rest.length < before.length) :
    loop (entryStep (recordEntry shape depth)) (first, seen, record) before =
      loop (entryStep (recordEntry shape depth)) (false, key :: seen, put key value record) rest :=
  loop_of_again (entryStep_of_keyFollows hfollows (recordEntry_text hfield hseen value rest)) hlength

/-- A record with some texts put in. -/
def putAll (put : String → String → α → α) (pairs : List (String × String)) (record : α) : α :=
  pairs.foldl (fun record pair => put pair.1 pair.2 record) record

/-- Entries after the first one are read one by one, up to the closing brace. -/
theorem loop_entriesText {pairs : List (String × String)}
    (hfields : ∀ pair ∈ pairs, TakesText shape put pair.1)
    (hnodup : ((pairs.map Prod.fst).reverse ++ seen).Nodup) (rest : Bytes) :
    loop (entryStep (recordEntry shape depth)) (false, seen, record)
        (Utf8.encode (entriesText (texts pairs)) ++ rest) =
      .ok (((pairs.map Prod.fst).reverse ++ seen, putAll put pairs record), rest) := by
  induction pairs generalizing seen record with
  | nil =>
    have hend : Utf8.encode (entriesText (texts [])) = [byte '}'] := by
      rw [Utf8.encode_eq]; rfl
    rw [hend]
    exact loop_of_done (entryStep_end false rest)
  | cons pair pairs ih =>
    obtain ⟨key, value⟩ := pair
    obtain ⟨hfield, hfields⟩ := List.forall_mem_cons.mp hfields
    rw [List.map_cons, List.reverse_cons, List.append_assoc, List.singleton_append] at hnodup ⊢
    have hnew : key ∉ seen := (List.nodup_cons.mp (List.nodup_append.mp hnodup).2.1).1
    have hcomma : Utf8.encode "," = [byte ','] := by rw [Utf8.encode_eq]; rfl
    have htext : entriesText (texts ((key, value) :: pairs)) =
        "," ++ (quote key ++ ":" ++ quote value ++ entriesText (texts pairs)) := by
      simp only [texts, List.map_cons, entriesText, Json.text, String.append_assoc]
    rw [htext, Utf8.encode_append, hcomma, List.append_assoc, encode_entry, List.singleton_append,
      loop_entry hfield hnew (keyFollows_next key _) (by simp; omega), ih hfields hnodup]
    rfl

/-- The entries of an object, the first of which no comma stands before. -/
theorem entries_texts {pairs : List (String × String)}
    (hfields : ∀ pair ∈ pairs, TakesText shape put pair.1) (hnodup : (pairs.map Prod.fst).Nodup) :
    ∃ more, Utf8.encode (Json.text (.obj (texts pairs))) = byte '{' :: more ∧
      ∀ rest, entries (recordEntry shape depth) ([], record) (more ++ rest) =
        .ok (((pairs.map Prod.fst).reverse, putAll put pairs record), rest) := by
  cases pairs with
  | nil =>
    refine ⟨[byte '}'], by rw [Utf8.encode_eq]; rfl, fun rest => ?_⟩
    exact loop_of_done (entryStep_end true rest)
  | cons pair pairs =>
    obtain ⟨key, value⟩ := pair
    obtain ⟨hfield, hfields⟩ := List.forall_mem_cons.mp hfields
    rw [← (List.reverse_perm _).nodup_iff, List.map_cons, List.reverse_cons] at hnodup
    have hopen : Utf8.encode "\x7b" = [byte '{'] := by rw [Utf8.encode_eq]; rfl
    have htext : Json.text (.obj (texts ((key, value) :: pairs))) =
        "\x7b" ++ (quote key ++ ":" ++ quote value ++ entriesText (texts pairs)) := by
      simp only [texts, List.map_cons, Json.text, String.append_assoc]
    refine ⟨_, by rw [htext, Utf8.encode_append, hopen, List.singleton_append], fun rest => ?_⟩
    rw [encode_entry, entries,
      loop_entry hfield List.not_mem_nil (keyFollows_first key _) (by simp; omega),
      loop_entriesText hfields hnodup, List.map_cons, List.reverse_cons]
    rfl

/-- An object of texts that has a text for every field that has to be there, and none but fields,
is the record with these texts, whatever follows it. -/
theorem record_texts {pairs : List (String × String)}
    (hfields : ∀ pair ∈ pairs, TakesText shape put pair.1) (hnodup : (pairs.map Prod.fst).Nodup)
    (hall : ∀ field ∈ shape.fields, field.required = true → field.name ∈ pairs.map Prod.fst)
    (rest : Bytes) :
    Decoder.record shape greatestDepth (Utf8.encode (Json.text (.obj (texts pairs))) ++ rest) =
      .ok (putAll put pairs shape.start, rest) := by
  obtain ⟨more, hbytes, hentries⟩ :=
    @entries_texts α shape (greatestDepth - 1) shape.start put pairs hfields hnodup
  have hmissing : missing? shape.fields (pairs.map Prod.fst).reverse = none := by
    rw [missing?, Option.map_eq_none_iff, List.find?_eq_none]
    intro field hfield
    cases hrequired : field.required with
    | false => simp
    | true =>
      have hmem := hall field hfield hrequired
      simpa using hmem
  have hobject : recordObject shape (greatestDepth - 1) (more ++ rest) =
      .ok (putAll put pairs shape.start, rest) := by
    rw [recordObject, bind_of_ok (hentries rest)]
    simp only [hmissing]
    rfl
  have hne : byte '{' ≠ byte '[' := by decide
  rw [hbytes, List.cons_append, Decoder.record, bind_of_ok (start_cons (by decide) _)]
  simp only [if_neg hne, if_true]
  exact (bind_of_ok (skip_cons _ _) _).trans hobject

end

end Decoder

end Json

end SchemaClient
