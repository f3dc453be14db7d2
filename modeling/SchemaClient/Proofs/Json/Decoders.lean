/-
SchemaClient.Proofs.Json.Decoders — decoders take one value each.

The decoders of a program are put together from those that the format has, with records in which the
decoders of the fields stand. However that is done, what is decoded is one value.

* `Json.Decoder.Built` — a decoder that is put together from those of the format.
* `Json.Decoder.Built.takes` — it takes one value.
-/
import SchemaClient.Proofs.Json.Values

namespace SchemaClient

namespace Json

open Reader

namespace Decoder

variable {α β : Type} {text middle rest more : Bytes} {a : α} {isObject first : Bool} {depth : Nat}

/-! ## Values of one kind -/

theorem exists_of_nested {body : Nat → Reader α} {b : UInt8}
    (h : nested depth body (b :: more) = .ok (a, rest)) :
    ∃ depth, body depth more = .ok (a, rest) := by
  cases depth with
  | zero => simp [nested] at h
  | succ depth => exact ⟨depth, h⟩

theorem takes_list {item : Decoder α} (hitem : ∀ depth, Takes (item depth)) :
    Takes (list item depth) := by
  intro text a rest h
  obtain ⟨b, more, hpast, h⟩ := exists_of_start h
  split at h
  · rename_i hb
    obtain ⟨depth, hitems⟩ := exists_of_nested h
    rw [hpast, hb]
    exact .bracketed false (within_of_items (hitem depth) hitems)
  · exact absurd h (refuses_wrongType _ _ _)

theorem takes_numberWith {expected : String} {use : Number → Reader α}
    (huse : ∀ {n text a rest}, use n text = .ok (a, rest) → rest = text) :
    Takes (numberWith expected use) := by
  intro text a rest h
  obtain ⟨b, more, hpast, h⟩ := exists_of_start h
  rw [hpast]
  split_ifs at h with hminus hdigit
  · rw [skip_bind, List.tail_cons] at h
    obtain ⟨n, middle, hnumber, h⟩ := exists_read_of_bind h
    obtain rfl := huse h
    exact hminus ▸ derives_minus hnumber
  · obtain ⟨n, middle, hnumber, h⟩ := exists_read_of_bind h
    obtain rfl := huse h
    exact derives_number hnumber
  · exact absurd h (refuses_wrongType _ _ _)

theorem takes_text : Takes (Decoder.text depth) := by
  intro text a rest h
  obtain ⟨b, more, hpast, h⟩ := exists_of_start h
  rw [hpast]
  split at h
  · rename_i hquote
    exact hquote ▸ .string (stringRest_of_string h)
  · exact absurd h (refuses_wrongType _ _ _)

theorem takes_switch : Takes (switch depth) := by
  intro text a rest h
  obtain ⟨b, more, hpast, h⟩ := exists_of_start h
  rw [hpast]
  split_ifs at h with ht hf
  · rw [skip_bind, List.tail_cons] at h
    obtain ⟨u, middle, hword, h⟩ := exists_read_of_bind h
    obtain ⟨-, rfl⟩ := (pure_ok ..).mp h
    exact ht ▸ derives_word (by decide) hword
  · rw [skip_bind, List.tail_cons] at h
    obtain ⟨u, middle, hword, h⟩ := exists_read_of_bind h
    obtain ⟨-, rfl⟩ := (pure_ok ..).mp h
    exact hf ▸ derives_word (by decide) hword
  · exact absurd h (refuses_wrongType _ _ _)

theorem takes_size (type : SizeType) : Takes (size type depth) := by
  refine takes_numberWith ?_
  intro n text a rest h
  cases n with
  | int n =>
    dsimp only at h
    split at h
    · exact ((pure_ok ..).mp h).2.symm
    · simp at h
  | float x => simp at h

theorem takes_real : Takes (real depth) := by
  refine takes_numberWith ?_
  intro n text a rest h
  cases n <;> exact ((pure_ok ..).mp h).2.symm

theorem takes_map {decoder : Decoder α} {f : α → β} (h : Takes (decoder depth)) :
    Takes (f <$> decoder depth) := by
  intro text b rest hmap
  obtain ⟨a, hdecoder, -⟩ := exists_read_of_map hmap
  exact h hdecoder

theorem takes_optional {decoder : Decoder α} (hdecoder : Takes (decoder depth)) :
    Takes (optional decoder depth) := by
  intro text a rest h
  -- the decoder starts after the blanks, and takes the same value there
  have hsome : (some <$> decoder depth) (pastBlanks text) = .ok (a, rest) →
      Derives .value (pastBlanks text) rest := by
    intro h
    rw [← pastBlanks_pastBlanks]
    exact takes_map hdecoder h
  rw [optional, peekWord?_bind] at h
  cases hpast : pastBlanks text with
  | nil =>
    rw [hpast] at h hsome
    exact hsome h
  | cons b more =>
    rw [hpast] at h hsome
    dsimp only [List.head?_cons] at h
    split at h
    · rename_i hn
      rw [skip_bind, List.tail_cons] at h
      obtain ⟨u, middle, hword, h⟩ := exists_read_of_bind h
      obtain ⟨-, rfl⟩ := (pure_ok ..).mp h
      exact hn ▸ derives_word (by decide) hword
    · exact hsome h

theorem takes_table {decoder : Decoder α} (hdecoder : ∀ depth, Takes (decoder depth)) :
    Takes (table decoder depth) := by
  intro text a rest h
  obtain ⟨b, more, hpast, h⟩ := exists_of_start h
  split at h
  · rename_i hb
    obtain ⟨depth, hentries⟩ := exists_of_nested h
    rw [hpast, hb]
    exact .bracketed true (within_of_entries (takesEntry_put (hdecoder depth)) hentries)
  · exact absurd h (refuses_wrongType _ _ _)

/-! ## Records -/

theorem refuses_rejectEntry (m : Mismatch) : Refuses (rejectEntry m : Reader α) := by
  unfold rejectEntry
  refine .bind fun next => ?_
  dsimp only
  split
  · exact .bind fun _ => refuses_failHere _
  · exact refuses_failHere _

variable {shape : RecordShape Decoder α}

/-- An entry is the value of a field, or is skipped. -/
theorem takesEntry_record (hfields : ∀ field ∈ shape.fields, ∀ depth, Takes (field.read depth)) :
    TakesEntry (recordEntry shape depth) := by
  intro key (seen, record) text a rest h
  unfold recordEntry at h
  cases hfield : shape.fields.find? (·.name == key) with
  | none =>
    simp only [hfield] at h
    split at h
    · exact absurd (of_under_ok h) (refuses_rejectEntry _ _ _)
    · obtain ⟨u, middle, hvalue, h⟩ := exists_read_of_bind h
      obtain ⟨-, rfl⟩ := (pure_ok ..).mp h
      exact exists_of_valueOf takes_skipValue hvalue
  | some field =>
    simp only [hfield] at h
    split at h
    · exact absurd h (refuses_rejectEntry _ _ _)
    · obtain ⟨set, middle, hvalue, h⟩ := exists_read_of_bind h
      obtain ⟨-, rfl⟩ := (pure_ok ..).mp h
      exact exists_of_valueOf (hfields field (List.mem_of_find?_eq_some hfield) depth) hvalue

theorem within_of_recordObject (hfields : ∀ field ∈ shape.fields, ∀ depth, Takes (field.read depth))
    (h : recordObject shape depth text = .ok (a, rest)) : Derives (.within true true) text rest := by
  obtain ⟨⟨seen, record⟩, middle, hentries, h⟩ := exists_read_of_bind h
  have hwithin := within_of_entries (takesEntry_record hfields) hentries
  cases hmissing : missing? shape.fields seen with
  | none =>
    simp only [hmissing] at h
    obtain ⟨-, rfl⟩ := (pure_ok ..).mp h
    exact hwithin
  | some name =>
    simp only [hmissing] at h
    simp at h

theorem within_of_listEnd {u : Unit} (h : listEnd text = .ok (u, rest)) :
    Derives (.within false first) text rest := by
  obtain ⟨b, more, hpast, h⟩ := exists_of_peekWord (refuses_failPast _) h
  split at h
  · rename_i hb
    cases h
    exact .close (hpast.trans (congrArg (· :: more) hb))
  · split at h
    · rw [skip_bind] at h
      refine absurd h (Refuses.bind (fun c? => ?_) _ _)
      cases c? <;> exact refuses_failPast _
    · simp at h

/-- A list has the values of the first fields, and none after the last one. -/
theorem within_of_recordItems {index : Nat} {fields : List (Field Decoder α)} {record : α}
    (hfields : ∀ field ∈ fields, ∀ depth, Takes (field.read depth))
    (h : recordItems shape depth index fields record text = .ok (a, rest)) :
    Derives (.within false (index == 0)) text rest := by
  induction fields generalizing index record text with
  | nil =>
    obtain ⟨u, middle, hend, h⟩ := exists_read_of_bind h
    obtain ⟨-, rfl⟩ := (pure_ok ..).mp h
    exact within_of_listEnd hend
  | cons field fields ih =>
    obtain ⟨hfield, hfields⟩ := List.forall_mem_cons.mp hfields
    obtain ⟨follows, after, hfollows, h⟩ := exists_read_of_bind h
    have hgoesOn := goesOn_of_itemFollows hfollows
    cases follows with
    | true =>
      obtain ⟨set, next, hset, h⟩ := exists_read_of_bind h
      exact hgoesOn (.item (hfield depth (of_under_ok hset))) (ih hfields h)
    | false =>
      rw [if_neg Bool.false_ne_true, skip_bind] at h
      cases hahead : (field :: fields).findIdx? (·.required) with
      | some ahead =>
        simp only [hahead] at h
        simp at h
      | none =>
        simp only [hahead] at h
        obtain ⟨-, rfl⟩ := (pure_ok ..).mp h
        exact within_of_closing hgoesOn

theorem takes_record (hfields : ∀ field ∈ shape.fields, ∀ depth, Takes (field.read depth)) :
    Takes (Decoder.record shape depth) := by
  intro text a rest h
  obtain ⟨b, more, hpast, h⟩ := exists_of_start h
  rw [hpast]
  split_ifs at h with hbracket hbrace
  · obtain ⟨depth, hitems⟩ := exists_of_nested h
    exact hbracket ▸ .bracketed false (within_of_recordItems hfields hitems)
  · obtain ⟨depth, hobject⟩ := exists_of_nested h
    exact hbrace ▸ .bracketed true (within_of_recordObject hfields hobject)
  · exact absurd h (refuses_wrongType _ _ _)

/-! ## Any decoder -/

/-- A decoder that is put together from those that the format has. -/
inductive Built : {α : Type} → Decoder α → Prop where
  | value : Built value
  | text : Built Decoder.text
  | switch : Built switch
  | size (type : SizeType) : Built (size type)
  | real : Built real
  | list {α : Type} {item : Decoder α} : Built item → Built (list item)
  | map {α β : Type} {decoder : Decoder α} (f : α → β) : Built decoder →
      Built (f <$> decoder : Decoder β)
  | optional {α : Type} {decoder : Decoder α} : Built decoder → Built (optional decoder)
  | table {α : Type} {decoder : Decoder α} : Built decoder → Built (table decoder)
  | record {α : Type} {shape : RecordShape Decoder α} :
      (∀ field ∈ shape.fields, Built field.read) → Built (record shape)

theorem Built.takes {decoder : Decoder α} (h : Built decoder) (depth : Nat) :
    Takes (decoder depth) := by
  induction h generalizing depth with
  | value => exact takes_value depth
  | text => exact takes_text
  | switch => exact takes_switch
  | size type => exact takes_size type
  | real => exact takes_real
  | list _ ih => exact takes_list ih
  | map _ _ ih => exact takes_map (ih depth)
  | optional _ ih => exact takes_optional (ih depth)
  | table _ ih => exact takes_table ih
  | record _ ih => exact takes_record ih

end Decoder

end Json

end SchemaClient
