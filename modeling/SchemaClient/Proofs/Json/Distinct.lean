/-
SchemaClient.Proofs.Json.Distinct — a value that is decoded has no key twice.

Of entries with the same key the first keeps its place and the last its value, so that one of them is
left. What is decoded is therefore never ambiguous, however often a text repeats its keys. In
particular this holds of all schemas that a server sends, in whatever record they stand.

* `Table.nodup_put` — putting a value into a table leaves its names distinct.
* `Json.Reader.Yields` — a property of whatever a reader yields.
* `Json.Decoder.distinct_value` — no object in a decoded value has a key twice.
* `Json.Sent` — the schemas in the answers of a server.
* `Json.Sent.distinct` — no object in one of them has a key twice.
-/
import SchemaClient.Proofs.Json.Pointer
import SchemaClient.Proofs.Json.Remainder

namespace SchemaClient

namespace Table

variable {α : Type} {table : Table α} {name : String} {value : α}

theorem mem_names_put {other : String} :
    other ∈ names (put table name value) ↔ other = name ∨ other ∈ names table := by
  induction table with
  | nil => simp [put, alter, names]
  | cons entry rest ih =>
    obtain ⟨n, v⟩ := entry
    rw [put, alter]
    split
    · rename_i hname
      simp [names, hname]
    · have hrest : names ((n, v) :: alter rest name fun _ => value) =
          n :: names (put rest name value) := rfl
      rw [hrest, List.mem_cons, ih]
      simp only [names, List.map_cons, List.mem_cons]
      tauto

theorem nodup_put (h : (names table).Nodup) : (names (put table name value)).Nodup := by
  induction table with
  | nil => simp [put, alter, names]
  | cons entry rest ih =>
    obtain ⟨n, v⟩ := entry
    obtain ⟨hnew, hrest⟩ := List.nodup_cons.mp h
    rw [put, alter]
    split
    · exact h
    · rename_i hname
      refine List.nodup_cons.mpr ⟨fun hmem => ?_, ih hrest⟩
      exact (mem_names_put.mp hmem).elim hname hnew

theorem mem_put {entry : String × α} (h : entry ∈ put table name value) :
    entry.2 = value ∨ entry ∈ table := by
  induction table with
  | nil => exact Or.inl (congrArg Prod.snd (List.mem_singleton.mp h))
  | cons first rest ih =>
    obtain ⟨n, v⟩ := first
    rw [put, alter] at h
    split at h
    · rcases List.mem_cons.mp h with rfl | hmem
      · exact Or.inl rfl
      · exact Or.inr (List.mem_cons_of_mem _ hmem)
    · rcases List.mem_cons.mp h with rfl | hmem
      · exact Or.inr List.mem_cons_self
      · exact (ih hmem).imp_right (List.mem_cons_of_mem _)

end Table

namespace Json

namespace Reader

variable {σ α β : Type} {p : α → Prop} {q : β → Prop} {reader : Reader α}

/-! ## What a reader yields -/

/-- A reader yields nothing without the property. -/
def Yields (p : α → Prop) (reader : Reader α) : Prop :=
  ∀ text a rest, reader text = .ok (a, rest) → p a

theorem yields_true (reader : Reader α) : Yields (fun _ => True) reader :=
  fun _ _ _ _ => trivial

theorem Refuses.yields (h : Refuses reader) : Yields p reader :=
  fun _ _ _ hread => absurd hread (h _ _)

theorem Yields.pure {a : α} (h : p a) : Yields p (Pure.pure a) := by
  intro text b rest hread
  obtain ⟨rfl, -⟩ := (pure_ok ..).mp hread
  exact h

theorem Yields.bind (h : Yields p reader) {next : α → Reader β}
    (hnext : ∀ a, p a → Yields q (next a)) : Yields q (reader >>= next) := by
  intro text b rest hread
  obtain ⟨a, middle, ha, hb⟩ := exists_read_of_bind hread
  exact hnext a (h _ _ _ ha) _ _ _ hb

/-- What is read before does not matter. -/
theorem Yields.after {next : α → Reader β} (h : ∀ a, Yields q (next a)) :
    Yields q (reader >>= next) :=
  (yields_true reader).bind fun a _ => h a

theorem Yields.map (h : Yields p reader) {f : α → β} (hf : ∀ a, p a → q (f a)) :
    Yields q (f <$> reader) := by
  intro text b rest hread
  obtain ⟨a, ha, rfl⟩ := exists_read_of_map hread
  exact hf a (h _ _ _ ha)

theorem Yields.under (h : Yields p reader) (step : Step) : Yields p (reader.under step) :=
  fun _ _ _ hread => h _ _ _ (of_under_ok hread)

/-- What a step leaves to be done keeps the invariant, what it is done with has the property. -/
def Keeps (invariant : σ → Prop) (p : α → Prop) : Turn σ α → Prop
  | .again state => invariant state
  | .done a => p a

theorem Yields.loop (invariant : σ → Prop) {step : σ → Reader (Turn σ α)}
    (hstep : ∀ state, invariant state → Yields (Keeps invariant p) (step state)) {state : σ}
    (hstate : invariant state) : Yields p (loop step state) := by
  intro text a rest hread
  refine of_loop_ok (fun state _ a _ => invariant state → p a) ?_ hread hstate
  intro state text turn middle hturn
  cases turn with
  | again next => exact fun hnext hstate => hnext (hstep state hstate _ _ _ hturn)
  | done a => exact fun hstate => hstep state hstate _ _ _ hturn

end Reader

open Reader

namespace Decoder

variable {σ α β : Type} {p : α → Prop} {q : β → Prop} {depth : Nat}

/-! ## Lists and objects -/

theorem yields_nested {body : Nat → Reader α} (h : ∀ depth, Yields p (body depth)) :
    Yields p (nested depth body) := by
  cases depth with
  | zero => exact (refuses_failPast _).yields
  | succ depth => exact .after fun _ => h depth

theorem yields_items {item : Reader α} (hitem : Yields p item) :
    Yields (fun read => ∀ a ∈ read, p a) (items item) := by
  refine .loop (fun state => ∀ a ∈ state.2, p a) (fun (index, reversed) hreversed => ?_) nofun
  refine .after fun follows => ?_
  cases follows with
  | true =>
    exact (hitem.under _).bind fun a ha => .pure (List.forall_mem_cons.mpr ⟨ha, hreversed⟩)
  | false => exact .after fun _ => .pure fun a ha => hreversed a (List.mem_reverse.mp ha)

theorem yields_entries {invariant : σ → Prop} {entry : String → σ → Reader σ}
    (hentry : ∀ key state, invariant state → Yields invariant (entry key state)) {state : σ}
    (hstate : invariant state) : Yields invariant (entries entry state) := by
  refine .loop (fun state => invariant state.2) (fun (first, state) hstate => ?_) hstate
  refine .after fun follows => ?_
  cases follows with
  | true =>
    refine .after fun _ => .after fun key => ?_
    exact (hentry key state hstate).bind fun _ hnext => .pure hnext
  | false => exact .after fun _ => .pure hstate

theorem yields_valueOf {key : String} {value : Reader α} (h : Yields p value) :
    Yields p (valueOf key value) :=
  .after fun _ => h.under _

/-! ## Any value -/

theorem yields_distinct_items {item : Reader Json} (hitem : Yields Json.Distinct item) :
    Yields Json.Distinct (.arr <$> items item) :=
  (yields_items hitem).map fun _ => distinct_arr_iff.mpr

theorem distinct_put {read : Entries} {key : String} {v : Json} (hread : (Json.obj read).Distinct)
    (hv : v.Distinct) : (Json.obj (Table.put read key v)).Distinct := by
  obtain ⟨hnodup, hall⟩ := distinct_obj_iff.mp hread
  refine distinct_obj_iff.mpr ⟨Table.nodup_put hnodup, fun entry hmem => ?_⟩
  rcases Table.mem_put hmem with hentry | hmem
  · exact hentry ▸ hv
  · exact hall entry hmem

theorem yields_distinct_entries {value : Reader Json} (hvalue : Yields Json.Distinct value) :
    Yields Json.Distinct
      (.obj <$> entries (fun key read => do pure (Table.put read key (← valueOf key value))) []) := by
  have hempty : (Json.obj []).Distinct := distinct_obj_iff.mpr ⟨List.nodup_nil, nofun⟩
  have hentries : Yields (fun read => (Json.obj read).Distinct)
      (entries (fun key read => do pure (Table.put read key (← valueOf key value))) []) := by
    refine yields_entries (fun key read hread => ?_) hempty
    exact (yields_valueOf hvalue).bind fun v hv => .pure (distinct_put hread hv)
  exact hentries.map fun _ => id

theorem yields_distinct_word (letters : List Char) {v : Json} (h : v.Distinct) :
    Yields Json.Distinct (skip >>= fun _ => word letters >>= fun _ => pure v) :=
  .after fun _ => .after fun _ => .pure h

theorem yields_distinct_scalar {reader : Reader α} {f : α → Json} (h : ∀ a, (f a).Distinct) :
    Yields Json.Distinct (f <$> reader) :=
  (yields_true reader).map fun a _ => h a

theorem yields_valueWith {list object : Reader Json} (hlist : Yields Json.Distinct list)
    (hobject : Yields Json.Distinct object) : Yields Json.Distinct (valueWith list object) := by
  refine .after fun b => ?_
  split_ifs
  · exact yields_distinct_word _ (distinct_scalar rfl rfl)
  · exact yields_distinct_word _ (distinct_scalar rfl rfl)
  · exact yields_distinct_word _ (distinct_scalar rfl rfl)
  · exact .after fun _ => yields_distinct_scalar fun _ => distinct_scalar rfl rfl
  · exact yields_distinct_scalar fun _ => distinct_scalar rfl rfl
  · exact .after fun _ => yields_distinct_scalar fun _ => distinct_scalar rfl rfl
  · exact hlist
  · exact hobject
  · exact (refuses_failPast _).yields

theorem yields_value (depth : Nat) : Yields Json.Distinct (value depth) := by
  induction depth with
  | zero => exact yields_valueWith (refuses_failPast _).yields (refuses_failPast _).yields
  | succ depth ih =>
    exact yields_valueWith (.after fun _ => yields_distinct_items ih)
      (.after fun _ => yields_distinct_entries ih)

/-- No object in a decoded value has a key twice. -/
theorem distinct_value {text : Bytes} {v : Json} (h : value.run text = .ok v) : v.Distinct := by
  obtain ⟨rest, hread⟩ := exists_of_run_ok h
  exact yields_value greatestDepth _ _ _ hread

/-! ## Records -/

theorem yields_list {item : Decoder α} (hitem : ∀ depth, Yields p (item depth)) :
    Yields (fun read => ∀ a ∈ read, p a) (list item depth) := by
  refine .after fun b => ?_
  split
  · exact yields_nested fun depth => yields_items (hitem depth)
  · exact (refuses_wrongType _).yields

theorem yields_optional {decoder : Decoder α} (h : Yields p (decoder depth)) :
    Yields (fun read => ∀ a ∈ read, p a) (optional decoder depth) := by
  have hsome : Yields (fun read => ∀ a ∈ read, p a) (some <$> decoder depth) :=
    h.map fun a ha b hb => by
      obtain rfl := Option.mem_some.mp hb
      exact ha
  refine .after fun b? => ?_
  cases b? with
  | none => exact hsome
  | some b =>
    dsimp only
    split
    · exact .after fun _ => .after fun _ => .pure nofun
    · exact hsome

variable {shape : RecordShape Decoder α}

/-- Each of some fields keeps a property of a record. -/
def FieldsKeep (p : α → Prop) (fields : List (Field Decoder α)) : Prop :=
  ∀ field ∈ fields, ∀ depth, Yields (fun set => ∀ a, p a → p (set a)) (field.read depth)

theorem yields_recordEntry (hfields : FieldsKeep p shape.fields) (key : String)
    (state : List String × α) (hstate : p state.2) :
    Yields (fun state => p state.2) (recordEntry shape depth key state) := by
  obtain ⟨seen, record⟩ := state
  unfold recordEntry
  cases hfield : shape.fields.find? (·.name == key) with
  | none =>
    dsimp only
    split
    · exact ((refuses_rejectEntry _).yields).under _
    · exact .after fun _ => .pure hstate
  | some field =>
    dsimp only
    split
    · exact (refuses_rejectEntry _).yields
    · exact (yields_valueOf (hfields field (List.mem_of_find?_eq_some hfield) depth)).bind
        fun set hset => .pure (hset record hstate)

theorem yields_recordObject (hfields : FieldsKeep p shape.fields) (hstart : p shape.start) :
    Yields p (recordObject shape depth) := by
  refine (yields_entries (yields_recordEntry hfields) hstart).bind fun (seen, record) hrecord => ?_
  dsimp only
  split
  · exact (refuses_failHere _).yields
  · exact .pure hrecord

theorem yields_recordItems {index : Nat} {fields : List (Field Decoder α)}
    (hfields : FieldsKeep p fields) {record : α} (hrecord : p record) :
    Yields p (recordItems shape depth index fields record) := by
  induction fields generalizing index record with
  | nil => exact .after fun _ => .pure hrecord
  | cons field fields ih =>
    obtain ⟨hfield, hfields⟩ := List.forall_mem_cons.mp hfields
    refine .after fun follows => ?_
    cases follows with
    | true =>
      exact ((hfield depth).under _).bind fun set hset => ih hfields (hset record hrecord)
    | false =>
      refine .after fun _ => ?_
      split
      · exact (refuses_failHere _).yields
      · exact .pure hrecord

theorem yields_record (hfields : FieldsKeep p shape.fields) (hstart : p shape.start) :
    Yields p (Decoder.record shape depth) := by
  refine .after fun b => ?_
  split_ifs
  · exact yields_nested fun depth => yields_recordItems hfields hstart
  · exact yields_nested fun depth => yields_recordObject hfields hstart
  · exact (refuses_wrongType _).yields

/-! ## The schemas of a server -/

/-- There is no schema, or one without a key twice. -/
def DistinctIn (schema? : Option Json) : Prop := ∀ schema ∈ schema?, schema.Distinct

theorem yields_present : Yields DistinctIn (present depth) := yields_optional (yields_value depth)

theorem yields_resourceType :
    Yields (fun t => DistinctIn t.schema) (ResourceType.decoder depth) := by
  refine yields_record (List.forall_iff_forall_mem.mp ⟨?name, ?schema, ?description⟩) nofun
  case name => exact fun depth => (yields_true _).map fun _ _ _ => id
  case schema => exact fun depth => yields_present.map fun _ hschema _ _ => hschema
  case description => exact fun depth => (yields_true _).map fun _ _ _ => id

theorem yields_artifact : Yields (fun a => DistinctIn a.schema) (Artifact.decoder depth) := by
  refine yields_record (List.forall_iff_forall_mem.mp ⟨?path, ?schema⟩) nofun
  case path => exact fun depth => (yields_true _).map fun _ _ _ => id
  case schema => exact fun depth => yields_present.map fun _ hschema _ _ => hschema

theorem yields_scriptDetail :
    Yields (fun s => DistinctIn s.artifact.schema) (ScriptDetail.decoder depth) := by
  refine yields_record (List.forall_iff_forall_mem.mp ⟨?path, ?schema, ?archived⟩) nofun
  case path => exact fun depth => (yields_true _).map fun _ _ _ => id
  case schema => exact fun depth => yields_present.map fun _ hschema _ _ => hschema
  case archived => exact fun depth => (yields_true _).map fun _ _ _ => id

end Decoder

/-- The schemas in the answers of a server: those of the resource types that it lists, of a script and
of a flow. -/
inductive Sent : Json → Prop where
  | ofType {body : Bytes} {types : List ResourceType} {type : ResourceType} {schema : Json} :
      Decoded (Decoder.list ResourceType.decoder) body types → type ∈ types →
      type.schema = some schema → Sent schema
  | ofScript {body : Bytes} {script : ScriptDetail} {schema : Json} :
      Decoded ScriptDetail.decoder body script → script.artifact.schema = some schema → Sent schema
  | ofFlow {body : Bytes} {flow : Artifact} {schema : Json} :
      Decoded Artifact.decoder body flow → flow.schema = some schema → Sent schema

/-- No object in a schema that a server sends has a key twice. -/
theorem Sent.distinct {schema : Json} (h : Sent schema) : schema.Distinct := by
  cases h with
  | ofType hdecoded htype hschema =>
    obtain ⟨rest, hread⟩ := hdecoded.exists_rest
    exact Decoder.yields_list (fun _ => Decoder.yields_resourceType) _ _ _ hread _ htype _ hschema
  | ofScript hdecoded hschema =>
    obtain ⟨rest, hread⟩ := hdecoded.exists_rest
    exact Decoder.yields_scriptDetail _ _ _ hread _ hschema
  | ofFlow hdecoded hschema =>
    obtain ⟨rest, hread⟩ := hdecoded.exists_rest
    exact Decoder.yields_artifact _ _ _ hread _ hschema

end Json

end SchemaClient
