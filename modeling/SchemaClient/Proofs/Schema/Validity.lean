/-
SchemaClient.Proofs.Schema.Validity — which values a schema allows.

The meaning of a schema by itself, without any validator: a node allows a value that meets what each
of its keywords asks for, and, if it is nullable, null. A keyword that speaks of values of one kind
asks nothing of the others. How patterns match, how long a text is and how numbers compare is left
open (`Interpretation`).

* `Schema.Meets` — what the keywords of a node ask for, given what its subschemas allow.
* `Schema.Valid` — a value is allowed by a schema.
* `Schema.valid_obj` — a node allows what its keywords ask for, with subschemas that mean the same.
-/
import SchemaClient.Proofs.Json.Pointer
import SchemaClient.Schema.Keywords

namespace SchemaClient

/-- What schemas and validators say about texts and numbers without defining it. -/
structure Interpretation where
  /-- The pattern matches the text. -/
  Matches : String → String → Prop
  /-- The text is of the format. -/
  HasFormat : TextFormat → String → Prop
  length : String → Nat
  AtMost : Number → Number → Prop
  Below : Number → Number → Prop
  /-- The first number divides the second. -/
  Divides : Number → Number → Prop
  IsInteger : Number → Prop
  SameNumber : Number → Number → Prop
  /-- The value passes the validator that is declared under the name. -/
  Passes : String → Json → Prop

namespace Interpretation

variable (i : Interpretation)

/-- The same null, truth value, number or text. -/
def Same : Json → Json → Prop
  | .null, value => value = .null
  | .bool a, value => value = .bool a
  | .num a, value => ∃ b, value = .num b ∧ i.SameNumber a b
  | .str a, value => value = .str a
  | _, _ => False

/-- The value is of the kind. -/
def OfKind (kind : String) (value : Json) : Prop :=
  match kind with
  | "string" => ∃ text, value = .str text
  | "number" => ∃ n, value = .num n
  | "integer" => ∃ n, value = .num n ∧ i.IsInteger n
  | "boolean" => ∃ b, value = .bool b
  | "array" => ∃ items, value = .arr items
  | "object" => ∃ entries, value = .obj entries
  | "null" => value = .null
  | _ => True

end Interpretation

namespace Schema

variable (i : Interpretation) (sub : Json → Json → Prop) (node : Entries)

/-- The operand of a keyword. -/
abbrev Operand (key : String) (operand : Json) : Prop := Table.find? node key = some operand

/-! ## Keywords by kind -/

/-- What a node asks of a text. -/
structure MeetsText (text : String) : Prop where
  minLength : ∀ operand n, Operand node "minLength" operand → operand.asSize? = some n →
    n ≤ i.length text
  maxLength : ∀ operand n, Operand node "maxLength" operand → operand.asSize? = some n →
    i.length text ≤ n
  pattern : ∀ pattern, Operand node "pattern" (.str pattern) → i.Matches pattern text

/-- What a node asks of a number. In the older spelling an exclusive limit is `true` and makes the
inclusive one exclusive. -/
structure MeetsNumber (n : Number) : Prop where
  minimum : ∀ limit, Operand node "minimum" (.num limit) →
    if Table.find? node "exclusiveMinimum" matches some (.bool true) then i.Below limit n
    else i.AtMost limit n
  maximum : ∀ limit, Operand node "maximum" (.num limit) →
    if Table.find? node "exclusiveMaximum" matches some (.bool true) then i.Below n limit
    else i.AtMost n limit
  exclusiveMinimum : ∀ limit, Operand node "exclusiveMinimum" (.num limit) → i.Below limit n
  exclusiveMaximum : ∀ limit, Operand node "exclusiveMaximum" (.num limit) → i.Below n limit
  multipleOf : ∀ divisor, Operand node "multipleOf" (.num divisor) → i.Divides divisor n

/-- What a node asks of a list. -/
structure MeetsArray (list : List Json) : Prop where
  items : ∀ schema, Operand node "items" schema → ∀ item ∈ list, sub schema item
  minItems : ∀ operand n, Operand node "minItems" operand → operand.asSize? = some n →
    n ≤ list.length
  maxItems : ∀ operand n, Operand node "maxItems" operand → operand.asSize? = some n →
    list.length ≤ n

/-- The properties that a node declares. -/
def declared : Entries := ((Table.find? node "properties").bind Json.asObject?).getD []

/-- What a node asks of an object. -/
structure MeetsObject (entries : Entries) : Prop where
  required : ∀ names name, Operand node "required" (.arr names) → .str name ∈ names →
    (Table.find? entries name).isSome
  properties : ∀ property ∈ declared node, ∀ value,
    Table.find? entries property.1 = some value → sub property.2 value
  additionalProperties : ∀ schema, Operand node "additionalProperties" schema →
    ∀ entry ∈ entries, entry.1 ∉ Table.names (declared node) → sub schema entry.2

/-- What the keywords of a node ask for that speak of one kind of values. -/
structure MeetsKind (value : Json) : Prop where
  text : ∀ text, value = .str text → MeetsText i node text
  number : ∀ n, value = .num n → MeetsNumber i node n
  array : ∀ items, value = .arr items → MeetsArray sub node items
  object : ∀ entries, value = .obj entries → MeetsObject sub node entries

/-! ## Nodes -/

/-- The `type` of a node names one kind or lists several. -/
def MeetsType (value : Json) : Json → Prop
  | .str kind => i.OfKind kind value
  | .arr kinds => ∃ kind, .str kind ∈ kinds ∧ i.OfKind kind value
  | _ => True

/-- What the keywords of a node ask for; `sub` says what its subschemas allow. -/
structure Meets (value : Json) : Prop where
  const : ∀ expected, Operand node "const" expected → i.Same expected value
  enum : ∀ members, Operand node "enum" (.arr members) → ∃ member ∈ members, i.Same member value
  anyOf : ∀ schemas, Operand node "anyOf" (.arr schemas) → ∃ schema ∈ schemas, sub schema value
  allOf : ∀ schemas, Operand node "allOf" (.arr schemas) → ∀ schema ∈ schemas, sub schema value
  type : ∀ operand, Operand node "type" operand → MeetsType i value operand
  kind : MeetsKind i sub node value

/-- A node allows a value: it meets what the keywords ask for, or it is null and may be. -/
def NodeAllows (value : Json) : Prop :=
  (Operand node "nullable" (.bool true) ∧ value = .null) ∨ Meets i sub node value

/-- A value is allowed by a schema of at most a number of levels. -/
def validWithin : (levels : Nat) → Json → Json → Prop
  | _, .bool allowed, _ => allowed = true
  | levels + 1, .obj node, value => NodeAllows i (validWithin levels) node value
  | _, _, _ => True

/-- A value is allowed by a schema. -/
def Valid (schema value : Json) : Prop := validWithin i schema.height schema value

/-! ## Levels do not matter -/

section

variable {i sub node} {sub' : Json → Json → Prop} {key : String} {operand : Json}

theorem height_le_entriesHeight {entries : Entries} {entry : String × Json}
    (h : entry ∈ entries) : entry.2.height ≤ Json.entriesHeight entries := by
  induction entries with
  | nil => cases h
  | cons first rest ih =>
    rw [Json.entriesHeight]
    rcases List.mem_cons.mp h with rfl | h
    · exact Nat.le_max_left _ _
    · exact Nat.le_trans (ih h) (Nat.le_max_right _ _)

theorem height_le_itemsHeight {items : List Json} {item : Json} (h : item ∈ items) :
    item.height ≤ Json.itemsHeight items := by
  induction items with
  | nil => cases h
  | cons first rest ih =>
    rw [Json.itemsHeight]
    rcases List.mem_cons.mp h with rfl | h
    · exact Nat.le_max_left _ _
    · exact Nat.le_trans (ih h) (Nat.le_max_right _ _)

theorem Operand.height_le (h : Operand node key operand) :
    operand.height ≤ Json.entriesHeight node :=
  height_le_entriesHeight (Table.mem_of_find? h)

theorem Operand.height_le_of_mem {schemas : List Json} (h : Operand node key (.arr schemas))
    {schema : Json} (hmem : schema ∈ schemas) : schema.height ≤ Json.entriesHeight node := by
  have hlist := h.height_le
  rw [Json.height] at hlist
  have hitem := height_le_itemsHeight hmem
  omega

theorem height_le_of_declared {property : String × Json} (h : property ∈ declared node) :
    property.2.height ≤ Json.entriesHeight node := by
  unfold declared at h
  cases hoperand : Table.find? node "properties" with
  | none => rw [hoperand] at h; cases h
  | some operand =>
    rw [hoperand] at h
    cases operand with
    | obj properties =>
      have hoperand : Operand node "properties" (.obj properties) := hoperand
      have hproperties := hoperand.height_le
      rw [Json.height] at hproperties
      have hproperty : property.2.height ≤ Json.entriesHeight properties :=
        height_le_entriesHeight h
      omega
    | _ => cases h

/-- What a node asks for depends on its subschemas only through what they allow. -/
theorem Meets.congr
    (h : ∀ schema, schema.height ≤ Json.entriesHeight node → ∀ value, sub schema value →
      sub' schema value) {value : Json} (hmeets : Meets i sub node value) :
    Meets i sub' node value where
  const := hmeets.const
  enum := hmeets.enum
  anyOf := by
    intro schemas hoperand
    obtain ⟨schema, hmem, hsub⟩ := hmeets.anyOf schemas hoperand
    exact ⟨schema, hmem, h schema (hoperand.height_le_of_mem hmem) value hsub⟩
  allOf := by
    intro schemas hoperand schema hmem
    have hallowed := hmeets.allOf schemas hoperand schema hmem
    exact h schema (hoperand.height_le_of_mem hmem) value hallowed
  type := hmeets.type
  kind :=
    { text := hmeets.kind.text
      number := hmeets.kind.number
      array := by
        intro items hitems
        have harray := hmeets.kind.array items hitems
        refine ⟨fun schema hoperand item hmem => ?_, harray.minItems, harray.maxItems⟩
        exact h schema hoperand.height_le item (harray.items schema hoperand item hmem)
      object := by
        intro entries hentries
        have hobject := hmeets.kind.object entries hentries
        refine ⟨hobject.required, fun property hmem value hvalue => ?_,
          fun schema hoperand entry hmem hundeclared => ?_⟩
        · exact h property.2 (height_le_of_declared hmem) value
            (hobject.properties property hmem value hvalue)
        · exact h schema hoperand.height_le entry.2
            (hobject.additionalProperties schema hoperand entry hmem hundeclared) }

theorem validWithin_congr {schema : Json} {levels levels' : Nat} (h : schema.height ≤ levels)
    (h' : schema.height ≤ levels') (value : Json) (hvalid : validWithin i levels schema value) :
    validWithin i levels' schema value := by
  induction levels generalizing schema levels' value with
  | zero =>
    cases schema with
    | obj node => exact absurd h (by simp [Json.height])
    | bool allowed => simpa only [validWithin] using hvalid
    | _ => simp only [validWithin]
  | succ levels ih =>
    cases schema with
    | obj node =>
      cases levels' with
      | zero => exact absurd h' (by simp [Json.height])
      | succ levels' =>
        rw [Json.height] at h h'
        refine hvalid.imp id fun hmeets => hmeets.congr fun schema hschema value hsub => ?_
        exact ih (by omega) (by omega) value hsub
    | bool allowed => simpa only [validWithin] using hvalid
    | _ => simp only [validWithin]

end

/-- A node allows what its keywords ask for, with subschemas that mean what they mean on their
own. -/
theorem valid_obj (value : Json) :
    Valid i (.obj node) value ↔ NodeAllows i (Valid i) node value := by
  have hlevels : Valid i (.obj node) value ↔
      NodeAllows i (validWithin i (Json.entriesHeight node)) node value := by
    unfold Valid
    rw [Json.height]
    rfl
  rw [hlevels]
  constructor
  · intro h
    refine h.imp id fun hmeets => hmeets.congr fun schema hschema value hsub => ?_
    exact validWithin_congr hschema (Nat.le_refl _) value hsub
  · intro h
    refine h.imp id fun hmeets => hmeets.congr fun schema hschema value hsub => ?_
    exact validWithin_congr (Nat.le_refl _) hschema value hsub

theorem valid_bool (allowed : Bool) (value : Json) :
    Valid i (.bool allowed) value ↔ allowed = true := by
  simp [Valid, Json.height, validWithin]

end Schema

end SchemaClient
