/-
SchemaClient.Proofs.Lowering.Traversal — what lowering does with its subschemas.

Lowering reaches a subschema only by handing it to `sub` with its place, gives up only on what is
wrong with the node itself, and puts the pieces together by the monad operations alone. So a
relation between two lowerings that the operations respect holds of a node as soon as it holds of the
node's subschemas, or of those that lowering comes to. The traversal of a node is walked through once,
here; what a lowering asks for, what it depends on and where it fails are all read off from it.

* `Lowering.Congruence` — a relation between lowerings that the monad operations respect.
* `Keywords.Child`, `Keywords.Flaw` — the subschemas that a node holds and what can be wrong with
  it, each with the steps that lead there.
* `Keywords.Visits` — the subschemas that lowering a node comes to.
* `Keywords.lower_congr_visits`, `Keywords.lower_congr` — a congruence that holds of these holds of
  the node.
-/
import SchemaClient.Proofs.Lowering.Forms

namespace SchemaClient

namespace Lowering

variable {α β γ : Type}

@[simp] theorem demands_pure (a : α) : (pure a : Lowering α).demands = [] := rfl

@[simp] theorem result_pure (a : α) : (pure a : Lowering α).result = .ok a := rfl

theorem bind_eq_andThen (first : Lowering α) (next : α → Lowering β) :
    first >>= next = first.andThen next := rfl

theorem bind_of_error {first : Lowering α} {fault : SchemaFault} (h : first.result = .error fault)
    (next : α → Lowering β) : first >>= next = ⟨first.demands, .error fault⟩ := by
  simp only [bind_eq_andThen, andThen, h]

theorem bind_of_ok {first : Lowering α} {a : α} (h : first.result = .ok a)
    (next : α → Lowering β) :
    first >>= next = ⟨first.demands ++ (next a).demands, (next a).result⟩ := by
  simp only [bind_eq_andThen, andThen, h]

@[simp] theorem demands_map (f : α → β) (x : Lowering α) : (f <$> x).demands = x.demands := by
  change (x >>= fun a => pure (f a)).demands = x.demands
  cases h : x.result with
  | error fault => rw [bind_of_error h]
  | ok a => rw [bind_of_ok h]; simp

@[simp] theorem result_map (f : α → β) (x : Lowering α) : (f <$> x).result = x.result.map f := by
  change (x >>= fun a => pure (f a)).result = x.result.map f
  cases h : x.result with
  | error fault => rw [bind_of_error h]; rfl
  | ok a => rw [bind_of_ok h]; rfl

/-- A lowering whose result is changed had a result before. -/
theorem exists_of_map_ok {f : α → β} {x : Lowering α} {b : β} (h : (f <$> x).result = .ok b) :
    ∃ a, x.result = .ok a ∧ f a = b := by
  rw [result_map] at h
  cases hx : x.result with
  | error fault => rw [hx] at h; cases h
  | ok a => rw [hx] at h; exact ⟨a, rfl, Except.ok.inj h⟩

/-- A lowering with a result has a result on the way. -/
theorem exists_of_andThen_ok {x : Lowering α} {f : α → Lowering β} {b : β}
    (h : (x >>= f).result = .ok b) : ∃ a, x.result = .ok a ∧ (f a).result = .ok b := by
  cases hx : x.result with
  | error fault => rw [bind_of_error hx] at h; cases h
  | ok a => rw [bind_of_ok hx] at h; exact ⟨a, rfl, h⟩

/-- Two lowerings one after the other, put together to a result, have each a result. -/
theorem exists_of_both_ok {x : Lowering α} {y : Lowering β} {f : α → β → γ} {c : γ}
    (h : (do let a ← x; let b ← y; return f a b : Lowering γ).result = .ok c) :
    ∃ a b, x.result = .ok a ∧ y.result = .ok b ∧ f a b = c := by
  obtain ⟨a, ha, hrest⟩ := exists_of_andThen_ok h
  obtain ⟨b, hb, hpure⟩ := exists_of_andThen_ok hrest
  exact ⟨a, b, ha, hb, Except.ok.inj hpure⟩

/-- A relation between lowerings that the monad operations respect. -/
structure Congruence where
  Rel : {α : Type} → Lowering α → Lowering α → Prop
  /-- Whether related lowerings come to the same result, or each to one of its own. -/
  Exact : Prop
  /-- The faults that lowering may give up with. -/
  Allowed : SchemaFault → Prop
  pure {α : Type} {a b : α} : (Exact → a = b) → Rel (pure a) (pure b)
  malformed {α : Type} {pointer : Pointer} {malformation : Malformation} :
    Allowed ⟨pointer, malformation⟩ →
      Rel (α := α) (malformed pointer malformation) (malformed pointer malformation)
  bind {α β : Type} {x y : Lowering α} {f g : α → Lowering β} :
    Rel x y → (∀ a b, (Exact → a = b) → Rel (f a) (g b)) → Rel (x >>= f) (y >>= g)

theorem Congruence.refl_pure (c : Congruence) (a : α) : c.Rel (Pure.pure a) (Pure.pure a) :=
  c.pure fun _ => rfl

theorem Congruence.map (c : Congruence) (f : α → β) {x y : Lowering α} (h : c.Rel x y) :
    c.Rel (f <$> x) (f <$> y) :=
  c.bind h fun _ _ hab => c.pure fun exact => congrArg f (hab exact)

/-- Something made of a result without lowering anything else. -/
theorem Congruence.bind_pure (c : Congruence) {x y : Lowering α} (h : c.Rel x y)
    {f : α → Lowering β} (hf : ∀ a, ∃ b, f a = Pure.pure b) : c.Rel (x >>= f) (y >>= f) := by
  refine c.bind h fun a b hab => ?_
  obtain ⟨made, ha⟩ := hf a
  obtain ⟨made', hb⟩ := hf b
  rw [ha, hb]
  refine c.pure fun exact => ?_
  have hsame : (Pure.pure made : Lowering β) = Pure.pure made' := by rw [← ha, ← hb, hab exact]
  exact Except.ok.inj (congrArg Lowering.result hsame)

/-- Two lowerings one after the other, put together. -/
theorem Congruence.both (c : Congruence) (f : α → β → γ) {x y : Lowering α} {x' y' : Lowering β}
    (h : c.Rel x y) (h' : c.Rel x' y') :
    c.Rel (do let a ← x; let b ← x'; return f a b) (do let a ← y; let b ← y'; return f a b) :=
  c.bind h fun _ _ hab => c.bind h' fun _ _ hab' =>
    c.pure fun exact => by rw [hab exact, hab' exact]

/-- Two lowerings are the same. -/
def equal : Congruence where
  Rel := Eq
  Exact := True
  Allowed _ := True
  pure h := congrArg Pure.pure (h trivial)
  malformed _ := rfl
  bind {α β x y f g} hxy hfg := by
    rw [hxy, funext fun a => hfg a a fun _ => rfl]

end Lowering

/-- What a JSON value is. -/
inductive Json.Kind where
  | null
  | boolean
  | number
  | string
  | array
  | object
  deriving DecidableEq

def Json.kind : Json → Json.Kind
  | .null => .null
  | .bool _ => .boolean
  | .num _ => .number
  | .str _ => .string
  | .arr _ => .array
  | .obj _ => .object

/-- The value that was found cannot stand where it stands. -/
def Malformation.Genuine : Malformation → Prop
  | typeKeyword found => found.kind ∉ [.null, .string, .array]
  | itemsKeyword found => found.kind ∉ [.null, .boolean, .object, .array]
  | propertiesKeyword found => found.kind ∉ [.null, .object]
  | schemaList found => found.kind ≠ .array

namespace Keywords

open Lowering

/-- The keywords that combine schemas. -/
def combinators (k : Keywords) : List (String × Option Json) :=
  [("anyOf", k.anyOf), ("oneOf", k.oneOf), ("allOf", k.allOf)]

/-- A subschema that a node holds, and the steps that lead to it. -/
inductive Child (k : Keywords) : Pointer → Json → Prop where
  | items {schema : Json} : k.items = some schema → Child k ["items"] schema
  | rest {entries : Entries} : k.additionalProperties = some (.obj entries) →
      Child k ["additionalProperties"] (.obj entries)
  | listed {keyword : String} {schemas : List Json} {i : Nat} {schema : Json} :
      (keyword, some (.arr schemas)) ∈ ("items", k.items) :: k.combinators →
        schemas[i]? = some schema → Child k [keyword, toString i] schema
  | property {properties : Entries} {name : String} {schema : Json} :
      k.properties = some (.obj properties) → (name, schema) ∈ properties →
        Child k ["properties", name] schema

theorem mem_combinators {k : Keywords} {keyword : String} {found : Json}
    (h : k.combinator? = some (keyword, found)) : (keyword, some found) ∈ k.combinators := by
  unfold combinator? at h
  split at h <;> simp_all [combinators]

/-- What is wrong with a node itself, and the steps that lead to where this is said. -/
inductive Flaw (k : Keywords) : Pointer → Malformation → Prop where
  | type {found : Json} : k.type = some found → (Malformation.typeKeyword found).Genuine →
      Flaw k [] (.typeKeyword found)
  | items {found : Json} : k.items = some found → (Malformation.itemsKeyword found).Genuine →
      Flaw k [] (.itemsKeyword found)
  | properties {found : Json} : k.properties = some found →
      (Malformation.propertiesKeyword found).Genuine → Flaw k [] (.propertiesKeyword found)
  | combinator {keyword : String} {found : Json} : (keyword, some found) ∈ k.combinators →
      (Malformation.schemaList found).Genuine → Flaw k [keyword] (.schemaList found)

/-- A subschema that lowering a node as some kind comes to. -/
inductive KindChild (k : Keywords) : String → Pointer → Json → Prop where
  | item {schema : Json} : k.items = some schema → schema.kind ∈ [.object, .boolean] →
      KindChild k "array" ["items"] schema
  | listed {schemas : List Json} {i : Nat} {schema : Json} : k.items = some (.arr schemas) →
      schemas[i]? = some schema → KindChild k "array" ["items", toString i] schema
  | property {properties : Entries} {name : String} {schema : Json} :
      k.properties = some (.obj properties) → (name, schema) ∈ properties →
        KindChild k "object" ["properties", name] schema
  | rest {entries : Entries} : k.additionalProperties = some (.obj entries) →
      KindChild k "object" ["additionalProperties"] (.obj entries)

/-- A subschema that lowering a node by its keywords comes to. -/
inductive Reads (k : Keywords) : Pointer → Json → Prop where
  | combined {keyword : String} {schemas : List Json} {i : Nat} {schema : Json} :
      k.values? = none → k.combinator? = some (keyword, .arr schemas) → schemas[i]? = some schema →
        Reads k [keyword, toString i] schema
  | kind {kind : String} {steps : Pointer} {schema : Json} : k.ByKind → kind ∈ k.shapeKinds →
      k.KindChild kind steps schema → Reads k steps schema

/-- A subschema that lowering a node comes to. -/
structure Visits (k : Keywords) (loose : Bool) (steps : Pointer) (schema : Json) : Prop where
  shaped : k.Shaped
  reads : (k.adjusted loose).Reads steps schema

theorem type_of_declaredType {k : Keywords} {found : Json} (h : k.declaredType = some found) :
    k.type = some found ∧ found ≠ .null := by
  unfold declaredType at h
  split at h
  · cases h
  · rename_i hnull
    exact ⟨h, fun hfound => hnull (hfound ▸ h)⟩

/-! ## One node

`sub` and `sub'` are two ways to lower subschemas. -/

section

variable (c : Congruence) {sub sub' : Json → Pointer → Lowering Validator}

theorem lowerEach_congr {pointer : Pointer} {index : Nat} {schemas : List Json}
    (h : ∀ i schema, schemas[i]? = some schema →
      c.Rel (sub schema (pointer ++ [toString (index + i)]))
        (sub' schema (pointer ++ [toString (index + i)]))) :
    c.Rel (lowerEach sub pointer index schemas) (lowerEach sub' pointer index schemas) := by
  induction schemas generalizing index with
  | nil => exact c.refl_pure []
  | cons schema rest ih =>
    refine c.both (· :: ·) (h 0 schema rfl) (ih fun i next hnext => ?_)
    rw [Nat.add_assoc, Nat.add_comm 1 i]
    exact h (i + 1) next hnext

theorem lowerProperties_congr {pointer : Pointer} {required : List String} {properties : Entries}
    (h : ∀ name schema, (name, schema) ∈ properties →
      c.Rel (sub schema (pointer ++ ["properties", name]))
        (sub' schema (pointer ++ ["properties", name]))) :
    c.Rel (lowerProperties sub pointer required properties)
      (lowerProperties sub' pointer required properties) := by
  induction properties with
  | nil => exact c.refl_pure []
  | cons entry rest ih =>
    obtain ⟨name, schema⟩ := entry
    refine c.both (fun validator others => ⟨name, validator, required.contains name⟩ :: others)
      (h name schema List.mem_cons_self) (ih fun name schema hmem => ?_)
    exact h name schema (List.mem_cons_of_mem _ hmem)

theorem lowerList_congr {pointer : Pointer} {found : Json}
    (h : ∀ (schemas : List Json) (i : Nat) schema, found = .arr schemas →
      schemas[i]? = some schema →
        c.Rel (sub schema (pointer ++ [toString i])) (sub' schema (pointer ++ [toString i])))
    (hmalformed : found.kind ≠ .array → c.Allowed ⟨pointer, .schemaList found⟩) :
    c.Rel (lowerList sub pointer found) (lowerList sub' pointer found) := by
  cases found with
  | arr schemas =>
    refine lowerEach_congr c fun i schema hi => ?_
    rw [Nat.zero_add]
    exact h schemas i schema rfl hi
  | _ => exact c.malformed (hmalformed (by simp [Json.kind]))

variable {k : Keywords} {pointer : Pointer}
  (hflaw : ∀ steps malformation, k.Flaw steps malformation →
    c.Allowed ⟨pointer ++ steps, malformation⟩)

section

variable {kind : String}
  (h : ∀ steps schema, k.KindChild kind steps schema →
    c.Rel (sub schema (pointer ++ steps)) (sub' schema (pointer ++ steps)))

include h

include hflaw in
theorem lowerArray_congr (hkind : kind = "array") :
    c.Rel (k.lowerArray sub pointer) (k.lowerArray sub' pointer) := by
  subst hkind
  have hmalformed : ∀ found, k.items = some found → (Malformation.itemsKeyword found).Genuine →
      c.Allowed ⟨pointer, .itemsKeyword found⟩ := by
    intro found hitems hgenuine
    simpa using hflaw _ _ (.items hitems hgenuine)
  unfold lowerArray
  cases hitems : k.items with
  | none => exact c.refl_pure _
  | some found =>
    cases found with
    | null => exact c.refl_pure _
    | bool item => exact c.map _ (h _ _ (.item hitems (by simp [Json.kind])))
    | num value =>
      exact c.malformed (hmalformed _ hitems (by simp [Malformation.Genuine, Json.kind]))
    | str value =>
      exact c.malformed (hmalformed _ hitems (by simp [Malformation.Genuine, Json.kind]))
    | obj item => exact c.map _ (h _ _ (.item hitems (by simp [Json.kind])))
    | arr items =>
      refine c.map _ (lowerList_congr c (fun schemas i schema hschemas hi => ?_) fun hkind => ?_)
      · cases hschemas
        rw [List.append_assoc]
        exact h _ schema (.listed hitems hi)
      · exact absurd rfl hkind

include hflaw in
theorem declaredProperties_congr (hkind : kind = "object") :
    c.Rel (k.declaredProperties sub pointer) (k.declaredProperties sub' pointer) := by
  subst hkind
  unfold declaredProperties
  cases hprops : k.properties with
  | none => exact c.refl_pure _
  | some found =>
    cases found with
    | null => exact c.refl_pure _
    | obj properties =>
      exact lowerProperties_congr c fun name schema hmem => h _ schema (.property hprops hmem)
    | _ =>
      refine c.malformed ?_
      simpa using hflaw _ _ (.properties hprops (by simp [Malformation.Genuine, Json.kind]))

theorem undeclared_congr (hkind : kind = "object") :
    c.Rel (k.undeclared sub pointer) (k.undeclared sub' pointer) := by
  subst hkind
  unfold undeclared
  cases hrest : k.additionalProperties with
  | none => exact c.refl_pure _
  | some found =>
    cases found with
    | bool value => cases value <;> exact c.refl_pure _
    | obj rest => exact c.map _ (h _ _ (.rest hrest))
    | _ => exact c.refl_pure _

include hflaw

theorem lowerObject_congr (hkind : kind = "object") :
    c.Rel (k.lowerObject sub pointer) (k.lowerObject sub' pointer) :=
  c.both _ (declaredProperties_congr c hflaw h hkind) (undeclared_congr c h hkind)

theorem lowerKind_congr :
    c.Rel (k.lowerKind sub pointer kind) (k.lowerKind sub' pointer kind) := by
  unfold lowerKind
  split
  · exact c.refl_pure _
  · exact c.refl_pure _
  · exact c.refl_pure _
  · exact c.refl_pure _
  · exact c.refl_pure _
  · exact lowerArray_congr c hflaw h rfl
  · exact lowerObject_congr c hflaw h rfl
  · exact c.refl_pure _

end

include hflaw

theorem lowerKinds_congr {kinds : List String}
    (h : ∀ kind ∈ kinds, ∀ steps schema, k.KindChild kind steps schema →
      c.Rel (sub schema (pointer ++ steps)) (sub' schema (pointer ++ steps))) :
    c.Rel (k.lowerKinds sub pointer kinds) (k.lowerKinds sub' pointer kinds) := by
  induction kinds with
  | nil => exact c.refl_pure []
  | cons kind rest ih =>
    exact c.both _ (lowerKind_congr c hflaw (h kind List.mem_cons_self))
      (ih fun other hother => h other (List.mem_cons_of_mem _ hother))

theorem lowerByKind_congr
    (h : ∀ kind ∈ k.shapeKinds, ∀ steps schema, k.KindChild kind steps schema →
      c.Rel (sub schema (pointer ++ steps)) (sub' schema (pointer ++ steps))) :
    c.Rel (k.lowerByKind sub pointer) (k.lowerByKind sub' pointer) := by
  unfold shapeKinds at h
  cases hdeclared : k.declaredType with
  | none =>
    rw [hdeclared] at h
    rw [lowerByKind_of_declaredType hdeclared, lowerByKind_of_declaredType hdeclared]
    cases hinferred : k.inferredKind? with
    | none => exact c.refl_pure _
    | some kind =>
      rw [hinferred] at h
      exact lowerKind_congr c hflaw (h kind List.mem_cons_self)
  | some found =>
    rw [hdeclared] at h
    unfold lowerByKind
    rw [hdeclared]
    cases found with
    | str kind => exact lowerKind_congr c hflaw (h kind List.mem_cons_self)
    | arr kinds =>
      refine c.bind_pure (lowerKinds_congr c hflaw h) fun alternatives => ?_
      split
      · cases alternatives <;> exact ⟨_, rfl⟩
      · exact ⟨_, rfl⟩
    | _ =>
      obtain ⟨htype, hnull⟩ := type_of_declaredType hdeclared
      refine c.malformed ?_
      simpa using hflaw _ _ (.type htype (by simp_all [Malformation.Genuine, Json.kind]))

theorem lowerShape_congr
    (h : ∀ steps schema, k.Reads steps schema →
      c.Rel (sub schema (pointer ++ steps)) (sub' schema (pointer ++ steps))) :
    c.Rel (k.lowerShape sub pointer) (k.lowerShape sub' pointer) := by
  rw [lowerShape_eq, lowerShape_eq]
  split
  · exact c.refl_pure _
  · rename_i keyword found hvalues hcombinator
    refine c.map _ (lowerList_congr c (fun schemas i schema hschemas hi => ?_) fun hkind => ?_)
    · rw [List.append_assoc]
      exact h _ schema (.combined hvalues (hschemas ▸ hcombinator) hi)
    · exact hflaw _ _ (.combinator (mem_combinators hcombinator) hkind)
  · rename_i hvalues hcombinator
    split
    · exact c.refl_pure _
    · rename_i hreference
      have hbyKind : k.ByKind := byKind_iff.mpr ⟨hvalues, hcombinator, by simpa using hreference⟩
      exact lowerByKind_congr c hflaw fun kind hkind steps schema hchild =>
        h steps schema (.kind hbyKind hkind hchild)

end

/-! ## Adjusting a node

No adjustment adds a subschema or a flaw. -/

/-- Every subschema and every flaw of the one node is one of the other. -/
structure Narrows (k k' : Keywords) : Prop where
  child : ∀ {steps schema}, k.Child steps schema → k'.Child steps schema
  flaw : ∀ {steps malformation}, k.Flaw steps malformation → k'.Flaw steps malformation

theorem Narrows.refl (k : Keywords) : k.Narrows k := ⟨id, id⟩

theorem Narrows.trans {a b c : Keywords} (h : a.Narrows b) (h' : b.Narrows c) : a.Narrows c :=
  ⟨fun hchild => h'.child (h.child hchild), fun hflaw => h'.flaw (h.flaw hflaw)⟩

/-- What counts are the keywords whose values are lowered. -/
theorem Narrows.of_keywords {k k' : Keywords}
    (htype : ∀ found, k.type = some found → k'.type = some found ∨ ∃ kind, found = .str kind)
    (hproperties : ∀ found, k.properties = some found → k'.properties = some found)
    (hrest : ∀ found, k.additionalProperties = some found →
      k'.additionalProperties = some found ∨ ∃ b, found = .bool b)
    (hitems : k.items = k'.items) (hcombinators : k.combinators = k'.combinators) :
    k.Narrows k' where
  child := by
    rintro steps schema (h | h | ⟨hmem, hi⟩ | ⟨h, hmem⟩)
    · exact .items (hitems ▸ h)
    · obtain h | ⟨b, hb⟩ := hrest _ h
      · exact .rest h
      · cases hb
    · rw [hitems, hcombinators] at hmem
      exact .listed hmem hi
    · exact .property (hproperties _ h) hmem
  flaw := by
    rintro steps malformation (⟨h, hgenuine⟩ | ⟨h, hgenuine⟩ | ⟨h, hgenuine⟩ | ⟨h, hgenuine⟩)
    · obtain h | ⟨kind, rfl⟩ := htype _ h
      · exact .type h hgenuine
      · exact absurd hgenuine (by simp [Malformation.Genuine, Json.kind])
    · exact .items (hitems ▸ h) hgenuine
    · exact .properties (hproperties _ h) hgenuine
    · exact .combinator (hcombinators ▸ h) hgenuine

theorem selected_narrows (k : Keywords) : k.selected.Narrows k := by
  have hdrop : ({ k with format := none, type := none, properties := none } : Keywords).Narrows k :=
    .of_keywords (fun _ h => nomatch h) (fun _ h => nomatch h) (fun _ => Or.inl) rfl rfl
  unfold selected
  split
  · split
    · split
      · refine .of_keywords (fun found h => Or.inr ?_) (fun _ => id) (fun _ => Or.inl) rfl rfl
        exact ⟨_, (Option.some.inj h).symm⟩
      · exact hdrop
    · exact hdrop
  · exact .refl k

theorem loosened_narrows (k : Keywords) : k.loosened.Narrows k := by
  unfold loosened
  split
  · refine .of_keywords (fun _ => Or.inl) (fun _ => id) (fun found h => Or.inr ?_) rfl rfl
    exact ⟨true, (Option.some.inj h).symm⟩
  · exact .refl k

theorem adjusted_narrows (k : Keywords) (loose : Bool) : (k.adjusted loose).Narrows k := by
  unfold adjusted
  split
  · exact (loosened_narrows _).trans k.selected_narrows
  · exact k.selected_narrows

theorem KindChild.child {k : Keywords} {kind : String} {steps : Pointer} {schema : Json}
    (h : k.KindChild kind steps schema) : k.Child steps schema := by
  cases h with
  | item hitems _ => exact .items hitems
  | listed hitems hi => exact .listed (List.mem_cons.mpr (Or.inl (by rw [hitems]))) hi
  | property hproperties hmem => exact .property hproperties hmem
  | rest hrest => exact .rest hrest

theorem Reads.child {k : Keywords} {steps : Pointer} {schema : Json} (h : k.Reads steps schema) :
    k.Child steps schema := by
  cases h with
  | combined _ hcombinator hi =>
    exact .listed (List.mem_cons_of_mem _ (mem_combinators hcombinator)) hi
  | kind _ _ hchild => exact hchild.child

theorem Visits.child {k : Keywords} {loose : Bool} {steps : Pointer} {schema : Json}
    (h : k.Visits loose steps schema) : k.Child steps schema :=
  (k.adjusted_narrows loose).child h.reads.child

/-! ## Whole nodes -/

section

open Lowering

variable (c : Congruence) {registry registry' : Registry}
  {sub sub' : Json → Pointer → Lowering Validator} {node : Keywords} (loose : Bool)
  (pointer : Pointer) (hbase64 : c.Rel (demand .base64Content) (demand .base64Content))
  (hresource : ∀ resourceType, Schema.resourceTypeOf node.type node.format = some resourceType →
    c.Rel (lowerResource registry resourceType) (lowerResource registry' resourceType))

include hbase64 hresource

/-- A congruence that holds of what a node demands itself and of the subschemas that lowering it
comes to, and that allows the flaws of the node, holds of the node. -/
theorem lower_congr_visits
    (h : ∀ steps schema, node.Visits loose steps schema →
      c.Rel (sub schema (pointer ++ steps)) (sub' schema (pointer ++ steps)))
    (hflaw : ∀ steps malformation, node.Flaw steps malformation →
      c.Allowed ⟨pointer ++ steps, malformation⟩) :
    c.Rel (node.lower registry loose sub pointer) (node.lower registry' loose sub' pointer) := by
  rw [lower_eq, lower_eq]
  split
  · exact c.bind hbase64 fun _ _ _ => c.refl_pure _
  · rename_i hnotBase64
    split
    · exact c.refl_pure _
    · rename_i hnotEmpty
      split
      · rename_i resourceType heq
        exact c.map _ (hresource resourceType (resourceTypeOf_selected heq))
      · rename_i hnotResource
        have hshaped : node.Shaped :=
          ⟨by simpa using hnotBase64, by simpa using hnotEmpty, hnotResource⟩
        exact c.map _ (lowerShape_congr c
          (fun _ _ hfound => hflaw _ _ ((node.adjusted_narrows loose).flaw hfound))
          fun _ _ hreads => h _ _ ⟨hshaped, hreads⟩)

/-- A congruence that holds of what a node demands itself and of its subschemas, and that allows the
flaws of the node, holds of the node. -/
theorem lower_congr
    (h : ∀ steps schema, node.Child steps schema →
      c.Rel (sub schema (pointer ++ steps)) (sub' schema (pointer ++ steps)))
    (hflaw : ∀ steps malformation, node.Flaw steps malformation →
      c.Allowed ⟨pointer ++ steps, malformation⟩) :
    c.Rel (node.lower registry loose sub pointer) (node.lower registry' loose sub' pointer) :=
  lower_congr_visits c loose pointer hbase64 hresource
    (fun _ _ hvisits => h _ _ hvisits.child) hflaw

end

end Keywords

end SchemaClient
