/-
SchemaClient.Proofs.Lowering.Parts — what the validator of a node tells about its subschemas.

What lowering comes to at a subschema goes into the validator of the node, and hardly anything of it
is lost there: of two lowerings of a node that come to the same, each comes to the same at a
subschema as the other. Only that a value may be null is said once, so that the validator of a node
that may be null does not tell whether what stands below may be null as well.

* `Validator.nonNull` — what a validator says of other values than null.
* `Keywords.agree_of_lower` — two lowerings of a node, and of the subschemas that they come to.
-/
import SchemaClient.Proofs.Lowering.Traversal

namespace SchemaClient

namespace Validator

/-- What a validator says of other values than null. -/
def nonNull : Validator → Validator
  | nullable inner => inner
  | validator => validator

theorem map_nonNull_of_choice {first second : List Validator}
    (hlength : first.length = second.length)
    (h : (choice first).nonNull = (choice second).nonNull) :
    first.map nonNull = second.map nonNull := by
  match first, second, hlength with
  | [], [], _ => rfl
  | [a], [b], _ => exact congrArg (fun v => [v]) h
  | _ :: _ :: _, _ :: _ :: _, _ =>
    obtain ⟨rfl, rfl, rfl⟩ := by simpa [choice, nonNull] using h
    rfl

theorem map_nonNull_of_conjunction {first second : List Validator}
    (hlength : first.length = second.length)
    (h : (conjunction first).nonNull = (conjunction second).nonNull) :
    first.map nonNull = second.map nonNull := by
  match first, second, hlength with
  | [], [], _ => rfl
  | [a], [b], _ => exact congrArg (fun v => [v]) h
  | _ :: _ :: _, _ :: _ :: _, _ =>
    obtain ⟨rfl, rfl, rfl⟩ := by simpa [conjunction, nonNull] using h
    rfl

end Validator

namespace Keywords

open Lowering Validator

variable {k : Keywords} {sub sub' : Json → Pointer → Lowering Validator} {pointer : Pointer}

/-- Two ways to lower a schema come to the same for other values than null. -/
def Agree (first second : Lowering Validator) : Prop :=
  ∃ v w, first.result = .ok v ∧ second.result = .ok w ∧ v.nonNull = w.nonNull

/-! ## Modifiers -/

theorem nonNull_acceptNull (v : Validator) : (k.acceptNull v).nonNull = v.nonNull := by
  unfold acceptNull
  split
  · rfl
  · rfl
  · rename_i hnullable
    have hself : v.nonNull = v := by
      unfold nonNull
      split
      · exact absurd rfl (hnullable _)
      · rfl
    split
    · exact hself.symm
    · rfl

/-- The modifiers of a node leave what it says of other values than null. -/
theorem nonNull_of_decorate {v w : Validator}
    (h : (k.decorate v).nonNull = (k.decorate w).nonNull) : v.nonNull = w.nonNull := by
  rw [← nonNull_acceptNull (k := k) v, ← nonNull_acceptNull (k := k) w]
  unfold decorate describe at h
  simp only at h
  split at h
  · obtain ⟨hsame, -⟩ := Validator.defaulted.inj h
    split at hsame
    · rw [(Validator.described.inj hsame).1]
    · rw [hsame]
  · split at h
    · rw [(Validator.described.inj h).1]
    · exact h

/-! ## Lists of subschemas

One result for each of them, in order. -/

theorem lowerEach_ok {index : Nat} {schemas : List Json} {validators : List Validator}
    (h : (lowerEach sub pointer index schemas).result = .ok validators) :
    validators.length = schemas.length ∧ ∀ i schema, schemas[i]? = some schema →
      ∃ v, validators[i]? = some v ∧
        (sub schema (pointer ++ [toString (index + i)])).result = .ok v := by
  induction schemas generalizing index validators with
  | nil =>
    cases h
    exact ⟨rfl, fun _ _ hi => by simp at hi⟩
  | cons first rest ih =>
    obtain ⟨v, others, hv, hothers, rfl⟩ := exists_of_both_ok h
    obtain ⟨hlength, hall⟩ := ih hothers
    refine ⟨congrArg (· + 1) hlength, fun i schema hi => ?_⟩
    cases i with
    | zero =>
      cases hi
      exact ⟨v, rfl, hv⟩
    | succ i =>
      obtain ⟨w, hw, hsub⟩ := hall i schema hi
      rw [Nat.add_assoc, Nat.add_comm 1 i] at hsub
      exact ⟨w, hw, hsub⟩

theorem lowerProperties_ok {required : List String} {properties : Entries}
    {validators : List (Property Validator)}
    (h : (lowerProperties sub pointer required properties).result = .ok validators) :
    validators.length = properties.length ∧
      ∀ (i : Nat) name schema, properties[i]? = some (name, schema) →
        ∃ v, validators[i]? = some ⟨name, v, required.contains name⟩ ∧
          (sub schema (pointer ++ ["properties", name])).result = .ok v := by
  induction properties generalizing validators with
  | nil =>
    cases h
    exact ⟨rfl, fun _ _ _ hi => by simp at hi⟩
  | cons first rest ih =>
    obtain ⟨v, others, hv, hothers, rfl⟩ := exists_of_both_ok h
    obtain ⟨hlength, hall⟩ := ih hothers
    refine ⟨congrArg (· + 1) hlength, fun i name schema hi => ?_⟩
    cases i with
    | zero =>
      cases hi
      exact ⟨v, rfl, hv⟩
    | succ i => exact hall i name schema hi

/-- Of lists of validators that are the same for other values than null each two are. -/
theorem agree_of_lowerEach {schemas : List Json} {first second : List Validator}
    (hfirst : (lowerEach sub pointer 0 schemas).result = .ok first)
    (hsecond : (lowerEach sub' pointer 0 schemas).result = .ok second)
    (heq : first.map nonNull = second.map nonNull) {i : Nat} {schema : Json}
    (hi : schemas[i]? = some schema) :
    Agree (sub schema (pointer ++ [toString i])) (sub' schema (pointer ++ [toString i])) := by
  obtain ⟨v, hv, hsub⟩ := (lowerEach_ok hfirst).2 i schema hi
  obtain ⟨w, hw, hsub'⟩ := (lowerEach_ok hsecond).2 i schema hi
  rw [Nat.zero_add] at hsub hsub'
  have hplace := congrArg (·[i]?) heq
  simp only [List.getElem?_map, hv, hw, Option.map_some, Option.some.injEq] at hplace
  exact ⟨v, w, hsub, hsub', hplace⟩

/-! ## Kinds -/

section

variable {v w : Validator} {kind : String} {steps : Pointer} {schema : Json}

/-- What an object comes to with these properties. -/
def objectOf (properties : List (Property Validator)) (undeclared : Undeclared Validator) :
    Validator :=
  match properties, undeclared with
  | [], .catchall value => .record value
  | [], .strip => .record .any
  | properties, undeclared => .object properties undeclared

theorem agree_of_lowerArray (hv : (k.lowerArray sub pointer).result = .ok v)
    (hw : (k.lowerArray sub' pointer).result = .ok w) (heq : v.nonNull = w.nonNull)
    (hkind : kind = "array") (h : k.KindChild kind steps schema) :
    Agree (sub schema (pointer ++ steps)) (sub' schema (pointer ++ steps)) := by
  unfold lowerArray at hv hw
  cases h with
  | item hitems hschema =>
    rw [hitems] at hv hw
    cases schema with
    | bool item =>
      obtain ⟨a, ha, rfl⟩ := exists_of_map_ok hv
      obtain ⟨b, hb, rfl⟩ := exists_of_map_ok hw
      exact ⟨a, b, ha, hb, congrArg nonNull (Validator.array.inj heq).1⟩
    | obj item =>
      obtain ⟨a, ha, rfl⟩ := exists_of_map_ok hv
      obtain ⟨b, hb, rfl⟩ := exists_of_map_ok hw
      exact ⟨a, b, ha, hb, congrArg nonNull (Validator.array.inj heq).1⟩
    | _ => simp [Json.kind] at hschema
  | listed hitems hi =>
    rw [hitems] at hv hw
    obtain ⟨first, hfirst, rfl⟩ := exists_of_map_ok hv
    obtain ⟨second, hsecond, rfl⟩ := exists_of_map_ok hw
    have hagree := agree_of_lowerEach hfirst hsecond
      (congrArg (List.map nonNull) (Validator.tuple.inj heq)) hi
    simpa using hagree
  | property => exact absurd hkind (by decide)
  | rest => exact absurd hkind (by decide)

/-- An object is put together from its properties and what it does with other keys. -/
theorem of_lowerObject_ok (h : (k.lowerObject sub pointer).result = .ok v) :
    ∃ properties undeclared, (k.declaredProperties sub pointer).result = .ok properties ∧
      (k.undeclared sub pointer).result = .ok undeclared ∧
      v = objectOf properties undeclared := by
  obtain ⟨properties, undeclared, hproperties, hundeclared, hobject⟩ := exists_of_both_ok h
  exact ⟨properties, undeclared, hproperties, hundeclared, hobject.symm⟩

/-- Nothing is lost if it is known whether there is a validator for other keys. -/
theorem objectOf_inj {properties properties' : List (Property Validator)}
    {undeclared undeclared' : Undeclared Validator}
    (hlength : properties.length = properties'.length)
    (hform : (∃ a b, undeclared = .catchall a ∧ undeclared' = .catchall b) ∨
      undeclared = undeclared')
    (h : (objectOf properties undeclared).nonNull = (objectOf properties' undeclared').nonNull) :
    properties = properties' ∧ undeclared = undeclared' := by
  match properties, properties', hlength with
  | [], [], _ =>
    rcases hform with ⟨a, b, rfl, rfl⟩ | rfl
    · obtain rfl := Validator.record.inj h
      exact ⟨rfl, rfl⟩
    · exact ⟨rfl, rfl⟩
  | _ :: _, _ :: _, _ => exact Validator.object.inj h

/-- What an object does with other keys is in its keywords or comes of a subschema. -/
theorem undeclared_cases {undeclared undeclared' : Undeclared Validator}
    (h : (k.undeclared sub pointer).result = .ok undeclared)
    (h' : (k.undeclared sub' pointer).result = .ok undeclared') :
    (∃ entries a b, k.additionalProperties = some (.obj entries) ∧ undeclared = .catchall a ∧
      undeclared' = .catchall b ∧
      (sub (.obj entries) (pointer ++ ["additionalProperties"])).result = .ok a ∧
      (sub' (.obj entries) (pointer ++ ["additionalProperties"])).result = .ok b) ∨
    ((∀ entries, k.additionalProperties ≠ some (.obj entries)) ∧ undeclared = undeclared') := by
  by_cases hobj : ∃ entries, k.additionalProperties = some (.obj entries)
  · obtain ⟨entries, hentries⟩ := hobj
    unfold Keywords.undeclared at h h'
    rw [hentries] at h h'
    obtain ⟨a, ha, rfl⟩ := exists_of_map_ok h
    obtain ⟨b, hb, rfl⟩ := exists_of_map_ok h'
    exact Or.inl ⟨entries, a, b, hentries, rfl, rfl, ha, hb⟩
  · have hnone : ∀ entries, k.additionalProperties ≠ some (.obj entries) :=
      fun entries hentries => hobj ⟨entries, hentries⟩
    have hsame : k.undeclared sub pointer = k.undeclared sub' pointer := by
      unfold Keywords.undeclared
      generalize k.additionalProperties = rest at hnone
      cases rest with
      | none => rfl
      | some found =>
        cases found with
        | bool value => cases value <;> rfl
        | obj entries => exact absurd rfl (hnone entries)
        | _ => rfl
    rw [hsame, h'] at h
    exact Or.inr ⟨hnone, (Except.ok.inj h).symm⟩

theorem declaredProperties_ok {properties : List (Property Validator)}
    (h : (k.declaredProperties sub pointer).result = .ok properties) :
    (∃ entries, k.properties = some (.obj entries) ∧
      (lowerProperties sub pointer k.requiredNames entries).result = .ok properties) ∨
    ((∀ entries, k.properties ≠ some (.obj entries)) ∧ properties = []) := by
  unfold declaredProperties at h
  split at h
  · exact Or.inl ⟨_, ‹_›, h⟩
  · cases h
    exact Or.inr ⟨fun _ heq => by simp_all, rfl⟩
  · cases h
    exact Or.inr ⟨fun _ heq => by simp_all, rfl⟩
  · cases h

theorem agree_of_lowerObject (hv : (k.lowerObject sub pointer).result = .ok v)
    (hw : (k.lowerObject sub' pointer).result = .ok w) (heq : v.nonNull = w.nonNull)
    (hkind : kind = "object") (h : k.KindChild kind steps schema) :
    Agree (sub schema (pointer ++ steps)) (sub' schema (pointer ++ steps)) := by
  obtain ⟨properties, undeclared, hproperties, hundeclared, rfl⟩ := of_lowerObject_ok hv
  obtain ⟨properties', undeclared', hproperties', hundeclared', rfl⟩ := of_lowerObject_ok hw
  have hlength : properties.length = properties'.length := by
    rcases declaredProperties_ok hproperties with ⟨entries, hentries, hlower⟩ | ⟨hnone, rfl⟩
    · rcases declaredProperties_ok hproperties' with ⟨entries', hentries', hlower'⟩ | ⟨hnone, -⟩
      · rw [hentries] at hentries'
        cases hentries'
        rw [(lowerProperties_ok hlower).1, (lowerProperties_ok hlower').1]
      · exact absurd hentries (hnone entries)
    · rcases declaredProperties_ok hproperties' with ⟨entries', hentries', -⟩ | ⟨-, rfl⟩
      · exact absurd hentries' (hnone entries')
      · rfl
  have hcases := undeclared_cases hundeclared hundeclared'
  obtain ⟨hsame, hsame'⟩ := objectOf_inj hlength
    (hcases.imp (fun ⟨_, a, b, _, h, h', _⟩ => ⟨a, b, h, h'⟩) And.right) heq
  cases h with
  | item => exact absurd hkind (by decide)
  | listed => exact absurd hkind (by decide)
  | @property entries name _ hentries hmem =>
    obtain ⟨i, hi⟩ := List.getElem?_of_mem hmem
    rcases declaredProperties_ok hproperties with ⟨entries', hentries', hlower⟩ | ⟨hnone, -⟩
    · rcases declaredProperties_ok hproperties' with ⟨_, hentries'', hlower'⟩ | ⟨hnone, -⟩
      · rw [hentries] at hentries' hentries''
        cases hentries'
        cases hentries''
        obtain ⟨a, ha, hsub⟩ := (lowerProperties_ok hlower).2 i name schema hi
        obtain ⟨b, hb, hsub'⟩ := (lowerProperties_ok hlower').2 i name schema hi
        rw [hsame, hb] at ha
        cases ha
        exact ⟨a, a, hsub, hsub', rfl⟩
      · exact absurd hentries (hnone entries)
    · exact absurd hentries (hnone entries)
  | @rest entries hentries =>
    rcases hcases with ⟨_, a, b, hentries', rfl, rfl, ha, hb⟩ | ⟨hnone, -⟩
    · rw [hentries] at hentries'
      cases hentries'
      exact ⟨a, b, ha, hb, congrArg nonNull (Undeclared.catchall.inj hsame')⟩
    · exact absurd hentries (hnone entries)

theorem agree_of_lowerKind (hv : (k.lowerKind sub pointer kind).result = .ok v)
    (hw : (k.lowerKind sub' pointer kind).result = .ok w) (heq : v.nonNull = w.nonNull)
    (h : k.KindChild kind steps schema) :
    Agree (sub schema (pointer ++ steps)) (sub' schema (pointer ++ steps)) := by
  have hkinds : kind = "array" ∨ kind = "object" := by
    cases h with
    | item => exact Or.inl rfl
    | listed => exact Or.inl rfl
    | property => exact Or.inr rfl
    | rest => exact Or.inr rfl
  rcases hkinds with rfl | rfl
  · exact agree_of_lowerArray hv hw heq rfl h
  · exact agree_of_lowerObject hv hw heq rfl h

theorem lowerKinds_ok {kinds : List String} {validators : List Validator}
    (h : (k.lowerKinds sub pointer kinds).result = .ok validators) :
    validators.length = kinds.length ∧ ∀ (i : Nat) kind, kinds[i]? = some kind →
      ∃ v, validators[i]? = some v ∧ (k.lowerKind sub pointer kind).result = .ok v := by
  induction kinds generalizing validators with
  | nil =>
    cases h
    exact ⟨rfl, fun _ _ hi => by simp at hi⟩
  | cons first rest ih =>
    obtain ⟨v, others, hv, hothers, rfl⟩ := exists_of_both_ok h
    obtain ⟨hlength, hall⟩ := ih hothers
    refine ⟨congrArg (· + 1) hlength, fun i kind hi => ?_⟩
    cases i with
    | zero =>
      cases hi
      exact ⟨v, rfl, hv⟩
    | succ i => exact hall i kind hi

/-- A list of kinds tells the choice between those that are not null. -/
theorem lowerKindList_ok {kinds : List String}
    (h : (k.lowerKindList sub pointer kinds).result = .ok v) :
    ∃ alternatives, (k.lowerKinds sub pointer (kinds.filter (· != "null"))).result =
        .ok alternatives ∧
      (alternatives ≠ [] → v = .nullable (.choice alternatives) ∧ kinds.contains "null" = true ∨
        v = .choice alternatives ∧ kinds.contains "null" = false) := by
  obtain ⟨alternatives, halternatives, hrest⟩ := exists_of_andThen_ok h
  refine ⟨alternatives, halternatives, fun hne => ?_⟩
  split at hrest
  · rename_i hnull
    cases alternatives with
    | nil => exact absurd rfl hne
    | cons first rest => exact Or.inl ⟨(Except.ok.inj hrest).symm, hnull⟩
  · rename_i hnull
    exact Or.inr ⟨(Except.ok.inj hrest).symm, by simpa using hnull⟩

theorem agree_of_lowerKindList {kinds : List String}
    (hv : (k.lowerKindList sub pointer kinds).result = .ok v)
    (hw : (k.lowerKindList sub' pointer kinds).result = .ok w) (heq : v.nonNull = w.nonNull)
    (hmem : kind ∈ kinds.filter (· != "null")) (h : k.KindChild kind steps schema) :
    Agree (sub schema (pointer ++ steps)) (sub' schema (pointer ++ steps)) := by
  obtain ⟨i, hi⟩ := List.getElem?_of_mem hmem
  obtain ⟨first, hfirst, hchoice⟩ := lowerKindList_ok hv
  obtain ⟨second, hsecond, hchoice'⟩ := lowerKindList_ok hw
  obtain ⟨hlength, hall⟩ := lowerKinds_ok hfirst
  obtain ⟨hlength', hall'⟩ := lowerKinds_ok hsecond
  obtain ⟨a, ha, hkind⟩ := hall i kind hi
  obtain ⟨b, hb, hkind'⟩ := hall' i kind hi
  have hne : first ≠ [] := by rintro rfl; simp at ha
  have hne' : second ≠ [] := by rintro rfl; simp at hb
  -- with null among the kinds both are nullable, and without it none is
  have hsame : (choice first).nonNull = (choice second).nonNull := by
    rcases hchoice hne with ⟨rfl, hnull⟩ | ⟨rfl, hnull⟩
    · rcases hchoice' hne' with ⟨rfl, -⟩ | ⟨-, hnull'⟩
      · exact congrArg nonNull heq
      · rw [hnull] at hnull'
        cases hnull'
    · rcases hchoice' hne' with ⟨-, hnull'⟩ | ⟨rfl, -⟩
      · rw [hnull] at hnull'
        cases hnull'
      · exact heq
  have hplace := congrArg (·[i]?) (map_nonNull_of_choice (hlength.trans hlength'.symm) hsame)
  simp only [List.getElem?_map, ha, hb, Option.map_some, Option.some.injEq] at hplace
  exact agree_of_lowerKind hkind hkind' hplace h

theorem agree_of_lowerByKind (hv : (k.lowerByKind sub pointer).result = .ok v)
    (hw : (k.lowerByKind sub' pointer).result = .ok w) (heq : v.nonNull = w.nonNull)
    (hmem : kind ∈ k.shapeKinds) (h : k.KindChild kind steps schema) :
    Agree (sub schema (pointer ++ steps)) (sub' schema (pointer ++ steps)) := by
  unfold shapeKinds at hmem
  cases hdeclared : k.declaredType with
  | none =>
    rw [lowerByKind_of_declaredType hdeclared] at hv hw
    rw [hdeclared] at hmem
    cases hinferred : k.inferredKind? with
    | none =>
      rw [hinferred] at hmem
      cases hmem
    | some inferred =>
      rw [hinferred] at hv hw hmem
      obtain rfl := List.mem_singleton.mp hmem
      exact agree_of_lowerKind hv hw heq h
  | some found =>
    unfold lowerByKind at hv hw
    rw [hdeclared] at hv hw hmem
    cases found with
    | str declared =>
      obtain rfl := List.mem_singleton.mp hmem
      exact agree_of_lowerKind hv hw heq h
    | arr kinds => exact agree_of_lowerKindList hv hw heq hmem h
    | _ => cases hv

/-! ## Nodes -/

theorem agree_of_lowerShape (hv : (k.lowerShape sub pointer).result = .ok v)
    (hw : (k.lowerShape sub' pointer).result = .ok w) (heq : v.nonNull = w.nonNull)
    (h : k.Reads steps schema) :
    Agree (sub schema (pointer ++ steps)) (sub' schema (pointer ++ steps)) := by
  cases h with
  | @combined keyword schemas i _ hvalues hcombinator hi =>
    rw [lowerShape_eq, hvalues, hcombinator] at hv hw
    obtain ⟨first, hfirst, rfl⟩ := exists_of_map_ok hv
    obtain ⟨second, hsecond, rfl⟩ := exists_of_map_ok hw
    have hlength := (lowerEach_ok hfirst).1.trans (lowerEach_ok hsecond).1.symm
    have hsame : first.map nonNull = second.map nonNull := by
      unfold combined at heq
      split at heq
      · exact map_nonNull_of_conjunction hlength heq
      · exact map_nonNull_of_choice hlength heq
    simpa using agree_of_lowerEach hfirst hsecond hsame hi
  | kind hbyKind hmem hchild =>
    rw [lowerShape_of_byKind hbyKind] at hv hw
    exact agree_of_lowerByKind hv hw heq hmem hchild

/-- If two lowerings of a node come to the same for other values than null, then so do they at each
subschema that they come to. -/
theorem agree_of_lower {registry registry' : Registry} {loose : Bool}
    (hv : (k.lower registry loose sub pointer).result = .ok v)
    (hw : (k.lower registry' loose sub' pointer).result = .ok w) (heq : v.nonNull = w.nonNull)
    (h : k.Visits loose steps schema) :
    Agree (sub schema (pointer ++ steps)) (sub' schema (pointer ++ steps)) := by
  rw [h.shaped.lower_eq] at hv hw
  obtain ⟨a, ha, rfl⟩ := exists_of_map_ok hv
  obtain ⟨b, hb, rfl⟩ := exists_of_map_ok hw
  exact agree_of_lowerShape ha hb (nonNull_of_decorate heq) h.reads

end

end Keywords

end SchemaClient
