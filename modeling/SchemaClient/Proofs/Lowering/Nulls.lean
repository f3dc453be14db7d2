/-
SchemaClient.Proofs.Lowering.Nulls — the nodes in which a keyword that is null matters.

A null reads as nothing but where a node has a kind only for the sake of it, where the first
combinator of the node is null, and where all that an object says of other keys goes away with the
nulls below. Where none of this is so a node is lowered alike without nulls; where it is, the two
validators differ in what they say of other values than null.

* `Keywords.HeedsNull` — a null matters to the lowering of a node itself.
* `Keywords.lower_pruned` — a node of which this is not so.
* `Keywords.nonNull_ne_of_heedsNull` — a node of which it is.
-/
import SchemaClient.Proofs.Lowering.Pruning

namespace SchemaClient

/-- The validator is one of objects. -/
def Validator.IsObject : Validator → Prop
  | .object _ _ => True
  | .record _ => True
  | _ => False

namespace Keywords

open Lowering Validator

open Schema (quiet bind_quiet prunedOperand)

variable {k : Keywords} {registry registry' : Registry}
  {sub sub' : Json → Pointer → Lowering Validator} {pointer : Pointer} {loose : Bool}

/-! ## Objects about which nothing is said -/

/-- The node is an object of which nothing is said, but perhaps what it does with other keys. -/
structure Bare (k : Keywords) : Prop where
  kind : k.kind? = some "object"
  properties : saysSomething k.properties = false
  patternProperties : saysSomething k.patternProperties = false
  format : saysSomething k.format = false
  anyOf : saysSomething k.anyOf = false
  oneOf : saysSomething k.oneOf = false
  allOf : saysSomething k.allOf = false

theorem isEmptyObject_iff :
    k.isEmptyObject = true ↔ k.Bare ∧ saysSomething k.additionalProperties = false := by
  unfold isEmptyObject
  simp only [List.any_cons, List.any_nil, Bool.or_false, Bool.and_eq_true, beq_iff_eq,
    Bool.not_eq_true', Bool.or_eq_false_iff]
  exact ⟨fun ⟨hkind, hproperties, hrest, hpattern, hformat, hanyOf, honeOf, hallOf⟩ =>
      ⟨⟨hkind, hproperties, hpattern, hformat, hanyOf, honeOf, hallOf⟩, hrest⟩,
    fun ⟨h, hrest⟩ =>
      ⟨h.kind, h.properties, hrest, h.patternProperties, h.format, h.anyOf, h.oneOf, h.allOf⟩⟩

theorem Bare.isBase64 (h : k.Bare) : k.isBase64 = false := by
  rw [Keywords.isBase64, h.kind]
  rfl

theorem Bare.format_bind (h : k.Bare) : k.format.bind Json.asString? = none := by
  have hformat := h.format
  cases hfound : k.format with
  | none => rfl
  | some found =>
    rw [hfound] at hformat
    cases found with
    | str text => cases hformat
    | _ => rfl

theorem Bare.selected (h : k.Bare) : k.selected = k := by
  have hselect : k.isDynamicSelect = false := by
    rw [isDynamicSelect, formatText?, h.format_bind]
  rw [Keywords.selected, hselect]
  rfl

theorem Bare.not_resource (h : k.Bare) :
    Schema.resourceTypeOf k.selected.type k.selected.format = none := by
  rw [h.selected]
  unfold Schema.resourceTypeOf
  split
  · rw [h.format_bind]
    rfl
  · rfl

theorem Bare.shaped (h : k.Bare) (hrest : k.isEmptyObject = false) : k.Shaped :=
  ⟨h.isBase64, hrest, h.not_resource⟩

/-- A combinator that says nothing lists no schemas. -/
theorem kind_ne_array_of_combinator {keyword : String} {found : Json}
    (hanyOf : saysSomething k.anyOf = false) (honeOf : saysSomething k.oneOf = false)
    (hallOf : saysSomething k.allOf = false) (h : k.combinator? = some (keyword, found)) :
    found.kind ≠ .array := by
  have hsays : saysSomething (some found) = false := by
    have hmem := mem_combinators h
    simp only [combinators, List.mem_cons, Prod.mk.injEq, List.not_mem_nil, or_false] at hmem
    rcases hmem with ⟨-, hmem⟩ | ⟨-, hmem⟩ | ⟨-, hmem⟩
    · rwa [hmem]
    · rwa [hmem]
    · rwa [hmem]
  rintro harray
  cases found with
  | arr schemas => cases hsays
  | _ => cases harray

/-- Such an object declares no properties. -/
theorem Bare.declaredProperties (h : k.Bare) :
    k.declaredProperties sub pointer = pure [] := by
  have hnothing := h.properties
  unfold Keywords.declaredProperties
  cases hfound : k.properties with
  | none => rfl
  | some found =>
    rw [hfound] at hnothing
    cases found with
    | null => rfl
    | obj properties =>
      cases properties with
      | nil => rfl
      | cons first rest => cases hnothing
    | _ => cases hnothing

theorem Bare.lowerShape (h : k.Bare) (hbyKind : k.ByKind) :
    k.lowerShape sub pointer = objectOf [] <$> k.undeclared sub pointer := by
  rw [lowerShape_of_byKind hbyKind, lowerByKind_of_kind h.kind, lowerObject, h.declaredProperties]
  rfl

/-! ## The same without nulls -/

theorem saysSomething_map_prunedOperand {keyword : String} (operand : Option Json)
    (h : keyword ∉ ["items", "additionalProperties"]) :
    saysSomething (quiet (operand.map (prunedOperand keyword))) = saysSomething operand := by
  rw [saysSomething_quiet]
  cases operand with
  | none => rfl
  | some found =>
    cases found with
    | arr schemas =>
      rw [Option.map_some, prunedOperand]
      split <;> rfl
    | obj entries =>
      simp only [List.mem_cons, List.not_mem_nil, or_false] at h
      rw [Option.map_some, prunedOperand, if_neg h]
      split
      · cases entries <;> rfl
      · rfl
    | _ => rfl

theorem bare_pruned (h : ¬ k.NullObject) : k.pruned.Bare ↔ k.Bare := by
  have hproperties : saysSomething k.pruned.properties = saysSomething k.properties :=
    saysSomething_map_prunedOperand _ (by decide)
  have hformat : saysSomething k.pruned.format = saysSomething k.format := saysSomething_quiet _
  have hanyOf : saysSomething k.pruned.anyOf = saysSomething k.anyOf :=
    saysSomething_map_prunedOperand _ (by decide)
  have honeOf : saysSomething k.pruned.oneOf = saysSomething k.oneOf :=
    saysSomething_map_prunedOperand _ (by decide)
  have hallOf : saysSomething k.pruned.allOf = saysSomething k.allOf :=
    saysSomething_map_prunedOperand _ (by decide)
  constructor
  · rintro ⟨h1, h2, h3, h4, h5, h6, h7⟩
    exact ⟨kind?_pruned h ▸ h1, hproperties ▸ h2, h3, hformat ▸ h4, hanyOf ▸ h5, honeOf ▸ h6,
      hallOf ▸ h7⟩
  · rintro ⟨h1, h2, h3, h4, h5, h6, h7⟩
    exact ⟨(kind?_pruned h).trans h1, hproperties.trans h2, h3, hformat.trans h4, hanyOf.trans h5,
      honeOf.trans h6, hallOf.trans h7⟩

theorem NullObject.kind?_pruned (h : k.NullObject) : k.pruned.kind? = none := by
  have hproperties : k.pruned.properties = quiet (k.properties.map (prunedOperand "properties")) :=
    rfl
  unfold kind?
  rw [declaredType_pruned, h.1, hproperties, h.2]
  rfl

theorem isEmptyObject_pruned (h : ¬ k.NullObject) (hempty : k.isEmptyObject = true) :
    k.pruned.isEmptyObject = true := by
  obtain ⟨hbare, hrest⟩ := isEmptyObject_iff.mp hempty
  refine isEmptyObject_iff.mpr ⟨(bare_pruned h).mpr hbare, ?_⟩
  change saysSomething (quiet (k.additionalProperties.map _)) = false
  rw [saysSomething_quiet]
  cases hfound : k.additionalProperties with
  | none => rfl
  | some found =>
    rw [hfound] at hrest
    cases found with
    | obj entries =>
      cases entries with
      | nil => rfl
      | cons first rest => cases hrest
    | null => rfl
    | _ => cases hrest

/-- A node of which only nulls are said says of other keys nothing but nulls. -/
theorem rest_of_isEmptyObject_pruned (hempty : k.isEmptyObject = false)
    (hpruned : k.pruned.isEmptyObject = true) :
    ¬ k.NullObject ∧ k.Bare ∧ ∃ entries, k.additionalProperties = some (.obj entries) ∧
      Schema.prunedEntries entries = [] := by
  obtain ⟨hbarePruned, hrest⟩ := isEmptyObject_iff.mp hpruned
  have hobject : ¬ k.NullObject := by
    intro hnull
    have hkind := hbarePruned.kind
    rw [hnull.kind?_pruned] at hkind
    cases hkind
  have hbare : k.Bare := (bare_pruned hobject).mp hbarePruned
  refine ⟨hobject, hbare, ?_⟩
  change saysSomething (quiet (k.additionalProperties.map _)) = false at hrest
  rw [saysSomething_quiet] at hrest
  have hsays : saysSomething k.additionalProperties = true := by
    by_contra hsays
    rw [isEmptyObject_iff.mpr ⟨hbare, by simpa using hsays⟩] at hempty
    cases hempty
  cases hfound : k.additionalProperties with
  | none =>
    rw [hfound] at hsays
    cases hsays
  | some found =>
    rw [hfound] at hsays hrest
    cases found with
    | obj entries =>
      refine ⟨entries, rfl, ?_⟩
      change (!(Schema.prunedEntries entries).isEmpty) = false at hrest
      simpa using hrest
    | null => cases hsays
    | arr schemas =>
      rw [Option.map_some, prunedOperand] at hrest
      split at hrest <;> cases hrest
    | _ => cases hrest

theorem isBase64_pruned (k : Keywords) : k.pruned.isBase64 = k.isBase64 := by
  have hcontent : k.pruned.contentEncoding.bind Json.asString? =
      k.contentEncoding.bind Json.asString? := bind_quiet rfl _
  unfold isBase64
  rw [hcontent]
  by_cases h : k.NullObject
  · have hkind : k.kind? = some "object" := by
      unfold kind?
      rw [h.1, h.2]
      rfl
    rw [h.kind?_pruned, hkind]
    rfl
  · rw [kind?_pruned h]

theorem resourceTypeOf_pruned (k : Keywords) :
    Schema.resourceTypeOf k.pruned.selected.type k.pruned.selected.format =
      Schema.resourceTypeOf k.selected.type k.selected.format := by
  rw [selected_pruned]
  change Schema.resourceTypeOf (quiet k.selected.type) (quiet k.selected.format) = _
  unfold Schema.resourceTypeOf
  rw [bind_quiet rfl, bind_quiet rfl]

theorem Shaped.pruned (h : k.Shaped) (hempty : k.pruned.isEmptyObject = false) : k.pruned.Shaped :=
  ⟨k.isBase64_pruned.trans h.notBase64, hempty, k.resourceTypeOf_pruned.trans h.notResource⟩

/-! ## Nodes in which nulls do not matter -/

/-- A keyword that is null matters to the lowering of a node itself. -/
inductive HeedsNull (k : Keywords) (loose : Bool) : Prop where
  /-- It is an object about which nothing is said only because its properties are null. -/
  | emptyObject : k.NullObject → k.isEmptyObject = true → HeedsNull k loose
  /-- It is lowered by its kind, which is due to a null. -/
  | kind : k.Shaped → k.ByKind → k.selected.NullObject ∨ k.selected.NullArray → HeedsNull k loose
  /-- Its first combinator is null. -/
  | combinator {keyword : String} : k.Shaped → k.values? = none →
      k.combinator? = some (keyword, .null) → HeedsNull k loose
  /-- Without the nulls it is an object about which nothing is said, and it is not a record as it
  stands. -/
  | rest : k.isEmptyObject = false → k.pruned.isEmptyObject = true → loose = true ∨ ¬ k.ByKind →
      HeedsNull k loose

/-- An adjusted node differs in what it does with other keys at most from one without loosening. -/
theorem adjusted_eq_selected (k : Keywords) (loose : Bool) :
    ∃ rest, k.adjusted loose = { k.selected with additionalProperties := rest } := by
  unfold adjusted
  split
  · unfold loosened
    split
    · exact ⟨_, rfl⟩
    · exact ⟨k.selected.additionalProperties, rfl⟩
  · exact ⟨k.selected.additionalProperties, rfl⟩

theorem nullObject_adjusted : (k.adjusted loose).NullObject ↔ k.selected.NullObject := by
  obtain ⟨rest, h⟩ := k.adjusted_eq_selected loose
  rw [h]
  rfl

theorem nullArray_adjusted : (k.adjusted loose).NullArray ↔ k.selected.NullArray := by
  obtain ⟨rest, h⟩ := k.adjusted_eq_selected loose
  rw [h]
  rfl

theorem byKind_of_pruned
    (hcombinator : k.values? = none → ∀ keyword, k.combinator? ≠ some (keyword, .null))
    (h : k.pruned.ByKind) : k.ByKind := by
  rw [byKind_iff, values?_pruned] at h
  obtain ⟨hvalues, hnone, hreference⟩ := h
  rw [combinator?_pruned (hcombinator hvalues), Option.map_eq_none_iff] at hnone
  exact byKind_iff.mpr ⟨hvalues, hnone, hreference⟩

/-- A node that is lowered by its keywords, with or without nulls. -/
theorem lowerShape_adjusted_pruned (h : ¬ k.HeedsNull loose) (hshaped : k.Shaped) :
    (k.pruned.adjusted loose).lowerShape sub pointer =
      (k.adjusted loose).lowerShape (fun schema => sub (Schema.pruned schema)) pointer := by
  have hobject : k.ByKind → ¬ k.selected.NullObject :=
    fun hbyKind hnull => h (.kind hshaped hbyKind (Or.inl hnull))
  have harray : k.ByKind → ¬ k.selected.NullArray :=
    fun hbyKind hnull => h (.kind hshaped hbyKind (Or.inr hnull))
  have hcombinator : k.values? = none → ∀ keyword, k.combinator? ≠ some (keyword, .null) :=
    fun hvalues keyword hnull => h (.combinator hshaped hvalues hnull)
  have hvalues : (k.pruned.adjusted loose).values? = (k.adjusted loose).pruned.values? := by
    rw [values?_adjusted, values?_pruned, values?_pruned, values?_adjusted]
  have hsameCombinator : (k.pruned.adjusted loose).combinator? =
      (k.adjusted loose).pruned.combinator? := by
    obtain ⟨type, format, properties, rest, hadjusted⟩ := k.adjusted_eq loose
    rw [combinator?_adjusted, hadjusted]
    rfl
  have hreference : (k.pruned.adjusted loose).reference = (k.adjusted loose).pruned.reference := by
    obtain ⟨type, format, properties, rest, hadjusted⟩ := k.adjusted_eq loose
    rw [reference_adjusted, hadjusted]
    rfl
  -- where null properties make an object, only it is loosened, but then its kind does not decide
  calc (k.pruned.adjusted loose).lowerShape sub pointer
      = (k.adjusted loose).pruned.lowerShape sub pointer := by
        refine lowerShape_eq_of_byKind hvalues hsameCombinator hreference fun hbyKind => ?_
        rw [adjusted_pruned (hobject (byKind_of_pruned hcombinator (byKind_adjusted.mp hbyKind)))]
    _ = (k.adjusted loose).lowerShape (fun schema => sub (Schema.pruned schema)) pointer := by
        refine lowerShape_pruned ?_ ?_
        · rwa [values?_adjusted, combinator?_adjusted]
        · rw [byKind_adjusted, nullObject_adjusted, nullArray_adjusted]
          exact fun hbyKind => ⟨hobject hbyKind, harray hbyKind⟩

/-- An object of which nothing but nulls is said is a record of anything, if nothing else than its
kind decides. -/
theorem lower_of_rest (h : ¬ k.HeedsNull loose)
    (hany : ∀ pointer, sub (.obj []) pointer = pure .any) (hempty : k.isEmptyObject = false)
    (hpruned : k.pruned.isEmptyObject = true) :
    k.lower registry loose (fun schema => sub (Schema.pruned schema)) pointer =
      pure (k.finish (.record .any)) := by
  obtain ⟨-, hbare, entries, hrest, hentries⟩ := rest_of_isEmptyObject_pruned hempty hpruned
  have hloose : loose = false := by
    by_contra hloose
    exact h (.rest hempty hpruned (Or.inl (by simpa using hloose)))
  have hbyKind : k.ByKind := by
    by_contra hbyKind
    exact h (.rest hempty hpruned (Or.inr hbyKind))
  subst hloose
  have hadjusted : k.adjusted false = k := hbare.selected
  have hrestAny : sub (Schema.pruned (.obj entries)) (pointer ++ ["additionalProperties"]) =
      pure .any := by
    rw [Schema.pruned_obj, hentries]
    exact hany _
  rw [(hbare.shaped hempty).lower_eq, hadjusted, hbare.lowerShape hbyKind, undeclared, hrest]
  dsimp only
  rw [hrestAny]
  rfl

/-- Where nulls do not matter, a node is lowered alike without them. -/
theorem lower_pruned (h : ¬ k.HeedsNull loose)
    (hany : ∀ pointer, sub (.obj []) pointer = pure .any) :
    k.pruned.lower registry loose sub pointer =
      k.lower registry loose (fun schema => sub (Schema.pruned schema)) pointer := by
  by_cases hpruned : k.isEmptyObject = false ∧ k.pruned.isEmptyObject = true
  · -- only without the nulls is the node replaced
    obtain ⟨hempty, hpruned⟩ := hpruned
    obtain ⟨-, hbare, -⟩ := rest_of_isEmptyObject_pruned hempty hpruned
    rw [lower_of_rest h hany hempty hpruned, lower_eq, isBase64_pruned, finish_pruned,
      hbare.isBase64, hpruned]
    rfl
  · have hempty : k.pruned.isEmptyObject = k.isEmptyObject := by
      cases hempty : k.isEmptyObject with
      | true => exact isEmptyObject_pruned (fun hnull => h (.emptyObject hnull hempty)) hempty
      | false => simpa [hempty] using hpruned
    have hdescribe : k.pruned.describe = k.describe := by
      funext validator
      rw [describe, describe, description?_pruned]
    rw [lower_eq, lower_eq, isBase64_pruned, hempty, resourceTypeOf_pruned, finish_pruned,
      hdescribe]
    split
    · rfl
    · rename_i hbase64
      split
      · rfl
      · rename_i hempty
        split
        · rfl
        · rename_i hresource
          have hshaped : k.Shaped := ⟨by simpa using hbase64, by simpa using hempty, hresource⟩
          rw [lowerShape_adjusted_pruned h hshaped]

/-! ## Nodes in which nulls matter -/

theorem not_isObject_of_values {v : Validator} (h : k.values? = some v) : ¬ v.nonNull.IsObject := by
  have hliteral : ∀ value, ¬ (literal value).nonNull.IsObject := by
    intro value
    cases value <;> exact id
  have henumeration : ∀ members, ¬ (enumeration members).nonNull.IsObject := by
    intro members
    unfold enumeration
    split
    · split <;> exact id
    · match members with
      | [] => exact id
      | [only] => exact hliteral only
      | _ :: _ :: _ => exact id
  unfold values? at h
  split at h
  · cases h
    exact hliteral _
  · cases h
    exact henumeration _
  · cases h

theorem not_isObject_of_lowerArray {v : Validator} (h : (k.lowerArray sub pointer).result = .ok v) :
    ¬ v.nonNull.IsObject := by
  unfold lowerArray at h
  dsimp only at h
  split at h
  · obtain ⟨items, -, rfl⟩ := exists_of_map_ok h
    exact id
  · obtain ⟨item, -, rfl⟩ := exists_of_map_ok h
    exact id
  · obtain ⟨item, -, rfl⟩ := exists_of_map_ok h
    exact id
  · cases h
    exact id
  · cases h
    exact id
  · cases h

theorem not_isObject_of_lowerByKind {v : Validator} (hdeclared : k.declaredType = none)
    (hproperties : k.properties = none) (h : (k.lowerByKind sub pointer).result = .ok v) :
    ¬ v.nonNull.IsObject := by
  rw [lowerByKind_of_declaredType hdeclared, inferredKind?, hproperties] at h
  cases hitems : k.items with
  | none =>
    rw [hitems] at h
    cases h
    exact id
  | some items =>
    rw [hitems] at h
    exact not_isObject_of_lowerArray h

/-- What is lowered without a combinator that lists schemas, and not as an object, is no object. -/
theorem not_isObject_of_lowerShape {v : Validator}
    (hcombinator : ∀ keyword found, k.combinator? = some (keyword, found) → found.kind ≠ .array)
    (hkind : k.ByKind → k.declaredType = none ∧ k.properties = none)
    (h : (k.lowerShape sub pointer).result = .ok v) : ¬ v.nonNull.IsObject := by
  rw [lowerShape_eq] at h
  cases hvalues : k.values? with
  | some found =>
    rw [hvalues] at h
    cases h
    exact not_isObject_of_values hvalues
  | none =>
    rw [hvalues] at h
    cases hfirst : k.combinator? with
    | some found =>
      rw [hfirst] at h
      obtain ⟨parts, hparts, -⟩ := exists_of_map_ok h
      have hlist := hcombinator _ _ hfirst
      obtain ⟨keyword, schemas⟩ := found
      cases schemas with
      | arr schemas => exact absurd rfl hlist
      | _ => cases hparts
    | none =>
      rw [hfirst] at h
      dsimp only at h
      split at h
      · cases h
        exact id
      · rename_i hreference
        obtain ⟨hdeclared, hproperties⟩ :=
          hkind (byKind_iff.mpr ⟨hvalues, hfirst, by simpa using hreference⟩)
        exact not_isObject_of_lowerByKind hdeclared hproperties h

theorem isObject_of_lowerObject {v : Validator} (h : (k.lowerObject sub pointer).result = .ok v) :
    v.nonNull.IsObject := by
  obtain ⟨properties, undeclared, -, -, rfl⟩ := of_lowerObject_ok h
  unfold objectOf
  split <;> trivial

/-! An object about which nothing is said comes to a record of anything, and what is lowered by its
keywords to what its shape is, with modifiers. -/

theorem of_lower_isEmptyObject {v : Validator} (hempty : k.isEmptyObject = true)
    (h : (k.lower registry loose sub pointer).result = .ok v) : v = k.finish (.record .any) := by
  rw [lower_eq, (isEmptyObject_iff.mp hempty).1.isBase64, hempty] at h
  exact (Except.ok.inj h).symm

theorem Shaped.of_lower (hshaped : k.Shaped) {v : Validator}
    (h : (k.lower registry loose sub pointer).result = .ok v) :
    ∃ shape, ((k.adjusted loose).lowerShape sub pointer).result = .ok shape ∧
      v = k.finish shape := by
  rw [hshaped.lower_eq] at h
  obtain ⟨shape, hshape, rfl⟩ := exists_of_map_ok h
  exact ⟨shape, hshape, rfl⟩

/-- Without the null that it is due to there is no kind. -/
theorem adjusted_pruned_of_null (h : k.selected.NullObject ∨ k.selected.NullArray) :
    (k.pruned.adjusted loose).declaredType = none ∧
      (k.pruned.adjusted loose).properties = none := by
  obtain ⟨rest, hadjusted⟩ := k.pruned.adjusted_eq_selected loose
  rw [hadjusted, selected_pruned]
  change k.selected.pruned.declaredType = none ∧ quiet (k.selected.properties.map _) = none
  rw [declaredType_pruned]
  rcases h with ⟨hdeclared, hproperties⟩ | ⟨hdeclared, hproperties, -⟩
  · rw [hproperties]
    exact ⟨hdeclared, rfl⟩
  · rw [hproperties]
    exact ⟨hdeclared, rfl⟩

theorem byKind_pruned (h : k.ByKind) : k.pruned.ByKind := by
  obtain ⟨hvalues, hcombinator, hreference⟩ := byKind_iff.mp h
  have hnone : k.pruned.combinator? = none := by
    rw [combinator?_pruned (by simp [hcombinator]), hcombinator]
    rfl
  exact byKind_iff.mpr ⟨k.values?_pruned.trans hvalues, hnone, hreference⟩

/-- What is an object or a list for the sake of a null is something else without it. -/
theorem nonNull_ne_of_kind {v w : Validator} (hbyKind : k.ByKind)
    (hnull : k.selected.NullObject ∨ k.selected.NullArray)
    (hv : ((k.adjusted loose).lowerShape sub pointer).result = .ok v)
    (hw : ((k.pruned.adjusted loose).lowerShape sub' pointer).result = .ok w) :
    v.nonNull ≠ w.nonNull := by
  obtain ⟨hdeclared, hproperties⟩ : (k.pruned.adjusted loose).declaredType = none ∧
    (k.pruned.adjusted loose).properties = none := adjusted_pruned_of_null hnull
  have hbyKindPruned : (k.pruned.adjusted loose).ByKind :=
    byKind_adjusted.mpr (byKind_pruned hbyKind)
  rw [lowerShape_of_byKind (byKind_adjusted.mpr hbyKind)] at hv
  rw [lowerShape_of_byKind hbyKindPruned] at hw
  rcases hnull with hobject | harray
  · obtain ⟨hdeclared', hproperties'⟩ : (k.adjusted loose).NullObject :=
      nullObject_adjusted.mpr hobject
    have hkind : (k.adjusted loose).kind? = some "object" := by
      rw [kind?, hdeclared', hproperties']
      rfl
    rw [lowerByKind_of_kind hkind] at hv
    intro heq
    exact not_isObject_of_lowerByKind hdeclared hproperties hw (heq ▸ isObject_of_lowerObject hv)
  · obtain ⟨hdeclared', hproperties', hitems'⟩ : (k.adjusted loose).NullArray :=
      nullArray_adjusted.mpr harray
    have hitems : (k.pruned.adjusted loose).items = none := by
      obtain ⟨rest, hadjusted⟩ := k.pruned.adjusted_eq_selected loose
      rw [hadjusted, selected_pruned]
      change quiet (k.selected.items.map _) = none
      rw [harray.2.2]
      rfl
    rw [lowerByKind_of_declaredType hdeclared', inferredKind?, hproperties', hitems'] at hv
    rw [lowerByKind_of_declaredType hdeclared, inferredKind?, hproperties, hitems] at hw
    have hlist : (k.adjusted loose).lowerArray sub pointer = pure (.array .any
        ((k.adjusted loose).minItems.bind Json.asSize?)
        ((k.adjusted loose).maxItems.bind Json.asSize?)) := by
      rw [lowerArray, hitems']
    change ((k.adjusted loose).lowerArray sub pointer).result = _ at hv
    rw [hlist] at hv
    cases hv
    cases hw
    exact nofun

/-- An object about which only nulls are said, below what it says of other keys, is no record of
anything as it stands where other keys are kept, or where something else than its kind decides. -/
theorem nonNull_ne_of_rest {v : Validator} (hbare : k.Bare) (hnot : loose = true ∨ ¬ k.ByKind)
    (hv : ((k.adjusted loose).lowerShape sub pointer).result = .ok v) :
    v.nonNull ≠ .record .any := by
  by_cases hbyKind : k.ByKind
  · obtain rfl : loose = true := hnot.resolve_right (not_not_intro hbyKind)
    have hadjusted : k.adjusted true = { k with additionalProperties := some (.bool true) } := by
      rw [adjusted, hbare.selected, loosened, hbare.kind]
      rfl
    have hbareAdjusted : (k.adjusted true).Bare := by
      rw [hadjusted]
      exact ⟨hbare.kind, hbare.properties, hbare.patternProperties, hbare.format, hbare.anyOf,
        hbare.oneOf, hbare.allOf⟩
    have hloose : (k.adjusted true).undeclared sub pointer = pure .loose := by
      rw [hadjusted]
      rfl
    rw [hbareAdjusted.lowerShape (byKind_adjusted.mpr hbyKind), hloose] at hv
    cases hv
    exact nofun
  · have hno : ¬ v.nonNull.IsObject := by
      refine not_isObject_of_lowerShape (fun keyword found hfound => ?_) (fun h => ?_) hv
      · rw [combinator?_adjusted] at hfound
        exact kind_ne_array_of_combinator hbare.anyOf hbare.oneOf hbare.allOf hfound
      · exact absurd (byKind_adjusted.mp h) hbyKind
    intro heq
    exact hno (heq ▸ trivial)

/-- An object of which nothing is said only for the sake of its properties, which are null, is
something else without them. -/
theorem nonNull_ne_of_emptyObject {w : Validator} (hbare : k.Bare) (hobject : k.NullObject)
    (hw : ((k.pruned.adjusted loose).lowerShape sub' pointer).result = .ok w) :
    w.nonNull ≠ .record .any := by
  have hno : ¬ w.nonNull.IsObject := by
    refine not_isObject_of_lowerShape (fun keyword found hfound => ?_) (fun _ => ?_) hw
    · rw [combinator?_adjusted] at hfound
      refine kind_ne_array_of_combinator ?_ ?_ ?_ hfound
      · exact (saysSomething_map_prunedOperand _ (by decide)).trans hbare.anyOf
      · exact (saysSomething_map_prunedOperand _ (by decide)).trans hbare.oneOf
      · exact (saysSomething_map_prunedOperand _ (by decide)).trans hbare.allOf
    · exact adjusted_pruned_of_null (Or.inl (hbare.selected.symm ▸ hobject))
  intro heq
  exact hno (heq ▸ trivial)

/-- A node that has a kind for the sake of a null has none without it, so that it is no object. -/
theorem isEmptyObject_pruned_of_null (hempty : k.isEmptyObject = false)
    (hnull : k.selected.NullObject ∨ k.selected.NullArray) : k.pruned.isEmptyObject = false := by
  by_contra hpruned
  obtain ⟨hobject, hbare, -⟩ := rest_of_isEmptyObject_pruned hempty (by simpa using hpruned)
  rw [hbare.selected] at hnull
  rcases hnull with hnull | ⟨hdeclared, hproperties, -⟩
  · exact hobject hnull
  · have hkind := hbare.kind
    rw [kind?, hdeclared, hproperties] at hkind
    cases hkind

/-- The nulls of a node matter to the values other than null that it describes. -/
theorem nonNull_ne_of_heedsNull {v w : Validator} (h : k.HeedsNull loose)
    (hv : (k.lower registry loose sub pointer).result = .ok v)
    (hw : (k.pruned.lower registry' loose sub' pointer).result = .ok w) :
    v.nonNull ≠ w.nonNull := by
  have hinner : ∀ a b, a.nonNull ≠ b.nonNull →
      (k.finish a).nonNull ≠ (k.pruned.finish b).nonNull := by
    intro a b hne heq
    rw [finish_pruned] at heq
    exact hne (nonNull_of_decorate heq)
  cases h with
  | emptyObject hobject hempty =>
    have hbare : k.Bare := (isEmptyObject_iff.mp hempty).1
    have hshaped : k.pruned.Shaped := by
      refine ⟨k.isBase64_pruned.trans hbare.isBase64, ?_,
        k.resourceTypeOf_pruned.trans hbare.not_resource⟩
      rw [isEmptyObject, hobject.kind?_pruned]
      rfl
    obtain rfl := of_lower_isEmptyObject hempty hv
    obtain ⟨shape, hshape, rfl⟩ := hshaped.of_lower hw
    exact hinner _ _ (nonNull_ne_of_emptyObject hbare hobject hshape).symm
  | kind hshaped hbyKind hnull =>
    obtain ⟨shape, hshape, rfl⟩ := hshaped.of_lower hv
    have hshapedPruned := hshaped.pruned (isEmptyObject_pruned_of_null hshaped.notEmpty hnull)
    obtain ⟨shape', hshape', rfl⟩ := hshapedPruned.of_lower hw
    exact hinner _ _ (nonNull_ne_of_kind hbyKind hnull hshape hshape')
  | combinator hshaped hvalues hcombinator =>
    -- such a node is malformed
    obtain ⟨shape, hshape, -⟩ := hshaped.of_lower hv
    rw [lowerShape_eq, values?_adjusted, combinator?_adjusted, hvalues, hcombinator] at hshape
    obtain ⟨parts, hparts, -⟩ := exists_of_map_ok hshape
    cases hparts
  | rest hempty hpruned hnot =>
    obtain ⟨-, hbare, -⟩ := rest_of_isEmptyObject_pruned hempty hpruned
    obtain rfl := of_lower_isEmptyObject hpruned hw
    obtain ⟨shape, hshape, rfl⟩ := (hbare.shaped hempty).of_lower hv
    exact hinner _ _ (nonNull_ne_of_rest hbare hnot hshape)

end Keywords

end SchemaClient
