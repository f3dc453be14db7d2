/-
SchemaClient.Proofs.Lowering.Pruning — the parts of lowering without the keywords that are null.

Nearly everywhere a keyword that is null is read as one that is not there. The parts of the lowering
of a node are gone through one by one: what they come to without nulls, in the node and below it, is
what they come to if the nulls are left out below it only. Three times a null is not read so: null
properties make an object, null items a list, and a combinator that is null is the one that counts.

* `Keywords.lowerKind_pruned` — as values of one kind.
* `Keywords.NullObject`, `Keywords.NullArray` — the kind of a node is due to a null.
* `Keywords.lowerShape_pruned` — without the modifiers.
* `Keywords.finish_pruned` — the modifiers.
-/
import SchemaClient.Proofs.Lowering.Parts
import SchemaClient.Proofs.Schema.Nulls

namespace SchemaClient

namespace Keywords

open Lowering

open Schema (quiet quiet_eq_some quiet_of_ne quiet_map_of_ne bind_quiet prunedOperand)

variable {k : Keywords} {sub : Json → Pointer → Lowering Validator} {pointer : Pointer}
  {keyword : String}

/-! ## Values of keywords -/

theorem saysSomething_quiet (operand : Option Json) :
    saysSomething (quiet operand) = saysSomething operand := by
  unfold quiet
  split <;> rfl

theorem declaredType_pruned (k : Keywords) : k.pruned.declaredType = k.declaredType := by
  have hquiet : ∀ k : Keywords, k.declaredType = quiet k.type := fun _ => rfl
  rw [hquiet, hquiet]
  refine quiet_of_ne fun h => ?_
  exact (quiet_eq_some.mp h).2 rfl

theorem formatText?_pruned (k : Keywords) : k.pruned.formatText? = k.formatText? :=
  bind_quiet rfl _

theorem values?_pruned (k : Keywords) : k.pruned.values? = k.values? := by
  refine values?_congr rfl fun members => ?_
  change quiet k.enum = some (.arr members) ↔ _
  rw [quiet_eq_some]
  exact and_iff_left nofun

theorem description?_pruned (k : Keywords) : k.pruned.description? = k.description? := by
  have hquiet : k.pruned.description = quiet k.description := rfl
  unfold description?
  rw [hquiet]
  cases k.description with
  | none => rfl
  | some found => cases found <;> rfl

theorem requiredNames_pruned (k : Keywords) : k.pruned.requiredNames = k.requiredNames := by
  have hquiet : k.pruned.required = quiet k.required := rfl
  unfold requiredNames
  rw [hquiet]
  cases k.required with
  | none => rfl
  | some found => cases found <;> rfl

/-! ## Subschemas -/

theorem lowerEach_pruned (index : Nat) (schemas : List Json) :
    lowerEach sub pointer index (schemas.map Schema.pruned) =
      lowerEach (fun schema => sub (Schema.pruned schema)) pointer index schemas := by
  induction schemas generalizing index with
  | nil => rfl
  | cons schema rest ih => rw [List.map_cons, lowerEach, lowerEach, ih]

theorem lowerProperties_pruned (required : List String) (properties : Entries) :
    lowerProperties sub pointer required (Schema.prunedProperties properties) =
      lowerProperties (fun schema => sub (Schema.pruned schema)) pointer required properties := by
  induction properties with
  | nil => rfl
  | cons first rest ih => rw [Schema.prunedProperties, lowerProperties, lowerProperties, ih]

theorem lowerList_pruned (hkeyword : keyword ∈ ["anyOf", "oneOf", "allOf"]) (found : Json) :
    lowerList sub pointer (prunedOperand keyword found) =
      lowerList (fun schema => sub (Schema.pruned schema)) pointer found := by
  have hlist : Schema.listKeywords.contains keyword = true := by
    revert keyword; decide
  have hother : keyword ∉ ["properties", "items", "additionalProperties"] := by
    revert keyword; decide
  simp only [List.mem_cons, List.not_mem_nil, or_false, not_or] at hother
  cases found with
  | arr schemas =>
    rw [prunedOperand, if_pos hlist, Schema.prunedSchemas_eq]
    exact lowerEach_pruned 0 schemas
  | obj entries =>
    rw [prunedOperand, if_neg hother.1, if_neg (by simp [hother.2])]
    rfl
  | _ => rfl

/-! ## Kinds -/

theorem lowerArray_pruned :
    k.pruned.lowerArray sub pointer =
      k.lowerArray (fun schema => sub (Schema.pruned schema)) pointer := by
  have hitems : k.pruned.items = quiet (k.items.map (prunedOperand "items")) := rfl
  have hsize : k.pruned.minItems = k.minItems ∧ k.pruned.maxItems = k.maxItems := ⟨rfl, rfl⟩
  unfold lowerArray
  rw [hitems, hsize.1, hsize.2]
  cases k.items with
  | none => rfl
  | some found =>
    cases found with
    | arr schemas =>
      have harr : prunedOperand "items" (.arr schemas) = .arr (schemas.map Schema.pruned) := by
        rw [prunedOperand, if_pos (by decide), Schema.prunedSchemas_eq]
      rw [Option.map_some, harr]
      exact congrArg (Validator.tuple <$> ·) (lowerEach_pruned 0 schemas)
    | _ => rfl

theorem declaredProperties_pruned :
    k.pruned.declaredProperties sub pointer =
      k.declaredProperties (fun schema => sub (Schema.pruned schema)) pointer := by
  have hproperties : k.pruned.properties = quiet (k.properties.map (prunedOperand "properties")) :=
    rfl
  unfold declaredProperties
  rw [hproperties, requiredNames_pruned]
  cases k.properties with
  | none => rfl
  | some found =>
    cases found with
    | obj properties => exact lowerProperties_pruned _ properties
    | _ => rfl

theorem undeclared_pruned :
    k.pruned.undeclared sub pointer =
      k.undeclared (fun schema => sub (Schema.pruned schema)) pointer := by
  have hrest : k.pruned.additionalProperties =
      quiet (k.additionalProperties.map (prunedOperand "additionalProperties")) := rfl
  unfold undeclared
  rw [hrest]
  cases k.additionalProperties with
  | none => rfl
  | some found =>
    cases found with
    | bool value => cases value <;> rfl
    | _ => rfl

theorem lowerKind_pruned (kind : String) :
    k.pruned.lowerKind sub pointer kind =
      k.lowerKind (fun schema => sub (Schema.pruned schema)) pointer kind := by
  unfold lowerKind
  split
  · rw [formatText?_pruned]
    have hpattern : k.pruned.pattern.bind Json.asString? = k.pattern.bind Json.asString? :=
      bind_quiet rfl _
    rw [hpattern]
    rfl
  · rfl
  · rfl
  · rfl
  · rfl
  · exact lowerArray_pruned
  · unfold lowerObject
    rw [declaredProperties_pruned, undeclared_pruned]
  · rfl

/-- The node is taken for an object only because its properties are null. -/
def NullObject (k : Keywords) : Prop := k.declaredType = none ∧ k.properties = some .null

/-- The node is taken for a list only because its items are null. -/
def NullArray (k : Keywords) : Prop :=
  k.declaredType = none ∧ k.properties = none ∧ k.items = some .null

theorem properties_pruned (h : k.properties ≠ some .null) :
    k.pruned.properties.isSome = k.properties.isSome := by
  have hproperties : k.pruned.properties = quiet (k.properties.map (prunedOperand "properties")) :=
    rfl
  rw [hproperties, quiet_map_of_ne h, Option.isSome_map]

theorem kind?_pruned (h : ¬ k.NullObject) : k.pruned.kind? = k.kind? := by
  unfold kind?
  rw [declaredType_pruned]
  cases hdeclared : k.declaredType with
  | some found => cases found <;> rfl
  | none =>
    dsimp only
    rw [properties_pruned fun hnull => h ⟨hdeclared, hnull⟩]

theorem lowerByKind_pruned (hobject : ¬ k.NullObject) (harray : ¬ k.NullArray) :
    k.pruned.lowerByKind sub pointer =
      k.lowerByKind (fun schema => sub (Schema.pruned schema)) pointer := by
  refine lowerByKind_eq_of_lowerKind k.declaredType_pruned (fun hdeclared => ?_) lowerKind_pruned
  rw [declaredType_pruned] at hdeclared
  unfold inferredKind?
  rw [properties_pruned fun hnull => hobject ⟨hdeclared, hnull⟩]
  cases hproperties : k.properties with
  | some found => rfl
  | none =>
    have hitems : k.pruned.items = quiet (k.items.map (prunedOperand "items")) := rfl
    rw [hitems, quiet_map_of_ne fun hnull => harray ⟨hdeclared, hproperties, hnull⟩,
      Option.isSome_map]

/-! ## Shapes -/

theorem combinator?_pruned (h : ∀ keyword, k.combinator? ≠ some (keyword, .null)) :
    k.pruned.combinator? =
      k.combinator?.map fun found => (found.1, prunedOperand found.1 found.2) := by
  have hanyOf : k.pruned.anyOf = quiet (k.anyOf.map (prunedOperand "anyOf")) := rfl
  have honeOf : k.pruned.oneOf = quiet (k.oneOf.map (prunedOperand "oneOf")) := rfl
  have hallOf : k.pruned.allOf = quiet (k.allOf.map (prunedOperand "allOf")) := rfl
  unfold combinator? at h ⊢
  rw [hanyOf, honeOf, hallOf]
  cases hfirst : k.anyOf with
  | some found =>
    rw [hfirst] at h
    have hne : some found ≠ some .null := by rintro ⟨⟩; exact h "anyOf" rfl
    rw [quiet_map_of_ne hne]
    rfl
  | none =>
    rw [hfirst] at h
    cases hsecond : k.oneOf with
    | some found =>
      rw [hsecond] at h
      have hne : some found ≠ some .null := by rintro ⟨⟩; exact h "oneOf" rfl
      rw [quiet_map_of_ne hne]
      rfl
    | none =>
      rw [hsecond] at h
      cases hthird : k.allOf with
      | some found =>
        rw [hthird] at h
        have hne : some found ≠ some .null := by rintro ⟨⟩; exact h "allOf" rfl
        rw [quiet_map_of_ne hne]
        rfl
      | none => rfl

/-- A node without its modifiers is lowered alike without nulls, unless the first of its combinators
is null or it has a kind only for the sake of a null. -/
theorem lowerShape_pruned
    (hcombinator : k.values? = none → ∀ keyword, k.combinator? ≠ some (keyword, .null))
    (hkind : k.ByKind → ¬ k.NullObject ∧ ¬ k.NullArray) :
    k.pruned.lowerShape sub pointer =
      k.lowerShape (fun schema => sub (Schema.pruned schema)) pointer := by
  have hreference : k.pruned.reference = k.reference := rfl
  rw [lowerShape_eq, lowerShape_eq, values?_pruned, hreference]
  cases hvalues : k.values? with
  | some validator => rfl
  | none =>
    rw [combinator?_pruned (hcombinator hvalues)]
    cases hfirst : k.combinator? with
    | some found =>
      obtain ⟨keyword, schemas⟩ := found
      have hkeyword : keyword ∈ ["anyOf", "oneOf", "allOf"] := by
        have hname := List.mem_map_of_mem (f := Prod.fst) (mem_combinators hfirst)
        simpa only [combinators, List.map_cons, List.map_nil] using hname
      exact congrArg (combined keyword <$> ·) (lowerList_pruned hkeyword schemas)
    | none =>
      dsimp only [Option.map_none]
      split
      · rfl
      · rename_i hnone
        obtain ⟨hobject, harray⟩ := hkind (byKind_iff.mpr ⟨hvalues, hfirst, by simpa using hnone⟩)
        exact lowerByKind_pruned hobject harray

/-! ## Adjusting -/

theorem selected_pruned (k : Keywords) : k.pruned.selected = k.selected.pruned := by
  have hselect : k.pruned.isDynamicSelect = k.isDynamicSelect := by
    unfold isDynamicSelect
    rw [formatText?_pruned]
  have hkind : k.pruned.optionKind = k.optionKind := rfl
  unfold selected
  rw [hselect, hkind]
  split
  · split
    · split <;> rfl
    · rfl
  · rfl

theorem adjusted_pruned {loose : Bool} (h : ¬ k.selected.NullObject) :
    k.pruned.adjusted loose = (k.adjusted loose).pruned := by
  unfold adjusted loosened
  rw [selected_pruned, kind?_pruned h]
  split
  · split <;> rfl
  · rfl

/-- The default that is left of one next to an `enum`. -/
def defaultWithin (enum default : Option Json) : Option Json :=
  match enum, default with
  | some (.arr members), some default =>
    if members.any (·.same default) then some default else none
  | _, default => default

theorem default_tidied (k : Keywords) :
    k.tidied.default = defaultWithin k.enum (quiet k.default) := by
  have hnull : k.dropNullDefault = { k with default := quiet k.default } := by
    unfold dropNullDefault
    split
    · rename_i hdefault
      rw [hdefault]
      rfl
    · rename_i hne
      rw [quiet_of_ne hne]
  have hforeign : ∀ k : Keywords,
      k.dropForeignDefault.default = defaultWithin k.enum k.default := by
    intro k
    unfold dropForeignDefault
    split
    · rename_i members default henum hdefault
      rw [henum, hdefault, defaultWithin]
      split
      · exact hdefault
      · rfl
    · rename_i hnone
      unfold defaultWithin
      split
      · rename_i henum hdefault
        exact (hnone _ _ henum hdefault).elim
      · rfl
  have henum : ∀ k : Keywords, k.dropNullEnum.default = k.default := by
    intro k
    unfold dropNullEnum
    split
    · split <;> rfl
    · rfl
  rw [tidied, henum, hforeign, hnull]

theorem defaultWithin_quiet (enum default : Option Json) :
    defaultWithin (quiet enum) default = defaultWithin enum default := by
  unfold quiet
  split
  · rfl
  · rfl

/-- The modifiers of a node are the same. -/
theorem finish_pruned (k : Keywords) : k.pruned.finish = k.finish := by
  have hdefault : k.pruned.tidied.default = k.tidied.default := by
    rw [default_tidied, default_tidied]
    change defaultWithin (quiet k.enum) (quiet (quiet k.default)) = _
    rw [defaultWithin_quiet, quiet_of_ne fun h => (quiet_eq_some.mp h).2 rfl]
  have hdescription : k.pruned.tidied.description? = k.tidied.description? := by
    obtain ⟨default, enum, h⟩ := k.tidied_eq
    obtain ⟨default', enum', h'⟩ := k.pruned.tidied_eq
    rw [h, h']
    exact k.description?_pruned
  have hnullable : k.pruned.tidied.isNullable = k.tidied.isNullable := by
    obtain ⟨default, enum, h⟩ := k.tidied_eq
    obtain ⟨default', enum', h'⟩ := k.pruned.tidied_eq
    rw [h, h']
    exact congrArg (· == some true) (bind_quiet rfl k.nullable)
  funext validator
  unfold finish decorate describe acceptNull
  rw [hdefault, hdescription, hnullable]

end Keywords

end SchemaClient
