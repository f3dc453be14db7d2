/-
SchemaClient.Proofs.Lowering.Selects — selects whose options are of no usable kind.

A select whose options are computed takes values of the kind that its `originalType` names. Where it
names none, the `type` and the `properties` of the node are dropped, and with nothing left that tells
a kind the node is to accept anything. But a kind is also inferred from `items`, and these stay: such a
select is lowered to a list, or not at all if its `items` cannot be lowered.

* `Schema.UnusableSelect` — a select whose options are of no usable kind.
* `Schema.modified` — a validator with nothing but the modifiers that a node gives it.
* `Scope.unusableSelect_any_iff` — the selects that accept anything.
* `Scope.unusableSelect_items` — one that is lowered to a list.
-/
import SchemaClient.Proofs.Lowering.Parts
import SchemaClient.Proofs.Lowering.Pruning
import SchemaClient.Proofs.Sharing.Transforming

namespace SchemaClient

namespace Schema

/-- A select whose options are computed and whose `originalType` is none of the seven kinds. It has
neither values nor combinators, which would be read before any kind. -/
structure UnusableSelect (node : Entries) : Prop where
  type : Table.find? node "type" = some (.str "object")
  format : ∃ options, Table.find? node "format" = some (.str ("dynselect-" ++ options))
  kind : ∀ kind ∈ Keywords.kinds, Table.find? node "originalType" ≠ some (.str kind)
  const : Table.find? node "const" = none
  enum : ∀ members, Table.find? node "enum" ≠ some (.arr members)
  anyOf : Table.find? node "anyOf" = none
  oneOf : Table.find? node "oneOf" = none
  allOf : Table.find? node "allOf" = none

/-- A validator that accepts null if the node says so, with the node's description unless that is
empty, and with its default unless that is null. -/
def modified (node : Entries) (validator : Validator) : Validator :=
  let admitting : Validator :=
    match Table.find? node "nullable" with
    | some (.bool true) => .nullable validator
    | _ => validator
  let described : Validator :=
    match Table.find? node "description" with
    | some (.str text) => if text = "" then admitting else .described admitting text
    | _ => admitting
  match Table.find? node "default" with
  | none => described
  | some .null => described
  | some default => .defaulted described default

end Schema

namespace Keywords

open Lowering Validator

variable {registry : Registry} {sub : Json → Pointer → Lowering Validator} {pointer : Pointer}
  {k : Keywords} {node : Entries} {loose : Bool}

/-! ## Modifiers -/

theorem isNullable_tidied (k : Keywords) : k.tidied.isNullable = k.isNullable := by
  obtain ⟨default, enum, h⟩ := k.tidied_eq
  rw [h]
  rfl

theorem description?_tidied (k : Keywords) : k.tidied.description? = k.description? := by
  obtain ⟨default, enum, h⟩ := k.tidied_eq
  rw [h]
  rfl

theorem acceptNull_any (node : Entries) :
    (ofEntries node).acceptNull .any =
      match Table.find? node "nullable" with
      | some (.bool true) => .nullable .any
      | _ => .any := by
  change (if (((Table.find? node "nullable").bind Json.asBool?) == some true) = true
    then Validator.nullable .any else .any) = _
  cases Table.find? node "nullable" with
  | none => rfl
  | some found =>
    cases found with
    | bool value => cases value <;> rfl
    | _ => rfl

theorem describe_ofEntries (node : Entries) (validator : Validator) :
    (ofEntries node).describe validator =
      match Table.find? node "description" with
      | some (.str text) => if text = "" then validator else .described validator text
      | _ => validator := by
  unfold describe description?
  rw [show (ofEntries node).description = Table.find? node "description" from rfl]
  cases Table.find? node "description" with
  | none => rfl
  | some found =>
    cases found with
    | str text =>
      dsimp only
      by_cases hempty : text = ""
      · rw [if_pos hempty, hempty]
        rfl
      · have hempty' : text.isEmpty = false := by simpa [String.isEmpty_iff] using hempty
        rw [if_neg hempty, hempty']
        rfl
    | _ => rfl

/-- Without a list of values that could refuse the default, what a node adds to the validator that
accepts anything is told from its entries. -/
theorem finish_any (henum : ∀ members, Table.find? node "enum" ≠ some (.arr members)) :
    (ofEntries node).finish .any = Schema.modified node .any := by
  have hdefault : (ofEntries node).tidied.default =
      Schema.quiet (Table.find? node "default") := by
    rw [default_tidied]
    unfold defaultWithin
    split
    · exact absurd ‹_› (henum _)
    · rfl
  have hdescribed : (ofEntries node).tidied.describe ((ofEntries node).tidied.acceptNull .any) =
      (ofEntries node).describe ((ofEntries node).acceptNull .any) := by
    unfold describe acceptNull
    rw [isNullable_tidied, description?_tidied]
  unfold finish decorate Schema.modified
  simp only
  rw [hdefault, hdescribed, acceptNull_any, describe_ofEntries]
  cases Table.find? node "default" with
  | none => rfl
  | some found => cases found <;> rfl

/-! ## Selects -/

section

variable (h : Schema.UnusableSelect node)

include h

theorem isDynamicSelect_of_unusable : (ofEntries node).isDynamicSelect = true := by
  obtain ⟨options, hformat⟩ := h.format
  rw [isDynamicSelect, formatText?,
    show (ofEntries node).format = some (.str ("dynselect-" ++ options)) from hformat]
  exact List.isPrefixOf_iff_prefix.mpr ⟨options.toList, (String.toList_append ..).symm⟩

/-- What is left of such a select. -/
theorem selected_of_unusable :
    (ofEntries node).selected =
      { ofEntries node with format := none, type := none, properties := none } := by
  rw [selected, isDynamicSelect_of_unusable h, if_pos rfl]
  split
  · rename_i kind hkind
    obtain ⟨found, hfound, hstring⟩ := Option.bind_eq_some_iff.mp hkind
    have hfound : found = .str kind := by cases found <;> cases hstring; rfl
    rw [if_neg]
    intro hmem
    refine h.kind kind (by simpa using hmem) ?_
    rw [← hfound]
    assumption
  · rfl

theorem adjusted_of_unusable (loose : Bool) :
    (ofEntries node).adjusted loose =
      { ofEntries node with format := none, type := none, properties := none } := by
  rw [adjusted, selected_of_unusable h]
  split <;> rfl

theorem shaped_of_unusable : (ofEntries node).Shaped where
  notBase64 := by
    have hkind : (ofEntries node).kind? = some "object" := by
      rw [kind?, declaredType, show (ofEntries node).type = _ from h.type]
    rw [isBase64, hkind]
    rfl
  notEmpty := by
    obtain ⟨options, hformat⟩ := h.format
    have hformat : (ofEntries node).format = some (.str ("dynselect-" ++ options)) := hformat
    simp [isEmptyObject, hformat, saysSomething]
  notResource := by
    rw [selected_of_unusable h]
    rfl

/-- Nothing is left that tells a kind but the `items`. -/
theorem lowerShape_of_unusable (loose : Bool) :
    ((ofEntries node).adjusted loose).lowerShape sub pointer =
      if (Table.find? node "$ref").isSome then pure .any
      else if (Table.find? node "items").isSome then
        ((ofEntries node).adjusted loose).lowerArray sub pointer
      else pure .any := by
  have hvalues : ((ofEntries node).adjusted loose).values? = none := by
    rw [values?_adjusted, values?_eq_none]
    exact ⟨h.const, h.enum⟩
  have hcombinator : ((ofEntries node).adjusted loose).combinator? = none := by
    rw [combinator?_adjusted, combinator?_eq_none]
    exact ⟨h.anyOf, h.oneOf, h.allOf⟩
  rw [lowerShape_eq, hvalues, hcombinator]
  dsimp only
  rw [reference_adjusted]
  congr 1
  rw [adjusted_of_unusable h, lowerByKind_of_declaredType rfl]
  have hkind : { ofEntries node with format := none, type := none, properties := none }.inferredKind? =
      if (Table.find? node "items").isSome = true then some "array" else none := rfl
  rw [hkind]
  cases (Table.find? node "items").isSome <;> rfl

end

theorem ne_any_of_lowerArray {v : Validator} (h : (k.lowerArray sub pointer).result = .ok v) :
    v.nonNull ≠ .any := by
  unfold lowerArray at h
  dsimp only at h
  split at h
  · obtain ⟨items, -, rfl⟩ := exists_of_map_ok h
    exact Validator.noConfusion
  · obtain ⟨item, -, rfl⟩ := exists_of_map_ok h
    exact Validator.noConfusion
  · obtain ⟨item, -, rfl⟩ := exists_of_map_ok h
    exact Validator.noConfusion
  · cases h
    exact Validator.noConfusion
  · cases h
    exact Validator.noConfusion
  · cases h

/-- With a reference or without `items`, such a select is lowered to what accepts anything, with its
own modifiers. -/
theorem lower_unusable (h : Schema.UnusableSelect node)
    (hany : Table.find? node "items" = none ∨ (Table.find? node "$ref").isSome = true) :
    (ofEntries node).lower registry loose sub pointer = pure (Schema.modified node .any) := by
  rw [(shaped_of_unusable h).lower_eq, lowerShape_of_unusable h, ← finish_any h.enum]
  by_cases href : (Table.find? node "$ref").isSome = true
  · rw [if_pos href]
    rfl
  · rw [if_neg href, hany.resolve_right href]
    rfl

/-- With `items` that come before anything else, it is not. -/
theorem lower_unusable_ne (h : Schema.UnusableSelect node)
    (hitems : (Table.find? node "items").isSome = true) (href : Table.find? node "$ref" = none) :
    ((ofEntries node).lower registry loose sub pointer).result ≠
      .ok (Schema.modified node .any) := by
  rw [(shaped_of_unusable h).lower_eq, lowerShape_of_unusable h, ← finish_any h.enum, href,
    if_neg (by simp), if_pos hitems]
  intro hany
  obtain ⟨v, hv, hfinish⟩ := exists_of_map_ok hany
  exact ne_any_of_lowerArray hv (nonNull_of_decorate (congrArg nonNull hfinish))

end Keywords

namespace Scope

/-- In a run, a select whose options are of no usable kind comes to what accepts anything, with its
own modifiers and without declaring anything, if and only if it has no `items` or a reference comes
before them. -/
theorem unusableSelect_any_iff {scope : Scope} {loose : Bool} {node : Entries} {ledger : Ledger}
    (h : Schema.UnusableSelect node) :
    scope.validator loose (.obj node) ledger = (.ok (Schema.modified node .any), ledger) ↔
      Table.find? node "items" = none ∨ (Table.find? node "$ref").isSome = true := by
  constructor
  · intro hvalidator
    by_contra hneither
    obtain ⟨hitems, href⟩ := not_or.mp hneither
    have hlower := result_of_validator_ok (congrArg Prod.fst hvalidator)
    exact Keywords.lower_unusable_ne h (Option.isSome_iff_ne_none.mpr hitems) (by simpa using href)
      hlower
  · intro hany
    have hlower : Schema.lower (scope.registryAt ledger.index) loose (.obj node) =
        pure (Schema.modified node .any) := Keywords.lower_unusable h hany
    rw [validator_eq_fulfil, Plan.fulfil_ofLowering, hlower]
    rfl

/-- A select of no usable kind that may be null and has much to say about lists and objects. -/
def talkativeSelect : Entries :=
  [("type", .str "object"), ("format", .str "dynselect-region"), ("originalType", .str "mystery"),
    ("properties", .obj [("x", .obj [("type", .num (.int 3))])]), ("enum", .null),
    ("additionalProperties", .bool false), ("minItems", .num (.int 1)), ("nullable", .bool true),
    ("description", .str "where"), ("default", .str "here")]

theorem unusableSelect_talkative : Schema.UnusableSelect talkativeSelect where
  type := rfl
  format := ⟨"region", by rfl⟩
  kind := by
    intro kind hmem hkind
    obtain rfl : "mystery" = kind := Json.str.inj (Option.some.inj hkind)
    exact absurd hmem (by decide)
  const := rfl
  enum := fun _ h => nomatch h
  anyOf := rfl
  oneOf := rfl
  allOf := rfl

theorem unusableSelect_any_iff_talkative :
    Schema.UnusableSelect talkativeSelect ∧
      circular.validator true (.obj talkativeSelect) circularStart =
        (.ok (.defaulted (.described (.nullable .any) "where") (.str "here")), circularStart) :=
  ⟨unusableSelect_talkative, (unusableSelect_any_iff unusableSelect_talkative).mpr (Or.inl rfl)⟩

/-- A select of no usable kind with `items`. -/
def listedSelect : Entries :=
  [("type", .str "object"), ("format", .str "dynselect-region"),
    ("items", .obj [("type", .str "string")])]

/-- It is lowered to a list of texts, and with other `items` it cannot be lowered. -/
theorem unusableSelect_items :
    Schema.UnusableSelect listedSelect ∧
      (circular.validator false (.obj listedSelect) circularStart).1 =
        .ok (.array .plainText none none) ∧
      Schema.modified listedSelect .any = .any := by
  refine ⟨?_, by rfl, rfl⟩
  exact
    { type := rfl
      format := ⟨"region", by rfl⟩
      kind := fun _ _ h => nomatch h
      const := rfl
      enum := fun _ h => nomatch h
      anyOf := rfl
      oneOf := rfl
      allOf := rfl }

end Scope

end SchemaClient
