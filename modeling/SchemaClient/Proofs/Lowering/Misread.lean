/-
SchemaClient.Proofs.Lowering.Misread — the schemas that come to the same without null keywords.

A schema is misread where lowering it comes to a node in which a null matters. As nothing of a
subschema that lowering comes to is lost in the validator of the schema, one such node anywhere makes
a difference to the whole; and where there is none, the same comes of the schema without nulls, for a
whole run.

* `Schema.Misread` — lowering a schema comes to a node in which a null matters.
* `Schema.lower_pruned` — a schema of which this is not so.
* `Schema.nonNull_ne_of_misread` — a schema of which it is.
* `Scope.sameResult_pruned_iff` — both for the schemas of a run.
-/
import SchemaClient.Proofs.Lowering.Nulls
import SchemaClient.Proofs.Schema.Validity
import SchemaClient.Proofs.Sharing.Transforming

namespace SchemaClient

/-! ## Levels -/

theorem Keywords.Child.height_le {node : Entries} {steps : Pointer} {schema : Json}
    (h : (Keywords.ofEntries node).Child steps schema) :
    schema.height ≤ Json.entriesHeight node := by
  cases h with
  | items h => exact Schema.Operand.height_le h
  | rest h => exact Schema.Operand.height_le h
  | @listed _ schemas _ _ hmem hi =>
    have hlisted : ∃ key, Schema.Operand node key (.arr schemas) := by
      simp only [Keywords.combinators, List.mem_cons, Prod.mk.injEq, List.not_mem_nil,
        or_false] at hmem
      rcases hmem with ⟨-, h⟩ | ⟨-, h⟩ | ⟨-, h⟩ | ⟨-, h⟩ <;> exact ⟨_, h.symm⟩
    obtain ⟨key, hkey⟩ := hlisted
    exact hkey.height_le_of_mem (List.mem_of_getElem? hi)
  | @property properties name _ hproperties hmem =>
    have hdeclared : Schema.declared node = properties := by
      unfold Schema.declared
      rw [show Table.find? node "properties" = some (.obj properties) from hproperties]
      rfl
    have hproperty : (name, schema) ∈ Schema.declared node := hdeclared ▸ hmem
    exact Schema.height_le_of_declared hproperty

namespace Schema

variable {registry : Registry} {loose : Bool} {schema : Json} {pointer : Pointer}

/-- More levels than a schema has make no difference. -/
theorem lowerWithin_eq {levels levels' : Nat} (h : schema.height ≤ levels)
    (h' : schema.height ≤ levels') :
    lowerWithin registry levels loose schema pointer =
      lowerWithin registry levels' loose schema pointer := by
  induction levels generalizing schema levels' loose pointer with
  | zero =>
    cases schema with
    | obj node => exact absurd h (by simp [Json.height])
    | bool allowed => cases allowed <;> simp only [lowerWithin]
    | _ => simp only [lowerWithin]
  | succ levels ih =>
    cases schema with
    | obj node =>
      cases levels' with
      | zero => exact absurd h' (by simp [Json.height])
      | succ levels' =>
        rw [Json.height] at h h'
        refine Keywords.lower_congr Lowering.equal loose pointer rfl (fun _ _ => rfl)
          (fun steps schema hchild => ?_) fun _ _ _ => trivial
        have hheight := hchild.height_le
        exact ih (by omega) (by omega)
    | bool allowed => cases allowed <;> simp only [lowerWithin]
    | _ => simp only [lowerWithin]

/-- Lowering a schema comes to a node in which a keyword that is null matters. -/
inductive Misread : Bool → Json → Prop where
  | here {loose : Bool} {node : Entries} : (Keywords.ofEntries node).HeedsNull loose →
      Misread loose (.obj node)
  | inside {loose : Bool} {node : Entries} {steps : Pointer} {schema : Json} :
      (Keywords.ofEntries node).Visits loose steps schema → Misread false schema →
        Misread loose (.obj node)

theorem lowerWithin_empty (levels : Nat) (pointer : Pointer) :
    lowerWithin registry levels false (.obj []) pointer = pure .any := by
  cases levels <;> rfl

theorem lowerWithin_pruned_obj (levels : Nat) {node : Entries}
    (h : ¬ (Keywords.ofEntries node).HeedsNull loose) :
    lowerWithin registry (levels + 1) loose (pruned (.obj node)) pointer =
      (Keywords.ofEntries node).lower registry loose
        (fun schema => lowerWithin registry levels false (pruned schema)) pointer := by
  rw [pruned_obj, lowerWithin, Keywords.ofEntries_prunedEntries]
  exact Keywords.lower_pruned h fun _ => lowerWithin_empty levels _

/-- The nulls of a schema that is not misread do not matter. -/
theorem lowerWithin_pruned (levels : Nat) (h : ¬ Misread loose schema) :
    lowerWithin registry levels loose (pruned schema) pointer =
      lowerWithin registry levels loose schema pointer := by
  induction levels generalizing schema loose pointer with
  | zero => cases schema <;> rfl
  | succ levels ih =>
    cases schema with
    | obj node =>
      rw [lowerWithin_pruned_obj levels fun hheeds => h (.here hheeds), lowerWithin]
      exact Keywords.lower_congr_visits Lowering.equal loose pointer rfl (fun _ _ => rfl)
        (fun steps schema hvisits => ih fun hmisread => h (.inside hvisits hmisread))
        fun _ _ _ => trivial
    | _ => rfl

/-- Those of one that is misread matter to the values other than null that it describes. -/
theorem nonNull_ne_of_misread {levels : Nat} (h : Misread loose schema)
    (hlevels : schema.height ≤ levels) {v w : Validator}
    (hv : (lowerWithin registry levels loose schema pointer).result = .ok v)
    (hw : (lowerWithin registry levels loose (pruned schema) pointer).result = .ok w) :
    v.nonNull ≠ w.nonNull := by
  induction h generalizing levels pointer v w with
  | @here loose node hheeds =>
    obtain ⟨levels, rfl⟩ : ∃ below, levels = below + 1 := by
      rw [Json.height] at hlevels
      exact ⟨levels - 1, by omega⟩
    rw [pruned_obj, lowerWithin, Keywords.ofEntries_prunedEntries] at hw
    exact Keywords.nonNull_ne_of_heedsNull hheeds hv hw
  | @inside loose node steps schema hvisits hmisread ih =>
    rw [Json.height] at hlevels
    obtain ⟨levels, rfl⟩ : ∃ below, levels = below + 1 := ⟨levels - 1, by omega⟩
    by_cases hheeds : (Keywords.ofEntries node).HeedsNull loose
    · rw [pruned_obj, lowerWithin, Keywords.ofEntries_prunedEntries] at hw
      exact Keywords.nonNull_ne_of_heedsNull hheeds hv hw
    · -- nothing is lost on the way up from the subschema
      rw [lowerWithin_pruned_obj levels hheeds] at hw
      intro heq
      obtain ⟨a, b, ha, hb, hsame⟩ := Keywords.agree_of_lower hv hw heq hvisits
      have hheight := hvisits.child.height_le
      exact ih (by omega) ha hb hsame

theorem lower_eq_lowerWithin {levels : Nat} (h : schema.height ≤ levels) :
    lower registry loose schema = lowerWithin registry levels loose schema [] :=
  lowerWithin_eq (Nat.le_refl _) h

theorem lower_pruned (h : ¬ Misread loose schema) :
    lower registry loose (pruned schema) = lower registry loose schema := by
  rw [lower_eq_lowerWithin (Nat.le_max_left (pruned schema).height schema.height),
    lower_eq_lowerWithin (Nat.le_max_right (pruned schema).height schema.height)]
  exact lowerWithin_pruned _ h

theorem ne_of_misread (h : Misread loose schema) {v w : Validator}
    (hv : (lower registry loose schema).result = .ok v)
    (hw : (lower registry loose (pruned schema)).result = .ok w) : v ≠ w := by
  have hheight := Nat.le_max_right (pruned schema).height schema.height
  rw [lower_eq_lowerWithin hheight] at hv
  rw [lower_eq_lowerWithin (Nat.le_max_left (pruned schema).height schema.height)] at hw
  exact fun heq => nonNull_ne_of_misread h hheight hv hw (congrArg _ heq)

end Schema

/-- Both fail, or both come to the same. -/
def SameResult {ε α : Type} (first second : Except ε α) : Prop :=
  (first.isOk = false ∧ second.isOk = false) ∨ ∃ a, first = .ok a ∧ second = .ok a

namespace Scope

/-- Without the keywords that are null a schema comes to the same in a run, whatever the resource
types and whatever has been declared before, if and only if it is not misread, unless it fails both
times. -/
theorem sameResult_pruned_iff (scope : Scope) (loose : Bool) (schema : Json) (ledger : Ledger) :
    SameResult (scope.validator loose schema ledger).1
        (scope.validator loose (Schema.pruned schema) ledger).1 ↔
      ¬ Schema.Misread loose schema ∨ ((scope.validator loose schema ledger).1.isOk = false ∧
        (scope.validator loose (Schema.pruned schema) ledger).1.isOk = false) := by
  constructor
  · rintro (hfail | ⟨v, hv, hw⟩)
    · exact Or.inr hfail
    · exact Or.inl fun hmisread => Schema.ne_of_misread hmisread (result_of_validator_ok hv)
        (result_of_validator_ok hw) rfl
  · rintro (hnot | hfail)
    · have hsame : scope.validator loose (Schema.pruned schema) = scope.validator loose schema := by
        unfold validator
        simp only [Schema.lower_pruned hnot]
      rw [hsame]
      cases hresult : (scope.validator loose schema ledger).1 with
      | ok v => exact Or.inr ⟨v, rfl, rfl⟩
      | error fault => exact Or.inl ⟨rfl, rfl⟩
    · exact Or.inl hfail

/-- A node that says only that its items are null. -/
def nullItems : Json := .obj [("items", .null)]

/-- It is lowered to a list, and to anything once the null is left out. -/
theorem not_sameResult_nullItems :
    Schema.pruned nullItems = .obj [] ∧
      (circular.validator false nullItems circularStart).1 = .ok (.array .any none none) ∧
      (circular.validator false (Schema.pruned nullItems) circularStart).1 = .ok .any ∧
      ¬ SameResult (circular.validator false nullItems circularStart).1
        (circular.validator false (Schema.pruned nullItems) circularStart).1 := by
  have hpruned : Schema.pruned nullItems = .obj [] := by rfl
  have hlist : (circular.validator false nullItems circularStart).1 = .ok (.array .any none none) :=
    validator_of_isOk (by decide +kernel) (by rfl)
  have hany : (circular.validator false (.obj []) circularStart).1 = .ok .any :=
    validator_of_isOk (by decide +kernel) (by rfl)
  rw [hpruned]
  refine ⟨rfl, hlist, hany, ?_⟩
  rw [hlist, hany]
  rintro (⟨hfail, -⟩ | ⟨v, hv, hw⟩)
  · cases hfail
  · rw [← Except.ok.inj hv] at hw
    cases hw

end Scope

end SchemaClient
