/-
SchemaClient.Proofs.Sharing.Transforming — what one transformation enters, and what comes out of it.

To transform a schema is to declare what it demands. The schema of a resource type that is declared
on the way may demand other types, these again others, and the first one too: nothing in a schema
gets smaller along such a chain. What ends it is that a type is claimed before its schema is lowered
and stays claimed until all of that is done.

`Unfolds` describes declaring without any bound on how deep it goes; a derivation is a finite tree,
so that there is one for every start says that declaring comes to an end. It also lists the resource
types whose schemas have been lowered, in the order in which that began, failures included.

* `Scope.transform_terminates` — a transformation comes to an end and lowers the schema of a type at
  most once.
* `Scope.transform_independent` — what comes out of it does not depend on what has been declared.
-/
import SchemaClient.Proofs.Sharing.Failures

namespace SchemaClient

namespace Scope

variable (scope : Scope)

/-! ## Declaring, without a bound -/

/-- The resource types whose own schemas are lowered when a demand is declared afresh. -/
def lowers (index : Option InstanceIndex) : Demand → List String
  | .base64Content => []
  | .storageObject => []
  | .resourceType name =>
    match index, (Table.find? scope.catalog name).bind (·.schema) with
    | some _, some _ => [name]
    | _, _ => []

/-- Fulfilling demands one after the other: the ledgers before and after, the resource types whose
schemas are lowered meanwhile, and what it comes to. -/
inductive Unfolds : List Demand → Ledger → List String → Except Error Unit → Ledger → Prop where
  | done (ledger : Ledger) : Unfolds [] ledger [] (.ok ()) ledger
  /-- What is claimed is passed over. -/
  | claimed {d : Demand} {rest : List Demand} {before after : Ledger} {lowered : List String}
      {result : Except Error Unit} (hclaimed : d.identity ∈ before.claimed)
      (hrest : Unfolds rest before lowered result after) :
      Unfolds (d :: rest) before lowered result after
  /-- What is not claimed is claimed, what it wants is fulfilled, and its declarations are put
  off. -/
  | made {d : Demand} {rest : List Demand} {before middle after : Ledger}
      {inner lowered : List String} {declarations : List Declaration} {result : Except Error Unit}
      (hfresh : d.identity ∉ before.claimed)
      (hinner : Unfolds (scope.wanted before.index d) (before.claim d.identity) inner (.ok ())
        middle)
      (hresult : (scope.plan before.index d).result = .ok declarations)
      (hrest : Unfolds rest (middle.defer (declarations.map Declaration.render)) lowered result
        after) :
      Unfolds (d :: rest) before (scope.lowers before.index d ++ inner ++ lowered) result after
  /-- It is given back if its declarations cannot be made. -/
  | infeasible {d : Demand} {rest : List Demand} {before middle : Ledger} {inner : List String}
      {error : Error} (hfresh : d.identity ∉ before.claimed)
      (hinner : Unfolds (scope.wanted before.index d) (before.claim d.identity) inner (.ok ())
        middle)
      (hresult : (scope.plan before.index d).result = .error error) :
      Unfolds (d :: rest) before (scope.lowers before.index d ++ inner) (.error error)
        (middle.release d.identity)
  /-- It is given back if something it wants cannot be fulfilled. -/
  | failed {d : Demand} {rest : List Demand} {before middle : Ledger} {inner : List String}
      {error : Error} (hfresh : d.identity ∉ before.claimed)
      (hinner : Unfolds (scope.wanted before.index d) (before.claim d.identity) inner
        (.error error) middle) :
      Unfolds (d :: rest) before (scope.lowers before.index d ++ inner) (.error error)
        (middle.release d.identity)

/-- Transforming a schema: its demands are fulfilled, and if that succeeds its validator is
written, or what is malformed about it is the error. -/
inductive Transforms (loose : Bool) (schema : Json) (before : Ledger) :
    List String → Except Error String → Ledger → Prop where
  | lowered {names : List String} {after : Ledger}
      (h : scope.Unfolds (Schema.lower (scope.registryAt before.index) loose schema).demands before
        names (.ok ()) after) :
      Transforms loose schema before names
        (((Schema.lower (scope.registryAt before.index) loose schema).result.mapError
          schemaError).map Validator.source) after
  | failed {names : List String} {after : Ledger} {error : Error}
      (h : scope.Unfolds (Schema.lower (scope.registryAt before.index) loose schema).demands before
        names (.error error) after) :
      Transforms loose schema before names (.error error) after

variable {scope}

theorem eq_of_mem_lowers {index : Option InstanceIndex} {d : Demand} {name : String}
    (h : name ∈ scope.lowers index d) : d = .resourceType name := by
  cases d with
  | base64Content => cases h
  | storageObject => cases h
  | resourceType other =>
    simp only [lowers] at h
    split at h
    · rw [List.mem_singleton.mp h]
    · cases h

theorem nodup_lowers (index : Option InstanceIndex) (d : Demand) :
    (scope.lowers index d).Nodup := by
  cases d with
  | base64Content => exact .nil
  | storageObject => exact .nil
  | resourceType name =>
    simp only [lowers]
    split
    · exact List.nodup_singleton name
    · exact .nil

/-! ## What is lowered meanwhile -/

namespace Unfolds

variable {demands first second : List Demand} {a b c : Ledger} {lowered lowered' : List String}
  {result result' : Except Error Unit}

/-- While nothing fails, claims are only added. -/
theorem claimed_mono (h : scope.Unfolds demands a lowered result b) (hok : result = .ok ()) :
    a.claimed ⊆ b.claimed := by
  induction h with
  | done ledger => exact List.Subset.refl _
  | claimed _ _ ih => exact ih hok
  | made _ _ _ _ ihinner ihrest =>
    exact fun identity hid => ihrest hok (ihinner rfl (List.mem_cons_of_mem _ hid))
  | infeasible => cases hok
  | failed => cases hok

/-- A type whose schema is lowered was not claimed before, and if nothing fails it is afterwards. -/
theorem claimed_of_lowered (h : scope.Unfolds demands a lowered result b) :
    ∀ name ∈ lowered, typeIdentity name ∉ a.claimed ∧
      (result = .ok () → typeIdentity name ∈ b.claimed) := by
  -- a type lowered below `d` was not claimed even when `d` was
  have below : ∀ {d : Demand} {before : Ledger} {name : String},
      typeIdentity name ∉ (before.claim d.identity).claimed → typeIdentity name ∉ before.claimed :=
    fun hnot hid => hnot (List.mem_cons_of_mem _ hid)
  induction h with
  | done ledger => exact fun _ hname => nomatch hname
  | claimed _ _ ih => exact ih
  | made hfresh hinner _ hrest ihinner ihrest =>
    intro name hname
    rcases List.mem_append.mp hname with hname | hname
    · rcases List.mem_append.mp hname with hname | hname
      · obtain rfl := eq_of_mem_lowers hname
        exact ⟨hfresh, fun hok => hrest.claimed_mono hok
          (hinner.claimed_mono rfl List.mem_cons_self)⟩
      · obtain ⟨hnot, hclaimed⟩ := ihinner name hname
        exact ⟨below hnot, fun hok => hrest.claimed_mono hok (hclaimed rfl)⟩
    · obtain ⟨hnot, hclaimed⟩ := ihrest name hname
      exact ⟨fun hid => hnot (hinner.claimed_mono rfl (List.mem_cons_of_mem _ hid)), hclaimed⟩
  | infeasible hfresh _ _ ih | failed hfresh _ ih =>
    intro name hname
    refine ⟨?_, fun hok => nomatch hok⟩
    rcases List.mem_append.mp hname with hname | hname
    · obtain rfl := eq_of_mem_lowers hname
      exact hfresh
    · exact below (ih name hname).1

/-- A type is claimed while anything below it is lowered, so its schema is not lowered there. -/
theorem nodup_below {d : Demand} {inner : List String} {index : Option InstanceIndex}
    (h : scope.Unfolds demands (a.claim d.identity) inner result b) (hinner : inner.Nodup) :
    (scope.lowers index d ++ inner).Nodup := by
  refine List.nodup_append.mpr ⟨nodup_lowers index d, hinner, ?_⟩
  rintro name hlowers _ hname rfl
  obtain rfl := eq_of_mem_lowers hlowers
  exact (h.claimed_of_lowered name hname).1 List.mem_cons_self

/-- No schema of a type is lowered twice. -/
theorem nodup_lowered (h : scope.Unfolds demands a lowered result b) : lowered.Nodup := by
  induction h with
  | done ledger => exact .nil
  | claimed _ _ ih => exact ih
  | @made d _ before _ _ inner _ _ _ hfresh hinner _ hrest ihinner ihrest =>
    refine List.nodup_append.mpr ⟨nodup_below hinner ihinner, ihrest, ?_⟩
    -- what has been lowered is claimed when the rest begins
    rintro name hname _ hlater rfl
    refine (hrest.claimed_of_lowered name hlater).1 ?_
    rcases List.mem_append.mp hname with hlowers | hmem
    · obtain rfl := eq_of_mem_lowers hlowers
      exact hinner.claimed_mono rfl List.mem_cons_self
    · exact (hinner.claimed_of_lowered name hmem).2 rfl
  | infeasible _ hinner _ ih | failed _ hinner ih => exact nodup_below hinner ih

/-- There is only one way to go. -/
theorem unique (h : scope.Unfolds demands a lowered result b)
    (h' : scope.Unfolds demands a lowered' result' c) :
    lowered = lowered' ∧ result = result' ∧ b = c := by
  induction h generalizing lowered' result' c with
  | done ledger =>
    cases h'
    exact ⟨rfl, rfl, rfl⟩
  | claimed hclaimed _ ih =>
    cases h' with
    | claimed _ hrest' => exact ih hrest'
    | made hfresh => exact absurd hclaimed hfresh
    | infeasible hfresh => exact absurd hclaimed hfresh
    | failed hfresh => exact absurd hclaimed hfresh
  | made hfresh _ hresult _ ihinner ihrest =>
    cases h' with
    | claimed hclaimed => exact absurd hclaimed hfresh
    | made _ hinner' hresult' hrest' =>
      obtain ⟨rfl, -, rfl⟩ := ihinner hinner'
      obtain rfl := Except.ok.inj (hresult.symm.trans hresult')
      obtain ⟨rfl, rfl, rfl⟩ := ihrest hrest'
      exact ⟨rfl, rfl, rfl⟩
    | infeasible _ _ hresult' => exact nomatch hresult.symm.trans hresult'
    | failed _ hinner' => exact nomatch (ihinner hinner').2.1
  | infeasible hfresh _ hresult ihinner =>
    cases h' with
    | claimed hclaimed => exact absurd hclaimed hfresh
    | made _ _ hresult' => exact nomatch hresult.symm.trans hresult'
    | infeasible _ hinner' hresult' =>
      obtain ⟨rfl, -, rfl⟩ := ihinner hinner'
      obtain rfl := Except.error.inj (hresult.symm.trans hresult')
      exact ⟨rfl, rfl, rfl⟩
    | failed _ hinner' => exact nomatch (ihinner hinner').2.1
  | failed hfresh _ ihinner =>
    cases h' with
    | claimed hclaimed => exact absurd hclaimed hfresh
    | made _ hinner' => exact nomatch (ihinner hinner').2.1
    | infeasible _ hinner' => exact nomatch (ihinner hinner').2.1
    | failed _ hinner' =>
      obtain ⟨rfl, herror, rfl⟩ := ihinner hinner'
      cases herror
      exact ⟨rfl, rfl, rfl⟩

theorem append (h : scope.Unfolds first a lowered result b) (hok : result = .ok ())
    (h' : scope.Unfolds second b lowered' result' c) :
    scope.Unfolds (first ++ second) a (lowered ++ lowered') result' c := by
  induction h with
  | done ledger => exact h'
  | claimed hclaimed _ ih => exact .claimed hclaimed (ih hok h')
  | made hfresh hinner hresult _ _ ih =>
    rw [List.append_assoc]
    exact .made hfresh hinner hresult (ih hok h')
  | infeasible => cases hok
  | failed => cases hok

/-- After a failure nothing else is tried. -/
theorem append_of_error {error : Error} (h : scope.Unfolds first a lowered result b)
    (herror : result = .error error) (second : List Demand) :
    scope.Unfolds (first ++ second) a lowered result b := by
  induction h with
  | done ledger => cases herror
  | claimed hclaimed _ ih => exact .claimed hclaimed (ih herror)
  | made hfresh hinner hresult _ _ ih => exact .made hfresh hinner hresult (ih herror)
  | infeasible hfresh hinner hresult => exact .infeasible hfresh hinner hresult
  | failed hfresh hinner => exact .failed hfresh hinner

end Unfolds

/-! ## Declaring unfolds -/

/-- What the plan of a demand needs is what the demand wants, with every error passed on. -/
theorem needs_plan (scope : Scope) (index : Option InstanceIndex) (d : Demand) :
    (scope.plan index d).needs = (scope.wanted index d).map (·, id) := by
  unfold wanted Plan.demands
  rw [List.map_map]
  refine (List.map_id _).symm.trans (List.map_congr_left fun need hneed => ?_)
  exact Prod.ext rfl (need_of_plan hneed).1

/-- Demands fulfilled one after the other unfold if each of them does. -/
theorem exists_unfolds_fulfilAll (scope : Scope) (act : Demand → Work Unit) (demands : List Demand)
    (before : Ledger)
    (hact : ∀ d ∈ demands, ∀ ledger : Ledger, before.claimed ⊆ ledger.claimed →
      ∃ lowered, scope.Unfolds [d] ledger lowered (act d ledger).1 (act d ledger).2) :
    ∃ lowered, scope.Unfolds demands before lowered
      (Plan.fulfilAll act (demands.map (·, id)) before).1
      (Plan.fulfilAll act (demands.map (·, id)) before).2 := by
  induction demands generalizing before with
  | nil => exact ⟨[], .done before⟩
  | cons d rest ih =>
    obtain ⟨lowered, hd⟩ := hact d List.mem_cons_self before (List.Subset.refl _)
    simp only [List.map_cons, Plan.fulfilAll]
    cases hrun : act d before with
    | mk result middle =>
      rw [hrun] at hd
      cases result with
      | error error => exact ⟨lowered, hd.append_of_error rfl rest⟩
      | ok _ =>
        have hsub : before.claimed ⊆ middle.claimed := hd.claimed_mono rfl
        obtain ⟨later, hrest⟩ := ih middle fun d' hd' ledger hledger =>
          hact d' (List.mem_cons_of_mem _ hd') ledger (List.Subset.trans hsub hledger)
        exact ⟨lowered ++ later, hd.append rfl hrest⟩

/-- Declaring unfolds. The induction is on the types left idle: a demand that needs anything takes
one of them out for as long as what it needs is declared. -/
theorem exists_unfolds_declare {idle : TypeCatalog} {d : Demand} {before : Ledger}
    (hcovers : scope.Covers idle before) :
    ∃ lowered, scope.Unfolds [d] before lowered (scope.declare idle d before).1
      (scope.declare idle d before).2 := by
  induction hsize : idle.length using Nat.strongRecOn generalizing idle d before with
  | ind size ih =>
    subst hsize
    rw [declare_eq_once hcovers]
    by_cases hclaimed : d.identity ∈ before.claimed
    · rw [Work.once_of_claimed hclaimed]
      exact ⟨[], .claimed hclaimed (.done before)⟩
    · have hinner := exists_unfolds_fulfilAll scope (scope.declare (idleWithin idle d))
        (scope.wanted before.index d) (before.claim d.identity) fun c hc ledger hsub => by
          have hneeds : (scope.plan before.index d).needs ≠ [] := by
            rw [needs_plan]
            exact List.ne_nil_of_mem (List.mem_map_of_mem hc)
          exact ih _ (length_idleWithin_lt hcovers hclaimed hneeds)
            ((hcovers.within d).mono hsub) rfl
      obtain ⟨inner, hinner⟩ := hinner
      rw [← needs_plan] at hinner
      simp only [Work.once, List.contains_eq_mem, hclaimed, Plan.fulfil]
      cases hrun : Plan.fulfilAll (scope.declare (idleWithin idle d))
          (scope.plan before.index d).needs (before.claim d.identity) with
      | mk result middle =>
        rw [hrun] at hinner
        cases result with
        | error error => exact ⟨_, .failed hclaimed hinner⟩
        | ok _ =>
          cases hresult : (scope.plan before.index d).result with
          | error error => exact ⟨_, .infeasible hclaimed hinner hresult⟩
          | ok declarations => exact ⟨_, .made hclaimed hinner hresult (.done _)⟩

/-! ## Transforming -/

theorem transform_apply (scope : Scope) (loose : Bool) (schema : Json) (ledger : Ledger) :
    scope.transform loose schema ledger =
      ((scope.validator loose schema ledger).1.map Validator.source,
        (scope.validator loose schema ledger).2) := by
  unfold transform
  rw [Work.bind_apply]
  cases scope.validator loose schema ledger with
  | mk result after => cases result <;> rfl

namespace Transforms

variable {loose : Bool} {schema : Json} {before after after' : Ledger}
  {lowered lowered' : List String} {result result' : Except Error String}

theorem nodup_lowered (h : scope.Transforms loose schema before lowered result after) :
    lowered.Nodup := by
  cases h with
  | lowered h => exact h.nodup_lowered
  | failed h => exact h.nodup_lowered

theorem unique (h : scope.Transforms loose schema before lowered result after)
    (h' : scope.Transforms loose schema before lowered' result' after') :
    lowered = lowered' ∧ result = result' ∧ after = after' := by
  cases h with
  | lowered h =>
    cases h' with
    | lowered h' =>
      obtain ⟨rfl, -, rfl⟩ := h.unique h'
      exact ⟨rfl, rfl, rfl⟩
    | failed h' => exact nomatch (h.unique h').2.1
  | failed h =>
    cases h' with
    | lowered h' => exact nomatch (h.unique h').2.1
    | failed h' =>
      obtain ⟨rfl, herror, rfl⟩ := h.unique h'
      cases herror
      exact ⟨rfl, rfl, rfl⟩

end Transforms

theorem exists_transforms (scope : Scope) (loose : Bool) (schema : Json) (ledger : Ledger) :
    ∃ lowered, scope.Transforms loose schema ledger lowered (scope.transform loose schema ledger).1
      (scope.transform loose schema ledger).2 := by
  obtain ⟨lowered, h⟩ := exists_unfolds_fulfilAll scope (scope.declare scope.catalog)
    (Schema.lower (scope.registryAt ledger.index) loose schema).demands ledger
    fun d _ middle _ => exists_unfolds_declare (covers_catalog scope middle)
  rw [transform_apply, validator_eq_fulfil]
  simp only [Plan.fulfil, Plan.ofLowering]
  cases hrun : Plan.fulfilAll (scope.declare scope.catalog)
      ((Schema.lower (scope.registryAt ledger.index) loose schema).demands.map (·, id)) ledger with
  | mk result after =>
    rw [hrun] at h
    cases result with
    | ok _ => exact ⟨lowered, .lowered h⟩
    | error error => exact ⟨lowered, .failed h⟩

/-- Transforming a schema comes to an end, whatever the resource types demand of each other and
whatever has been declared before. There is one way it goes, and on that way, whether it succeeds or
fails, the schema of each resource type is lowered at most once. -/
theorem transform_terminates (scope : Scope) (loose : Bool) (schema : Json) (ledger : Ledger) :
    ∃ lowered, scope.Transforms loose schema ledger lowered (scope.transform loose schema ledger).1
        (scope.transform loose schema ledger).2 ∧
      lowered.Nodup ∧
      ∀ lowered' result after, scope.Transforms loose schema ledger lowered' result after →
        lowered' = lowered ∧ (result, after) = scope.transform loose schema ledger := by
  obtain ⟨lowered, h⟩ := exists_transforms scope loose schema ledger
  refine ⟨lowered, h, h.nodup_lowered, fun lowered' result after h' => ?_⟩
  obtain ⟨rfl, rfl, rfl⟩ := h'.unique h
  exact ⟨rfl, rfl⟩

/-! ## What comes out -/

/-- A validator that comes out is that of the schema, as it is lowered with what is known about
instances. -/
theorem result_of_validator_ok {loose : Bool} {schema : Json} {ledger : Ledger}
    {validator : Validator} (h : (scope.validator loose schema ledger).1 = .ok validator) :
    (Schema.lower (scope.registryAt ledger.index) loose schema).result = .ok validator := by
  rw [validator_eq_fulfil] at h
  unfold Plan.fulfil at h
  split at h
  · simp only [Plan.ofLowering] at h
    cases hresult : (Schema.lower (scope.registryAt ledger.index) loose schema).result with
    | ok found =>
      rw [hresult] at h
      exact congrArg Except.ok (Except.ok.inj h)
    | error fault =>
      rw [hresult] at h
      cases h
  · cases h

/-- If a validator comes out at all, it is that one. -/
theorem validator_of_isOk {loose : Bool} {schema : Json} {ledger : Ledger} {validator : Validator}
    (h : (scope.validator loose schema ledger).1.isOk = true)
    (hlower : (Schema.lower (scope.registryAt ledger.index) loose schema).result = .ok validator) :
    (scope.validator loose schema ledger).1 = .ok validator := by
  cases hresult : (scope.validator loose schema ledger).1 with
  | error error => rw [hresult] at h; cases h
  | ok found =>
    rw [result_of_validator_ok hresult] at hlower
    exact congrArg Except.ok (Except.ok.inj hlower)

/-- A text that comes out is that of a validator that comes out. -/
theorem validator_of_transform_ok {loose : Bool} {schema : Json} {ledger : Ledger} {text : String}
    (h : (scope.transform loose schema ledger).1 = .ok text) :
    ∃ validator, (scope.validator loose schema ledger).1 = .ok validator ∧
      validator.source = text := by
  rw [transform_apply] at h
  simp only at h
  cases hresult : (scope.validator loose schema ledger).1 with
  | ok validator =>
    rw [hresult] at h
    exact ⟨validator, rfl, Except.ok.inj h⟩
  | error error =>
    rw [hresult] at h
    cases h

/-- What a schema is transformed to does not depend on what has been declared before: in two states
of a run with the same resource types and the same knowledge of instances, if lowering the schema
succeeds in both, it gives the same validator, and if transforming it does, the same text. -/
theorem transform_independent {scope scope' : Scope} {loose : Bool} {schema : Json}
    {ledger ledger' : Ledger} (hcatalog : scope.catalog = scope'.catalog)
    (hindex : ledger.index = ledger'.index) :
    (∀ validator validator', (scope.validator loose schema ledger).1 = .ok validator →
      (scope'.validator loose schema ledger').1 = .ok validator' → validator = validator') ∧
    ∀ text text', (scope.transform loose schema ledger).1 = .ok text →
      (scope'.transform loose schema ledger').1 = .ok text' → text = text' := by
  have hregistry : scope.registryAt ledger.index = scope'.registryAt ledger'.index := by
    unfold registryAt registry
    rw [hcatalog, hindex]
  have hvalidator : ∀ validator validator', (scope.validator loose schema ledger).1 = .ok validator →
      (scope'.validator loose schema ledger').1 = .ok validator' → validator = validator' := by
    intro validator validator' h h'
    have hresult := result_of_validator_ok h
    rw [hregistry, result_of_validator_ok h'] at hresult
    exact (Except.ok.inj hresult).symm
  refine ⟨hvalidator, fun text text' h h' => ?_⟩
  obtain ⟨validator, hval, rfl⟩ := validator_of_transform_ok h
  obtain ⟨validator', hval', rfl⟩ := validator_of_transform_ok h'
  rw [hvalidator validator validator' hval hval']

/-- A scope with one resource type, whose values refer to others of the type. -/
def circular : Scope where
  catalog := TypeCatalog.ofList [{
    name := "db"
    schema := some (.obj [("type", .str "object"), ("properties", .obj [("parent",
      .obj [("type", .str "object"), ("format", .str "resource-db")])])]) }]
  config := {}
  outputRoot := ""

/-- A schema that demands this type. -/
def circularSchema : Json := .obj [("type", .str "object"), ("format", .str "resource-db")]

/-- What is known before anything has been declared: the type has one instance. -/
def circularStart : Ledger := { index := some [("db", ["f/main"])] }

/-- The same, when the type and something else have been declared. -/
def circularLater : Ledger :=
  { circularStart with
    claimed := ["resource-type:db", "base64-content"]
    deferred := ["const db_type = z.any();"] }

theorem transform_independent_circular : ∃ text,
    (circular.transform false circularSchema circularStart).1 = .ok text ∧
      (circular.transform false circularSchema circularLater).1 = .ok text := by
  have hstart : (circular.transform false circularSchema circularStart).1.isOk = true := by
    decide +kernel
  have hlater : (circular.transform false circularSchema circularLater).1.isOk = true := by
    decide +kernel
  cases htext : (circular.transform false circularSchema circularStart).1 with
  | error error => rw [htext] at hstart; cases hstart
  | ok text =>
    cases htext' : (circular.transform false circularSchema circularLater).1 with
    | error error => rw [htext'] at hlater; cases hlater
    | ok text' =>
      have hsame := (@transform_independent circular circular false circularSchema circularStart
        circularLater rfl rfl).2 text text' htext htext'
      exact ⟨text, rfl, congrArg Except.ok hsame.symm⟩

end Scope

end SchemaClient
