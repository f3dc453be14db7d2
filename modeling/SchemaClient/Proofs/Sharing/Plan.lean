/-
SchemaClient.Proofs.Sharing.Plan — declaring, as data.

All work on the ledger in a run has one form: some demands are fulfilled in a fixed order, and if
none of them fails a result or an error comes out that does not depend on the ledger any more. A
`Plan` is that form written down, and `Plan.fulfil` carries it out. What is proved of a plan by
induction on its needs holds of every piece of work that has one.

* `Scope.plan` — the plan of a demand: what its declarations need, and the declarations.
* `Scope.declare_eq_once` — declaring is to carry out the plan, once.
* `Scope.validator_eq_fulfil` — so is lowering a schema within a run.
-/
import SchemaClient.Proofs.Lowering.Demands
import SchemaClient.Run.Scope

namespace SchemaClient

/-! ## Work on a ledger -/

namespace Work

variable {α β : Type}

theorem get_apply (ledger : Ledger) : (get : Work Ledger) ledger = (.ok ledger, ledger) := rfl

theorem bind_apply (x : Work α) (f : α → Work β) (ledger : Ledger) :
    (x >>= f) ledger =
      match x ledger with
      | (.ok a, after) => f a after
      | (.error error, after) => (.error error, after) := by
  change (ExceptT.bind x f) ledger = _
  simp only [ExceptT.bind, ExceptT.mk, bind, StateT.bind]
  cases h : x ledger with
  | mk result after => cases result <;> rfl

/-- What has been claimed is not made again. -/
theorem once_of_claimed {identity : String} {build : Work (List Declaration)} {ledger : Ledger}
    (h : identity ∈ ledger.claimed) : once identity build ledger = (.ok (), ledger) := by
  unfold once
  rw [if_pos (by simpa using h)]

/-- What is made once may be put differently, as long as it comes to the same after the claim. -/
theorem once_congr {identity : String} {build build' : Work (List Declaration)} {ledger : Ledger}
    (h : identity ∉ ledger.claimed →
      build (ledger.claim identity) = build' (ledger.claim identity)) :
    once identity build ledger = once identity build' ledger := by
  by_cases hclaimed : ledger.claimed.contains identity
  · simp only [once, if_pos hclaimed]
  · have hfresh : identity ∉ ledger.claimed := by simpa using hclaimed
    simp only [once, if_neg hclaimed, h hfresh]

theorem adapt_apply (f : Error → Error) (x : Work α) (ledger : Ledger) :
    (ExceptT.adapt f x) ledger = ((x ledger).1.mapError f, (x ledger).2) := rfl

end Work

/-! ## Plans -/

/-- What has to be declared first, in order and each with the wording its error gets, and what comes
out then. -/
structure Plan (α : Type) where
  needs : List (Demand × (Error → Error))
  result : Except Error α

namespace Plan

variable {α β : Type}

/-- A plan without needs. -/
def ofExcept (result : Except Error α) : Plan α := ⟨[], result⟩

/-- A plan with one need and nothing else. -/
def need (d : Demand) : Plan Unit := ⟨[(d, id)], .ok ()⟩

/-- Lowering a schema: its demands are needed, and a malformed node is an error. -/
def ofLowering (lowering : Lowering α) : Plan α :=
  ⟨lowering.demands.map (·, id), lowering.result.mapError Scope.schemaError⟩

/-- Go on with the result. -/
def andThen (plan : Plan α) (next : α → Plan β) : Plan β :=
  match plan.result with
  | .error error => ⟨plan.needs, .error error⟩
  | .ok a => ⟨plan.needs ++ (next a).needs, (next a).result⟩

/-- Change the result. -/
def map (f : α → β) (plan : Plan α) : Plan β := ⟨plan.needs, plan.result.map f⟩

/-- Change the wording of every error. -/
def adapt (f : Error → Error) (plan : Plan α) : Plan α :=
  ⟨plan.needs.map fun need => (need.1, fun error => f (need.2 error)), plan.result.mapError f⟩

/-- The demands that a plan needs. -/
def demands (plan : Plan α) : List Demand := plan.needs.map (·.1)

/-- Fulfil needs one after the other, up to the first that fails. -/
def fulfilAll (act : Demand → Work Unit) : List (Demand × (Error → Error)) → Work Unit
  | [] => pure ()
  | (d, adapt) :: rest => fun ledger =>
    match act d ledger with
    | (.ok (), after) => fulfilAll act rest after
    | (.error error, after) => (.error (adapt error), after)

/-- Carry out a plan. -/
def fulfil (act : Demand → Work Unit) (plan : Plan α) : Work α := fun ledger =>
  match fulfilAll act plan.needs ledger with
  | (.ok (), after) => (plan.result, after)
  | (.error error, after) => (.error error, after)

section

variable (act : Demand → Work Unit)

theorem fulfil_ofExcept (result : Except Error α) (ledger : Ledger) :
    (ofExcept result).fulfil act ledger = (result, ledger) := rfl

theorem fulfilAll_append (first second : List (Demand × (Error → Error))) (ledger : Ledger) :
    fulfilAll act (first ++ second) ledger =
      match fulfilAll act first ledger with
      | (.ok (), after) => fulfilAll act second after
      | (.error error, after) => (.error error, after) := by
  induction first generalizing ledger with
  | nil => rfl
  | cons need rest ih =>
    obtain ⟨d, adapt⟩ := need
    simp only [List.cons_append, fulfilAll]
    cases h : act d ledger with
    | mk result after =>
      cases result with
      | error error => rfl
      | ok _ => exact ih after

theorem fulfil_andThen (plan : Plan α) (next : α → Plan β) (ledger : Ledger) :
    (plan.andThen next).fulfil act ledger =
      match plan.fulfil act ledger with
      | (.ok a, after) => (next a).fulfil act after
      | (.error error, after) => (.error error, after) := by
  cases hplan : plan.result with
  | error error =>
    simp only [fulfil, andThen, hplan]
    cases h : fulfilAll act plan.needs ledger with
    | mk result after => cases result <;> rfl
  | ok a =>
    simp only [fulfil, andThen, hplan, fulfilAll_append]
    cases h : fulfilAll act plan.needs ledger with
    | mk result after => cases result <;> rfl

theorem fulfil_map (f : α → β) (plan : Plan α) (ledger : Ledger) :
    (plan.map f).fulfil act ledger =
      ((plan.fulfil act ledger).1.map f, (plan.fulfil act ledger).2) := by
  simp only [fulfil, map]
  cases h : fulfilAll act plan.needs ledger with
  | mk result after => cases result <;> rfl

theorem fulfilAll_adapt (f : Error → Error) (needs : List (Demand × (Error → Error)))
    (ledger : Ledger) :
    fulfilAll act (needs.map fun need => (need.1, fun error => f (need.2 error))) ledger =
      ((fulfilAll act needs ledger).1.mapError f, (fulfilAll act needs ledger).2) := by
  induction needs generalizing ledger with
  | nil => rfl
  | cons need rest ih =>
    obtain ⟨d, adapt⟩ := need
    simp only [List.map_cons, fulfilAll]
    cases h : act d ledger with
    | mk result after =>
      cases result with
      | error error => rfl
      | ok _ => exact ih after

theorem fulfil_adapt (f : Error → Error) (plan : Plan α) (ledger : Ledger) :
    (plan.adapt f).fulfil act ledger =
      ((plan.fulfil act ledger).1.mapError f, (plan.fulfil act ledger).2) := by
  simp only [fulfil, adapt, fulfilAll_adapt]
  cases h : fulfilAll act plan.needs ledger with
  | mk result after => cases result <;> rfl

theorem forM_eq_fulfilAll (demands : List Demand) (ledger : Ledger) :
    (demands.forM act) ledger = fulfilAll act (demands.map (·, id)) ledger := by
  induction demands generalizing ledger with
  | nil => rfl
  | cons d rest ih =>
    change (act d >>= fun _ => rest.forM act) ledger = _
    rw [Work.bind_apply]
    simp only [List.map_cons, fulfilAll]
    cases h : act d ledger with
    | mk result after =>
      cases result with
      | error error => rfl
      | ok _ => exact ih after

/-- To fulfil what a lowering demands and then to look at its result is to carry out its plan. -/
theorem fulfil_ofLowering (lowering : Lowering α) (ledger : Ledger) :
    (ofLowering lowering).fulfil act ledger =
      match (lowering.demands.forM act) ledger with
      | (.ok (), after) => (lowering.result.mapError Scope.schemaError, after)
      | (.error error, after) => (.error error, after) := by
  rw [forM_eq_fulfilAll]
  rfl

end

end Plan

/-! ## The plan of a demand -/

/-- The identity under which a demand is fulfilled. -/
def Demand.identity : Demand → String
  | .base64Content => "base64-content"
  | .storageObject => "s3-object"
  | .resourceType name => Scope.typeIdentity name

theorem Demand.identity_injective {d e : Demand} (h : d.identity = e.identity) : d = e := by
  have hmark : ∀ name : String, (Scope.typeIdentity name).toList =
      "resource-type:".toList ++ name.toList := by
    intro name
    rw [Scope.typeIdentity, String.toList_append]
  have hne : ∀ (name text : String), text.toList.take 2 ≠ ['r', 'e'] →
      Scope.typeIdentity name ≠ text := by
    intro name text htext heq
    exact htext (by rw [← heq, hmark]; rfl)
  cases d <;> cases e <;> simp only [identity] at h
  case base64Content.base64Content => rfl
  case base64Content.storageObject => exact absurd h (by decide)
  case base64Content.resourceType name => exact absurd h.symm (hne name _ (by decide))
  case storageObject.base64Content => exact absurd h (by decide)
  case storageObject.storageObject => rfl
  case storageObject.resourceType name => exact absurd h.symm (hne name _ (by decide))
  case resourceType.base64Content name => exact absurd h (hne name _ (by decide))
  case resourceType.storageObject name => exact absurd h (hne name _ (by decide))
  case resourceType.resourceType name other =>
    have htext : name.toList = other.toList := by
      have := congrArg String.toList h
      rw [hmark, hmark] at this
      exact List.append_cancel_left this
    rw [String.toList_inj.mp htext]

namespace Table

variable {α : Type}

theorem find?_of_take? {table others : Table α} {name : String} {value : α}
    (h : take? table name = some (value, others)) :
    find? table name = some value ∧
      ∀ other, other ≠ name → find? others other = find? table other := by
  induction table generalizing others with
  | nil => simp [take?] at h
  | cons entry rest ih =>
    obtain ⟨n, v⟩ := entry
    simp only [take?] at h
    split at h
    · rename_i hn
      simp only [Option.some.injEq, Prod.mk.injEq] at h
      obtain ⟨rfl, rfl⟩ := h
      refine ⟨by simp [find?, hn], fun other hother => ?_⟩
      rw [find?, if_neg fun he => hother (he.symm.trans hn)]
    · rename_i hn
      obtain ⟨⟨found, below⟩, hfound, heq⟩ := Option.map_eq_some_iff.mp h
      simp only [Prod.mk.injEq] at heq
      obtain ⟨rfl, rfl⟩ := heq
      obtain ⟨hname, hothers⟩ := ih hfound
      refine ⟨by rw [find?, if_neg hn, hname], fun other hother => ?_⟩
      simp only [find?]
      split
      · rfl
      · exact hothers other hother

theorem find?_eq_none_of_take? {table : Table α} {name : String} (h : take? table name = none) :
    find? table name = none := by
  induction table with
  | nil => rfl
  | cons entry rest ih =>
    obtain ⟨n, v⟩ := entry
    simp only [take?] at h
    split at h
    · cases h
    · rename_i hn
      rw [find?, if_neg hn]
      exact ih (Option.map_eq_none_iff.mp h)

/-- A table without the first entry of a name. -/
def without (table : Table α) (name : String) : Table α :=
  match take? table name with
  | some (_, others) => others
  | none => table

end Table

namespace Scope

/-- What lowering knows at a time when this much is known about instances. -/
def registryAt (scope : Scope) (index : Option InstanceIndex) : Registry :=
  scope.registry { index := index }

theorem registry_eq_registryAt (scope : Scope) (ledger : Ledger) :
    scope.registry ledger = scope.registryAt ledger.index := rfl

/-- The validator of a type with its own description, if it adds one. -/
def documented (type : ResourceType) (validator : Validator) : Validator :=
  match addedDescription? type with
  | some text => .described validator text
  | none => validator

theorem source_documented (type : ResourceType) (validator : Validator) :
    (documented type validator).source =
      match addedDescription? type with
      | some text => validator.source ++ ".describe(" ++ quote text ++ ")"
      | none => validator.source := by
  unfold documented
  cases addedDescription? type <;> rfl

/-- The plan of a resource type's own validator. -/
def ownPlan (scope : Scope) (index : Option InstanceIndex) (type : ResourceType) :
    Plan Validator :=
  let own : Plan Validator :=
    match type.schema with
    | none => .ofExcept (.ok .any)
    | some schema => .ofLowering (Schema.lower (scope.registryAt index) false schema)
  own.andThen fun validator => .ofExcept (.ok (documented type validator))

/-- The plan of what a demand declares. -/
def plan (scope : Scope) (index : Option InstanceIndex) : Demand → Plan (List Declaration)
  | .base64Content => .ofExcept (.ok [Declaration.base64Content])
  | .storageObject => .ofExcept (.ok [Declaration.storageObject])
  | .resourceType name =>
    match index with
    | none => .ofExcept (.error (.instancesUnresolved name))
    | some known =>
      match Table.find? scope.catalog name with
      | none => .ofExcept (scope.typeDeclarations known name Validator.any.source)
      | some type => (scope.ownPlan index type).andThen fun validator =>
        .ofExcept (scope.typeDeclarations known name validator.source)

/-- The types that are not being declared while a demand is fulfilled. -/
def idleWithin (idle : TypeCatalog) : Demand → TypeCatalog
  | .resourceType name => Table.without idle name
  | _ => idle

/-- Every type that is not claimed is among the idle ones, as the catalog has it. -/
def Covers (scope : Scope) (idle : TypeCatalog) (ledger : Ledger) : Prop :=
  ∀ name, typeIdentity name ∉ ledger.claimed →
    Table.find? idle name = Table.find? scope.catalog name

/-- Carrying out the plan of a type: what its schema demands is fulfilled, then its declarations
come from the source of its validator. -/
theorem fulfil_ownPlan (scope : Scope) (type : ResourceType) (act : Demand → Work Unit)
    (next : String → Except Error (List Declaration)) (index : Option InstanceIndex)
    (ledger : Ledger) :
    ((scope.ownPlan index type).andThen fun validator => .ofExcept (next validator.source)).fulfil
        act ledger =
      match type.schema with
      | none => (next (documented type .any).source, ledger)
      | some schema =>
        let lowering := Schema.lower (scope.registryAt index) false schema
        match (lowering.demands.forM act) ledger with
        | (.ok (), after) =>
          match lowering.result with
          | .ok validator => (next (documented type validator).source, after)
          | .error fault => (.error (schemaError fault), after)
        | (.error error, after) => (.error error, after) := by
  unfold ownPlan
  simp only [Plan.fulfil_andThen]
  cases type.schema with
  | none => rfl
  | some schema =>
    simp only [Plan.fulfil_ofLowering]
    cases (Schema.lower (scope.registryAt index) false schema).demands.forM act ledger with
    | mk result after =>
      cases result with
      | error error => rfl
      | ok _ => cases (Schema.lower (scope.registryAt index) false schema).result <;> rfl

/-- Fulfilling a demand is to carry out its plan, once. -/
theorem declare_eq_once {scope : Scope} {idle : TypeCatalog} {d : Demand} {ledger : Ledger}
    (h : scope.Covers idle ledger) :
    scope.declare idle d ledger =
      Work.once d.identity
        ((scope.plan ledger.index d).fulfil (scope.declare (idleWithin idle d))) ledger := by
  cases d with
  | base64Content => rw [declare]; rfl
  | storageObject => rw [declare]; rfl
  | resourceType name =>
    rw [declare]
    refine Work.once_congr fun hclaimed => ?_
    have hfind := h name hclaimed
    rw [Work.bind_apply, Work.get_apply]
    simp only [plan]
    cases hindex : ledger.index with
    | none => simp only [Ledger.claim, hindex]; rfl
    | some index =>
      simp only [Ledger.claim, hindex, idleWithin, Table.without]
      cases htake : Table.take? idle name with
      | none =>
        rw [← hfind, Table.find?_eq_none_of_take? htake]
        rfl
      | some entry =>
        obtain ⟨type, others⟩ := entry
        rw [← hfind, (Table.find?_of_take? htake).1]
        simp only [fulfil_ownPlan, registry_eq_registryAt, source_documented]
        cases type.schema with
        | none => rfl
        | some schema =>
          simp only [Work.bind_apply]
          cases (Schema.lower (scope.registryAt (some index)) false schema).demands.forM
              (scope.declare others) ⟨typeIdentity name :: ledger.claimed, ledger.deferred,
                some index⟩ with
          | mk result after =>
            cases result with
            | error error => rfl
            | ok _ =>
              cases (Schema.lower (scope.registryAt (some index)) false schema).result <;> rfl

/-- Lowering a schema within a run is to carry out the plan of its lowering. -/
theorem validator_eq_fulfil (scope : Scope) (loose : Bool) (schema : Json) (ledger : Ledger) :
    scope.validator loose schema ledger =
      (Plan.ofLowering (Schema.lower (scope.registryAt ledger.index) loose schema)).fulfil
        (scope.declare scope.catalog) ledger := by
  rw [Plan.fulfil_ofLowering]
  unfold validator
  rw [Work.bind_apply, Work.get_apply]
  simp only [registry_eq_registryAt, Work.bind_apply]
  cases (Schema.lower (scope.registryAt ledger.index) loose schema).demands.forM
      (scope.declare scope.catalog) ledger with
  | mk result after =>
    cases result with
    | error error => rfl
    | ok _ => cases (Schema.lower (scope.registryAt ledger.index) loose schema).result <;> rfl

end Scope

end SchemaClient
