/-
SchemaClient.Proofs.Section.Plan — composing a section, as a plan.

Whatever a section composes, it composes by a plan: the types it refers to are demanded, and its
lines come out. The plan of a section of artifacts depends on the instance index only through the
types that its schemas demand, and a section that demands one waits for the index first.

* `Section.plan` — the plan by which a section is composed.
* `Section.compose_eq_fulfil` — to compose a section is to carry out its plan.
* `Section.Ready` — a section is composed only when the index it needs is there.
* `Section.Ready.plan_eq`, `Section.Ready.compose_withIndex` — then it does not matter whether the
  index comes before the section is composed or after.
-/
import SchemaClient.Proofs.Sharing.Growth
import SchemaClient.Section.Step

namespace SchemaClient

/-! ## The section of the resources -/

namespace Section

/-- The plan by which the types that have instances are declared. -/
def indexedPlan (scope : Scope) (index : InstanceIndex) : List String → Plan (Table String)
  | [] => .ofExcept (.ok [])
  | resourceType :: rest =>
    (Plan.need (.resourceType resourceType)).andThen fun _ =>
    (Plan.ofExcept (index.default? scope.config.resources.defaults resourceType)).andThen
      fun default => (indexedPlan scope index rest).map fun others =>
        match default with
        | some path => (resourceType, path) :: others
        | none => others

/-- The plan by which the section of the resources is composed. -/
def resourcesPlan (scope : Scope) (index : InstanceIndex) : Plan (List String) :=
  let configured := scope.config.resources.defaults
  (Plan.ofExcept (checkConfigured index configured configured)).andThen fun _ =>
    (indexedPlan scope index (Table.names index)).map (resourceLines scope index)

end Section

namespace Plan

variable (act : Demand → Work Unit)

theorem demands_adapt {α : Type} (f : Error → Error) (plan : Plan α) :
    (plan.adapt f).demands = plan.demands := by
  simp [demands, adapt]

theorem demands_ofLowering {α : Type} (lowering : Lowering α) :
    (ofLowering lowering).demands = lowering.demands := by
  simp [demands, ofLowering, Function.comp_def]

theorem demands_map {α β : Type} (f : α → β) (plan : Plan α) :
    (plan.map f).demands = plan.demands := rfl

theorem mem_needs_andThen {α β : Type} {plan : Plan α} {next : α → Plan β}
    {need : Demand × (Error → Error)} (h : need ∈ (plan.andThen next).needs) :
    need ∈ plan.needs ∨ ∃ a, plan.result = .ok a ∧ need ∈ (next a).needs := by
  unfold andThen at h
  cases hresult : plan.result with
  | error error =>
    rw [hresult] at h
    exact Or.inl h
  | ok a =>
    rw [hresult] at h
    exact (List.mem_append.mp h).imp_right fun h => ⟨a, rfl, h⟩

theorem mem_demands_andThen {α β : Type} {plan : Plan α} {next : α → Plan β} {d : Demand}
    (h : d ∈ (plan.andThen next).demands) :
    d ∈ plan.demands ∨ ∃ a, plan.result = .ok a ∧ d ∈ (next a).demands := by
  obtain ⟨need, hneed, rfl⟩ := List.mem_map.mp h
  rcases mem_needs_andThen hneed with hneed | ⟨a, ha, hneed⟩
  · exact Or.inl (List.mem_map_of_mem hneed)
  · exact Or.inr ⟨a, ha, List.mem_map_of_mem hneed⟩

theorem demands_subset_andThen {α β : Type} (plan : Plan α) (next : α → Plan β) :
    plan.demands ⊆ (plan.andThen next).demands := by
  unfold andThen demands
  cases plan.result with
  | error error => exact fun _ hd => hd
  | ok a =>
    rw [List.map_append]
    exact List.subset_append_left _ _

theorem fulfil_need (d : Demand) (ledger : Ledger) :
    (need d).fulfil act ledger = act d ledger := by
  simp only [need, fulfil, fulfilAll]
  cases act d ledger with
  | mk result after => cases result <;> rfl

theorem fulfil_need_andThen {α : Type} (d : Demand) (next : Plan α) (ledger : Ledger) :
    ((need d).andThen fun _ => next).fulfil act ledger =
      (act d >>= fun _ => next.fulfil act) ledger := by
  rw [fulfil_andThen, fulfil_need, Work.bind_apply]

theorem fulfil_ofExcept_andThen {α β : Type} (result : Except Error α) (next : α → Plan β)
    (ledger : Ledger) :
    ((ofExcept result).andThen next).fulfil act ledger =
      match result with
      | .ok a => (next a).fulfil act ledger
      | .error error => (.error error, ledger) := by
  rw [fulfil_andThen, fulfil_ofExcept]
  cases result <;> rfl

end Plan

namespace Work

/-- Within work on a ledger, a result that does not depend on the ledger. -/
theorem lift_bind_apply {α β : Type} (result : Except Error α) (f : α → Work β) (ledger : Ledger) :
    ((liftM result : Work α) >>= f) ledger =
      match result with
      | .ok a => f a ledger
      | .error error => (.error error, ledger) := by
  rw [bind_apply]
  cases result <;> rfl

theorem bind_pure_apply {α β : Type} (x : Work α) (f : α → β) (ledger : Ledger) :
    (x >>= fun a => pure (f a)) ledger = ((x ledger).1.map f, (x ledger).2) := by
  rw [bind_apply]
  cases x ledger with
  | mk result after => cases result <;> rfl

end Work

namespace Section

theorem declareIndexed_eq_fulfil (scope : Scope) (index : InstanceIndex) (types : List String)
    (ledger : Ledger) :
    declareIndexed scope index types ledger =
      (indexedPlan scope index types).fulfil (scope.declare scope.catalog) ledger := by
  induction types generalizing ledger with
  | nil => rfl
  | cons resourceType rest ih =>
    rw [declareIndexed, indexedPlan, Plan.fulfil_need_andThen, Work.bind_apply, Work.bind_apply]
    simp only [Scope.declareType]
    cases scope.declare scope.catalog (.resourceType resourceType) ledger with
    | mk result after =>
      cases result with
      | error error => rfl
      | ok _ =>
        simp only
        rw [Work.lift_bind_apply, Plan.fulfil_ofExcept_andThen]
        cases index.default? scope.config.resources.defaults resourceType with
        | error error => rfl
        | ok default =>
          simp only [Plan.fulfil_map, ← ih]
          cases default <;> exact Work.bind_pure_apply _ _ _

theorem composeResources_eq_fulfil (scope : Scope) (index : InstanceIndex) (ledger : Ledger) :
    composeResources scope index ledger =
      (resourcesPlan scope index).fulfil (scope.declare scope.catalog) ledger := by
  unfold composeResources resourcesPlan
  rw [Work.lift_bind_apply, Plan.fulfil_ofExcept_andThen]
  cases checkConfigured index scope.config.resources.defaults scope.config.resources.defaults with
  | error error => rfl
  | ok _ =>
    simp only [Plan.fulfil_map, ← declareIndexed_eq_fulfil]
    exact Work.bind_pure_apply _ _ _

end Section

/-! ## The sections of what can be run -/

namespace RunnableSection

variable (self : RunnableSection) (scope : Scope)

/-- The plan by which one artifact gets its validator. -/
def artifactPlan (index : Option InstanceIndex) (path : String) (schema : Json) : Plan Validator :=
  (Plan.ofLowering (Schema.lower (scope.registryAt index) self.options.looseArgs schema)).adapt
    (locate path)

/-- The plan by which the artifacts that have a schema get their validators. -/
def validatorsPlan (index : Option InstanceIndex) :
    List Artifact → Plan (List (String × Validator))
  | [] => .ofExcept (.ok [])
  | artifact :: rest =>
    match artifact.schema with
    | none => validatorsPlan index rest
    | some schema =>
      (self.artifactPlan scope index artifact.path schema).andThen fun validator =>
        (validatorsPlan index rest).map ((artifact.path, validator) :: ·)

/-- The declaration of an artifact with a validator. -/
def declaration (path : String) (validator : Validator) : Declaration :=
  ⟨self.declarationName path, validator.source⟩

/-- The lines of a section whose artifacts have these validators. -/
def validatorLines (validators : List (String × Validator)) : List String :=
  self.lines (validators.map fun (path, validator) => (path, self.declaration path validator))

/-- The plan by which a section of artifacts is composed. -/
def plan (index : Option InstanceIndex) (artifacts : List Artifact) : Plan (List String) :=
  (self.validatorsPlan scope index artifacts).map self.validatorLines

theorem transform_eq_fulfil (loose : Bool) (path : String) (schema : Json) (ledger : Ledger) :
    ((scope.transform loose schema).adapt (locate path)) ledger =
      (((Plan.ofLowering (Schema.lower (scope.registryAt ledger.index) loose schema)).adapt
        (locate path)).map Validator.source).fulfil (scope.declare scope.catalog) ledger := by
  rw [Plan.fulfil_map, Plan.fulfil_adapt, Work.adapt_apply, ← Scope.validator_eq_fulfil]
  unfold Scope.transform
  rw [Work.bind_pure_apply]
  cases scope.validator loose schema ledger with
  | mk result after => cases result <;> rfl

theorem declarations_eq_fulfil (artifacts : List Artifact) (ledger : Ledger) :
    self.declarations scope artifacts ledger =
      ((self.validatorsPlan scope ledger.index artifacts).map fun validators =>
        validators.map fun (path, validator) => (path, self.declaration path validator)).fulfil
          (scope.declare scope.catalog) ledger := by
  induction artifacts generalizing ledger with
  | nil => rfl
  | cons artifact rest ih =>
    obtain ⟨path, schema⟩ := artifact
    cases schema with
    | none => exact ih ledger
    | some schema =>
      rw [Plan.fulfil_map]
      simp only [declarations, validatorsPlan]
      rw [Work.bind_apply, transform_eq_fulfil, Plan.fulfil_map, Plan.fulfil_andThen]
      obtain ⟨made, lost, hgrow, -, -⟩ := Scope.fulfil_grows scope
        (self.artifactPlan scope ledger.index path schema) ledger
      change _ = Prod.mk _ _
      unfold artifactPlan at hgrow ⊢
      generalize ((Plan.ofLowering (Schema.lower (scope.registryAt ledger.index)
        self.options.looseArgs schema)).adapt (locate path)).fulfil
          (scope.declare scope.catalog) ledger = run at hgrow ⊢
      obtain ⟨result, after⟩ := run
      cases result with
      | error error => rfl
      | ok validator =>
        have hindex : after.index = ledger.index := hgrow.index_eq
        simp only [Except.map]
        rw [Work.bind_pure_apply, ih, hindex]
        simp only [Plan.fulfil_map]
        cases (self.validatorsPlan scope ledger.index rest).fulfil
            (scope.declare scope.catalog) after with
        | mk result' after' => cases result' <;> rfl

theorem compose_eq_fulfil (artifacts : List Artifact) (ledger : Ledger) :
    self.compose scope artifacts ledger =
      (self.plan scope ledger.index artifacts).fulfil (scope.declare scope.catalog) ledger := by
  unfold compose plan
  rw [Work.bind_pure_apply, declarations_eq_fulfil]
  simp only [Plan.fulfil_map]
  cases (self.validatorsPlan scope ledger.index artifacts).fulfil
      (scope.declare scope.catalog) ledger with
  | mk result after => cases result <;> rfl

/-- The section of the scripts or that of the flows. -/
def ofKind (config : Config) : SectionKind → RunnableSection
  | .flows => flows config
  | _ => scripts config

end RunnableSection

/-! ## Any section -/

namespace Section

/-- The plan by which a section is composed. -/
def plan (scope : Scope) (index : Option InstanceIndex) (kind : SectionKind) :
    Material → Plan (List String)
  | .instances listed => resourcesPlan scope listed
  | .artifacts items => (RunnableSection.ofKind scope.config kind).plan scope index items

/-- To compose a section is to carry out its plan. -/
theorem compose_eq_fulfil (scope : Scope) (kind : SectionKind) (material : Material)
    (ledger : Ledger) :
    compose scope kind material ledger =
      (plan scope ledger.index kind material).fulfil (scope.declare scope.catalog) ledger := by
  cases material with
  | instances index => exact composeResources_eq_fulfil scope index ledger
  | artifacts items => cases kind <;> exact RunnableSection.compose_eq_fulfil _ scope items ledger

/-! ## When the index comes

A section that does not need the instance index may be composed before it is there. -/

/-- What a section may be composed from, when this much is known about instances: the resources
from the index itself, and artifacts without it only if they do not need it. -/
def Ready (scope : Scope) (index : Option InstanceIndex) : Material → Prop
  | .instances listed => index = some listed
  | .artifacts items => RunnableSection.needsInstances scope.catalog items = true → index.isSome

/-- A type that the schema of an artifact demands makes the section need the index. -/
theorem needsInstances_of_demand {scope : Scope} {index : Option InstanceIndex} {loose : Bool}
    {items : List Artifact} {artifact : Artifact} {schema : Json} {name : String}
    (hartifact : artifact ∈ items) (hschema : artifact.schema = some schema)
    (h : .resourceType name ∈ (Schema.lower (scope.registryAt index) loose schema).demands) :
    RunnableSection.needsInstances scope.catalog items = true := by
  obtain ⟨hmem, hknown, hstorage⟩ := Schema.mem_resourceTypes_of_demand h
  refine List.any_eq_true.mpr ⟨schema, List.mem_filterMap.mpr ⟨artifact, hartifact, hschema⟩, ?_⟩
  refine List.any_eq_true.mpr ⟨name, hmem, ?_⟩
  have hhas : Table.has scope.catalog name = true := hknown
  rw [hstorage, hhas]
  rfl

theorem validatorsPlan_eq (self : RunnableSection) (scope : Scope) {items : List Artifact}
    (hneeds : RunnableSection.needsInstances scope.catalog items = false)
    (index : Option InstanceIndex) :
    self.validatorsPlan scope index items = self.validatorsPlan scope none items := by
  have hall : ∀ rest ⊆ items,
      self.validatorsPlan scope index rest = self.validatorsPlan scope none rest := by
    intro rest hsub
    induction rest with
    | nil => rfl
    | cons artifact rest ih =>
      have hrest := ih fun _ ha => hsub (List.mem_cons_of_mem _ ha)
      simp only [RunnableSection.validatorsPlan, hrest]
      cases hschema : artifact.schema with
      | none => rfl
      | some schema =>
        have hlower : Schema.lower (scope.registryAt index) self.options.looseArgs schema =
            Schema.lower (scope.registryAt none) self.options.looseArgs schema := by
          refine Schema.lower_eq_of_agree rfl fun name hname => ?_
          have := needsInstances_of_demand (hsub List.mem_cons_self) hschema hname
          rw [hneeds] at this
          cases this
        simp only [RunnableSection.artifactPlan, hlower]
  exact hall items fun _ h => h

/-- What a section needs that does not need the index. -/
theorem demands_of_not_needsInstances (self : RunnableSection) (scope : Scope)
    {items : List Artifact} (hneeds : RunnableSection.needsInstances scope.catalog items = false)
    (index : Option InstanceIndex) :
    ∀ d ∈ (self.validatorsPlan scope index items).demands, ∀ name, d ≠ .resourceType name := by
  have hall : ∀ rest ⊆ items, ∀ d ∈ (self.validatorsPlan scope index rest).demands,
      ∀ name, d ≠ .resourceType name := by
    intro rest hsub
    induction rest with
    | nil => intro d hd; cases hd
    | cons artifact rest ih =>
      have hrest := ih fun _ ha => hsub (List.mem_cons_of_mem _ ha)
      simp only [RunnableSection.validatorsPlan]
      cases hschema : artifact.schema with
      | none => exact hrest
      | some schema =>
        rintro d hd name rfl
        rcases Plan.mem_demands_andThen hd with hd | ⟨validator, -, hd⟩
        · rw [RunnableSection.artifactPlan, Plan.demands_adapt, Plan.demands_ofLowering] at hd
          have := needsInstances_of_demand (hsub List.mem_cons_self) hschema hd
          rw [hneeds] at this
          cases this
        · exact hrest _ hd name rfl
  exact hall items fun _ h => h

end Section

/-- The ledger when this much is known about instances. -/
def Ledger.withIndex (ledger : Ledger) (index : Option InstanceIndex) : Ledger :=
  { ledger with index := index }

theorem Work.once_withIndex (identity : String) (declarations : List Declaration) (ledger : Ledger)
    (index : Option InstanceIndex) :
    Work.once identity (pure declarations) (ledger.withIndex index) =
      ((Work.once identity (pure declarations) ledger).1,
        (Work.once identity (pure declarations) ledger).2.withIndex index) := by
  unfold Work.once Ledger.withIndex
  by_cases hclaimed : ledger.claimed.contains identity = true
  · simp only [if_pos hclaimed]
  · simp only [if_neg hclaimed]
    rfl

/-- Only the declarations of resource types depend on what is known about instances. -/
theorem Scope.declare_withIndex (scope : Scope) {d : Demand}
    (hd : ∀ name, d ≠ .resourceType name) (index : Option InstanceIndex) (ledger : Ledger) :
    scope.declare scope.catalog d (ledger.withIndex index) =
      ((scope.declare scope.catalog d ledger).1,
        (scope.declare scope.catalog d ledger).2.withIndex index) := by
  cases d with
  | base64Content =>
    simp only [Scope.declare]
    exact Work.once_withIndex _ _ _ _
  | storageObject =>
    simp only [Scope.declare]
    exact Work.once_withIndex _ _ _ _
  | resourceType name => exact absurd rfl (hd name)

theorem Plan.fulfilAll_withIndex (scope : Scope) (index : Option InstanceIndex)
    (needs : List (Demand × (Error → Error))) (ledger : Ledger)
    (hneeds : ∀ need ∈ needs, ∀ name, need.1 ≠ .resourceType name) :
    Plan.fulfilAll (scope.declare scope.catalog) needs (ledger.withIndex index) =
      ((Plan.fulfilAll (scope.declare scope.catalog) needs ledger).1,
        (Plan.fulfilAll (scope.declare scope.catalog) needs ledger).2.withIndex index) := by
  induction needs generalizing ledger with
  | nil => rfl
  | cons need rest ih =>
    obtain ⟨d, adapt⟩ := need
    simp only [Plan.fulfilAll, scope.declare_withIndex (hneeds _ List.mem_cons_self)]
    cases scope.declare scope.catalog d ledger with
    | mk result after =>
      cases result with
      | error error => rfl
      | ok _ => exact ih after fun need hneed => hneeds need (List.mem_cons_of_mem _ hneed)

/-- A plan that demands no resource type is carried out the same way whatever is known about
instances. -/
theorem Plan.fulfil_withIndex {α : Type} (scope : Scope) (plan : Plan α)
    (hplan : ∀ d ∈ plan.demands, ∀ name, d ≠ .resourceType name) (index : Option InstanceIndex)
    (ledger : Ledger) :
    plan.fulfil (scope.declare scope.catalog) (ledger.withIndex index) =
      ((plan.fulfil (scope.declare scope.catalog) ledger).1,
        (plan.fulfil (scope.declare scope.catalog) ledger).2.withIndex index) := by
  have hneeds : ∀ need ∈ plan.needs, ∀ name, need.1 ≠ .resourceType name :=
    fun need hneed => hplan need.1 (List.mem_map_of_mem hneed)
  unfold Plan.fulfil
  rw [Plan.fulfilAll_withIndex scope index plan.needs ledger hneeds]
  cases Plan.fulfilAll (scope.declare scope.catalog) plan.needs ledger with
  | mk result after => cases result <;> rfl

namespace Section

/-- A section that may be composed before the index is there has the same plan afterwards. -/
theorem Ready.plan_eq {scope : Scope} {material : Material} (h : Ready scope none material)
    (kind : SectionKind) (index : Option InstanceIndex) :
    plan scope index kind material = plan scope none kind material := by
  cases material with
  | instances listed => cases h
  | artifacts items =>
    have hneeds : RunnableSection.needsInstances scope.catalog items = false := by
      simpa using mt h (by simp)
    simp only [plan, RunnableSection.plan, validatorsPlan_eq _ scope hneeds index]

/-- A section that is composed before the index is there might as well be composed afterwards. -/
theorem Ready.compose_withIndex {scope : Scope} {material : Material} {ledger : Ledger}
    (h : Ready scope ledger.index material) (kind : SectionKind) (index : Option InstanceIndex)
    (hnone : ledger.index = none) :
    compose scope kind material (ledger.withIndex index) =
      ((compose scope kind material ledger).1, (compose scope kind material ledger).2.withIndex
        index) := by
  rw [hnone] at h
  rw [compose_eq_fulfil, compose_eq_fulfil, hnone]
  have hindex : (ledger.withIndex index).index = index := rfl
  rw [hindex, h.plan_eq kind index]
  refine Plan.fulfil_withIndex scope _ ?_ index ledger
  cases material with
  | instances listed => cases h
  | artifacts items =>
    have hneeds : RunnableSection.needsInstances scope.catalog items = false := by
      simpa using mt h (by simp)
    exact demands_of_not_needsInstances _ scope hneeds none

end Section

end SchemaClient
