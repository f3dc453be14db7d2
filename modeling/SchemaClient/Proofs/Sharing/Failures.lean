/-
SchemaClient.Proofs.Sharing.Failures — where the error of a failed declaration comes from.

Fulfilling a demand passes on the error of whatever it wants, as it is. So an error that comes out is
always the own error of one plan: the schema of that type is malformed, its configured default is
none of its instances, or the index is not there.

* `Scope.exists_need_of_fulfilAll` — the error of several needs is that of one of them.
* `Scope.plan_error` — the three ways in which the plan of a demand fails.
* `Scope.declare_error` — the error of a demand is that of the plan of a demand that it reaches.
* `Scope.fulfil_error` — the error of carrying out a plan is its own, or that of a demand reached.
-/
import SchemaClient.Proofs.Sharing.Growth

namespace SchemaClient

/-- A last step without needs adds none. -/
theorem Plan.needs_andThen_ofExcept {α β : Type} (plan : Plan α) (result : α → Except Error β) :
    (plan.andThen fun a => ofExcept (result a)).needs = plan.needs := by
  unfold andThen
  cases plan.result with
  | error error => rfl
  | ok a => exact List.append_nil _

theorem Plan.result_andThen {α β : Type} (plan : Plan α) (next : α → Plan β) :
    (plan.andThen next).result = plan.result >>= fun a => (next a).result := by
  unfold andThen
  cases plan.result <;> rfl

/-- The only fault of a default is that it is none of the instances. -/
theorem InstanceIndex.default?_error {index : InstanceIndex}
    {configured : Table (Option String)} {resourceType : String} {error : Error}
    (h : index.default? configured resourceType = .error error) :
    ∃ path, error = .invalidResourceDefault resourceType path (index.paths resourceType) := by
  unfold default? at h
  simp only at h
  split at h
  · split at h
    · cases h
    · cases h
      exact ⟨_, rfl⟩
  · cases h
  · cases h
  · cases h

namespace Scope

variable {scope : Scope} {index : Option InstanceIndex} {act : Demand → Work Unit}

/-- When needs fail, one of them was fulfilled on a ledger with the same index and failed there. -/
theorem exists_need_of_fulfilAll {needs : List (Demand × (Error → Error))} {before after : Ledger}
    {error : Error}
    (hact : ∀ need ∈ needs, ∀ ledger : Ledger, ledger.index = before.index →
      before.claimed ⊆ ledger.claimed → scope.Fulfils index act need.1 ledger)
    (h : Plan.fulfilAll act needs before = (.error error, after)) :
    ∃ need ∈ needs, ∃ ledger cause last, ledger.index = before.index ∧
      before.claimed ⊆ ledger.claimed ∧ act need.1 ledger = (.error cause, last) ∧
      error = need.2 cause := by
  induction needs generalizing before with
  | nil => cases h
  | cons need rest ih =>
    obtain ⟨d, adapt⟩ := need
    rcases hact (d, adapt) List.mem_cons_self before rfl (List.Subset.refl _) with
      ⟨middle, made, hrun, hgrow, -, -⟩ | ⟨cause, last, -, -, hrun, -⟩
    · simp only [Plan.fulfilAll, hrun] at h
      have hact' : ∀ need ∈ rest, ∀ ledger : Ledger, ledger.index = middle.index →
          middle.claimed ⊆ ledger.claimed → scope.Fulfils index act need.1 ledger :=
        fun need hneed ledger hindex hsub =>
          hact need (List.mem_cons_of_mem _ hneed) ledger (hindex.trans hgrow.index_eq)
            (List.Subset.trans hgrow.claimed_mono hsub)
      obtain ⟨need, hneed, ledger, cause, last, hindex, hsub, hfails, heq⟩ := ih hact' h
      exact ⟨need, List.mem_cons_of_mem _ hneed, ledger, cause, last,
        hindex.trans hgrow.index_eq, List.Subset.trans hgrow.claimed_mono hsub, hfails, heq⟩
    · simp only [Plan.fulfilAll, hrun] at h
      have heq : adapt cause = error := Except.error.inj (congrArg Prod.fst h)
      exact ⟨(d, adapt), List.mem_cons_self, before, cause, last, rfl, List.Subset.refl _, hrun,
        heq.symm⟩

/-- What is made once fails only while it is made. -/
theorem error_of_once {identity : String} {build : Work (List Declaration)}
    {before after : Ledger} {error : Error}
    (h : Work.once identity build before = (.error error, after)) :
    identity ∉ before.claimed ∧ ∃ last, build (before.claim identity) = (.error error, last) := by
  unfold Work.once at h
  by_cases hclaimed : before.claimed.contains identity = true
  · rw [if_pos hclaimed] at h
    cases h
  · rw [if_neg hclaimed] at h
    refine ⟨by simpa using hclaimed, ?_⟩
    cases hbuild : build (before.claim identity) with
    | mk result last =>
      rw [hbuild] at h
      cases result with
      | ok declarations => cases h
      | error cause =>
        cases h
        exact ⟨last, rfl⟩

/-- The plan of a demand needs what the schema of a type demands, and passes the errors of that on as
they are. -/
theorem need_of_plan {d : Demand} {need : Demand × (Error → Error)}
    (h : need ∈ (scope.plan index d).needs) :
    need.2 = id ∧
      ∃ schema, need.1 ∈ (Schema.lower (scope.registryAt index) false schema).demands := by
  cases d with
  | base64Content => cases h
  | storageObject => cases h
  | resourceType name =>
    cases index with
    | none => cases h
    | some known =>
      simp only [plan] at h
      cases hfind : Table.find? scope.catalog name with
      | none =>
        rw [hfind] at h
        cases h
      | some type =>
        simp only [hfind, Plan.needs_andThen_ofExcept, ownPlan] at h
        cases hschema : type.schema with
        | none =>
          rw [hschema] at h
          cases h
        | some schema =>
          rw [hschema] at h
          obtain ⟨c, hc, rfl⟩ := List.mem_map.mp h
          exact ⟨rfl, schema, hc⟩

/-- What the demand of a schema reaches is demanded by a schema. -/
theorem exists_demand_of_reaches {d c : Demand} {loose : Bool} {schema : Json}
    (hd : d ∈ (Schema.lower (scope.registryAt index) loose schema).demands)
    (hreach : scope.Reaches index d c) :
    ∃ loose' other, c ∈ (Schema.lower (scope.registryAt index) loose' other).demands := by
  rcases hreach.cases_tail with rfl | ⟨_, -, hwanted⟩
  · exact ⟨loose, schema, hd⟩
  · obtain ⟨need, hneed, rfl⟩ := List.mem_map.mp hwanted
    obtain ⟨-, other, hother⟩ := need_of_plan hneed
    exact ⟨false, other, hother⟩

/-- The resource types that a schema demands do not stand for files, nor do those that these want. -/
theorem isStorageObject_of_reaches {d : Demand} {loose : Bool} {schema : Json} {name : String}
    (hd : d ∈ (Schema.lower (scope.registryAt index) loose schema).demands)
    (hreach : scope.Reaches index d (.resourceType name)) :
    Schema.isStorageObject name = false := by
  obtain ⟨_, _, hdemand⟩ := exists_demand_of_reaches hd hreach
  exact (Schema.mem_resourceTypes_of_demand hdemand).2.2

theorem typeDeclarations_error {known : InstanceIndex} {name source : String} {error : Error}
    (h : scope.typeDeclarations known name source = .error error) :
    known.paths name ≠ [] ∧
      ∃ path, error = .invalidResourceDefault name path (known.paths name) := by
  unfold typeDeclarations at h
  split at h
  · cases h
  · rename_i paths hpaths
    refine ⟨hpaths, ?_⟩
    cases hdefault : known.default? scope.config.resources.defaults name with
    | ok default => rw [hdefault] at h; cases h
    | error other =>
      rw [hdefault] at h
      cases h
      exact InstanceIndex.default?_error hdefault

/-- Why the plan of a demand fails: the index is not there, the default that is configured for a type
is none of its instances, or the schema of a type is malformed. -/
theorem plan_error {c : Demand} {error : Error} (h : (scope.plan index c).result = .error error) :
    ∃ name, c = .resourceType name ∧
      ((index = none ∧ error = .instancesUnresolved name) ∨
        (∃ known, index = some known ∧ known.paths name ≠ [] ∧
          ∃ path, error = .invalidResourceDefault name path (known.paths name)) ∨
        ∃ type schema fault, Table.find? scope.catalog name = some type ∧
          type.schema = some schema ∧
          (Schema.lower (scope.registryAt index) false schema).result = .error fault ∧
          error = schemaError fault) := by
  cases c with
  | base64Content => cases h
  | storageObject => cases h
  | resourceType name =>
    refine ⟨name, rfl, ?_⟩
    cases index with
    | none =>
      cases h
      exact Or.inl ⟨rfl, rfl⟩
    | some known =>
      refine Or.inr ?_
      simp only [plan] at h
      cases hfind : Table.find? scope.catalog name with
      | none =>
        rw [hfind] at h
        exact Or.inl ⟨known, rfl, typeDeclarations_error h⟩
      | some type =>
        simp only [hfind, ownPlan, Plan.result_andThen] at h
        cases hschema : type.schema with
        | none =>
          rw [hschema] at h
          exact Or.inl ⟨known, rfl, typeDeclarations_error h⟩
        | some schema =>
          rw [hschema] at h
          simp only [Plan.ofLowering] at h
          cases hresult : (Schema.lower (scope.registryAt (some known)) false schema).result with
          | ok validator =>
            rw [hresult] at h
            exact Or.inl ⟨known, rfl, typeDeclarations_error h⟩
          | error fault =>
            rw [hresult] at h
            cases h
            exact Or.inr ⟨type, schema, fault, rfl, hschema, hresult, rfl⟩

/-- The error of a demand is the own error of the plan of a demand that it reaches. The induction is
on the types left idle. -/
theorem declare_error {idle : TypeCatalog} {d : Demand} {before after : Ledger} {error : Error}
    (hindex : before.index = index) (hcovers : scope.Covers idle before)
    (h : scope.declare idle d before = (.error error, after)) :
    ∃ c, scope.Reaches index d c ∧ (scope.plan index c).result = .error error := by
  induction hsize : idle.length using Nat.strongRecOn generalizing idle d before after with
  | ind size ih =>
    subst hsize
    rw [declare_eq_once hcovers, hindex] at h
    obtain ⟨hfresh, last, hbuild⟩ := error_of_once h
    unfold Plan.fulfil at hbuild
    have hact : ∀ need ∈ (scope.plan index d).needs, ∀ ledger : Ledger,
        ledger.index = (before.claim d.identity).index →
        (before.claim d.identity).claimed ⊆ ledger.claimed →
          scope.Fulfils index (scope.declare (idleWithin idle d)) need.1 ledger :=
      fun _ _ ledger hledger hsub =>
        declare_fulfils (hledger.trans hindex) ((hcovers.within d).mono hsub)
    cases hneeds : Plan.fulfilAll (scope.declare (idleWithin idle d)) (scope.plan index d).needs
        (before.claim d.identity) with
    | mk result middle =>
      rw [hneeds] at hbuild
      cases result with
      | ok _ => exact ⟨d, .refl, congrArg Prod.fst hbuild⟩
      | error cause =>
        obtain rfl : cause = error := by simpa using congrArg Prod.fst hbuild
        obtain ⟨need, hneed, ledger, cause', last', hledger, hsub, hfails, heq⟩ :=
          exists_need_of_fulfilAll hact hneeds
        rw [(need_of_plan hneed).1, id_eq] at heq
        subst heq
        have hlt := length_idleWithin_lt hcovers hfresh (List.ne_nil_of_mem hneed)
        obtain ⟨c, hreach, hresult⟩ := ih _ hlt (hledger.trans hindex)
          ((hcovers.within d).mono hsub) hfails rfl
        exact ⟨c, hreach.head (List.mem_map_of_mem hneed), hresult⟩

/-- The error of carrying out a plan is its own, or that of a demand which it reaches, in the wording
that the plan gives it. -/
theorem fulfil_error {α : Type} {plan : Plan α} {before after : Ledger} {error : Error}
    (h : plan.fulfil (scope.declare scope.catalog) before = (.error error, after)) :
    plan.result = .error error ∨ ∃ need ∈ plan.needs, ∃ c cause,
      scope.Reaches before.index need.1 c ∧ (scope.plan before.index c).result = .error cause ∧
      error = need.2 cause := by
  have hact : ∀ need ∈ plan.needs, ∀ ledger : Ledger, ledger.index = before.index →
      before.claimed ⊆ ledger.claimed →
        scope.Fulfils before.index (scope.declare scope.catalog) need.1 ledger :=
    fun _ _ ledger hledger _ => declare_fulfils hledger (covers_catalog scope ledger)
  unfold Plan.fulfil at h
  cases hneeds : Plan.fulfilAll (scope.declare scope.catalog) plan.needs before with
  | mk result middle =>
    rw [hneeds] at h
    cases result with
    | ok _ => exact Or.inl (congrArg Prod.fst h)
    | error cause =>
      obtain rfl : cause = error := by simpa using congrArg Prod.fst h
      obtain ⟨need, hneed, ledger, cause', last, hledger, -, hfails, heq⟩ :=
        exists_need_of_fulfilAll hact hneeds
      obtain ⟨c, hreach, hresult⟩ := declare_error hledger (covers_catalog scope ledger) hfails
      exact Or.inr ⟨need, hneed, c, cause', hreach, hresult, heq⟩

end Scope

end SchemaClient
