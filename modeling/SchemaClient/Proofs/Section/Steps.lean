/-
SchemaClient.Proofs.Section.Steps — the steps that a section can take.

A workspace is asked through a source whose answers may change from one request to the next: the
source is a computation on some state, of which nothing is assumed. `Gives` says that an answer is
one that a request can get. `Section.Takes` then says all that one step can do, without the state.

* `Section.step_takes` — every step is one of those listed.
* `Stage.left` — how many steps a section takes at most; each step takes one off.
-/
import SchemaClient.Section.Step

namespace SchemaClient

/-- A request can get this answer. -/
def Gives {σ α : Type} (request : StateM σ α) (answer : α) : Prop :=
  ∃ state, (request.run state).1 = answer

variable {σ : Type} {source : Source (StateM σ)} {scope : Scope}

/-! ## The instance index -/

/-- Asking for the instance index: it is there already, or a listing of the resources gives it, or a
listing fails. -/
inductive Scope.Indexes (scope : Scope) (source : Source (StateM σ)) :
    Ledger → Except Error InstanceIndex → Ledger → Prop where
  | known {ledger : Ledger} {index : InstanceIndex} :
      ledger.index = some index → Indexes scope source ledger (.ok index) ledger
  | found {ledger : Ledger} {listing : Listing ResourceInstance} {index : InstanceIndex} :
      ledger.index = none → Gives (source.resources none) listing →
      InstanceIndex.ofListing scope.catalog listing = .ok index →
        Indexes scope source ledger (.ok index) { ledger with index := some index }
  | failed {ledger : Ledger} {listing : Listing ResourceInstance} {error : Error} :
      ledger.index = none → Gives (source.resources none) listing →
      InstanceIndex.ofListing scope.catalog listing = .error error →
        Indexes scope source ledger (.error error) ledger

theorem Scope.instances_indexes (source : Source (StateM σ)) (scope : Scope) (ledger : Ledger)
    (state : σ) :
    scope.Indexes source ledger (scope.instances source ledger state).1.1
      (scope.instances source ledger state).1.2 := by
  unfold instances
  cases hindex : ledger.index with
  | some index => exact .known hindex
  | none =>
    simp only [bind, StateT.bind]
    rcases hanswer : source.resources none state with ⟨listing, next⟩
    have hgives : Gives (source.resources none) listing := ⟨state, congrArg Prod.fst hanswer⟩
    cases hlisting : InstanceIndex.ofListing scope.catalog listing with
    | ok index => simpa only [hlisting] using .found hindex hgives hlisting
    | error error => simpa only [hlisting] using .failed hindex hgives hlisting

/-! ## Steps -/

namespace Section

/-- The listing that a section of artifacts can get. -/
def Lists (source : Source (StateM σ)) : SectionKind → Listing Artifact → Prop
  | .resources, _ => False
  | .scripts, listing => Gives source.scripts listing
  | .flows, listing => Gives source.flows listing

/-- What one step can do to a section and the ledger. -/
inductive Takes (source : Source (StateM σ)) (scope : Scope) :
    Section → Ledger → Section → Ledger → Prop where
  | index {s : Section} {ledger after : Ledger} {result : Except Error InstanceIndex} :
      s.stage = .idle → s.kind = .resources → scope.Indexes source ledger result after →
        Takes source scope s ledger
          ((s.announce .fetching).proceed result fun index => .gathered (.instances index)) after
  | list {s : Section} {ledger : Ledger} {listing : Listing Artifact} :
      s.stage = .idle → Lists source s.kind listing →
        Takes source scope s ledger ((s.announce .fetching).list listing) ledger
  | await {s : Section} {ledger after : Ledger} {items : List Artifact}
      {result : Except Error InstanceIndex} :
      s.stage = .listed items → RunnableSection.needsInstances scope.catalog items = true →
      scope.Indexes source ledger result after →
        Takes source scope s ledger (s.proceed result fun _ => .gathered (.artifacts items)) after
  | gather {s : Section} {ledger : Ledger} {items : List Artifact} :
      s.stage = .listed items → RunnableSection.needsInstances scope.catalog items = false →
        Takes source scope s ledger (s.enter (.gathered (.artifacts items))) ledger
  | compose {s : Section} {ledger after : Ledger} {material : Material}
      {result : Except Error (List String)} :
      s.stage = .gathered material → compose scope s.kind material ledger = (result, after) →
        Takes source scope s ledger ((s.announce .transforming).proceed result .composed) after
  | emit {s : Section} {ledger : Ledger} {lines : List String} :
      s.stage = .composed lines →
        Takes source scope s ledger ((s.announce .emitting).emit lines) ledger
  | rest {s : Section} {ledger : Ledger} {result : Except Error Unit} :
      s.stage = .finished result → Takes source scope s ledger s ledger

theorem step_takes (source : Source (StateM σ)) (scope : Scope) (s : Section) (ledger : Ledger)
    (state : σ) :
    Takes source scope s ledger (s.step source scope ledger state).1.1
      (s.step source scope ledger state).1.2 := by
  obtain ⟨kind, stage, outlet, announced⟩ := s
  cases stage with
  | idle =>
    cases kind with
    | resources => exact .index rfl rfl (scope.instances_indexes source ledger state)
    | scripts => exact .list rfl ⟨state, rfl⟩
    | flows => exact .list rfl ⟨state, rfl⟩
  | listed items =>
    cases hneeds : RunnableSection.needsInstances scope.catalog items with
    | true =>
      simp only [step, hneeds, if_true]
      exact .await rfl hneeds (scope.instances_indexes source ledger state)
    | false =>
      simp only [step, hneeds]
      exact .gather rfl hneeds
  | gathered material => exact .compose rfl rfl
  | composed lines => exact .emit rfl
  | finished result => exact .rest rfl

end Section

/-! ## How long a section takes -/

/-- How many steps a section takes at most until it is finished. -/
def Stage.left : Stage → Nat
  | .idle => 4
  | .listed _ => 3
  | .gathered _ => 2
  | .composed _ => 1
  | .finished _ => 0

namespace Section

theorem left_conclude (s : Section) (result : Except Error Unit) :
    (s.conclude result).stage.left = 0 := by
  cases result <;> rfl

theorem left_proceed_le {α : Type} (s : Section) (result : Except Error α) {next : α → Stage}
    {n : Nat} (hnext : ∀ a, (next a).left ≤ n) : (s.proceed result next).stage.left ≤ n := by
  cases result with
  | ok a => exact hnext a
  | error error => simp [proceed, left_conclude]

/-- Each step takes one off, until the section is finished. -/
theorem Takes.left_le {s s' : Section} {ledger after : Ledger}
    (h : Takes source scope s ledger s' after) : s'.stage.left ≤ s.stage.left - 1 := by
  cases h with
  | index hstage => rw [hstage]; exact left_proceed_le _ _ fun _ => by simp [Stage.left]
  | list hstage => rw [hstage]; exact left_proceed_le _ _ fun _ => by simp [Stage.left]
  | await hstage => rw [hstage]; exact left_proceed_le _ _ fun _ => by simp [Stage.left]
  | gather hstage => rw [hstage]; simp [Section.enter, Stage.left]
  | compose hstage => rw [hstage]; exact left_proceed_le _ _ fun _ => by simp [Stage.left]
  | emit hstage =>
    change (Section.conclude _ _).stage.left ≤ _
    rw [left_conclude]
    exact Nat.zero_le _
  | rest hstage => rw [hstage]; simp [Stage.left]

theorem kind_conclude (s : Section) (result : Except Error Unit) :
    (s.conclude result).kind = s.kind := by
  cases result <;> rfl

theorem kind_proceed {α : Type} (s : Section) (result : Except Error α) (next : α → Stage) :
    (s.proceed result next).kind = s.kind := by
  cases result with
  | ok a => rfl
  | error error => exact kind_conclude s _

theorem Takes.kind_eq {s s' : Section} {ledger after : Ledger}
    (h : Takes source scope s ledger s' after) : s'.kind = s.kind := by
  cases h with
  | index => exact kind_proceed ..
  | list => exact kind_proceed ..
  | await => exact kind_proceed ..
  | gather => rfl
  | compose => exact kind_proceed ..
  | emit => exact kind_conclude ..
  | rest => rfl

end Section

end SchemaClient
