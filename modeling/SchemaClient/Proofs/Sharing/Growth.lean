/-
SchemaClient.Proofs.Sharing.Growth — how declaring makes a ledger grow.

A demand is claimed before its declarations are built and given back if that fails, so in the middle
of a build "claimed" means "made or being made". Between two requests it means "made", and that is
what `Growth` says of the ledgers before and after: some demands were made, each once and with its
declarations, and everything they want is claimed as well.

The last point has an exception. A build may find a demand claimed that is still being made further
out; if that one fails afterwards it is released, and what was made in the meantime stays. `lost`
are the demands released in this way. Each of them is `Doomed`: it wants, directly or not, something
whose declarations cannot be made.

* `Scope.wanted`, `Scope.Feasible`, `Scope.Doomed` — the graph of demands.
* `Scope.declare_fulfils` — fulfilling a demand makes the ledger grow.
* `Scope.fulfil_grows` — so does carrying out a plan.
-/
import Mathlib.Data.List.Nodup
import Mathlib.Data.List.Perm.Basic
import Mathlib.Logic.Relation
import SchemaClient.Proofs.Sharing.Plan

namespace SchemaClient

namespace Scope

variable (scope : Scope) (index : Option InstanceIndex)

/-! ## The graph of demands -/

/-- What has to be declared before a demand is. -/
def wanted (d : Demand) : List Demand := (scope.plan index d).demands

/-- The declarations of a demand; none if they cannot be made. -/
def declarations (d : Demand) : List Declaration :=
  match (scope.plan index d).result with
  | .ok declarations => declarations
  | .error _ => []

/-- The declarations of a demand, as they are written. -/
def texts (d : Demand) : List String := (scope.declarations index d).map Declaration.render

/-- The declarations of a demand can be made, once all it wants is declared. -/
def Feasible (d : Demand) : Prop := ∃ declarations, (scope.plan index d).result = .ok declarations

/-- One demand wants the other, directly or not. -/
def Reaches : Demand → Demand → Prop := Relation.ReflTransGen fun d c => c ∈ scope.wanted index d

/-- A demand that is not feasible, or that wants one that is doomed. -/
inductive Doomed : Demand → Prop where
  | infeasible {d : Demand} {error : Error} :
      (scope.plan index d).result = .error error → Doomed d
  | wanting {d c : Demand} : c ∈ scope.wanted index d → Doomed c → Doomed d

variable {scope index} in
theorem Feasible.result_eq {d : Demand} (h : scope.Feasible index d) {error : Error} :
    (scope.plan index d).result ≠ .error error := by
  obtain ⟨declarations, hd⟩ := h
  simp [hd]

/-- From `before` to `after` the demands `made` have been declared, and the demands `lost` have been
claimed and released. -/
structure Growth (before after : Ledger) (made lost : List Demand) : Prop where
  index_eq : after.index = before.index
  claimed : after.claimed.Perm (made.map Demand.identity ++ before.claimed)
  deferred : after.deferred.Perm (before.deferred ++ made.flatMap (scope.texts index))
  fresh : ∀ d ∈ made, d.identity ∉ before.claimed
  nodup : made.Nodup
  feasible : ∀ d ∈ made, scope.Feasible index d
  supported : ∀ d ∈ made, ∀ c ∈ scope.wanted index d,
    c.identity ∈ after.claimed ∨ (c ∈ lost ∧ scope.Reaches index c d)
  doomed : ∀ c ∈ lost, scope.Doomed index c

namespace Growth

variable {scope index} {a b c : Ledger} {made made' lost lost' : List Demand}

theorem refl (a : Ledger) : scope.Growth index a a [] [] where
  index_eq := rfl
  claimed := .refl _
  deferred := by simp
  fresh := by simp
  nodup := .nil
  feasible := by simp
  supported := by simp
  doomed := by simp

theorem claimed_mono (h : scope.Growth index a b made lost) : a.claimed ⊆ b.claimed :=
  fun _ hid => h.claimed.mem_iff.mpr (List.mem_append_right _ hid)

theorem claimed_of_made (h : scope.Growth index a b made lost) {d : Demand} (hd : d ∈ made) :
    d.identity ∈ b.claimed :=
  h.claimed.mem_iff.mpr (List.mem_append_left _ (List.mem_map_of_mem hd))

/-- If nothing was claimed before, it is those that have been declared that are claimed. -/
theorem mem_claimed (h : scope.Growth index a b made lost) (hempty : a.claimed = []) (d : Demand) :
    d.identity ∈ b.claimed ↔ d ∈ made := by
  rw [h.claimed.mem_iff, hempty, List.append_nil]
  exact List.mem_map_of_injective fun _ _ hid => Demand.identity_injective hid

theorem nodup_claimed (h : scope.Growth index a b made lost) (hnodup : a.claimed.Nodup) :
    b.claimed.Nodup := by
  refine h.claimed.nodup_iff.mpr (List.nodup_append.mpr ⟨?_, hnodup, ?_⟩)
  · exact h.nodup.map_on fun _ _ _ _ hid => Demand.identity_injective hid
  · rintro identity hid _ hid' rfl
    obtain ⟨d, hd, rfl⟩ := List.mem_map.mp hid
    exact h.fresh d hd hid'

theorem trans (h : scope.Growth index a b made lost) (h' : scope.Growth index b c made' lost') :
    scope.Growth index a c (made ++ made') (lost ++ lost') where
  index_eq := h'.index_eq.trans h.index_eq
  claimed := by
    refine h'.claimed.trans ((h.claimed.append_left _).trans ?_)
    rw [List.map_append, ← List.append_assoc]
    exact List.perm_append_comm.append_right _
  deferred := by
    refine h'.deferred.trans ((h.deferred.append_right _).trans ?_)
    rw [List.flatMap_append, List.append_assoc]
  fresh := by
    intro d hd
    rcases List.mem_append.mp hd with hd | hd
    · exact h.fresh d hd
    · exact fun hid => h'.fresh d hd (h.claimed_mono hid)
  nodup := by
    refine List.nodup_append.mpr ⟨h.nodup, h'.nodup, ?_⟩
    rintro d hd _ hd' rfl
    exact h'.fresh d hd' (h.claimed_of_made hd)
  feasible := by
    intro d hd
    rcases List.mem_append.mp hd with hd | hd
    · exact h.feasible d hd
    · exact h'.feasible d hd
  supported := by
    intro d hd e he
    rcases List.mem_append.mp hd with hd | hd
    · rcases h.supported d hd e he with hclaimed | ⟨hlost, hreach⟩
      · exact Or.inl (h'.claimed_mono hclaimed)
      · exact Or.inr ⟨List.mem_append_left _ hlost, hreach⟩
    · rcases h'.supported d hd e he with hclaimed | ⟨hlost, hreach⟩
      · exact Or.inl hclaimed
      · exact Or.inr ⟨List.mem_append_right _ hlost, hreach⟩
  doomed := by
    intro e he
    rcases List.mem_append.mp he with he | he
    · exact h.doomed e he
    · exact h'.doomed e he

end Growth

/-! ## Fulfilling -/

/-- What one way to fulfil a demand does to a ledger: it grows, and either the demand is claimed in
the end and nothing is lost, or the demand is doomed. -/
def Fulfils (act : Demand → Work Unit) (d : Demand) (before : Ledger) : Prop :=
  (∃ after made, act d before = (.ok (), after) ∧ scope.Growth index before after made [] ∧
    d.identity ∈ after.claimed ∧ ∀ m ∈ made, scope.Reaches index d m) ∨
  ∃ error after made lost, act d before = (.error error, after) ∧
    scope.Growth index before after made lost ∧ scope.Doomed index d ∧
    ∀ m ∈ made, scope.Reaches index d m

variable {scope index} {act : Demand → Work Unit}

/-- Needs are fulfilled one after the other: all of them, or a doomed one is among them. -/
theorem fulfilAll_grows (needs : List (Demand × (Error → Error))) (before : Ledger)
    (hact : ∀ need ∈ needs, ∀ ledger : Ledger, ledger.index = before.index →
      before.claimed ⊆ ledger.claimed → scope.Fulfils index act need.1 ledger) :
    (∃ after made, Plan.fulfilAll act needs before = (.ok (), after) ∧
      scope.Growth index before after made [] ∧
      (∀ need ∈ needs, need.1.identity ∈ after.claimed) ∧
      ∀ m ∈ made, ∃ need ∈ needs, scope.Reaches index need.1 m) ∨
    ∃ error after made lost, Plan.fulfilAll act needs before = (.error error, after) ∧
      scope.Growth index before after made lost ∧
      (∃ need ∈ needs, scope.Doomed index need.1) ∧
      ∀ m ∈ made, ∃ need ∈ needs, scope.Reaches index need.1 m := by
  induction needs generalizing before with
  | nil => exact Or.inl ⟨before, [], rfl, .refl before, by simp, by simp⟩
  | cons need rest ih =>
    obtain ⟨d, adapt⟩ := need
    simp only [Plan.fulfilAll]
    rcases hact (d, adapt) (by simp) before rfl (fun _ h => h) with
      ⟨middle, made, hrun, hgrow, hclaimed, hreach⟩ |
      ⟨error, after, made, lost, hrun, hgrow, hdoomed, hreach⟩
    · rw [hrun]
      have hrest := ih middle fun need hneed ledger hindex hsub =>
        hact need (List.mem_cons_of_mem _ hneed) ledger (hindex.trans hgrow.index_eq)
          fun _ hid => hsub (hgrow.claimed_mono hid)
      rcases hrest with ⟨after, made', hrun', hgrow', hall, hreach'⟩ |
        ⟨error, after, made', lost, hrun', hgrow', ⟨need, hneed, hdoomed⟩, hreach'⟩
      · refine Or.inl ⟨after, made ++ made', hrun', hgrow.trans hgrow', ?_, ?_⟩
        · intro need hneed
          rcases List.mem_cons.mp hneed with rfl | hneed
          · exact hgrow'.claimed_mono hclaimed
          · exact hall need hneed
        · intro m hm
          rcases List.mem_append.mp hm with hm | hm
          · exact ⟨_, List.mem_cons_self, hreach m hm⟩
          · obtain ⟨need, hneed, hm⟩ := hreach' m hm
            exact ⟨need, List.mem_cons_of_mem _ hneed, hm⟩
      · refine Or.inr ⟨error, after, made ++ made', lost, hrun', hgrow.trans hgrow',
          ⟨need, List.mem_cons_of_mem _ hneed, hdoomed⟩, ?_⟩
        intro m hm
        rcases List.mem_append.mp hm with hm | hm
        · exact ⟨_, List.mem_cons_self, hreach m hm⟩
        · obtain ⟨need, hneed, hm⟩ := hreach' m hm
          exact ⟨need, List.mem_cons_of_mem _ hneed, hm⟩
    · rw [hrun]
      exact Or.inr ⟨adapt error, after, made, lost, rfl, hgrow, ⟨_, List.mem_cons_self, hdoomed⟩,
        fun m hm => ⟨_, List.mem_cons_self, hreach m hm⟩⟩

/-! ### Fulfilling once

`middle` is the ledger when everything that the plan of `d` needs has been tried, which happens with
`d` claimed. -/

section

variable {before middle : Ledger} {d : Demand} {made lost : List Demand}

/-- The declarations are deferred: `d` has been made as well. -/
theorem Growth.defer (h : scope.Growth index (before.claim d.identity) middle made [])
    (hfresh : d.identity ∉ before.claimed) {declarations : List Declaration}
    (hresult : (scope.plan index d).result = .ok declarations)
    (hwanted : ∀ c ∈ scope.wanted index d, c.identity ∈ middle.claimed) :
    scope.Growth index before (middle.defer (declarations.map Declaration.render)) (d :: made)
      [] where
  index_eq := h.index_eq
  claimed := h.claimed.trans List.perm_middle
  deferred := by
    have htexts : scope.texts index d = declarations.map Declaration.render := by
      simp [texts, Scope.declarations, hresult]
    change (middle.deferred ++ declarations.map Declaration.render).Perm _
    rw [List.flatMap_cons, htexts]
    refine (h.deferred.append_right _).trans ?_
    change (before.deferred ++ made.flatMap (scope.texts index) ++ _).Perm _
    rw [List.append_assoc]
    exact List.perm_append_comm.append_left _
  fresh := by
    intro e he
    rcases List.mem_cons.mp he with rfl | he
    · exact hfresh
    · exact fun hid => h.fresh e he (List.mem_cons_of_mem _ hid)
  nodup := List.nodup_cons.mpr ⟨fun hd => h.fresh d hd List.mem_cons_self, h.nodup⟩
  feasible := by
    intro e he
    rcases List.mem_cons.mp he with rfl | he
    · exact ⟨declarations, hresult⟩
    · exact h.feasible e he
  supported := by
    intro e he c hc
    rcases List.mem_cons.mp he with rfl | he
    · exact Or.inl (hwanted c hc)
    · exact h.supported e he c hc
  doomed := by simp

/-- The claim is given back: `d` is lost, and what was made stays. -/
theorem Growth.release (h : scope.Growth index (before.claim d.identity) middle made lost)
    (hdoomed : scope.Doomed index d) (hreach : ∀ m ∈ made, scope.Reaches index d m) :
    scope.Growth index before (middle.release d.identity) made (d :: lost) where
  index_eq := h.index_eq
  claimed := by
    have hmade : d.identity ∉ made.map Demand.identity := by
      intro hid
      obtain ⟨m, hm, heq⟩ := List.mem_map.mp hid
      exact h.fresh m hm (heq ▸ List.mem_cons_self)
    have hperm := h.claimed.erase d.identity
    rw [List.erase_append_right _ hmade] at hperm
    simpa [Ledger.claim, Ledger.release] using hperm
  deferred := h.deferred
  fresh := fun e he hid => h.fresh e he (List.mem_cons_of_mem _ hid)
  nodup := h.nodup
  feasible := h.feasible
  supported := by
    intro e he c hc
    rcases h.supported e he c hc with hclaimed | ⟨hlost, hr⟩
    · by_cases hcd : c = d
      · exact Or.inr ⟨hcd ▸ List.mem_cons_self, hcd ▸ hreach e he⟩
      · refine Or.inl ((List.mem_erase_of_ne fun heq => hcd ?_).mpr hclaimed)
        exact Demand.identity_injective heq
    · exact Or.inr ⟨List.mem_cons_of_mem _ hlost, hr⟩
  doomed := by
    intro e he
    rcases List.mem_cons.mp he with rfl | he
    · exact hdoomed
    · exact h.doomed e he

end

/-- Carrying out the plan of a demand once fulfils it, if `act` fulfils the demands of the plan. -/
theorem once_fulfils (d : Demand) (before : Ledger)
    (hact : d.identity ∉ before.claimed → ∀ need ∈ (scope.plan index d).needs,
      ∀ ledger : Ledger, ledger.index = before.index →
        (before.claim d.identity).claimed ⊆ ledger.claimed →
          scope.Fulfils index act need.1 ledger) :
    scope.Fulfils index (fun d => Work.once d.identity ((scope.plan index d).fulfil act)) d
      before := by
  unfold Fulfils
  simp only
  by_cases hclaimed : d.identity ∈ before.claimed
  · rw [Work.once_of_claimed hclaimed]
    exact Or.inl ⟨before, [], rfl, .refl before, hclaimed, by simp⟩
  · unfold Work.once
    rw [if_neg (by simpa using hclaimed)]
    -- what is made below the demand is reached from it, whether or not it can be declared itself
    have hreach : ∀ {made : List Demand},
        (∀ m ∈ made, ∃ need ∈ (scope.plan index d).needs, scope.Reaches index need.1 m) →
          ∀ m ∈ made, scope.Reaches index d m := by
      intro made h m hm
      obtain ⟨need, hneed, hm⟩ := h m hm
      exact Relation.ReflTransGen.head (List.mem_map_of_mem hneed) hm
    unfold Plan.fulfil
    rcases fulfilAll_grows _ (before.claim d.identity) (hact hclaimed) with
      ⟨middle, made, hrun, hgrow, hall, hmade⟩ |
      ⟨error, middle, made, lost, hrun, hgrow, ⟨need, hneed, hdoomed⟩, hmade⟩
    · rw [hrun]
      cases hresult : (scope.plan index d).result with
      | ok declarations =>
        have hwanted : ∀ c ∈ scope.wanted index d, c.identity ∈ middle.claimed := by
          intro c hc
          obtain ⟨need, hneed, rfl⟩ := List.mem_map.mp hc
          exact hall need hneed
        refine Or.inl ⟨_, d :: made, rfl, hgrow.defer hclaimed hresult hwanted, ?_, ?_⟩
        · exact hgrow.claimed_mono List.mem_cons_self
        · intro m hm
          rcases List.mem_cons.mp hm with rfl | hm
          · exact Relation.ReflTransGen.refl
          · exact hreach hmade m hm
      | error error =>
        have hdoomed : scope.Doomed index d := .infeasible hresult
        exact Or.inr ⟨error, _, made, _, rfl, hgrow.release hdoomed (hreach hmade), hdoomed,
          hreach hmade⟩
    · rw [hrun]
      have hdoomed : scope.Doomed index d := .wanting (List.mem_map_of_mem hneed) hdoomed
      exact Or.inr ⟨error, _, made, _, rfl, hgrow.release hdoomed (hreach hmade), hdoomed,
        hreach hmade⟩

/-! ## Declaring -/

theorem Covers.mono {idle : TypeCatalog} {before after : Ledger} (h : scope.Covers idle before)
    (hsub : before.claimed ⊆ after.claimed) : scope.Covers idle after :=
  fun name hname => h name fun hid => hname (hsub hid)

theorem covers_catalog (scope : Scope) (ledger : Ledger) : scope.Covers scope.catalog ledger :=
  fun _ _ => rfl

/-- While a demand is fulfilled, the types that are left idle still cover the catalog. -/
theorem Covers.within {idle : TypeCatalog} {before : Ledger} (h : scope.Covers idle before)
    (d : Demand) : scope.Covers (idleWithin idle d) (before.claim d.identity) := by
  cases d with
  | base64Content => exact h.mono fun _ hid => List.mem_cons_of_mem _ hid
  | storageObject => exact h.mono fun _ hid => List.mem_cons_of_mem _ hid
  | resourceType name =>
    intro other hother
    have hne : other ≠ name := fun heq => hother (heq ▸ List.mem_cons_self)
    rw [← h other fun hid => hother (List.mem_cons_of_mem _ hid)]
    simp only [idleWithin, Table.without]
    cases htake : Table.take? idle name with
    | none => rfl
    | some entry => exact (Table.find?_of_take? htake).2 other hne

/-- A demand that needs anything leaves fewer types idle. -/
theorem length_idleWithin_lt {idle : TypeCatalog} {ledger : Ledger} {d : Demand}
    (h : scope.Covers idle ledger) (hfresh : d.identity ∉ ledger.claimed)
    (hneeds : (scope.plan index d).needs ≠ []) : (idleWithin idle d).length < idle.length := by
  cases d with
  | base64Content => exact absurd rfl hneeds
  | storageObject => exact absurd rfl hneeds
  | resourceType name =>
    simp only [idleWithin, Table.without]
    cases htake : Table.take? idle name with
    | some entry => exact Table.length_of_take? htake
    | none =>
      have hfind : Table.find? scope.catalog name = none := by
        rw [← h name hfresh]
        exact Table.find?_eq_none_of_take? htake
      refine absurd ?_ hneeds
      cases index <;> simp [plan, hfind, Plan.ofExcept]

/-- Fulfilling a demand makes the ledger grow. The induction is on the types left idle: a demand
that is being fulfilled is not entered again, since it is claimed. -/
theorem declare_fulfils {idle : TypeCatalog} {d : Demand} {before : Ledger}
    (hindex : before.index = index) (h : scope.Covers idle before) :
    scope.Fulfils index (scope.declare idle) d before := by
  induction hsize : idle.length using Nat.strongRecOn generalizing idle d before with
  | ind size ih =>
    subst hsize
    have honce : scope.Fulfils index (fun e => Work.once e.identity
        ((scope.plan index e).fulfil (scope.declare (idleWithin idle d)))) d before := by
      refine once_fulfils d before fun hfresh need hneed ledger hledger hsub => ?_
      have hlt := length_idleWithin_lt h hfresh (List.ne_nil_of_mem hneed)
      exact ih _ hlt (hledger.trans hindex) ((h.within d).mono hsub) rfl
    simpa only [Fulfils, declare_eq_once h, hindex] using honce

/-- Carrying out a plan makes the ledger grow. If it comes to a result, that is the plan's, and
everything the plan needs is claimed; if it fails, that is the plan's own error, or something it
needs is doomed. -/
theorem fulfil_grows (scope : Scope) {α : Type} (plan : Plan α) (before : Ledger) :
    ∃ made lost, scope.Growth before.index before
        (plan.fulfil (scope.declare scope.catalog) before).2 made lost ∧
      (∀ m ∈ made, ∃ d ∈ plan.demands, scope.Reaches before.index d m) ∧
      match (plan.fulfil (scope.declare scope.catalog) before).1 with
      | .ok a => plan.result = .ok a ∧ lost = [] ∧ ∀ d ∈ plan.demands,
          d.identity ∈ (plan.fulfil (scope.declare scope.catalog) before).2.claimed
      | .error error => plan.result = .error error ∨
          ∃ d ∈ plan.demands, scope.Doomed before.index d := by
  have hdemands : ∀ {p : Demand → Prop}, (∃ need ∈ plan.needs, p need.1) →
      ∃ d ∈ plan.demands, p d := by
    rintro p ⟨need, hneed, hp⟩
    exact ⟨need.1, List.mem_map_of_mem hneed, hp⟩
  have hact : ∀ need ∈ plan.needs, ∀ ledger : Ledger, ledger.index = before.index →
      before.claimed ⊆ ledger.claimed →
        scope.Fulfils before.index (scope.declare scope.catalog) need.1 ledger :=
    fun _ _ ledger hledger _ => declare_fulfils hledger (covers_catalog scope ledger)
  unfold Plan.fulfil
  rcases fulfilAll_grows plan.needs before hact with
    ⟨after, made, hrun, hgrow, hall, hmade⟩ |
    ⟨error, after, made, lost, hrun, hgrow, hdoomed, hmade⟩
  · rw [hrun]
    refine ⟨made, [], hgrow, fun m hm => hdemands (hmade m hm), ?_⟩
    cases hresult : plan.result with
    | error error => exact Or.inl rfl
    | ok a =>
      refine ⟨rfl, rfl, fun d hd => ?_⟩
      obtain ⟨need, hneed, rfl⟩ := List.mem_map.mp hd
      exact hall need hneed
  · rw [hrun]
    exact ⟨made, lost, hgrow, fun m hm => hdemands (hmade m hm), Or.inr (hdemands hdoomed)⟩

end Scope

end SchemaClient
