/-
SchemaClient.Proofs.Sharing.Ahead — what does not depend on the claims that were there before.

A piece of work may find some of its demands claimed by earlier work. If what was claimed is
SETTLED (everything a claimed demand wants is claimed as well, and its declarations can be made),
this makes no difference: the work comes to the same result, and in the end the same demands are
claimed as if the earlier work had come afterwards.

* `Scope.Settled` — a set of demands that is complete in itself.
* `Scope.Ahead` — one ledger has what the other has, and a settled set besides.
* `Scope.fulfil_ahead` — a plan comes to the same result on both, and leaves one ahead of the other.
-/
import SchemaClient.Proofs.Sharing.Growth

namespace SchemaClient

namespace Scope

variable (scope : Scope) (index : Option InstanceIndex)

/-- Whatever a demand of the set wants is in the set, and the declarations of each can be made. -/
structure Settled (settled : Demand → Prop) : Prop where
  wanted : ∀ d, settled d → ∀ c ∈ scope.wanted index d, settled c
  feasible : ∀ d, settled d → scope.Feasible index d

variable {scope index}

namespace Settled

variable {settled : Demand → Prop} {c d : Demand}

theorem of_reaches (h : scope.Settled index settled) (hd : settled d)
    (hreach : scope.Reaches index d c) : settled c := by
  induction hreach with
  | refl => exact hd
  | tail _ hwanted ih => exact h.wanted _ ih _ hwanted

theorem not_doomed (h : scope.Settled index settled) (hd : settled d) :
    ¬ scope.Doomed index d := by
  intro hdoomed
  induction hdoomed with
  | infeasible hresult => exact (h.feasible _ hd).result_eq hresult
  | wanting hwanted _ ih => exact ih (h.wanted _ hd _ hwanted)

end Settled

/-- On the ledger `full` the demands of `bare` are claimed and those of `settled`. -/
structure Ahead (settled : Demand → Prop) (full bare : Ledger) : Prop where
  index_eq : full.index = bare.index
  nodup_full : full.claimed.Nodup
  nodup_bare : bare.claimed.Nodup
  mem_iff : ∀ identity, identity ∈ full.claimed ↔
    identity ∈ bare.claimed ∨ ∃ d, settled d ∧ d.identity = identity

namespace Ahead

variable {settled : Demand → Prop} {full bare : Ledger}

theorem claim (h : Ahead settled full bare) {identity : String} (hfresh : identity ∉ full.claimed) :
    Ahead settled (full.claim identity) (bare.claim identity) where
  index_eq := h.index_eq
  nodup_full := List.nodup_cons.mpr ⟨hfresh, h.nodup_full⟩
  nodup_bare := List.nodup_cons.mpr
    ⟨fun hid => hfresh ((h.mem_iff identity).mpr (Or.inl hid)), h.nodup_bare⟩
  mem_iff other := by
    simp only [Ledger.claim, List.mem_cons, h.mem_iff other, or_assoc]

theorem release (h : Ahead settled full bare) {identity : String}
    (hother : ∀ d, settled d → d.identity ≠ identity) :
    Ahead settled (full.release identity) (bare.release identity) where
  index_eq := h.index_eq
  nodup_full := h.nodup_full.erase identity
  nodup_bare := h.nodup_bare.erase identity
  mem_iff other := by
    simp only [Ledger.release, h.nodup_full.mem_erase_iff, h.nodup_bare.mem_erase_iff,
      h.mem_iff other]
    constructor
    · rintro ⟨hne, hid | hset⟩
      · exact Or.inl ⟨hne, hid⟩
      · exact Or.inr hset
    · rintro (⟨hne, hid⟩ | ⟨d, hd, rfl⟩)
      · exact ⟨hne, Or.inl hid⟩
      · exact ⟨hother d hd, Or.inr ⟨d, hd, rfl⟩⟩

theorem defer (h : Ahead settled full bare) (texts : List String) :
    Ahead settled (full.defer texts) (bare.defer texts) where
  index_eq := h.index_eq
  nodup_full := h.nodup_full
  nodup_bare := h.nodup_bare
  mem_iff := h.mem_iff

end Ahead

/-- What is done comes to the same on both ledgers, and the one stays ahead of the other. -/
def KeepsAhead {α : Type} (settled : Demand → Prop) (work : Work α) (full bare : Ledger) : Prop :=
  (work full).1 = (work bare).1 ∧ Ahead settled (work full).2 (work bare).2

variable {settled : Demand → Prop} {act : Demand → Work Unit}

theorem fulfilAll_ahead (scope : Scope) (needs : List (Demand × (Error → Error)))
    {full bare : Ledger} (h : Ahead settled full bare)
    (hact : ∀ need ∈ needs, ∀ full' bare' : Ledger, Ahead settled full' bare' →
      bare'.index = bare.index → bare.claimed ⊆ bare'.claimed →
        KeepsAhead settled (act need.1) full' bare' ∧
          scope.Fulfils bare.index act need.1 bare') :
    KeepsAhead settled (Plan.fulfilAll act needs) full bare := by
  induction needs generalizing full bare with
  | nil => exact ⟨rfl, h⟩
  | cons need rest ih =>
    obtain ⟨d, adapt⟩ := need
    obtain ⟨⟨hsame, hahead⟩, hfulfils⟩ := hact (d, adapt) (by simp) full bare h rfl fun _ hid => hid
    simp only [KeepsAhead, Plan.fulfilAll]
    rcases hfulfils with ⟨after, made, hrun, hgrow, -, -⟩ | ⟨error, after, made, lost, hrun, -⟩
    · rw [hrun] at hsame hahead
      rw [hrun, show act d full = (.ok (), (act d full).2) from Prod.ext hsame rfl]
      refine ih hahead fun need hneed full' bare' h' hindex hsub => ?_
      have hkept := hact need (List.mem_cons_of_mem _ hneed) full' bare' h'
        (hindex.trans hgrow.index_eq) fun _ hid => hsub (hgrow.claimed_mono hid)
      rwa [← hgrow.index_eq] at hkept
    · rw [hrun] at hsame hahead
      rw [hrun, show act d full = (.error error, (act d full).2) from Prod.ext hsame rfl]
      exact ⟨rfl, hahead⟩

/-- Carrying out a plan comes to the same on both ledgers, if fulfilling its demands does. -/
theorem Plan.fulfil_keeps {α : Type} {plan : Plan α} {full bare : Ledger}
    (h : KeepsAhead settled (Plan.fulfilAll act plan.needs) full bare) :
    KeepsAhead settled (plan.fulfil act) full bare := by
  obtain ⟨hsame, hahead⟩ := h
  unfold KeepsAhead Plan.fulfil
  cases hfull : Plan.fulfilAll act plan.needs full with
  | mk result after =>
    cases hbare : Plan.fulfilAll act plan.needs bare with
    | mk result' after' =>
      rw [hfull, hbare] at hsame hahead
      cases hsame
      cases result <;> exact ⟨rfl, hahead⟩

/-- A ledger that is ahead by a settled demand stays ahead when the demand is fulfilled on the
other: what that declares is settled too. -/
theorem Ahead.of_fulfilled (hset : scope.Settled index settled) {d : Demand} (hd : settled d)
    {full bare after : Ledger} (h : Ahead settled full bare) {made : List Demand}
    (hgrow : scope.Growth index bare after made [])
    (hreach : ∀ m ∈ made, scope.Reaches index d m) : Ahead settled full after where
  index_eq := h.index_eq.trans hgrow.index_eq.symm
  nodup_full := h.nodup_full
  nodup_bare := hgrow.nodup_claimed h.nodup_bare
  mem_iff identity := by
    rw [h.mem_iff, hgrow.claimed.mem_iff, List.mem_append]
    constructor
    · rintro (hid | hid)
      · exact Or.inl (Or.inr hid)
      · exact Or.inr hid
    · rintro ((hid | hid) | hid)
      · obtain ⟨m, hm, rfl⟩ := List.mem_map.mp hid
        exact Or.inr ⟨m, hset.of_reaches hd (hreach m hm), rfl⟩
      · exact Or.inl hid
      · exact Or.inr hid

/-- Making the declarations of a demand once comes to the same on both ledgers. If the demand is
claimed on the first only, it is a settled one, and so is everything that the second has to make for
it. -/
theorem once_ahead (hset : scope.Settled index settled) {d : Demand} {full bare : Ledger}
    (h : Ahead settled full bare)
    (hbuild : d.identity ∉ full.claimed →
      KeepsAhead settled ((scope.plan index d).fulfil act) (full.claim d.identity)
        (bare.claim d.identity))
    (hfulfils : scope.Fulfils index
      (fun d => Work.once d.identity ((scope.plan index d).fulfil act)) d bare) :
    KeepsAhead settled (Work.once d.identity ((scope.plan index d).fulfil act)) full bare := by
  by_cases hfull : d.identity ∈ full.claimed
  · unfold KeepsAhead
    rw [Work.once_of_claimed hfull]
    by_cases hbare : d.identity ∈ bare.claimed
    · rw [Work.once_of_claimed hbare]
      exact ⟨rfl, h⟩
    · have hd : settled d := by
        rcases (h.mem_iff _).mp hfull with hid | ⟨e, he, hid⟩
        · exact absurd hid hbare
        · exact Demand.identity_injective hid ▸ he
      rcases hfulfils with ⟨after, made, hrun, hgrow, -, hreach⟩ |
        ⟨error, after, made, lost, -, -, hdoomed, -⟩
      · change Work.once _ _ bare = _ at hrun
        rw [hrun]
        exact ⟨rfl, h.of_fulfilled hset hd hgrow hreach⟩
      · exact absurd hdoomed (hset.not_doomed hd)
  · have hbare : d.identity ∉ bare.claimed := fun hid => hfull ((h.mem_iff _).mpr (Or.inl hid))
    obtain ⟨hsame, hahead⟩ := hbuild hfull
    unfold KeepsAhead Work.once
    rw [if_neg (by simpa using hfull), if_neg (by simpa using hbare)]
    cases hf : (scope.plan index d).fulfil act (full.claim d.identity) with
    | mk result after =>
      cases hb : (scope.plan index d).fulfil act (bare.claim d.identity) with
      | mk result' after' =>
        rw [hf, hb] at hsame hahead
        cases hsame
        cases result with
        | ok declarations => exact ⟨rfl, hahead.defer _⟩
        | error error =>
          refine ⟨rfl, hahead.release fun e he hid => hfull ?_⟩
          exact (h.mem_iff _).mpr (Or.inr ⟨e, he, hid⟩)

/-- Declaring comes to the same on both ledgers. -/
theorem declare_ahead (hset : scope.Settled index settled) {idle : TypeCatalog} {d : Demand}
    {full bare : Ledger} (hindex : bare.index = index) (hcovers : scope.Covers idle bare)
    (h : Ahead settled full bare) : KeepsAhead settled (scope.declare idle d) full bare := by
  induction hsize : idle.length using Nat.strongRecOn generalizing idle d full bare with
  | ind size ih =>
    subst hsize
    have hfull : scope.Covers idle full :=
      hcovers.mono fun _ hid => (h.mem_iff _).mpr (Or.inl hid)
    have hbuild : d.identity ∉ full.claimed → KeepsAhead settled
        ((scope.plan index d).fulfil (scope.declare (idleWithin idle d))) (full.claim d.identity)
        (bare.claim d.identity) := by
      intro hfresh
      refine Plan.fulfil_keeps (fulfilAll_ahead scope _ (h.claim hfresh) ?_)
      intro need hneed full' bare' h' hindex' hsub
      have hlt := length_idleWithin_lt hcovers
        (fun hid => hfresh ((h.mem_iff _).mpr (Or.inl hid))) (List.ne_nil_of_mem hneed)
      have hwithin : scope.Covers (idleWithin idle d) bare' := (hcovers.within d).mono hsub
      exact ⟨ih _ hlt (hindex'.trans hindex) hwithin h' rfl, declare_fulfils hindex' hwithin⟩
    have hfulfils : scope.Fulfils index (fun e => Work.once e.identity
        ((scope.plan index e).fulfil (scope.declare (idleWithin idle d)))) d bare := by
      have hdeclare : scope.Fulfils index (scope.declare idle) d bare :=
        declare_fulfils hindex hcovers
      simpa only [Fulfils, declare_eq_once hcovers, hindex] using hdeclare
    have honce := once_ahead hset h hbuild hfulfils
    simpa only [KeepsAhead, declare_eq_once hcovers, declare_eq_once hfull, h.index_eq, hindex]
      using honce

/-- A plan comes to the same result whether or not settled demands have been claimed before, and
what is claimed in the end differs by these demands at most. -/
theorem fulfil_ahead {α : Type} (plan : Plan α) {full bare : Ledger}
    (hset : scope.Settled bare.index settled) (h : Ahead settled full bare) :
    KeepsAhead settled (plan.fulfil (scope.declare scope.catalog)) full bare := by
  refine Plan.fulfil_keeps (fulfilAll_ahead scope _ h ?_)
  intro need _ full' bare' h' hindex _
  have hcovers := covers_catalog scope bare'
  exact ⟨declare_ahead hset hindex hcovers h', declare_fulfils hindex hcovers⟩

end Scope

end SchemaClient
