/-
SchemaClient.Proofs.Sharing.Calls — declarations that are made at most once.

Declarations are made by calls: `Work.once` with an identity and a build. A build may make calls of
its own, and how it goes on may depend on what came of them, so it is a tree. An identity may be
called for again inside of its own build, and builds may fail at any depth.

In the middle of a build "claimed" means "made or being made", and a build that fails gives back its
own identity but not those of the builds inside of it. What can be said of each build, wherever it
stands, is how the ledger accounts for it: the identities that were claimed in the meantime and
stayed so are those of the builds that succeeded, and their declarations are what was put off.

* `Build`, `Call` — calls and the builds they lead to.
* `Attempt`, `Build.attempts` — the builds that are entered, and how they end.
* `Ledger.Accounts` — how a ledger accounts for the builds that have ended.
* `Build.accounts`, `Call.accounts` — every call is accounted for.
* `Scope.exists_call` — fulfilling a demand of a schema is a call.
* `calls_once` — what holds after each of several calls.
-/
import Mathlib.Data.List.Nodup
import Mathlib.Data.List.Perm.Basic
import SchemaClient.Proofs.Sharing.Plan

namespace SchemaClient

/-! ## Calls -/

/-- How the declarations under an identity are built. -/
inductive Build where
  /-- The build comes to its end, with declarations or with an error. -/
  | ends (result : Except Error (List Declaration))
  /-- The build looks at the instance index, if it is known yet. -/
  | looks (next : Option InstanceIndex → Build)
  /-- The build makes a call, and goes on by what comes of it. -/
  | calls (identity : String) (build : Build) (next : Except Error Unit → Build)

/-- What a build does. -/
def Build.work : Build → Work (List Declaration)
  | ends result, ledger => (result, ledger)
  | looks next, ledger => (next ledger.index).work ledger
  | calls identity build next, ledger =>
    let (answer, after) := Work.once identity build.work ledger
    (next answer).work after

/-- A call for declarations. It may be made through any context of a run: they share the ledger. -/
structure Call where
  identity : String
  build : Build

def Call.work (call : Call) : Work Unit := Work.once call.identity call.build.work

/-- A build that was entered and has ended. -/
structure Attempt where
  identity : String
  /-- What was claimed when the call was made. -/
  claimed : List String
  result : Except Error (List Declaration)

/-- The attempts that a call makes whose build does `work` and makes the attempts `inner`: those of
its build and then the build itself, if that is entered. Whether it is can be seen from a build that
fails: the call comes to its error. -/
def Work.attempts (identity : String) (work : Work (List Declaration))
    (inner : Ledger → List Attempt) (ledger : Ledger) : List Attempt :=
  match Work.once identity (throw (.instancesUnresolved identity)) ledger with
  | (.ok (), _) => []
  | (.error _, _) =>
    inner (ledger.claim identity) ++
      [⟨identity, ledger.claimed, (work (ledger.claim identity)).1⟩]

/-- The attempts inside of a build, in the order in which they end. -/
def Build.attempts : Build → Ledger → List Attempt
  | ends _, _ => []
  | looks next, ledger => (next ledger.index).attempts ledger
  | calls identity build next, ledger =>
    let (answer, after) := Work.once identity build.work ledger
    Work.attempts identity build.work build.attempts ledger ++ (next answer).attempts after

def Call.attempts (call : Call) : Ledger → List Attempt :=
  Work.attempts call.identity call.build.work call.build.attempts

/-- What calls leave that are made one after the other, and the attempts they make. -/
def Call.serve (ledger : Ledger) : List Call → Ledger × List Attempt
  | [] => (ledger, [])
  | call :: rest =>
    let (last, attempts) := serve (call.work ledger).2 rest
    (last, call.attempts ledger ++ attempts)

/-! ## Entering a build -/

namespace Work

variable {identity : String} {work : Work (List Declaration)} {ledger : Ledger}
  {inner : Ledger → List Attempt}

theorem once_of_ok (h : identity ∉ ledger.claimed) {declarations : List Declaration}
    (hresult : (work (ledger.claim identity)).1 = .ok declarations) :
    once identity work ledger =
      (.ok (), (work (ledger.claim identity)).2.defer (declarations.map Declaration.render)) := by
  unfold once
  rw [if_neg fun hmem => h (List.contains_iff_mem.1 hmem)]
  split <;> simp_all

theorem once_of_error (h : identity ∉ ledger.claimed) (error : Error)
    (hresult : (work (ledger.claim identity)).1 = .error error) :
    once identity work ledger =
      (.error error, (work (ledger.claim identity)).2.release identity) := by
  unfold once
  rw [if_neg fun hmem => h (List.contains_iff_mem.1 hmem)]
  split <;> simp_all

theorem attempts_of_mem (h : identity ∈ ledger.claimed) :
    attempts identity work inner ledger = [] := by
  rw [attempts, once_of_claimed h]

theorem attempts_of_not_mem (h : identity ∉ ledger.claimed) :
    attempts identity work inner ledger =
      inner (ledger.claim identity) ++
        [⟨identity, ledger.claimed, (work (ledger.claim identity)).1⟩] := by
  rw [attempts, once_of_error h (.instancesUnresolved identity) rfl]

end Work

/-! ## Accounts -/

namespace Attempt

/-- What an attempt has made under its identity, if it succeeded. -/
def made? (attempt : Attempt) : Option (String × List Declaration) :=
  match attempt.result with
  | .ok declarations => some (attempt.identity, declarations)
  | .error _ => none

/-- What attempts have made. -/
def allMade (attempts : List Attempt) : List (String × List Declaration) :=
  attempts.filterMap made?

/-- The texts of what was made. -/
def texts (made : List (String × List Declaration)) : List String :=
  made.flatMap fun entry => entry.2.map Declaration.render

variable {attempts attempts' : List Attempt}

theorem allMade_append : allMade (attempts ++ attempts') = allMade attempts ++ allMade attempts' :=
  List.filterMap_append

theorem texts_append {made made' : List (String × List Declaration)} :
    texts (made ++ made') = texts made ++ texts made' :=
  List.flatMap_append

theorem mem_allMade {identity : String} {declarations : List Declaration} :
    (identity, declarations) ∈ allMade attempts ↔
      ∃ attempt ∈ attempts, attempt.identity = identity ∧ attempt.result = .ok declarations := by
  refine List.mem_filterMap.trans (exists_congr fun attempt => and_congr_right fun _ => ?_)
  unfold made?
  cases attempt.result <;> simp

end Attempt

/-- From `before` to `after` these attempts have ended. -/
structure Ledger.Accounts (before after : Ledger) (attempts : List Attempt) : Prop where
  index_eq : after.index = before.index
  claimed : after.claimed.Perm ((Attempt.allMade attempts).map Prod.fst ++ before.claimed)
  deferred : after.deferred = before.deferred ++ Attempt.texts (Attempt.allMade attempts)
  nodup : before.claimed.Nodup → after.claimed.Nodup
  fresh : ∀ attempt ∈ attempts, attempt.identity ∉ attempt.claimed

namespace Ledger.Accounts

variable {a b c : Ledger} {attempts attempts' : List Attempt}

theorem refl (a : Ledger) : a.Accounts a [] where
  index_eq := rfl
  claimed := .refl _
  deferred := (List.append_nil _).symm
  nodup := id
  fresh := by simp

theorem trans (h : a.Accounts b attempts) (h' : b.Accounts c attempts') :
    a.Accounts c (attempts ++ attempts') where
  index_eq := h'.index_eq.trans h.index_eq
  claimed := by
    refine h'.claimed.trans ((h.claimed.append_left _).trans ?_)
    rw [Attempt.allMade_append, List.map_append, ← List.append_assoc]
    exact List.perm_append_comm.append_right _
  deferred := by
    rw [h'.deferred, h.deferred, List.append_assoc, Attempt.allMade_append, Attempt.texts_append]
  nodup := fun hnodup => h'.nodup (h.nodup hnodup)
  fresh := fun attempt hmem => (List.mem_append.1 hmem).elim (h.fresh attempt) (h'.fresh attempt)

variable {identity : String}

/-- A build that succeeds adds its identity and its declarations to what was made inside of it. -/
theorem succeeded {declarations : List Declaration} (h : (a.claim identity).Accounts b attempts)
    (hfresh : identity ∉ a.claimed) :
    a.Accounts (b.defer (declarations.map Declaration.render))
      (attempts ++ [⟨identity, a.claimed, .ok declarations⟩]) where
  index_eq := h.index_eq
  claimed := by
    rw [Attempt.allMade_append, List.map_append, List.append_assoc]
    exact h.claimed
  deferred := by
    rw [Attempt.allMade_append, Attempt.texts_append, ← List.append_assoc]
    exact congrArg₂ (· ++ ·) h.deferred (List.append_nil _).symm
  nodup := fun hnodup => h.nodup (List.nodup_cons.2 ⟨hfresh, hnodup⟩)
  fresh := by
    intro attempt hmem
    rcases List.mem_append.1 hmem with hmem | hmem
    · exact h.fresh attempt hmem
    · rw [List.mem_singleton.1 hmem]
      exact hfresh

/-- A build that fails leaves what was made inside of it. -/
theorem failed {error : Error} (h : (a.claim identity).Accounts b attempts)
    (hfresh : identity ∉ a.claimed) :
    a.Accounts (b.release identity) (attempts ++ [⟨identity, a.claimed, .error error⟩]) where
  index_eq := h.index_eq
  claimed := by
    have hmoved : b.claimed.Perm
        (identity :: ((Attempt.allMade attempts).map Prod.fst ++ a.claimed)) :=
      h.claimed.trans List.perm_middle
    have herased := hmoved.erase identity
    rw [List.erase_cons_head] at herased
    rw [Attempt.allMade_append, List.map_append, List.append_assoc]
    exact herased
  deferred := by
    rw [Attempt.allMade_append, Attempt.texts_append]
    exact h.deferred.trans (congrArg (a.deferred ++ ·) (List.append_nil _).symm)
  nodup := fun hnodup => (h.nodup (List.nodup_cons.2 ⟨hfresh, hnodup⟩)).erase identity
  fresh := by
    intro attempt hmem
    rcases List.mem_append.1 hmem with hmem | hmem
    · exact h.fresh attempt hmem
    · rw [List.mem_singleton.1 hmem]
      exact hfresh

end Ledger.Accounts

/-- If the attempts inside of a build are accounted for, so are those of a call that leads to it. -/
theorem Work.accounts {identity : String} {work : Work (List Declaration)}
    {inner : Ledger → List Attempt}
    (h : ∀ ledger : Ledger, ledger.Accounts (work ledger).2 (inner ledger)) (ledger : Ledger) :
    ledger.Accounts (Work.once identity work ledger).2
      (Work.attempts identity work inner ledger) := by
  by_cases hclaimed : identity ∈ ledger.claimed
  · rw [Work.once_of_claimed hclaimed, Work.attempts_of_mem hclaimed]
    exact .refl ledger
  · rw [Work.attempts_of_not_mem hclaimed]
    have hinner := h (ledger.claim identity)
    cases hresult : (work (ledger.claim identity)).1 with
    | ok declarations =>
      rw [Work.once_of_ok hclaimed hresult]
      exact hinner.succeeded hclaimed
    | error error =>
      rw [Work.once_of_error hclaimed _ hresult]
      exact hinner.failed hclaimed

/-- Every build is accounted for. -/
theorem Build.accounts (build : Build) (ledger : Ledger) :
    ledger.Accounts (build.work ledger).2 (build.attempts ledger) := by
  induction build generalizing ledger with
  | ends result => exact .refl ledger
  | looks next ih => exact ih ledger.index ledger
  | calls identity build next ihbuild ihnext =>
    exact (Work.accounts ihbuild ledger).trans (ihnext _ _)

theorem Call.accounts (call : Call) (ledger : Ledger) :
    ledger.Accounts (call.work ledger).2 (call.attempts ledger) :=
  Work.accounts call.build.accounts ledger

/-- So are calls that are made one after the other. -/
theorem Call.accounts_serve (calls : List Call) (ledger : Ledger) :
    ledger.Accounts (Call.serve ledger calls).1 (Call.serve ledger calls).2 := by
  induction calls generalizing ledger with
  | nil => exact .refl ledger
  | cons call rest ih => exact (call.accounts ledger).trans (ih _)

/-! ## Demands -/

/-- To fulfil demands one after the other and go on, if fulfilling one is a call. -/
theorem Build.exists_forM {act : Demand → Work Unit} (demands : List Demand)
    (h : ∀ d ∈ demands, ∃ call : Call, act d = call.work) (next : Build) :
    ∃ build : Build, ∀ ledger, build.work ledger =
      match (demands.forM act) ledger with
      | (.ok (), after) => next.work after
      | (.error error, after) => (.error error, after) := by
  induction demands with
  | nil => exact ⟨next, fun _ => rfl⟩
  | cons d rest ih =>
    obtain ⟨call, hcall⟩ := h d List.mem_cons_self
    obtain ⟨others, hothers⟩ := ih fun d' hd' => h d' (List.mem_cons_of_mem _ hd')
    refine ⟨.calls call.identity call.build fun
      | .ok () => others
      | .error error => .ends (.error error), fun ledger => ?_⟩
    change _ = match (act d >>= fun _ => rest.forM act) ledger with
      | (.ok (), after) => next.work after
      | (.error error, after) => (.error error, after)
    rw [Work.bind_apply, hcall, Build.work, Call.work]
    cases Work.once call.identity call.build.work ledger with
    | mk result after =>
      cases result with
      | ok _ => exact hothers after
      | error error => rfl

/-- What depends on the ledger through its index alone is a build if it is one for every index. -/
theorem Build.exists_looks {work : Work (List Declaration)}
    (h : ∀ index, ∃ build : Build, ∀ ledger, ledger.index = index → work ledger = build.work ledger) :
    ∃ build : Build, work = build.work := by
  choose build hbuild using h
  exact ⟨.looks build, funext fun ledger => hbuild ledger.index ledger rfl⟩

/-- Fulfilling a demand of a schema is a call: its build looks at the index and makes the calls for
what the schema of the type demands. -/
theorem Scope.exists_call (scope : Scope) (idle : TypeCatalog) (d : Demand) :
    ∃ call : Call, call.identity = d.identity ∧ scope.declare idle d = call.work := by
  induction idle, d using Scope.declare.induct with
  | case1 idle => exact ⟨⟨_, .ends (.ok [Declaration.base64Content])⟩, rfl, by rw [declare]; rfl⟩
  | case2 idle => exact ⟨⟨_, .ends (.ok [Declaration.storageObject])⟩, rfl, by rw [declare]; rfl⟩
  | case3 idle name ih =>
    rw [declare]
    refine (Build.exists_looks fun index => ?_).elim fun build hbuild =>
      ⟨⟨typeIdentity name, build⟩, rfl, congrArg (Work.once _) hbuild⟩
    simp only [Work.bind_apply, Work.get_apply]
    cases index with
    | none =>
      refine ⟨.ends (.error (.instancesUnresolved name)), fun ledger hindex => ?_⟩
      simp only [hindex]
      rfl
    | some known =>
      cases htake : Table.take? idle name with
      | none =>
        refine ⟨.ends (scope.typeDeclarations known name Validator.any.source),
          fun ledger hindex => ?_⟩
        simp only [hindex]
        rfl
      | some entry =>
        obtain ⟨type, others⟩ := entry
        cases hschema : type.schema with
        | none =>
          refine ⟨.ends (scope.typeDeclarations known name (documented type .any).source),
            fun ledger hindex => ?_⟩
          simp only [hindex, hschema, source_documented]
          rfl
        | some schema =>
          let lowering := Schema.lower (scope.registryAt (some known)) false schema
          obtain ⟨build, hbuild⟩ := Build.exists_forM lowering.demands
            (fun d _ => (ih type others htake d).imp fun _ => And.right)
            (.ends (lowering.result.mapError schemaError >>= fun validator =>
              scope.typeDeclarations known name (documented type validator).source))
          refine ⟨build, fun ledger hindex => ?_⟩
          rw [hbuild]
          simp only [hindex, hschema, registry_eq_registryAt, source_documented, lowering,
            Work.bind_apply]
          cases (Schema.lower (scope.registryAt (some known)) false schema).demands.forM
              (scope.declare others) ledger with
          | mk result after =>
            cases result with
            | error error => rfl
            | ok _ =>
              cases (Schema.lower (scope.registryAt (some known)) false schema).result <;> rfl

/-! ## What holds after a call -/

/-- A call comes to an error exactly if its own build is entered and fails. -/
theorem Call.work_eq_error_iff (call : Call) (ledger : Ledger) (error : Error) :
    (call.work ledger).1 = .error error ↔
      (call.attempts ledger).getLast? = some ⟨call.identity, ledger.claimed, .error error⟩ := by
  by_cases hclaimed : call.identity ∈ ledger.claimed
  · rw [Call.work, Call.attempts, Work.once_of_claimed hclaimed, Work.attempts_of_mem hclaimed]
    simp
  · rw [Call.work, Call.attempts, Work.attempts_of_not_mem hclaimed, List.getLast?_concat]
    cases hresult : (call.build.work (ledger.claim call.identity)).1 with
    | ok declarations =>
      rw [Work.once_of_ok hclaimed hresult]
      simp
    | error other =>
      rw [Work.once_of_error hclaimed _ hresult]
      simp

/-- After each of several calls: an identity is claimed if and only if a build of it has succeeded.
Of no identity two builds have, and what was put off are the declarations of those that have, each
once. An identity whose builds have all failed is not claimed, and nothing was put off under it. No
build was entered while its identity was claimed. And the call comes to an error exactly if its own
build was entered and failed. -/
theorem calls_once (calls : List Call) (call : Call) (index : Option InstanceIndex) :
    let earlier := Call.serve { index := index } calls
    let after := (call.work earlier.1).2
    let attempts := earlier.2 ++ call.attempts earlier.1
    let made := Attempt.allMade attempts
    (∀ identity, identity ∈ after.claimed ↔
      ∃ attempt ∈ attempts, attempt.identity = identity ∧
        ∃ declarations, attempt.result = .ok declarations) ∧
    (made.map Prod.fst).Nodup ∧ after.deferred = Attempt.texts made ∧
    (∀ identity, (∀ attempt ∈ attempts, attempt.identity = identity →
        ∃ error, attempt.result = .error error) →
      identity ∉ after.claimed ∧ identity ∉ made.map Prod.fst) ∧
    (∀ attempt ∈ attempts, attempt.identity ∉ attempt.claimed) ∧
    ∀ error, (call.work earlier.1).1 = .error error ↔
      (call.attempts earlier.1).getLast? =
        some ⟨call.identity, earlier.1.claimed, .error error⟩ := by
  intro earlier after attempts made
  have haccounts : Ledger.Accounts { index := index } after attempts :=
    (Call.accounts_serve calls _).trans (call.accounts earlier.1)
  have hclaimed : after.claimed.Perm (made.map Prod.fst) := by
    have hall := haccounts.claimed
    rwa [List.append_nil] at hall
  have hmade : ∀ identity, identity ∈ made.map Prod.fst ↔
      ∃ attempt ∈ attempts, attempt.identity = identity ∧
        ∃ declarations, attempt.result = .ok declarations := by
    intro identity
    constructor
    · intro hmem
      obtain ⟨⟨_, declarations⟩, hentry, rfl⟩ := List.mem_map.1 hmem
      obtain ⟨attempt, hattempt, hidentity, hresult⟩ := Attempt.mem_allMade.1 hentry
      exact ⟨attempt, hattempt, hidentity, declarations, hresult⟩
    · rintro ⟨attempt, hattempt, hidentity, declarations, hresult⟩
      exact List.mem_map.2
        ⟨_, Attempt.mem_allMade.2 ⟨attempt, hattempt, hidentity, hresult⟩, rfl⟩
  refine ⟨fun identity => hclaimed.mem_iff.trans (hmade identity),
    hclaimed.nodup_iff.1 (haccounts.nodup List.nodup_nil), haccounts.deferred,
    fun identity hfailed => ?_, haccounts.fresh, call.work_eq_error_iff earlier.1⟩
  have hnot : identity ∉ made.map Prod.fst := by
    intro hmem
    obtain ⟨attempt, hattempt, hidentity, declarations, hresult⟩ := (hmade identity).1 hmem
    obtain ⟨error, herror⟩ := hfailed attempt hattempt hidentity
    rw [hresult] at herror
    cases herror
  exact ⟨fun hmem => hnot (hclaimed.mem_iff.1 hmem), hnot⟩

/-- An identity that is called for inside of its own build is made once, one whose build fails is
free again. -/
example :
    (Call.serve {} [⟨"a", .calls "a" (.ends (.ok [])) fun _ => .ends (.ok [])⟩,
      ⟨"b", .ends (.error (.io .full))⟩]).1.claimed = ["a"] := rfl

end SchemaClient
