/-
SchemaClient.Proofs.Run.Contexts — what is written through the contexts of a run.

The contexts of a run are used in any order, and each of them for several things: to write, to make
further contexts, to put texts off, to call for declarations. What is written through a context is
its own; what is put off goes to the ledger that all of them share.

* `Undertaking` — what is done on the ledger through a context, with the texts that it puts off.
* `Scope.exists_undertaking` — lowering a schema is one.
* `ContextStep`, `Contexts.perform` — what is done with contexts, and any sequence of it.
* `ContextStep.Defers`, `Contexts.PutsOff` — the texts that a step and a sequence put off.
* `contexts_written` — once the root is finished, each text is where it belongs.
-/
import Mathlib.Logic.Function.Basic
import SchemaClient.Proofs.Run.Output
import SchemaClient.Proofs.Sharing.Calls
import SchemaClient.Run.Contexts

namespace SchemaClient

/-! ## What is done on the ledger -/

/-- What is done on the ledger through a context, up to an end. Calls may be made inside of the
builds of other calls, and texts be put off there. -/
inductive Undertaking where
  | ends (result : Except Error (List Declaration))
  | looks (next : Option InstanceIndex → Undertaking)
  | defers (text : String) (next : Undertaking)
  | calls (identity : String) (build : Undertaking) (next : Except Error Unit → Undertaking)

/-- The texts that a call puts off, if the build does `work` and puts off the texts `inner`: unless
the identity is claimed, those of the build, and then its declarations if it succeeds. -/
def Work.deferredOnce (identity : String) (work : Work (List Declaration))
    (inner : Ledger → List String) (ledger : Ledger) : List String :=
  if identity ∈ ledger.claimed then []
  else
    inner (ledger.claim identity) ++
      match (work (ledger.claim identity)).1 with
      | .ok declarations => declarations.map Declaration.render
      | .error _ => []

theorem Work.deferred_once (identity : String) {work : Work (List Declaration)}
    {inner : Ledger → List String}
    (h : ∀ ledger, (work ledger).2.deferred = ledger.deferred ++ inner ledger) (ledger : Ledger) :
    (Work.once identity work ledger).2.deferred =
      ledger.deferred ++ Work.deferredOnce identity work inner ledger := by
  unfold deferredOnce
  split_ifs with hclaimed
  · rw [once_of_claimed hclaimed, List.append_nil]
  · have hbuild := h (ledger.claim identity)
    cases hresult : (work (ledger.claim identity)).1 with
    | ok declarations =>
      rw [once_of_ok hclaimed hresult, ← List.append_assoc]
      exact congrArg (· ++ declarations.map Declaration.render) hbuild
    | error error =>
      rw [once_of_error hclaimed error hresult, List.append_nil]
      exact hbuild

namespace Undertaking

def work : Undertaking → Work (List Declaration)
  | ends result, ledger => (result, ledger)
  | looks next, ledger => (next ledger.index).work ledger
  | defers text next, ledger => next.work (ledger.defer [text])
  | calls identity build next, ledger =>
    let (answer, after) := Work.once identity build.work ledger
    (next answer).work after

/-- The texts that an undertaking puts off, in order. -/
def deferred : Undertaking → Ledger → List String
  | ends _, _ => []
  | looks next, ledger => (next ledger.index).deferred ledger
  | defers text next, ledger => text :: next.deferred (ledger.defer [text])
  | calls identity build next, ledger =>
    let (answer, after) := Work.once identity build.work ledger
    Work.deferredOnce identity build.work build.deferred ledger ++ (next answer).deferred after

section

variable (identity : String) (build : Undertaking) (next : Except Error Unit → Undertaking)
  (ledger : Ledger)

theorem work_calls :
    (calls identity build next).work ledger =
      (next (Work.once identity build.work ledger).1).work
        (Work.once identity build.work ledger).2 := rfl

theorem deferred_calls :
    (calls identity build next).deferred ledger =
      Work.deferredOnce identity build.work build.deferred ledger ++
        (next (Work.once identity build.work ledger).1).deferred
          (Work.once identity build.work ledger).2 := rfl

end

/-- An undertaking adds to what was put off before, and takes nothing away. -/
theorem deferred_work (undertaking : Undertaking) (ledger : Ledger) :
    (undertaking.work ledger).2.deferred = ledger.deferred ++ undertaking.deferred ledger := by
  induction undertaking generalizing ledger with
  | ends result => exact (List.append_nil _).symm
  | looks next ih => exact ih ledger.index ledger
  | defers text next ih =>
    exact (ih _).trans (List.append_assoc ledger.deferred [text] _)
  | calls identity build next ihbuild ihnext =>
    rw [work_calls, deferred_calls, ihnext, Work.deferred_once identity ihbuild, List.append_assoc]

/-- An undertaking does the same on every ledger as some work, whatever the work gives. -/
def Does {α : Type} (undertaking : Undertaking) (act : Work α) : Prop :=
  ∀ ledger, undertaking.work ledger = ((act ledger).1.map fun _ => [], (act ledger).2)

end Undertaking

/-- A build puts off nothing but declarations. -/
def Build.undertaking : Build → Undertaking
  | ends result => .ends result
  | looks next => .looks fun index => (next index).undertaking
  | calls identity build next =>
    .calls identity build.undertaking fun answer => (next answer).undertaking

theorem Build.work_undertaking (build : Build) : build.undertaking.work = build.work := by
  induction build with
  | ends result => rfl
  | looks next ih =>
    funext ledger
    exact congrFun (ih ledger.index) ledger
  | calls identity build next ihbuild ihnext =>
    funext ledger
    rw [undertaking, Undertaking.work, ihbuild]
    exact congrFun (ihnext _) _

/-- Lowering a schema in a run is an undertaking. -/
theorem Scope.exists_undertaking (scope : Scope) (loose : Bool) (schema : Json) :
    ∃ undertaking : Undertaking, undertaking.Does (scope.transform loose schema) := by
  let discarded : Work (List Declaration) := fun ledger =>
    ((scope.transform loose schema ledger).1.map fun _ => [],
      (scope.transform loose schema ledger).2)
  have hbuild : ∃ build : Build, discarded = build.work := by
    refine Build.exists_looks fun index => ?_
    let lowering := Schema.lower (scope.registryAt index) loose schema
    obtain ⟨build, hbuild⟩ := Build.exists_forM lowering.demands
      (fun d _ => (scope.exists_call scope.catalog d).imp fun _ => And.right)
      (.ends (lowering.result.mapError schemaError |>.map fun _ => []))
    refine ⟨build, fun ledger hindex => ?_⟩
    rw [hbuild]
    simp only [discarded, transform, validator, Work.bind_apply, Work.get_apply,
      registry_eq_registryAt, hindex, lowering]
    cases (Schema.lower (scope.registryAt index) loose schema).demands.forM
        (scope.declare scope.catalog) ledger with
    | mk result after =>
      cases result with
      | error error => rfl
      | ok _ => cases (Schema.lower (scope.registryAt index) loose schema).result <;> rfl
  obtain ⟨build, hwork⟩ := hbuild
  refine ⟨build.undertaking, fun ledger => ?_⟩
  rw [build.work_undertaking, ← hwork]

/-- To list the instances puts nothing off. -/
theorem Scope.deferred_instances (scope : Scope) (source : Source Id) (ledger : Ledger) :
    (Id.run (scope.instances source ledger)).2.deferred = ledger.deferred := by
  unfold instances
  cases ledger.index with
  | some index => rfl
  | none =>
    simp only [Id.run, bind]
    cases InstanceIndex.ofListing scope.catalog (source.resources none) <;> rfl

/-! ## Steps -/

/-- What is done with the contexts of a run. -/
inductive ContextStep where
  | child (parent : Nat)
  | write (c : Nat) (text : String)
  /-- Write to one context the text that was taken from another. -/
  | append (c source : Nat)
  | take (c : Nat)
  | deferText (c : Nat) (text : String)
  /-- Call for declarations. -/
  | once (c : Nat) (identity : String) (build : Undertaking)
  /-- Lower a schema. -/
  | transform (c : Nat) (loose : Bool) (schema : Json)
  /-- See to it that the instances are known. -/
  | resolve (c : Nat) (source : Source Id)

namespace ContextStep

/-- The context that a step uses. -/
def context : ContextStep → Nat
  | child c | write c _ | append c _ | take c | deferText c _ | once c _ _ | transform c _ _
  | resolve c _ => c

def isChild : ContextStep → Bool
  | child _ => true
  | _ => false

/-- What a step does to the ledger. -/
def ledger (scope : Scope) (step : ContextStep) (ledger : Ledger) : Ledger :=
  match step with
  | deferText _ text => ledger.defer [text]
  | once _ identity build => (Work.once identity build.work ledger).2
  | transform _ loose schema => (scope.transform loose schema ledger).2
  | resolve _ source => (Id.run (scope.instances source ledger)).2
  | _ => ledger

/-- The texts of the contexts after a step: a line is added to that of the context it was written
to, and a text that is taken from a context to that of the one it is appended to. -/
def own (texts : Nat → String) : ContextStep → Nat → String
  | write c text => Function.update texts c (texts c ++ (text ++ "\n"))
  | append c source => Function.update texts c (texts c ++ texts source)
  | _ => texts

/-- What a step makes of the contexts. -/
inductive Changes (all : List Context) : ContextStep → List Context → Prop where
  | child {parent : Nat} : Changes all (.child parent) (all ++ [⟨.fresh, true⟩])
  | write {c : Nat} {text : String} {outlet : Outlet} : all[c]? = some ⟨outlet, true⟩ →
      Changes all (.write c text) (all.set c ⟨(outlet.append (text ++ "\n")).1, true⟩)
  | append {c source : Nat} {outlet taken : Outlet} : all[c]? = some ⟨outlet, true⟩ →
      all[source]? = some ⟨taken, false⟩ →
      Changes all (.append c source) (all.set c ⟨(outlet.append taken.text).1, true⟩)
  | take {c : Nat} {outlet : Outlet} : all[c]? = some ⟨outlet, true⟩ →
      Changes all (.take c) (all.set c ⟨outlet, false⟩)
  | deferText {c : Nat} {text : String} : Changes all (.deferText c text) all
  | once {c : Nat} {identity : String} {build : Undertaking} :
      Changes all (.once c identity build) all
  | transform {c : Nat} {loose : Bool} {schema : Json} :
      Changes all (.transform c loose schema) all
  | resolve {c : Nat} {source : Source Id} : Changes all (.resolve c source) all

/-- These are the texts that a step puts off. -/
def Defers (scope : Scope) (ledger : Ledger) : ContextStep → List String → Prop
  | deferText _ text, texts => texts = [text]
  | once _ identity build, texts =>
    texts = Work.deferredOnce identity build.work build.deferred ledger
  | transform _ loose schema, texts =>
    ∃ undertaking : Undertaking, undertaking.Does (scope.transform loose schema) ∧
      texts = undertaking.deferred ledger
  | _, texts => texts = []

/-- Every step adds what it puts off. -/
theorem exists_defers (scope : Scope) (step : ContextStep) (ledger : Ledger) :
    ∃ texts, step.Defers scope ledger texts ∧
      (step.ledger scope ledger).deferred = ledger.deferred ++ texts := by
  cases step with
  | deferText c text => exact ⟨[text], rfl, rfl⟩
  | once c identity build => exact ⟨_, rfl, Work.deferred_once identity build.deferred_work ledger⟩
  | transform c loose schema =>
    obtain ⟨undertaking, hdoes⟩ := scope.exists_undertaking loose schema
    refine ⟨_, ⟨undertaking, hdoes, rfl⟩, ?_⟩
    rw [← undertaking.deferred_work, hdoes]
    rfl
  | resolve c source =>
    refine ⟨[], rfl, ?_⟩
    rw [List.append_nil, ContextStep.ledger, scope.deferred_instances]
  | child c | write c text | append c source | take c => exact ⟨[], rfl, (List.append_nil _).symm⟩

end ContextStep

/-! ## Sequences of steps -/

namespace Contexts

/-- What a step makes of the contexts, if the one that it uses is in use. -/
def step? (scope : Scope) (contexts : Contexts) (step : ContextStep) : Option Contexts :=
  (contexts.outlet? step.context).bind fun _ =>
    match step with
    | .child _ => some contexts.child
    | .write c text => (contexts.write c text).map (·.1)
    | .append c source =>
      (contexts.taken? source).bind fun text => (contexts.append c text).map (·.1)
    | .take c => (contexts.take c).map (·.1)
    | .deferText _ text => some (contexts.deferText text)
    | .once _ identity build => some (contexts.work (Work.once identity build.work)).1
    | .transform _ loose schema => some (contexts.work (scope.transform loose schema)).1
    | .resolve _ source =>
      some { contexts with ledger := (Id.run (scope.instances source contexts.ledger)).2 }

/-- What steps make of the contexts one after the other. -/
def perform (scope : Scope) (contexts : Contexts) : List ContextStep → Option Contexts
  | [] => some contexts
  | step :: rest => (contexts.step? scope step).bind fun next => next.perform scope rest

/-- These are the texts that steps put off, one step after the other. -/
inductive PutsOff (scope : Scope) : Contexts → List ContextStep → List String → Prop where
  | nil {contexts : Contexts} : PutsOff scope contexts [] []
  | cons {contexts next : Contexts} {step : ContextStep} {rest : List ContextStep}
      {texts others : List String} : contexts.step? scope step = some next →
      step.Defers scope contexts.ledger texts → PutsOff scope next rest others →
      PutsOff scope contexts (step :: rest) (texts ++ others)

variable {scope : Scope} {contexts next : Contexts} {step : ContextStep}

theorem outlet?_eq_some {c : Nat} {outlet : Outlet} :
    contexts.outlet? c = some outlet ↔ contexts.all[c]? = some ⟨outlet, true⟩ := by
  unfold outlet?
  split <;> simp_all

theorem taken?_eq_some {c : Nat} {text : String} :
    contexts.taken? c = some text ↔
      ∃ outlet, contexts.all[c]? = some ⟨outlet, false⟩ ∧ outlet.text = text := by
  unfold taken?
  split <;> simp_all

/-- What a step does, on the ledger and with the contexts. -/
theorem step?_elim (h : contexts.step? scope step = some next) :
    next.ledger = step.ledger scope contexts.ledger ∧ step.Changes contexts.all next.all := by
  obtain ⟨_, _, h⟩ := Option.bind_eq_some_iff.1 h
  cases step with
  | child parent => cases h; exact ⟨rfl, .child⟩
  | deferText c text => cases h; exact ⟨rfl, .deferText⟩
  | once c identity build => cases h; exact ⟨rfl, .once⟩
  | transform c loose schema => cases h; exact ⟨rfl, .transform⟩
  | resolve c source => cases h; exact ⟨rfl, .resolve⟩
  | write c text =>
    obtain ⟨_, hwrite, rfl⟩ := Option.map_eq_some_iff.1 h
    obtain ⟨outlet, houtlet, rfl⟩ := Option.map_eq_some_iff.1 hwrite
    rw [outlet.writeLine_eq]
    exact ⟨rfl, .write (outlet?_eq_some.1 houtlet)⟩
  | append c source =>
    obtain ⟨text, htext, h⟩ := Option.bind_eq_some_iff.1 h
    obtain ⟨_, hwrite, rfl⟩ := Option.map_eq_some_iff.1 h
    obtain ⟨outlet, houtlet, rfl⟩ := Option.map_eq_some_iff.1 hwrite
    obtain ⟨taken, htaken, rfl⟩ := taken?_eq_some.1 htext
    exact ⟨rfl, .append (outlet?_eq_some.1 houtlet) htaken⟩
  | take c =>
    obtain ⟨_, htake, rfl⟩ := Option.map_eq_some_iff.1 h
    obtain ⟨outlet, houtlet, rfl⟩ := Option.map_eq_some_iff.1 htake
    exact ⟨rfl, .take (outlet?_eq_some.1 houtlet)⟩

/-- What steps put off is added to what was put off before. -/
theorem exists_putsOff {steps : List ContextStep} (h : contexts.perform scope steps = some next) :
    ∃ texts, PutsOff scope contexts steps texts ∧
      next.ledger.deferred = contexts.ledger.deferred ++ texts := by
  induction steps generalizing contexts with
  | nil =>
    cases h
    exact ⟨[], .nil, (List.append_nil _).symm⟩
  | cons step rest ih =>
    obtain ⟨middle, hstep, hrest⟩ := Option.bind_eq_some_iff.1 h
    obtain ⟨texts, hdefers, hdeferred⟩ := step.exists_defers scope contexts.ledger
    obtain ⟨others, hothers, hlast⟩ := ih hrest
    refine ⟨texts ++ others, .cons hstep hdefers hothers, ?_⟩
    rw [hlast, (step?_elim hstep).1, hdeferred, List.append_assoc]

end Contexts

/-! ## Own texts -/

/-- Each context holds its own text and nothing else, and the root is in use. -/
structure Context.Hold (sink : Sink) (texts : Nat → String) (all : List Context) : Prop where
  root : all[0]? = some ⟨.sink (sink.take (Utf8.encode (texts 0))), true⟩
  child : ∀ {c context}, 0 < c → all[c]? = some context → context.outlet = .buffer (texts c)
  /-- To those that are not there yet nothing was written. -/
  unmade : ∀ {c}, all.length ≤ c → texts c = ""

/-- The root was put out of use. -/
def Context.Closed (all : List Context) : Prop := ∃ outlet, all[0]? = some ⟨outlet, false⟩

namespace ContextStep

variable {sink : Sink} {texts : Nat → String} {all all' : List Context} {step : ContextStep}

/-- A root that is out of use stays so. -/
theorem Changes.closed (h : step.Changes all all') (hclosed : Context.Closed all) :
    Context.Closed all' := by
  obtain ⟨own, hroot⟩ := hclosed
  -- whatever is in use is not the root
  have hother : ∀ {c outlet} {context : Context}, all[c]? = some ⟨outlet, true⟩ →
      (all.set c context)[0]? = some ⟨own, false⟩ := by
    intro c outlet context hc
    rw [List.getElem?_set_ne, hroot]
    rintro rfl
    rw [hroot] at hc
    cases hc
  cases h with
  | child => exact ⟨own, (List.getElem?_append_left (List.getElem?_eq_some_iff.1 hroot).1).trans hroot⟩
  | write hc => exact ⟨own, hother hc⟩
  | append hc _ => exact ⟨own, hother hc⟩
  | take hc => exact ⟨own, hother hc⟩
  | deferText | once | transform | resolve => exact ⟨own, hroot⟩

theorem Changes.length (h : step.Changes all all') :
    all'.length = all.length + if step.isChild then 1 else 0 := by
  cases h <;> simp [isChild]

end ContextStep

namespace Context.Hold

variable {sink : Sink} {texts : Nat → String} {all all' : List Context} {step : ContextStep}

/-- What is written through a context is added to what it holds, and to nothing else. -/
theorem append (h : Hold sink texts all) (hroom : sink.room = none) (hcall : sink.perCall ≠ some 0)
    {c : Nat} {outlet : Outlet} (hc : all[c]? = some ⟨outlet, true⟩) (text : String) :
    Hold sink (Function.update texts c (texts c ++ text))
      (all.set c ⟨(outlet.append text).1, true⟩) := by
  have hbound := (List.getElem?_eq_some_iff.1 hc).1
  refine ⟨?_, fun {d context} hpos hd => ?_, fun {d} hd => ?_⟩
  · by_cases hzero : c = 0
    · subst hzero
      have hroot := h.root
      rw [hc] at hroot
      cases hroot
      have hwrite : (sink.take (Utf8.encode (texts 0))).write (Utf8.encode text) =
          ((sink.take (Utf8.encode (texts 0))).take (Utf8.encode text), .ok ()) :=
        Sink.write_of_le hcall fun room hr => by simp [Sink.take, hroom] at hr
      rw [List.getElem?_set_self hbound, Function.update_self, Utf8.encode_append,
        ← Sink.take_take, Outlet.append, hwrite]
    · rw [Function.update_of_ne (Ne.symm hzero), List.getElem?_set_ne hzero]
      exact h.root
  · by_cases hcd : c = d
    · subst hcd
      rw [List.getElem?_set_self hbound] at hd
      cases hd
      cases h.child hpos hc
      rw [Function.update_self]
      rfl
    · rw [List.getElem?_set_ne hcd] at hd
      rw [Function.update_of_ne (Ne.symm hcd)]
      exact h.child hpos hd
  · rw [List.length_set] at hd
    rw [Function.update_of_ne (by omega)]
    exact h.unmade hd

/-- After a step each context still holds its own text, unless the root was put out of use. -/
theorem of_changes (h : Hold sink texts all) (hroom : sink.room = none)
    (hcall : sink.perCall ≠ some 0) (hchanges : step.Changes all all') :
    Hold sink (step.own texts) all' ∨ Closed all' := by
  cases hchanges with
  | deferText | once | transform | resolve => exact Or.inl h
  | write hc => exact Or.inl (h.append hroom hcall hc _)
  | @append c source outlet taken hc hsource =>
    -- what was taken came from a child: the root is in use
    have hpos : 0 < source := by
      rcases Nat.eq_zero_or_pos source with rfl | hpos
      · rw [h.root] at hsource
        cases hsource
      · exact hpos
    cases h.child hpos hsource
    exact Or.inl (h.append hroom hcall hc _)
  | child =>
    refine Or.inl ⟨?_, fun {c context} hpos hc => ?_, fun hc => h.unmade ?_⟩
    · exact (List.getElem?_append_left (List.getElem?_eq_some_iff.1 h.root).1).trans h.root
    · rcases Nat.lt_or_ge c all.length with hold | hnew
      · rw [List.getElem?_append_left hold] at hc
        exact h.child hpos hc
      · rw [List.getElem?_append_right hnew, List.getElem?_singleton] at hc
        split_ifs at hc
        cases hc
        exact congrArg Outlet.buffer (h.unmade hnew).symm
    · rw [List.length_append] at hc
      omega
  | @take c outlet hc =>
    have hbound := (List.getElem?_eq_some_iff.1 hc).1
    by_cases hzero : c = 0
    · subst hzero
      exact Or.inr ⟨outlet, List.getElem?_set_self hbound⟩
    · refine Or.inl ⟨?_, fun {d context} hpos hd => ?_, fun hd => h.unmade ?_⟩
      · rw [List.getElem?_set_ne hzero]
        exact h.root
      · by_cases hcd : c = d
        · subst hcd
          rw [List.getElem?_set_self hbound] at hd
          cases hd
          have hold : outlet = .buffer (texts c) := h.child hpos hc
          exact hold
        · rw [List.getElem?_set_ne hcd] at hd
          exact h.child hpos hd
      · rwa [List.length_set] at hd

end Context.Hold

/-! ## Whole runs -/

/-- The own texts of the contexts after some steps: the lines that were written to each and the
texts that were appended to it, in order. -/
def ContextStep.ownTexts (steps : List ContextStep) : Nat → String :=
  steps.foldl own fun _ => ""

namespace Contexts

variable {scope : Scope} {sink : Sink} {contexts last : Contexts}

/-- As long as the root is in use, each context holds its own text. -/
theorem hold_of_perform (hroom : sink.room = none) (hcall : sink.perCall ≠ some 0)
    {steps : List ContextStep} {texts : Nat → String}
    (h : Context.Hold sink texts contexts.all ∨ Context.Closed contexts.all)
    (hperform : contexts.perform scope steps = some last) :
    Context.Hold sink (steps.foldl ContextStep.own texts) last.all ∨ Context.Closed last.all := by
  induction steps generalizing contexts texts with
  | nil =>
    cases hperform
    exact h
  | cons step rest ih =>
    obtain ⟨middle, hstep, hrest⟩ := Option.bind_eq_some_iff.1 hperform
    have hchanges := (step?_elim hstep).2
    exact ih (h.elim (·.of_changes hroom hcall hchanges) fun hclosed =>
      Or.inr (hchanges.closed hclosed)) hrest

/-- At first nothing was written. -/
theorem hold_root (sink : Sink) : Context.Hold sink (fun _ => "") (root sink).all where
  root := by
    rw [Utf8.encode_empty, Sink.take_nil]
    rfl
  child := by
    intro c context hpos hc
    have hbound := (List.getElem?_eq_some_iff.1 hc).1
    exact absurd hbound (Nat.not_lt.2 hpos)
  unmade := fun _ => rfl

/-- Every step that makes a child adds a context, and no other step does. -/
theorem length_of_perform {steps : List ContextStep}
    (hperform : contexts.perform scope steps = some last) :
    last.all.length = contexts.all.length + steps.countP ContextStep.isChild := by
  induction steps generalizing contexts with
  | nil => cases hperform; rfl
  | cons step rest ih =>
    obtain ⟨middle, hstep, hrest⟩ := Option.bind_eq_some_iff.1 hperform
    rw [ih hrest, (step?_elim hstep).2.length, List.countP_cons]
    omega

end Contexts

/-- However the contexts of a run are used, into an output without limits: once the root is
finished, every child holds the lines that were written to it and the texts that were appended to
it, in order and nothing else. The output has those of the root, and then, line by line in the order
of their bytes, the texts that any step has put off, each as often as it was put off. -/
theorem contexts_written {scope : Scope} {sink : Sink} (hroom : sink.room = none)
    (hcall : sink.perCall ≠ some 0) {steps : List ContextStep} {before after : Contexts}
    {result : Except Error Unit}
    (hsteps : (Contexts.root sink).perform scope steps = some before)
    (hfinish : before.finish 0 = some (after, result)) :
    (∀ c, 0 < c → c ≤ steps.countP ContextStep.isChild →
      ∃ context, after.all[c]? = some context ∧
        context.outlet = .buffer (ContextStep.ownTexts steps c)) ∧
    result = .ok () ∧
    ∃ deferred lines output, Contexts.PutsOff scope (.root sink) steps deferred ∧
      lines.Perm deferred ∧ (lines.map Utf8.encode).Pairwise (· ≤ ·) ∧
      after.all[0]? = some ⟨.sink output, false⟩ ∧
      output.content = sink.content ++
        Utf8.encode (ContextStep.ownTexts steps 0 ++ Outlet.linesText lines) := by
  obtain ⟨outlet, houtlet, heq⟩ := Option.map_eq_some_iff.1 hfinish
  rw [Contexts.outlet?_eq_some] at houtlet
  have hbound := (List.getElem?_eq_some_iff.1 houtlet).1
  obtain ⟨deferred, hputsOff, hdeferred⟩ := Contexts.exists_putsOff hsteps
  have hhold : Context.Hold sink (ContextStep.ownTexts steps) before.all := by
    rcases Contexts.hold_of_perform hroom hcall (Or.inl (Contexts.hold_root sink)) hsteps with
      hhold | ⟨closed, hclosed⟩
    · exact hhold
    · rw [houtlet] at hclosed
      cases hclosed
  have hroot := hhold.root
  rw [houtlet] at hroot
  cases hroot
  -- the lines that were put off are written behind what is there
  have hroom' : (sink.take (Utf8.encode (ContextStep.ownTexts steps 0))).room = none := by
    rw [Sink.take, hroom, Option.map_none]
  have hconclude : (Outlet.sink (sink.take (Utf8.encode (ContextStep.ownTexts steps 0)))).conclude
      (Outlet.linesText (Outlet.ascending deferred)) = _ :=
    Outlet.conclude_of_le hcall fun room hr => by rw [hroom'] at hr; cases hr
  rw [← Outlet.finish_eq_conclude, Sink.take_take, ← Utf8.encode_append] at hconclude
  have hledger : before.ledger.deferred = deferred := hdeferred
  simp only [Ledger.takeDeferred, hledger, hconclude, Prod.mk.injEq] at heq
  obtain ⟨rfl, rfl⟩ := heq
  refine ⟨fun c hpos hc => ?_, rfl, deferred, Outlet.ascending deferred, _, hputsOff,
    List.mergeSort_perm _ _, ?_, List.getElem?_set_self hbound, rfl⟩
  · have hlength : c < before.all.length := by
      rw [Contexts.length_of_perform hsteps]
      exact Nat.lt_one_add_iff.2 hc
    refine ⟨before.all[c], ?_, hhold.child hpos (List.getElem?_eq_getElem hlength)⟩
    rw [Contexts.drop, List.getElem?_set_ne (by omega), List.getElem?_eq_getElem hlength]
  · exact List.pairwise_map.2 ((Outlet.pairwise_ascending deferred).imp Utf8.encode_le)

/-- The root, a child and a child of that, all of which write and put something off. -/
def ContextStep.nested : List ContextStep :=
  [.child 0, .child 1, .write 1 "a", .write 0 "head", .deferText 2 "z", .deferText 0 "b",
    .once 1 "content" (.defers "c" (.ends (.ok [Declaration.base64Content]))),
    .transform 2 false (.obj [("type", .str "string")]), .write 2 "inner", .take 2, .append 1 2,
    .take 1, .append 0 1]

theorem contexts_written_nested : ∃ before after result,
    (Contexts.root {}).perform ⟨[], {}, ""⟩ ContextStep.nested = some before ∧
    before.finish 0 = some (after, result) ∧
    (∀ c, 0 < c → c ≤ 2 → ∃ context, after.all[c]? = some context ∧
      context.outlet = .buffer (ContextStep.ownTexts ContextStep.nested c)) ∧
    result = .ok () ∧
    ∃ deferred lines output, Contexts.PutsOff ⟨[], {}, ""⟩ (.root {}) ContextStep.nested deferred ∧
      lines.Perm deferred ∧ (lines.map Utf8.encode).Pairwise (· ≤ ·) ∧
      after.all[0]? = some ⟨.sink output, false⟩ ∧
      output.content = Utf8.encode ("head\na\ninner\n" ++ Outlet.linesText lines) := by
  obtain ⟨before, hbefore⟩ : ∃ before,
      (Contexts.root {}).perform ⟨[], {}, ""⟩ ContextStep.nested = some before := ⟨_, rfl⟩
  have houtlet : (before.outlet? 0).isSome := by
    cases hbefore
    rfl
  obtain ⟨outlet, houtlet⟩ := Option.isSome_iff_exists.1 houtlet
  have hfinish : ∃ closed, before.finish 0 = some closed := by
    rw [Contexts.finish, houtlet]
    exact ⟨_, rfl⟩
  obtain ⟨⟨after, result⟩, hfinish⟩ := hfinish
  exact ⟨before, after, result, hbefore, hfinish,
    contexts_written rfl (by decide) hbefore hfinish⟩

end SchemaClient
