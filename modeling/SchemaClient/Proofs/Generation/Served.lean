/-
SchemaClient.Proofs.Generation.Served — a run on a server.

If a server answers at once with what a workspace holds, a run comes out as it does in memory, where
the steps of the sections follow one another in the same way. Whether they do is not for the program to
say: the network decides which section has its listing first. Sections run side by side and share the
listing of the resources; so it is part of what holds after every step which requests have been sent
so far.

* `Source.Asked` — listings with the requests they take.
* `Board.asked` — the requests that the sections have sent so far.
* `Board.play_asks` — after every schedule the log has these and no others.
* `generate_served` — the runs on a server, compared to those in memory.
* `TableServer` — a server that answers from a table.
* `entangled_served_differs` — a run on a server that comes out otherwise than in memory.
-/
import SchemaClient.Proofs.Catalog.Locations
import SchemaClient.Proofs.Generation.Order
import SchemaClient.Proofs.Text.Utf8

namespace SchemaClient

variable {σ α β : Type} {log : σ → List Request}

theorem Asks.eq_of_gives {action : StateM σ α} {result given : α} {requests : List Request}
    (h : Asks log action result requests) (hgiven : Gives action given) : given = result := by
  obtain ⟨state, rfl⟩ := hgiven
  exact (h state).1

/-- The listings of a workspace give these answers, and each takes the requests of the section that
asks for it. -/
structure Source.Asked (source : Source (StateM σ)) (log : σ → List Request) (answers : Answers)
    (types : List Request) (requests : SectionKind → List Request) : Prop where
  types : Asks log source.resourceTypes answers.types types
  resources : Asks log (source.resources none) answers.resources (requests .resources)
  scripts : Asks log source.scripts answers.scripts (requests .scripts)
  flows : Asks log source.flows answers.flows (requests .flows)

theorem Source.Asked.steady {source : Source (StateM σ)} {answers : Answers} {types : List Request}
    {requests : SectionKind → List Request} (h : source.Asked log answers types requests) :
    source.Steady answers where
  types _ := h.types.eq_of_gives
  resources _ := h.resources.eq_of_gives
  scripts _ := h.scripts.eq_of_gives
  flows _ := h.flows.eq_of_gives

/-! ## The requests of a section -/

def Stage.isIdle : Stage → Bool
  | .idle => true
  | _ => false

section

variable (requests : SectionKind → List Request)

/-- The requests that the listing of the resources has taken, if it has been asked for. -/
def Ledger.asked (ledger : Ledger) : List Request :=
  if ledger.index.isSome then requests .resources else []

/-- The requests that a section has sent for its own listing. That of the resources is shared, and
is told by the ledger. -/
def Section.asked (s : Section) : List Request :=
  if s.kind = .resources ∨ s.stage.isIdle then [] else requests s.kind

/-- The requests that the sections have sent so far. -/
def Board.asked (board : Board) : List Request :=
  board.ledger.asked requests ++ board.sections.flatMap (Section.asked requests)

end

variable {source : Source (StateM σ)} {answers : Answers} {types : List Request}
  {requests : SectionKind → List Request} {scope : Scope}

namespace Section

theorem asked_of_resources {s : Section} (h : s.kind = .resources) : s.asked requests = [] :=
  if_pos (.inl h)

theorem asked_congr {s s' : Section} (hkind : s'.kind = s.kind)
    (hstage : s'.stage.isIdle = s.stage.isIdle) : s'.asked requests = s.asked requests := by
  rw [asked, asked, hkind, hstage]

theorem isIdle_conclude (s : Section) (result : Except Error Unit) :
    (s.conclude result).stage.isIdle = false := by
  cases result <;> rfl

theorem isIdle_proceed (s : Section) (result : Except Error α) {next : α → Stage}
    (hnext : ∀ a, (next a).isIdle = false) : (s.proceed result next).stage.isIdle = false := by
  cases result with
  | ok a => exact hnext a
  | error error => exact isIdle_conclude s _

/-- A section that has got its listing has sent what that takes. -/
theorem asked_list {s : Section} (hkind : s.kind ≠ .resources) (listing : Listing Artifact) :
    (s.list listing).asked requests = requests s.kind := by
  have hidle : (s.list listing).stage.isIdle = false := isIdle_proceed s _ fun _ => rfl
  have hsame : (s.list listing).kind = s.kind := kind_proceed ..
  rw [asked, hsame, hidle, if_neg (by simpa using hkind)]

/-- The resources are listed once, by whoever needs them first. -/
theorem instances_asks (hasked : source.Asked log answers types requests) {index : InstanceIndex}
    (hindex : answers.index scope = .ok index) (ledger : Ledger) (state : σ) :
    (log (scope.instances source ledger state).2 ++ ledger.asked requests).Perm
      (log state ++ (scope.instances source ledger state).1.2.asked requests) := by
  cases hledger : ledger.index with
  | some known =>
    have hrun : scope.instances source ledger state = ((.ok known, ledger), state) := by
      rw [Scope.instances, hledger]
      rfl
    rw [hrun]
  | none =>
    rcases hlist : source.resources none state with ⟨listing, next⟩
    obtain ⟨hanswer, hlog⟩ := hasked.resources state
    rw [hlist] at hanswer hlog
    obtain rfl : listing = answers.resources := hanswer
    have hrun : scope.instances source ledger state =
        ((.ok index, { ledger with index := some index }), next) := by
      rw [Answers.index] at hindex
      simp only [Scope.instances, hledger, bind, StateT.bind, hlist, hindex]
      rfl
    rw [hrun, Ledger.asked, hledger, Ledger.asked]
    simpa using hlog

/-- What is sent for a listing of its own is what the section has sent then. -/
theorem list_asks {s : Section} {listing : Listing Artifact} {ledger : Ledger} {state next : σ}
    (hkind : s.kind ≠ .resources) (hidle : s.stage.isIdle = true)
    (hlog : (log next).Perm (log state ++ requests s.kind)) :
    (log next ++ (ledger.asked requests ++ s.asked requests)).Perm
      (log state ++ (ledger.asked requests ++ (s.list listing).asked requests)) := by
  rw [asked_list hkind, asked, if_pos (.inr hidle), List.append_nil]
  refine (hlog.append_right _).trans ?_
  rw [List.append_assoc]
  exact List.perm_append_comm.append_left _

/-- A section that has its listing sends nothing more for itself. -/
theorem kept_asks {s s' : Section} {ledger after : Ledger} {state next : σ}
    (hkind : s'.kind = s.kind) (hstage : s'.stage.isIdle = s.stage.isIdle)
    (hlog : (log next ++ ledger.asked requests).Perm (log state ++ after.asked requests)) :
    (log next ++ (ledger.asked requests ++ s.asked requests)).Perm
      (log state ++ (after.asked requests ++ s'.asked requests)) := by
  rw [asked_congr hkind hstage, ← List.append_assoc, ← List.append_assoc]
  exact hlog.append_right _

/-- A step of a section sends what its listing takes, if it is the step that asks for it. -/
theorem step_asks (hasked : source.Asked log answers types requests) {index : InstanceIndex}
    (hindex : answers.index scope = .ok index) (s : Section) (ledger : Ledger) (state : σ) :
    (log (s.step source scope ledger state).2 ++ (ledger.asked requests ++ s.asked requests)).Perm
      (log state ++ ((s.step source scope ledger state).1.2.asked requests ++
        (s.step source scope ledger state).1.1.asked requests)) := by
  have hinstances := instances_asks hasked hindex ledger state
  obtain ⟨kind, stage, outlet, announced⟩ := s
  cases stage with
  | idle =>
    cases kind with
    | resources =>
      rw [asked_of_resources rfl, asked_of_resources (kind_proceed ..), List.append_nil,
        List.append_nil]
      exact hinstances
    | scripts =>
      exact list_asks (s := announce ⟨.scripts, .idle, outlet, announced⟩ .fetching) nofun rfl
        (hasked.scripts state).2
    | flows =>
      exact list_asks (s := announce ⟨.flows, .idle, outlet, announced⟩ .fetching) nofun rfl
        (hasked.flows state).2
  | listed items =>
    cases hneeds : RunnableSection.needsInstances scope.catalog items with
    | true =>
      simp only [step, hneeds, if_true]
      exact kept_asks (kind_proceed ..) (isIdle_proceed _ _ fun _ => rfl) hinstances
    | false =>
      simp only [step, hneeds]
      exact .refl _
  | gathered material =>
    refine kept_asks (kind_proceed ..) (isIdle_proceed _ _ fun _ => rfl) ?_
    have hindex : (compose scope kind material ledger).2.index = ledger.index := index_of_compose rfl
    have hledger : (compose scope kind material ledger).2.asked requests = ledger.asked requests := by
      rw [Ledger.asked, hindex, Ledger.asked]
    exact .of_eq (congrArg (log state ++ ·) hledger.symm)
  | composed lines =>
    exact kept_asks (kind_conclude ..) (isIdle_conclude ..) (.refl _)
  | finished result => exact .refl _

end Section

/-! ## The requests of a board -/

namespace Board

variable {index : InstanceIndex}

theorem update_asks {kind : SectionKind} {act : Section → StateT Ledger (StateM σ) Section}
    (hact : ∀ s ledger state,
      (log (act s ledger state).2 ++ (ledger.asked requests ++ s.asked requests)).Perm
        (log state ++
          ((act s ledger state).1.2.asked requests ++ (act s ledger state).1.1.asked requests)))
    (sections : List Section) (ledger : Ledger) (state : σ) :
    (log (update kind act sections ledger state).2 ++
        asked requests ⟨ledger, sections⟩).Perm
      (log state ++ asked requests ⟨(update kind act sections ledger state).1.2,
        (update kind act sections ledger state).1.1⟩) := by
  induction sections generalizing ledger state with
  | nil => exact .refl _
  | cons s rest ih =>
    by_cases hs : s.kind = kind
    · rw [update_cons_self act hs]
      have hfirst := hact s ledger state
      have hrest := ih (act s ledger state).1.2 (act s ledger state).2
      simp only [asked, List.flatMap_cons, List.perm_iff_count, List.count_append] at hfirst hrest ⊢
      intro request
      specialize hfirst request
      specialize hrest request
      omega
    · rw [update_cons_of_ne act hs]
      have hrest := ih ledger state
      simp only [asked, List.flatMap_cons, List.perm_iff_count, List.count_append] at hrest ⊢
      intro request
      specialize hrest request
      omega

/-- What is sent in a step is what the sections have sent more afterwards. -/
theorem step_asks (hasked : source.Asked log answers types requests)
    (hindex : answers.index scope = .ok index) (board : Board) (kind : SectionKind) (state : σ) :
    (log (board.step source scope kind state).2 ++ board.asked requests).Perm
      (log state ++ (board.step source scope kind state).1.asked requests) :=
  update_asks (Section.step_asks hasked hindex) board.sections board.ledger state

/-- What is sent on the way is what the sections have sent more in the end. -/
theorem play_asks (hasked : source.Asked log answers types requests)
    (hindex : answers.index scope = .ok index) (schedule : List SectionKind) (board : Board)
    (state : σ) :
    (log (board.play source scope schedule state).2 ++ board.asked requests).Perm
      (log state ++ (board.play source scope schedule state).1.asked requests) := by
  induction schedule generalizing board state with
  | nil => exact .refl _
  | cons kind rest ih =>
    rw [play_cons]
    have hfirst := step_asks hasked hindex board kind state
    have hrest := ih (board.step source scope kind state).1 (board.step source scope kind state).2
    rw [List.perm_iff_count] at hfirst hrest ⊢
    intro request
    have hfirst := hfirst request
    have hrest := hrest request
    simp only [List.count_append] at hfirst hrest ⊢
    omega

theorem asked_start (config : Config) : (start config).asked requests = [] := by
  have hsections : (start config).sections.flatMap (Section.asked requests) = [] := by
    refine List.flatMap_eq_nil_iff.2 fun s hs => ?_
    obtain ⟨kind, -, rfl⟩ := List.mem_map.1 hs
    exact if_pos (.inr rfl)
  rw [asked, hsections]
  rfl

/-- What the sections have sent that are finished. -/
theorem asked_of_finished {board : Board} (hfinished : board.Finished) :
    board.sections.flatMap (Section.asked requests) =
      board.kinds.flatMap fun kind => if kind = .resources then [] else requests kind := by
  rw [kinds, List.flatMap_map]
  refine List.flatMap_congr fun s hs => ?_
  obtain ⟨result, hstage⟩ := hfinished s hs
  simp [Section.asked, hstage, Stage.isIdle]

/-- In the end the resources have been listed, and so has everything else that is enabled. -/
theorem asked_finalBoard (hasked : source.Asked log answers types requests)
    (hindex : answers.index scope = .ok index) (schedule : List SectionKind) (state : σ) :
    (finalBoard schedule source scope state).asked requests =
      (enabledKinds scope.config).flatMap requests := by
  obtain ⟨compositions, hsound, hfinished, -⟩ := finalBoard_sound schedule source scope state
  have hkinds := kinds_finalBoard schedule source scope state
  have hinitial := hsound.initial_eq hasked.steady hfinished hkinds
  rw [Answers.initial, hindex] at hinitial
  have hknown : (finalBoard schedule source scope state).ledger.index = some index :=
    (congrArg Ledger.index hinitial).symm
  rw [asked, asked_of_finished hfinished, hkinds, Ledger.asked, hknown]
  simp only [enabledKinds, SectionKind.order, List.filter_cons, List.filter_nil]
  cases isEnabled scope.config .scripts <;> cases isEnabled scope.config .flows <;>
    simp [isEnabled]

end Board

/-! ## Runs -/

variable {config : Config} {outputRoot : String} {schedule : List SectionKind} {outlet : Outlet}

/-- A run whose preamble can be written is over once its sections have taken their steps. -/
theorem state_generateWith {catalog : TypeCatalog} {state next : σ}
    (htypes : source.resourceTypes state = (.ok catalog, next))
    (hopened : (outlet.writeLine (Preamble.text config outputRoot)).2 = .ok ()) :
    (generateWith schedule source config outputRoot outlet state).2 =
      (Board.play source ⟨catalog, config, outputRoot⟩ (schedule ++ Board.sequential)
        (Board.start config) next).2 := by
  rcases hwrite : outlet.writeLine (Preamble.text config outputRoot) with ⟨opened, result⟩
  rw [hwrite] at hopened
  obtain rfl : result = .ok () := hopened
  rcases hplay : Board.play source ⟨catalog, config, outputRoot⟩ (schedule ++ Board.sequential)
    (Board.start config) next with ⟨board, last⟩
  simp only [generateWith, bind, StateT.bind, htypes, hwrite, hplay]
  rcases board.assemble opened SectionKind.order with ⟨assembled, _ | _⟩ <;> rfl

/-- The requests of a run: those for the resource types, and those that the enabled sections take. -/
theorem generateWith_asks (hasked : source.Asked log answers types requests) {catalog : TypeCatalog}
    (htypes : answers.types = .ok catalog) {index : InstanceIndex}
    (hindex : answers.index ⟨catalog, config, outputRoot⟩ = .ok index)
    (hopened : (outlet.writeLine (Preamble.text config outputRoot)).2 = .ok ()) (state : σ) :
    (log (generateWith schedule source config outputRoot outlet state).2).Perm
      (log state ++ (types ++ (enabledKinds config).flatMap requests)) := by
  rcases hrun : source.resourceTypes state with ⟨answer, next⟩
  obtain ⟨hanswer, hlog⟩ := hasked.types state
  rw [hrun] at hanswer hlog
  obtain rfl : answer = .ok catalog := hanswer.trans htypes
  have hplay := Board.play_asks hasked hindex (schedule ++ Board.sequential) (Board.start config) next
  have hfinal := Board.asked_finalBoard hasked hindex schedule next
  rw [Board.asked_start, List.append_nil] at hplay
  rw [state_generateWith hrun hopened, ← List.append_assoc]
  exact hplay.trans ((List.Perm.of_eq (congrArg _ hfinal)).trans (hlog.append_right _))

/-! ## Runs on a server -/

namespace Holdings

variable {holdings : Holdings} {client : Client} {transport : Transport (StateM σ)}

/-- The scope of a run on the workspace. -/
def runScope (holdings : Holdings) (config : Config) (outputRoot : String) : Scope :=
  ⟨.ofList holdings.types, config, outputRoot⟩

/-- The requests of a run: for the resource types, and what the enabled sections take. -/
def runRequests (holdings : Holdings) (client : Client) (config : Config) : List Request :=
  client.request client.typesEndpoint :: (enabledKinds config).flatMap (holdings.requests client)

theorem Served.asked (h : holdings.Served client transport log) :
    (client.source transport).Asked log holdings.memory.answers
      [client.request client.typesEndpoint] (holdings.requests client) where
  types := h.asks_resourceTypes
  resources := h.asks_resources
  scripts := h.asks_scripts
  flows := h.asks_flows

end Holdings

namespace Holdings.Served

variable {holdings : Holdings} {client : Client} {transport : Transport (StateM σ)}

/-- A run on the server comes out as every run in memory does whose sections are composed in the same
order, in particular as that by the same schedule. -/
theorem agree (h : holdings.Served client transport log) {schedule schedule' : List SectionKind}
    (hsame : orderOf config schedule' = orderOf config schedule) (outlet : Outlet) (state : σ) :
    (generateWith schedule (client.source transport) config outputRoot outlet state).1.Agree
      (generateWith schedule' (holdings.memory.source : Source (StateM Unit)) config outputRoot
        outlet ()).1 := by
  obtain ⟨hresult, houtlet⟩ :=
    generateWith_orderOf h.asked.steady rfl config outputRoot schedule outlet state
  obtain ⟨hresult', houtlet'⟩ :=
    generateWith_orderOf holdings.memory.steady rfl config outputRoot schedule' outlet ()
  rw [hsame] at hresult' houtlet'
  exact ⟨hresult.trans hresult'.symm, houtlet.trans houtlet'.symm⟩

/-- What the server answers is what the workspace in memory answers, so that it is the order of the
sections alone that runs can differ in. -/
theorem runsAgree_iff (h : holdings.Served client transport log) (config : Config)
    (outputRoot : String) (state : σ) :
    RunsAgree (client.source transport) (holdings.memory.source : Source (StateM Unit)) config
        outputRoot state () ↔
      ∀ order : List SectionKind, order.Perm (enabledKinds config) →
        holdings.memory.answers.serial (holdings.runScope config outputRoot) order =
          holdings.memory.answers.serial (holdings.runScope config outputRoot)
            (enabledKinds config) := by
  refine ⟨fun hagree order hperm => ?_, fun hserial => ?_⟩
  · exact serial_of_runsAgree h.asked.steady holdings.memory.steady hagree rfl hperm
  · refine runsAgree_of_serial h.asked.steady holdings.memory.steady ?_ state ()
    rintro catalog ⟨rfl⟩
    exact hserial

end Holdings.Served

/-- A server answers at once with what a workspace holds. Then all runs on it come out as all runs in
memory do exactly when composing the sections one after the other gives the same report and text in
every order; that is so if no section that fails leaves demands declared that cannot be met. In any
case a run on it comes out as every run in memory whose sections are composed in the same order. And
if the preamble can be written, what is sent is one request for the resource types and one for each
page and each detail of the enabled sections, no two of them to the same URL. -/
theorem generate_served {holdings : Holdings} {client : Client} {transport : Transport (StateM σ)}
    (h : holdings.Served client transport log) (config : Config) (outputRoot : String) (state : σ) :
    (RunsAgree (client.source transport) (holdings.memory.source : Source (StateM Unit)) config
        outputRoot state () ↔
      ∀ order : List SectionKind, order.Perm (enabledKinds config) →
        holdings.memory.answers.serial (holdings.runScope config outputRoot) order =
          holdings.memory.answers.serial (holdings.runScope config outputRoot)
            (enabledKinds config)) ∧
    ((∀ kind ∈ enabledKinds config, ∀ error,
        (holdings.memory.answers.turn (holdings.runScope config outputRoot) kind
          (holdings.memory.answers.initial (holdings.runScope config outputRoot))).1 = .error error →
        holdings.memory.answers.SelfContained (holdings.runScope config outputRoot) kind) →
      RunsAgree (client.source transport) (holdings.memory.source : Source (StateM Unit)) config
        outputRoot state ()) ∧
    (∀ schedule schedule' outlet, orderOf config schedule' = orderOf config schedule →
      (generateWith schedule (client.source transport) config outputRoot outlet state).1.Agree
        (generateWith schedule' (holdings.memory.source : Source (StateM Unit)) config outputRoot
          outlet ()).1) ∧
    (∀ schedule outlet, (outlet.writeLine (Preamble.text config outputRoot)).2 = .ok () →
      (log (generateWith schedule (client.source transport) config outputRoot outlet state).2).Perm
        (log state ++ holdings.runRequests client config)) ∧
    ((holdings.runRequests client config).map (·.url.text)).Nodup := by
  have hiff := h.runsAgree_iff config outputRoot state
  refine ⟨hiff, fun hself => hiff.mpr fun order hperm => ?_, fun _ _ outlet hsame => ?_,
    fun schedule outlet hopened => ?_, ?_⟩
  · exact Answers.serial_eq_of_failures hperm hself
  · exact h.agree hsame outlet state
  · exact generateWith_asks h.asked rfl rfl hopened state
  · exact Holdings.nodup_requests h.scriptsDistinct h.flowsDistinct (List.Nodup.filter _ (by decide))

/-! ## Servers that answer from a table -/

namespace TableServer

/-- What has been sent, one request after the other. -/
abbrev Sent := List Request

/-- The body of an answer: what the table has for the URL, or an empty list. -/
def body (bodies : List (Endpoint × String)) (url : Endpoint) : Bytes :=
  Utf8.encode ((bodies.lookup url).getD "[]")

/-- The network before a server that answers from a table. -/
def transport (bodies : List (Endpoint × String)) : Transport (StateM Sent) where
  send request := fun sent => (.answer 200 (body bodies request.url), sent ++ [request])
  wait _ := pure ()
  next _ := pure 0

section

variable {bodies : List (Endpoint × String)} {client : Client} {decoder : Json.Decoder α}
  {url : Endpoint} {value : α}

theorem answers_of_body (hsendable : (client.request url).refusal? = none)
    (hread : decoder.read (body bodies url) = .ok value) :
    (transport bodies).Answers id decoder (client.request url) value where
  sendable := hsendable
  answer _ := ⟨_, rfl, hread⟩
  logged _ := rfl

/-- A request is answered with what its text in the table is read as. -/
theorem answers_of_some {text : String} (hlookup : bodies.lookup url = some text)
    (hsendable : (client.request url).refusal? = none)
    (hread : decoder.read (text.toList.flatMap String.utf8EncodeChar) = .ok value) :
    (transport bodies).Answers id decoder (client.request url) value := by
  refine answers_of_body hsendable ?_
  rw [body, hlookup, Option.getD_some, Utf8.encode_eq, hread]

/-- A request for what is not in the table is answered with an empty list. -/
theorem answers_of_none {item : Json.Decoder β} (hlookup : bodies.lookup url = none)
    (hsendable : (client.request url).refusal? = none) :
    (transport bodies).Answers id (.list item) (client.request url) [] := by
  refine answers_of_body hsendable ?_
  rw [body, hlookup]
  with_unfolding_all rfl

end

end TableServer

/-- A client of the servers below. -/
def localClient : Client where
  origin := ⟨"http", .domain "localhost".toList, none⟩
  workspace := "w"
  token := "t"

theorem localClient_sendable {url : Endpoint} (h : url.origin = localClient.origin) :
    (localClient.request url).refusal? = none := by
  have horigin : (localClient.request url).url.origin = localClient.origin := h
  have htoken : (localClient.request url).authorization = "Bearer t" := rfl
  rw [Request.refusal?, horigin, htoken]
  rw [if_neg (by decide +kernel), if_neg (by decide +kernel), if_neg (by decide +kernel)]

/-! ## A server with a small workspace -/

/-- A workspace with a resource, a script, an archived script and a flow. -/
def stocked : Holdings where
  resources := [[⟨"f/r", "db"⟩]]
  scripts := [⟨{ path := "f/s" }, false⟩, ⟨{ path := "f/old" }, true⟩]
  flows := [[{ path := "f/f" }]]

def stockedBodies : List (Endpoint × String) :=
  [(localClient.resourcesEndpoint none 1, r#"[{"path":"f/r","resource_type":"db"}]"#),
    (localClient.scriptPathsEndpoint, r#"["f/s","f/old"]"#),
    (localClient.scriptEndpoint "f/s", r#"{"path":"f/s"}"#),
    (localClient.scriptEndpoint "f/old", r#"{"path":"f/old","archived":true}"#),
    (localClient.flowsEndpoint 1, r#"[{"path":"f/f"}]"#),
    (localClient.flowEndpoint "f/f", r#"{"path":"f/f"}"#)]

theorem stocked_served : stocked.Served localClient (TableServer.transport stockedBodies) id where
  quiet _ _ := rfl
  types := TableServer.answers_of_none rfl (localClient_sendable rfl)
  resources
    | 0, _, rfl => TableServer.answers_of_some rfl (localClient_sendable rfl) (by decide +kernel)
    | 1, _, rfl => TableServer.answers_of_none rfl (localClient_sendable rfl)
  resourcesPaged := ⟨by decide, by decide⟩
  scriptPaths := TableServer.answers_of_some rfl (localClient_sendable rfl) (by decide +kernel)
  scripts := by
    intro script hscript
    rcases List.mem_cons.1 hscript with rfl | hscript
    · exact TableServer.answers_of_some rfl (localClient_sendable rfl) (by decide +kernel)
    · obtain rfl := List.mem_singleton.1 hscript
      exact TableServer.answers_of_some rfl (localClient_sendable rfl) (by decide +kernel)
  scriptsDistinct := by decide +kernel
  flowListings
    | 0, _, rfl => TableServer.answers_of_some rfl (localClient_sendable rfl) (by decide +kernel)
    | 1, _, rfl => TableServer.answers_of_none rfl (localClient_sendable rfl)
  flowsPaged := ⟨by simp [stocked], by decide⟩
  flows := by
    intro flow hflow
    obtain rfl := List.mem_singleton.1 hflow
    exact TableServer.answers_of_some rfl (localClient_sendable rfl) (by decide +kernel)
  flowsDistinct := by decide +kernel

/-- No section of this workspace fails. All runs on its server come out as all runs in memory do, and
each sends nine requests. -/
theorem generate_served_stocked :
    stocked.Served localClient (TableServer.transport stockedBodies) id ∧
    RunsAgree (localClient.source (TableServer.transport stockedBodies))
      (stocked.memory.source : Source (StateM Unit)) {} "" [] () ∧
    (∀ schedule,
      (generateWith schedule (localClient.source (TableServer.transport stockedBodies)) {} ""
        (.buffer "") []).2.Perm (stocked.runRequests localClient {})) ∧
    (stocked.runRequests localClient {}).length = 9 := by
  obtain ⟨-, hself, -, hsent, -⟩ := generate_served stocked_served {} "" []
  refine ⟨stocked_served, hself fun kind _ error herror => ?_,
    fun schedule => hsent schedule (.buffer "") rfl, by decide⟩
  have hok : (stocked.memory.answers.turn (stocked.runScope {} "") kind
      (stocked.memory.answers.initial (stocked.runScope {} ""))).1.isOk = true := by
    cases kind <;> decide +kernel
  rw [herror] at hok
  cases hok

/-! ## A server on which the sections meet otherwise -/

/-- The workspace `entangled`, on a server. -/
def entangledHoldings : Holdings where
  types := entangled.types
  scripts := entangled.scripts.map fun script => ⟨script, false⟩
  flows := [entangled.flows]

def entangledBodies : List (Endpoint × String) :=
  [(localClient.typesEndpoint, r#"[{"name":"a","schema":{"type":"object","properties":
  {"b":{"type":"object","format":"resource-b"},"n":{"type":3}}}},
  {"name":"b","schema":{"type":"object","properties":{"a":{"type":"object","format":"resource-a"}}}}]"#),
    (localClient.scriptPathsEndpoint, r#"["f/s"]"#),
    (localClient.scriptEndpoint "f/s", r#"{"path":"f/s","schema":
  {"type":"object","properties":{"arg":{"type":"object","format":"resource-b"}}}}"#),
    (localClient.flowsEndpoint 1, r#"[{"path":"f/f"}]"#),
    (localClient.flowEndpoint "f/f", r#"{"path":"f/f","schema":
  {"type":"object","properties":{"arg":{"type":"object","format":"resource-a"}}}}"#)]

theorem entangled_served :
    entangledHoldings.Served localClient (TableServer.transport entangledBodies) id where
  quiet _ _ := rfl
  types := TableServer.answers_of_some rfl (localClient_sendable rfl) (by decide +kernel)
  resources
    | 0, _, rfl => TableServer.answers_of_none rfl (localClient_sendable rfl)
  resourcesPaged := ⟨by decide, by decide⟩
  scriptPaths := TableServer.answers_of_some rfl (localClient_sendable rfl) (by decide +kernel)
  scripts := by
    intro script hscript
    obtain rfl := List.mem_singleton.1 hscript
    exact TableServer.answers_of_some rfl (localClient_sendable rfl) (by decide +kernel)
  scriptsDistinct := by decide +kernel
  flowListings
    | 0, _, rfl => TableServer.answers_of_some rfl (localClient_sendable rfl) (by decide +kernel)
    | 1, _, rfl => TableServer.answers_of_none rfl (localClient_sendable rfl)
  flowsPaged := ⟨by simp [entangledHoldings, entangled], by decide⟩
  flows := by
    intro flow hflow
    obtain rfl := List.mem_singleton.1 hflow
    exact TableServer.answers_of_some rfl (localClient_sendable rfl) (by decide +kernel)
  flowsDistinct := by decide +kernel

/-- In memory the scripts go first and fail. On a server that is slow to answer for the scripts the
flows go first, and the scripts do not fail. -/
theorem entangled_served_differs :
    entangledHoldings.Served localClient (TableServer.transport entangledBodies) id ∧
    (∃ report error, (SectionKind.scripts, Outcome.failed error) ∈ report ∧
      (generateWith [] (entangledHoldings.memory.source : Source (StateM Unit)) {} "" (.buffer "")
        ()).1.result = .ok report) ∧
    ∃ report, (SectionKind.scripts, Outcome.generated) ∈ report ∧
      (generateWith (List.replicate 4 .flows)
        (localClient.source (TableServer.transport entangledBodies)) {} "" (.buffer "")
          []).1.result = .ok report := by
  have hmemory : entangledHoldings.memory = entangled := rfl
  obtain ⟨report, hscripts, hresult⟩ := scripts_generated_entangled
  have hagree : (generateWith (List.replicate 4 .flows)
      (localClient.source (TableServer.transport entangledBodies)) {} "" (.buffer "") []).1.Agree
      (generateWith (List.replicate 4 .flows) (entangled.source : Source (StateM Unit)) {} ""
        (.buffer "") ()).1 := entangled_served.agree rfl (.buffer "") []
  exact ⟨entangled_served, hmemory ▸ scripts_fail_entangled, report, hscripts,
    hagree.1.trans hresult⟩

end SchemaClient
