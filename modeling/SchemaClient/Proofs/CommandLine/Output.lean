/-
SchemaClient.Proofs.CommandLine.Output — what becomes of the output file of a run that ends early.

Before its sections run, a generation into a file reads the configuration, finds the workspace, makes
directories, creates the file and lists the resource types, in this order, and each of these can be
the end of it. To create the file empties it, and nothing else that happens until then changes it. So
the file survives every one of these ends but the last.

* `CommandLine.opening`, `CommandLine.filling` — the two parts of a generation into a file.
* `CommandLine.Stage`, `CommandLine.Reaches` — how far a generation gets.
* `CommandLine.Reaches.generation_fails` — what one that ends early leaves in the file.
* `CommandLine.run_output_kept_iff` — which of them keep what was there.
-/
import SchemaClient.CommandLine.Run
import SchemaClient.Proofs.Files.Content
import SchemaClient.Proofs.Generation.Outcome
import SchemaClient.Proofs.Http.Retry

namespace SchemaClient

variable {σ α β γ : Type} {content : σ → γ}

/-! ## Requests -/

/-- Requests and the waiting between them leave an observation as it was. -/
structure Transport.Leaves (transport : Transport (StateM σ)) (content : σ → γ) : Prop where
  send : ∀ request, SchemaClient.Leaves content (transport.send request)
  wait : ∀ time, SchemaClient.Leaves content (transport.wait time)

namespace Leaves

theorem withRetry {policy : RetryPolicy} {wait : Nat → StateM σ Unit}
    {operation : StateM σ (Except Error α)} (hwait : ∀ time, Leaves content (wait time))
    (hoperation : Leaves content operation) : Leaves content (withRetry policy wait operation) := by
  intro start
  obtain ⟨state, hstate, heq⟩ := exists_withRetry_eq_of_preserved policy
    (fun state => content state = content start) (fun state h => (hoperation state).trans h)
    (fun time state h => (hwait time state).trans h) rfl
  rw [heq, hoperation, hstate]

theorem resourceTypes {transport : Transport (StateM σ)} (h : transport.Leaves content)
    (client : Client) : Leaves content (client.source transport).resourceTypes := by
  refine (withRetry h.wait ?_).bind fun _ => .pure _
  unfold Request.perform
  dsimp only
  split
  · exact .pure _
  · exact (h.send _).bind fun _ => .pure _

end Leaves

/-! ## Reading -/

theorem Config.leaves_load {files : FileReader (StateM σ)} (h : files.Leaves content)
    (directory : String) : Leaves content (Config.load files directory) := by
  have hsearch : ∀ directories, Leaves content (search files directories) := by
    intro directories
    induction directories with
    | nil => exact .pure _
    | cons directory rest ih =>
      refine (Leaves.filterM h.isFile _).bind fun found => ?_
      match found with
      | [] =>
        refine (Leaves.anyM h.isThere _).bind fun isProject => ?_
        cases isProject with
        | true => exact .pure _
        | false => exact ih
      | [file] => exact .pure _
      | _ :: _ :: _ => exact .pure _
  refine (hsearch _).bind fun found => ?_
  match found with
  | .error error => exact .pure _
  | .ok none => exact .pure _
  | .ok (some file) =>
    refine (h.readText file).bind fun text => ?_
    cases text <;> exact .pure _

theorem WorkspaceStore.leaves_active? {files : FileReader (StateM σ)} (h : files.Leaves content)
    (directory : String) : Leaves content (active? files directory) := by
  refine (h.readText? _).bind fun text => ?_
  cases text <;> exact .pure _

theorem WorkspaceStore.leaves_find {files : FileReader (StateM σ)} (h : files.Leaves content)
    (directory : String) (name : Option String) : Leaves content (find files directory name) := by
  have hall : Leaves content (all files directory) := by
    refine (h.readText? _).bind fun text => ?_
    match text with
    | .error _ => exact .pure _
    | .ok none => exact .pure _
    | .ok (some _) => exact .pure _
  cases name with
  | some name => exact hall.bind fun found => .pure (found.bind (select name))
  | none =>
    refine (leaves_active? h directory).bind fun wanted => ?_
    match wanted with
    | .error _ => exact .pure _
    | .ok none => exact .pure _
    | .ok (some _) => exact hall.bind fun _ => .pure _

namespace CommandLine

/-! ## Sessions -/

section

variable {first : Session (StateM σ) α} {next : α → Session (StateM σ) β} {console : Console}
  {state : σ}

/-- One session and then another. -/
theorem Session.bind_apply :
    (first >>= next) console state =
      match first console state with
      | ((.ok a, console), state) => next a console state
      | ((.error causes, console), state) => ((.error causes, console), state) := by
  change (ExceptT.bind first next) console state = _
  simp only [ExceptT.bind, ExceptT.mk, bind, StateT.bind]
  rcases first console state with ⟨⟨_ | a, console⟩, state⟩ <;> rfl

theorem Session.lift_apply (act : StateM σ α) :
    (liftM act : Session (StateM σ) α) console state =
      ((.ok (act state).1, console), (act state).2) := rfl

/-- Two sessions come to a good end if both of them do. -/
theorem Session.exists_of_bind_ok {b : β} {console' : Console} {after : σ}
    (h : (first >>= next) console state = ((.ok b, console'), after)) :
    ∃ a console₁ state₁, first console state = ((.ok a, console₁), state₁) ∧
      next a console₁ state₁ = ((.ok b, console'), after) := by
  rw [bind_apply] at h
  rcases hfirst : first console state with ⟨⟨_ | a, console₁⟩, state₁⟩ <;> rw [hfirst] at h
  · cases h
  · exact ⟨a, console₁, state₁, rfl, h⟩

/-- If two sessions fail, the first one does, or the second after it. -/
theorem Session.of_bind_error {causes : List String} {console' : Console} {after : σ}
    (h : (first >>= next) console state = ((.error causes, console'), after)) :
    first console state = ((.error causes, console'), after) ∨
    ∃ a console₁ state₁, first console state = ((.ok a, console₁), state₁) ∧
      next a console₁ state₁ = ((.error causes, console'), after) := by
  rw [bind_apply] at h
  rcases hfirst : first console state with ⟨⟨_ | a, console₁⟩, state₁⟩ <;> rw [hfirst] at h
  · cases h
    exact Or.inl rfl
  · exact Or.inr ⟨a, console₁, state₁, rfl, h⟩

/-- Something that may fail, in a session. -/
theorem attempt_apply (act : StateM σ (Except Error α)) (context : List String) :
    attempt act context console state =
      (((act state).1.mapError fun error => context ++ chain error, console), (act state).2) := by
  rw [attempt, Session.bind_apply, Session.lift_apply]
  cases (act state).1 <;> rfl

theorem attemptIo_apply (act : StateM σ (Except IoFault α)) (context : List String) :
    attemptIo act context console state =
      (((act state).1.mapError fun fault => context ++ [fault.message], console), (act state).2) := by
  rw [attemptIo, Session.bind_apply, Session.lift_apply]
  cases (act state).1 <;> rfl

theorem eq_of_attemptIo_ok {act : StateM σ (Except IoFault α)} {context : List String} {a : α}
    {console' : Console} {after : σ}
    (h : attemptIo act context console state = ((.ok a, console'), after)) :
    act state = (.ok a, after) := by
  rw [attemptIo_apply] at h
  rcases hact : act state with ⟨_ | a, after⟩ <;> rw [hact] at h <;> cases h
  rfl

theorem exists_of_attemptIo_error {act : StateM σ (Except IoFault α)} {context causes : List String}
    {console' : Console} {after : σ}
    (h : attemptIo act context console state = ((.error causes, console'), after)) :
    ∃ fault, act state = (.error fault, after) := by
  rw [attemptIo_apply] at h
  rcases hact : act state with ⟨fault | a, after⟩ <;> rw [hact] at h <;> cases h
  exact ⟨fault, rfl⟩

end

/-- Whatever was said so far, a session leaves an observation as it was. -/
def Session.Leaves (content : σ → γ) (session : Session (StateM σ) α) : Prop :=
  ∀ console state, content (session console state).2 = content state

namespace Session.Leaves

variable {first : Session (StateM σ) α} {next : α → Session (StateM σ) β}

theorem pure (a : α) : Leaves content (pure a : Session (StateM σ) α) := fun _ _ => rfl

theorem note (text : String) : Leaves content (note text : Session (StateM σ) Unit) :=
  fun _ _ => rfl

theorem bind (hfirst : Leaves content first) (hnext : ∀ a, Leaves content (next a)) :
    Leaves content (first >>= next) := by
  intro console state
  have h := hfirst console state
  rw [Session.bind_apply]
  rcases hresult : first console state with ⟨⟨_ | a, console'⟩, state'⟩
  · rw [hresult] at h
    exact h
  · rw [hresult] at h
    exact (hnext a console' state').trans h

theorem attempt {act : StateM σ (Except Error α)} (hact : SchemaClient.Leaves content act)
    (context : List String) : Leaves content (attempt act context) := by
  intro console state
  rw [attempt_apply]
  exact hact state

end Session.Leaves

/-! ## Opening the output -/

section

variable (files : FileStore (StateM σ)) (transport : Transport (StateM σ)) (inv : Invocation)
  (options : Options) (output : String)

/-- Where the output of a generation is. -/
def outputPath : String := tidied (Path.join inv.directory output)

/-- The directory that the output is in. -/
def outputDirectory : String := (Path.parent? (outputPath inv output)).getD inv.directory

/-- What the user learns first if the output cannot be written. -/
def outputContext : List String := ["failed to create " ++ outputPath inv output]

/-- What a generation into a file does first: it reads the configuration and finds the workspace. -/
def preparation : Session (StateM σ) (Config × Client) := do
  let config ← attempt (Config.load files.toFileReader inv.directory)
  noteDisabled config
  let workspace ← chooseWorkspace files.toFileReader inv options false
  let client ← attempt (pure
    (Client.connect workspace.remote workspace.workspaceId workspace.token))
  return (config, { client with retry := config.fetchRetry, concurrency := config.concurrency })

/-- Then it makes the directories and creates the file. -/
def opening : Session (StateM σ) (Config × Client) := do
  let prepared ← preparation files inv options
  attemptIo (files.makeDirectories (outputDirectory inv output))
  attemptIo (files.write (outputPath inv output) []) (outputContext inv output)
  return prepared

/-- At last it lists the resource types, runs the sections and writes to the file. -/
def filling (config : Config) (client : Client) : Session (StateM σ) Unit := do
  let generation ← (generate (client.source transport) config (outputDirectory inv output)
    (.sink {}) : StateM σ Generation)
  attemptIo (files.write (outputPath inv output) (written generation)) (outputContext inv output)
  for (kind, phase) in generation.announced do note (phaseNote kind phase)
  conclude (← attempt (pure generation.result))
  note ("✓ wrote " ++ output)

variable {files transport inv options output}

theorem generation_eq (houtput : options.output = some output) (hfile : output ≠ "-") :
    generation files transport inv options =
      opening files inv options output >>= fun opened =>
        filling files transport inv output opened.1 opened.2 := by
  have hquiet : (output == "-") = false := by simpa using hfile
  simp only [generation, opening, preparation, filling, generateToFile, houtput, hquiet, bind_assoc,
    pure_bind]
  rfl

variable {content : σ → γ}

theorem leaves_chooseWorkspace (h : files.toFileReader.Leaves content) (quiet : Bool) :
    Session.Leaves content (chooseWorkspace files.toFileReader inv options quiet) := by
  unfold chooseWorkspace
  cases options.remote with
  | some remote =>
    simp only
    cases explicitWorkspace options remote <;> exact fun _ _ => rfl
  | none =>
    have hfind := Session.Leaves.attempt
      (WorkspaceStore.leaves_find h (storeDirectory inv) options.workspace)
      ["looked in " ++ storeDirectory inv]
    simp only
    split
    · refine (Session.Leaves.attempt (WorkspaceStore.leaves_active? h _) _).bind fun active => ?_
      cases active with
      | none => exact hfind
      | some active => exact (Session.Leaves.note _).bind fun _ => hfind
    · exact hfind

theorem leaves_preparation (h : files.toFileReader.Leaves content) :
    Session.Leaves content (preparation files inv options) := by
  refine (Session.Leaves.attempt (Config.leaves_load h _) _).bind fun config => ?_
  refine Session.Leaves.bind (fun _ _ => ?_) fun _ => ?_
  · unfold noteDisabled
    split <;> split <;> rfl
  refine (leaves_chooseWorkspace h false).bind fun workspace => ?_
  exact (Session.Leaves.attempt (.pure _) _).bind fun client => .pure _

end

/-! ## What becomes of the file -/

section

variable {files : FileStore (StateM σ)} {transport : Transport (StateM σ)} {inv : Invocation}
  {options : Options} {output : String} {content : σ → Option Bytes} {state after : σ}
  {console console' : Console}

/-- Once the output is open, the file is empty. -/
theorem content_of_opening_ok (hfiles : files.Observes (outputPath inv output) content)
    {opened : Config × Client}
    (h : opening files inv options output console state = ((.ok opened, console'), after)) :
    content after = some [] := by
  obtain ⟨_, _, _, -, h⟩ := Session.exists_of_bind_ok h
  obtain ⟨_, _, _, -, h⟩ := Session.exists_of_bind_ok h
  obtain ⟨_, _, _, hwrite, h⟩ := Session.exists_of_bind_ok h
  cases h
  exact hfiles.emptied (eq_of_attemptIo_ok hwrite)

/-- If it cannot be opened, the file is what it was. -/
theorem content_of_opening_error (hfiles : files.Observes (outputPath inv output) content)
    {causes : List String}
    (h : opening files inv options output console state = ((.error causes, console'), after)) :
    content after = content state := by
  have hleaves : Session.Leaves content (preparation files inv options) :=
    leaves_preparation hfiles.reader
  have hprepared := hleaves console state
  rcases Session.of_bind_error h with h | ⟨_, console₁, state₁, hprepare, h⟩
  · rw [h] at hprepared
    exact hprepared
  rw [hprepare] at hprepared
  have hmade := hfiles.makeDirectories (outputDirectory inv output) state₁
  rcases Session.of_bind_error h with h | ⟨_, console₂, state₂, hmake, h⟩
  · obtain ⟨_, h⟩ := exists_of_attemptIo_error h
    rw [h] at hmade
    exact hmade.trans hprepared
  rw [eq_of_attemptIo_ok hmake] at hmade
  rcases Session.of_bind_error h with h | ⟨_, _, _, _, h⟩
  · obtain ⟨_, h⟩ := exists_of_attemptIo_error h
    exact (hfiles.refused h).trans (hmade.trans hprepared)
  · cases h

/-- Without resource types the file stays empty. -/
theorem filling_unlisted (hfiles : files.Observes (outputPath inv output) content)
    (htransport : transport.Leaves content) {config : Config} {client : Client} {error : Error}
    (htypes : ((client.source transport).resourceTypes state).1 = .error error)
    (hempty : content state = some []) :
    ∃ causes console' after,
      filling files transport inv output config client console state =
        ((.error causes, console'), after) ∧ content after = some [] := by
  have hlisted := Leaves.resourceTypes htransport client state
  rcases hanswer : (client.source transport).resourceTypes state with ⟨result, listed⟩
  rw [hanswer] at hlisted htypes
  cases htypes
  have hgenerate := generateWith_unlisted [] config (outputDirectory inv output) (.sink {}) hanswer
  have hkept : content listed = some [] := hlisted.trans hempty
  have hnothing : written ({ result := .error error, outlet := .sink {} } : Generation) = [] := rfl
  unfold filling
  rw [Session.bind_apply, Session.lift_apply, generate, hgenerate]
  dsimp only
  rw [Session.bind_apply, attemptIo_apply, hnothing]
  rcases hwrite : files.write (outputPath inv output) [] listed with ⟨fault | ⟨⟩, last⟩
  · exact ⟨_, _, _, rfl, (hfiles.refused hwrite).trans hkept⟩
  · exact ⟨_, _, _, rfl, hfiles.emptied hwrite⟩

end

/-- The stages at which a generation into a file can end before the sections run, and the stage at
which they do. -/
inductive Stage where
  /-- There is no configuration, workspace or client, or the file cannot be created. -/
  | unopened
  /-- The resource types cannot be listed. -/
  | unlisted
  | sections
  deriving DecidableEq

/-- A generation into a file gets to this stage. -/
inductive Reaches (files : FileStore (StateM σ)) (transport : Transport (StateM σ))
    (inv : Invocation) (options : Options) (output : String) (state : σ) : Stage → Prop where
  | unopened {causes : List String} {console : Console} {after : σ} :
      opening files inv options output {} state = ((.error causes, console), after) →
      Reaches files transport inv options output state .unopened
  | unlisted {opened : Config × Client} {console : Console} {after : σ} {error : Error} :
      opening files inv options output {} state = ((.ok opened, console), after) →
      ((opened.2.source transport).resourceTypes after).1 = .error error →
      Reaches files transport inv options output state .unlisted
  | sections {opened : Config × Client} {console : Console} {after : σ} {catalog : TypeCatalog} :
      opening files inv options output {} state = ((.ok opened, console), after) →
      ((opened.2.source transport).resourceTypes after).1 = .ok catalog →
      Reaches files transport inv options output state .sections

section

variable {files : FileStore (StateM σ)} {transport : Transport (StateM σ)} {inv : Invocation}
  {options : Options} {output : String} {content : σ → Option Bytes}

theorem exists_reaches (state : σ) :
    ∃ stage, Reaches files transport inv options output state stage := by
  rcases hopened : opening files inv options output {} state with ⟨⟨causes | opened, console⟩, after⟩
  · exact ⟨_, .unopened hopened⟩
  · cases htypes : ((opened.2.source transport).resourceTypes after).1 with
    | error error => exact ⟨_, .unlisted hopened htypes⟩
    | ok catalog => exact ⟨_, .sections hopened htypes⟩

/-- A generation that ends before the sections run fails, and the file is empty if it has been
created and what it was if not. -/
theorem Reaches.generation_fails {state : σ} {stage : Stage}
    (h : Reaches files transport inv options output state stage) (hstage : stage ≠ .sections)
    (hfiles : files.Observes (outputPath inv output) content)
    (htransport : transport.Leaves content) (houtput : options.output = some output)
    (hfile : output ≠ "-") :
    ∃ causes console after,
      generation files transport inv options {} state = ((.error causes, console), after) ∧
      content after = if stage = .unlisted then some [] else content state := by
  rw [generation_eq houtput hfile]
  cases h with
  | sections => exact absurd rfl hstage
  | unopened hopened =>
    rw [Session.bind_apply, hopened]
    exact ⟨_, _, _, rfl, content_of_opening_error hfiles hopened⟩
  | unlisted hopened htypes =>
    rw [Session.bind_apply, hopened]
    exact filling_unlisted hfiles htransport htypes (content_of_opening_ok hfiles hopened)

/-- The program ends as its generation does. -/
theorem run_of_generation_error {state after : σ} {causes : List String} {console : Console}
    (hparse : parse inv.arguments = .ok (.generate options))
    (hfailed : generation files transport inv (options.completed inv.environment) {} state =
      ((.error causes, console), after)) :
    (run files transport inv state).1.exitCode = 1 ∧ (run files transport inv state).2 = after := by
  have hfailed' : (generation files transport inv (options.completed inv.environment)).run.run {}
      state = _ := hfailed
  rw [run, hparse]
  simp only [bind, StateT.bind]
  rw [hfailed']
  exact ⟨rfl, rfl⟩

/-- A generation into a file gets to one of the stages. If it is not that of the sections, the run
ends with an error; and the file is what it was exactly if the listing of the types was not reached
or the file was empty before. -/
theorem run_output_kept_iff (hfiles : files.Observes (outputPath inv output) content)
    (htransport : transport.Leaves content)
    (hparse : parse inv.arguments = .ok (.generate options))
    (houtput : options.output = some output) (hfile : output ≠ "-") (state : σ) :
    let given := options.completed inv.environment
    let ending := run files transport inv state
    (∃ stage, Reaches files transport inv given output state stage) ∧
    ∀ stage, Reaches files transport inv given output state stage → stage ≠ .sections →
      ending.1.exitCode = 1 ∧
      (content ending.2 = content state ↔ stage ≠ .unlisted ∨ content state = some []) := by
  intro given ending
  refine ⟨exists_reaches state, fun stage hreaches hstage => ?_⟩
  have hgiven : given.output = some output := houtput
  obtain ⟨causes, console, after, hfailed, hcontent⟩ :=
    hreaches.generation_fails hstage hfiles htransport hgiven hfile
  obtain ⟨hcode, hafter⟩ : ending.1.exitCode = 1 ∧ ending.2 = after :=
    run_of_generation_error hparse hfailed
  rw [hafter, hcontent]
  refine ⟨hcode, ?_⟩
  split_ifs with hunlisted
  · simp [hunlisted, eq_comm]
  · simp [hunlisted]

end

/-! ## Runs that end early -/

/-- A tree with one file. -/
def soleOutput : FileTree := ⟨[(["out.ts"], .file [111, 108, 100])]⟩

/-- A network in which every request is lost. -/
def deafTransport : Transport (StateM σ) where
  send _ := pure (.lost [])
  wait _ := pure ()
  next _ := pure 0

theorem leaves_deafTransport : deafTransport.Leaves content := ⟨fun _ _ => rfl, fun _ _ => rfl⟩

/-- A run that is not told how to get at the workspace. -/
def tokenless : Invocation where
  arguments := ["out.ts", "--remote", "http://localhost"]
  directory := "/"

theorem run_output_kept_iff_tokenless :
    let ending := run FileTree.store deafTransport tokenless soleOutput
    ending.1.exitCode = 1 ∧ ending.2.content? ["out.ts"] = soleOutput.content? ["out.ts"] := by
  let options : Options := { output := some "out.ts", remote := some "http://localhost" }
  have hplace : FileTree.placeOf (Path.components (outputPath tokenless "out.ts")) = ["out.ts"] := by
    decide +kernel
  have hfiles := FileTree.observes_store (outputPath tokenless "out.ts")
  rw [hplace] at hfiles
  have hparse : parse tokenless.arguments = .ok (.generate options) := by cbv
  have hfails : (opening FileTree.store tokenless (options.completed []) "out.ts" {}
      soleOutput).1.1.toOption.isNone := by decide +kernel
  have hreaches : Reaches FileTree.store deafTransport tokenless (options.completed []) "out.ts"
      soleOutput .unopened := by
    rcases hopened : opening FileTree.store tokenless (options.completed []) "out.ts" {}
      soleOutput with ⟨⟨causes | opened, console⟩, after⟩ <;> rw [hopened] at hfails
    · exact .unopened hopened
    · cases hfails
  obtain ⟨hcode, hkept⟩ := (run_output_kept_iff hfiles leaves_deafTransport hparse rfl (by decide)
    soleOutput).2 _ hreaches (by decide)
  exact ⟨hcode, hkept.2 (Or.inl (by decide))⟩

/-- A run whose requests are all lost. -/
def stranded : Invocation where
  arguments := ["out.ts", "--remote", "http://localhost", "--workspace-id", "w", "--token", "t"]
  directory := "/"

/-- What fails in every state fails however often it is repeated. -/
theorem exists_error_withRetry {policy : RetryPolicy} {wait : Nat → StateM σ Unit}
    {operation : StateM σ (Except Error α)}
    (h : ∀ state, ∃ error, (operation state).1 = .error error) (state : σ) :
    ∃ error, (withRetry policy wait operation state).1 = .error error := by
  obtain ⟨last, heq⟩ := exists_withRetry_eq policy wait operation state
  rw [heq]
  exact h last

theorem resourceTypes_deafTransport (client : Client) (state : σ) :
    ∃ error, ((client.source deafTransport).resourceTypes state).1 = .error error := by
  have hperform : ∀ (request : Request) (read : Bytes → Except Error (List ResourceType)) (state : σ),
      ∃ error, (request.perform deafTransport read state).1 = .error error := by
    intro request read state
    unfold Request.perform
    cases request.refusal? <;> exact ⟨_, rfl⟩
  let request : Request := ⟨client.typesEndpoint, client.token⟩
  let read := decodeAnswer (Json.Decoder.list ResourceType.decoder) client.typesEndpoint.text
  obtain ⟨error, herror⟩ : ∃ error, (withRetry client.retry deafTransport.wait
      (request.perform deafTransport read) state).1 = .error error :=
    exists_error_withRetry (hperform request read) state
  exact ⟨error, congrArg (Except.map TypeCatalog.ofList) herror⟩

/-- The listing of the types fails when the file has been emptied already. -/
theorem output_emptied :
    let ending := run FileTree.store deafTransport stranded soleOutput
    (∃ options, parse stranded.arguments = .ok (.generate options) ∧
      Reaches FileTree.store deafTransport stranded (options.completed stranded.environment) "out.ts"
        soleOutput .unlisted) ∧
    ending.1.exitCode = 1 ∧ ending.2.content? ["out.ts"] ≠ soleOutput.content? ["out.ts"] := by
  let options : Options :=
    { output := some "out.ts", remote := some "http://localhost", workspaceId := some "w",
      token := some "t" }
  have hplace : FileTree.placeOf (Path.components (outputPath stranded "out.ts")) = ["out.ts"] := by
    decide +kernel
  have hfiles := FileTree.observes_store (outputPath stranded "out.ts")
  rw [hplace] at hfiles
  have hparse : parse stranded.arguments = .ok (.generate options) := by cbv
  have hopens : (opening FileTree.store stranded (options.completed []) "out.ts" {}
      soleOutput).1.1.toOption.isSome := by decide +kernel
  have hreaches : Reaches FileTree.store deafTransport stranded (options.completed []) "out.ts"
      soleOutput .unlisted := by
    rcases hopened : opening FileTree.store stranded (options.completed []) "out.ts" {}
      soleOutput with ⟨⟨causes | opened, console⟩, after⟩ <;> rw [hopened] at hopens
    · cases hopens
    · exact .unlisted hopened (resourceTypes_deafTransport opened.2 after).choose_spec
  obtain ⟨causes, console, after, hfailed, hempty⟩ :=
    hreaches.generation_fails (by decide) hfiles leaves_deafTransport rfl (by decide)
  obtain ⟨hcode, hafter⟩ := run_of_generation_error hparse hfailed
  refine ⟨⟨options, hparse, hreaches⟩, hcode, ?_⟩
  rw [hafter, hempty]
  decide

end CommandLine

end SchemaClient
