/-
SchemaClient.Proofs.Config.Discovery — which configuration belongs to a directory.

On the way up from a directory, the first one that has a configuration file or is marked as that of a
project decides, and what it has is the answer. Those beyond it are never looked at: the search asks
only for paths in the directories up to the one that decides.

* `Config.IsDecisive`, `Config.Decides` — a directory that decides, and what it says.
* `Config.Found` — what a search through a chain of directories comes to, and where it looks.
* `Config.search_found` — the search through any directories, whatever looking at a path does.
* `Config.nearest_found` — the search from a directory upwards.
-/
import SchemaClient.Config.Discovery
import SchemaClient.Proofs.Path.Ancestors

namespace SchemaClient

/-! ## Looking at files -/

section

variable {m : Type → Type} [Monad m] [LawfulMonad m] {visit : String → m Unit}
  {ask : String → m Bool} {test : String → Bool}

/-- To filter by a test that visits each path is to visit all of them and then to filter. -/
theorem filterM_visit (hask : ∀ path, ask path = do visit path; return test path)
    (paths : List String) :
    paths.filterM ask = (do paths.forM visit; return paths.filter test) := by
  have haux : ∀ paths kept, List.filterAuxM ask paths kept =
      (do paths.forM visit; return (paths.filter test).reverse ++ kept) := by
    intro paths
    induction paths with
    | nil => intro kept; simp [List.filterAuxM]
    | cons path rest ih =>
      intro kept
      cases htest : test path <;> simp [List.filterAuxM, hask, ih, htest]
  simp [List.filterM, haux]

/-- To ask whether a path passes a test is to visit them up to the first one that does. -/
theorem anyM_visit (hask : ∀ path, ask path = do visit path; return test path)
    (paths : List String) :
    ∃ visited, visited ⊆ paths ∧
      paths.anyM ask = (do visited.forM visit; return paths.any test) := by
  induction paths with
  | nil => exact ⟨[], List.Subset.refl _, by simp⟩
  | cons path rest ih =>
    obtain ⟨visited, hvisited, hrest⟩ := ih
    cases htest : test path with
    | true => exact ⟨[path], by simp, by simp [List.anyM, hask, htest]⟩
    | false =>
      exact ⟨path :: visited, List.cons_subset_cons _ hvisited,
        by simp [List.anyM, hask, htest, hrest]⟩

end

/-- What a path leads to is the same whenever it is asked for; asking does no more than `visit`. -/
structure FileReader.Shows {m : Type → Type} [Monad m] (files : FileReader m)
    (visit : String → m Unit) (look : String → Option FileKind) : Prop where
  kind? : ∀ path, files.kind? path = do visit path; return look path

/-- The same files, with a record of the paths that were asked for. -/
def FileReader.watched (files : FileReader Id) : FileReader (StateM (List String)) where
  kind? path := fun asked => (files.kind? path, asked ++ [path])
  read path := fun asked => (files.read path, asked ++ [path])

/-- Visiting paths puts them on record. -/
theorem forM_record (paths asked : List String) :
    (paths.forM fun path => (modify (· ++ [path]) : StateM (List String) Unit)) asked =
      ((), asked ++ paths) := by
  induction paths generalizing asked with
  | nil => simp; rfl
  | cons path rest ih =>
    have hstep := ih (asked ++ [path])
    rw [List.append_assoc] at hstep
    exact hstep

namespace Config

variable {look : String → Option FileKind} {directory : String}

/-! ## Directories that decide -/

/-- A directory has a configuration file of a name. -/
def HasFile (look : String → Option FileKind) (directory name : String) : Prop :=
  look (Path.join directory name) = some .file

/-- A directory ends the search: it has a configuration file, or something that marks it as the
directory of a project. -/
def IsDecisive (look : String → Option FileKind) (directory : String) : Prop :=
  (∃ name ∈ fileNames, HasFile look directory name) ∨
    ∃ mark ∈ projectMarks, (look (Path.join directory mark)).isSome = true

/-- What the search says when a directory ends it. -/
structure Decides (look : String → Option FileKind) (directory : String)
    (result : Except Error (Option String)) : Prop where
  one : ∀ name ∈ fileNames, HasFile look directory name →
    (∀ other ∈ fileNames, HasFile look directory other → other = name) →
    result = .ok (some (Path.join directory name))
  both : (∀ name ∈ fileNames, HasFile look directory name) →
    result = .error (.ambiguousConfig directory
      (String.intercalate ", " (fileNames.map (Path.join directory))))
  none : (∀ name ∈ fileNames, ¬ HasFile look directory name) → result = .ok none

/-- A place where the search looks on the way through some directories. -/
def IsAskedIn (directories : List String) (path : String) : Prop :=
  ∃ directory ∈ directories, ∃ name ∈ fileNames ++ projectMarks, path = Path.join directory name

/-- What a search through a chain of directories comes to, and the paths that it asks for: those in
the directories up to the first one that decides. -/
inductive Found (look : String → Option FileKind) :
    List String → List String → Except Error (Option String) → Prop where
  | nowhere {chain asked : List String} : (∀ d ∈ chain, ¬ IsDecisive look d) →
      (∀ path ∈ asked, IsAskedIn chain path) → Found look chain asked (.ok .none)
  | nearest {passed above asked : List String} {directory : String}
      {result : Except Error (Option String)} : (∀ d ∈ passed, ¬ IsDecisive look d) →
      IsDecisive look directory → Decides look directory result →
      (∀ path ∈ asked, IsAskedIn (passed ++ [directory]) path) →
      Found look (passed ++ directory :: above) asked result

theorem IsAskedIn.cons {directories : List String} {path : String} (h : IsAskedIn directories path)
    (first : String) : IsAskedIn (first :: directories) path := by
  obtain ⟨directory, hdirectory, name, hname, rfl⟩ := h
  exact ⟨directory, List.mem_cons_of_mem _ hdirectory, name, hname, rfl⟩

/-- A directory that does not decide is passed. -/
theorem Found.cons {chain asked here : List String} {result : Except Error (Option String)}
    (h : Found look chain asked result) (hpassed : ¬ IsDecisive look directory)
    (hhere : ∀ path ∈ here, IsAskedIn [directory] path) :
    Found look (directory :: chain) (here ++ asked) result := by
  have hfirst : ∀ {more : List String}, ∀ path ∈ here, IsAskedIn (directory :: more) path := by
    intro more path hpath
    obtain ⟨found, hfound, name, hname, rfl⟩ := hhere path hpath
    exact ⟨found, by simp [List.mem_singleton.mp hfound], name, hname, rfl⟩
  cases h with
  | nowhere hnone hasked =>
    refine .nowhere (List.forall_mem_cons.mpr ⟨hpassed, hnone⟩) ?_
    exact List.forall_mem_append.mpr ⟨hfirst, fun path hpath => (hasked path hpath).cons _⟩
  | @nearest passed above asked found result hnone hdecisive hdecides hasked =>
    have hpassed' : ∀ d ∈ directory :: passed, ¬ IsDecisive look d :=
      List.forall_mem_cons.mpr ⟨hpassed, hnone⟩
    refine .nearest hpassed' hdecisive hdecides ?_
    exact List.forall_mem_append.mpr ⟨hfirst, fun path hpath => (hasked path hpath).cons _⟩

theorem Found.here {above asked : List String} {result : Except Error (Option String)}
    (hdecisive : IsDecisive look directory) (hdecides : Decides look directory result)
    (hasked : ∀ path ∈ asked, IsAskedIn [directory] path) :
    Found look (directory :: above) asked result := by
  have hpassed : ∀ d ∈ ([] : List String), ¬ IsDecisive look d := by simp
  exact .nearest hpassed hdecisive hdecides hasked

/-- If both names are there, neither is the only one. -/
theorem not_only {name : String} (hall : ∀ other ∈ fileNames, HasFile look directory other)
    (honly : ∀ other ∈ fileNames, HasFile look directory other → other = name) : False := by
  have hfirst := honly "windmill-ts.yaml" (by decide) (hall _ (by decide))
  have hsecond := honly "windmill-ts.yml" (by decide) (hall _ (by decide))
  exact absurd (hfirst.trans hsecond.symm) (by decide)

theorem decides_none (h : ∀ name ∈ fileNames, ¬ HasFile look directory name) :
    Decides look directory (.ok none) where
  one name hname hhas _ := absurd hhas (h name hname)
  both hall := absurd (hall "windmill-ts.yaml" (by decide)) (h _ (by decide))
  none _ := rfl

theorem decides_one {name : String} (hname : name ∈ fileNames) (hhas : HasFile look directory name)
    (honly : ∀ other ∈ fileNames, HasFile look directory other → other = name) :
    Decides look directory (.ok (some (Path.join directory name))) where
  one other hother hhas _ := by rw [honly other hother hhas]
  both hall := (not_only hall honly).elim
  none h := absurd hhas (h name hname)

theorem decides_both (h : ∀ name ∈ fileNames, HasFile look directory name) :
    Decides look directory (.error (.ambiguousConfig directory
      (String.intercalate ", " (fileNames.map (Path.join directory))))) where
  one _ _ _ honly := (not_only h honly).elim
  both _ := rfl
  none hnone := absurd (h "windmill-ts.yaml" (by decide)) (hnone _ (by decide))

/-! ## The search -/

/-- The configuration files in a directory. -/
def filesThere (look : String → Option FileKind) (directory : String) : List String :=
  (fileNames.map (Path.join directory)).filter fun path => look path == some .file

/-- A directory has no configuration file, or one, or both. -/
theorem filesThere_cases (look : String → Option FileKind) (directory : String) :
    (filesThere look directory = [] ∧ ∀ name ∈ fileNames, ¬ HasFile look directory name) ∨
      (∃ name ∈ fileNames, filesThere look directory = [Path.join directory name] ∧
        HasFile look directory name ∧
        ∀ other ∈ fileNames, HasFile look directory other → other = name) ∨
      (filesThere look directory = fileNames.map (Path.join directory) ∧
        ∀ name ∈ fileNames, HasFile look directory name) := by
  unfold filesThere fileNames HasFile
  by_cases hfirst : look (Path.join directory "windmill-ts.yaml") = some .file <;>
    by_cases hsecond : look (Path.join directory "windmill-ts.yml") = some .file <;>
    simp [hfirst, hsecond]

/-- A directory that decides leaves no choice. -/
theorem Decides.unique {result other : Except Error (Option String)}
    (h : Decides look directory result) (hother : Decides look directory other) :
    result = other := by
  rcases filesThere_cases look directory with ⟨-, hnone⟩ | ⟨name, hname, -, hhas, honly⟩ | ⟨-, hall⟩
  · rw [h.none hnone, hother.none hnone]
  · rw [h.one name hname hhas honly, hother.one name hname hhas honly]
  · rw [h.both hall, hother.both hall]

/-- There is at most one first directory of a chain that decides. -/
theorem nearest_unique {passed passed' above above' : List String} {directory directory' : String}
    (hpassed : ∀ d ∈ passed, ¬ IsDecisive look d) (h : IsDecisive look directory)
    (hpassed' : ∀ d ∈ passed', ¬ IsDecisive look d) (h' : IsDecisive look directory')
    (heq : passed ++ directory :: above = passed' ++ directory' :: above') :
    directory = directory' := by
  induction passed generalizing passed' with
  | nil =>
    cases passed' with
    | nil => exact (List.cons.inj heq).1
    | cons first rest =>
      obtain ⟨rfl, -⟩ := List.cons.inj heq
      exact absurd h (hpassed' _ List.mem_cons_self)
  | cons first rest ih =>
    cases passed' with
    | nil =>
      obtain ⟨rfl, -⟩ := List.cons.inj heq
      exact absurd h' (hpassed _ List.mem_cons_self)
    | cons first' rest' =>
      exact ih (fun d hd => hpassed d (List.mem_cons_of_mem _ hd))
        (fun d hd => hpassed' d (List.mem_cons_of_mem _ hd)) (List.cons.inj heq).2

/-- What a search comes to is determined by what the paths lead to. -/
theorem Found.unique {chain asked asked' : List String}
    {result other : Except Error (Option String)} (h : Found look chain asked result)
    (hother : Found look chain asked' other) : result = other := by
  cases h with
  | nowhere hnone =>
    cases hother with
    | nowhere => rfl
    | nearest _ hdecisive => exact absurd hdecisive (hnone _ (by simp))
  | nearest hpassed hdecisive hdecides =>
    generalize hchain : _ ++ _ :: _ = chain at hother
    cases hother with
    | nowhere hnone => exact absurd hdecisive (hnone _ (by simp [← hchain]))
    | nearest hpassed' hdecisive' hdecides' =>
      obtain rfl := nearest_unique hpassed hdecisive hpassed' hdecisive' hchain
      exact hdecides.unique hdecides'

section

variable {m : Type → Type} [Monad m] [LawfulMonad m] {files : FileReader m}
  {visit : String → m Unit}

theorem filesIn_eq (h : files.Shows visit look)
    (directory : String) :
    filesIn files directory = (do
      (fileNames.map (Path.join directory)).forM visit
      return filesThere look directory) :=
  filterM_visit (fun path => by simp [FileReader.isFile, h.kind?]) _

/-- The marks of a project are looked for up to the first one that is there. -/
theorem isProject_eq (h : files.Shows visit look)
    (directory : String) : ∃ asked, asked ⊆ projectMarks.map (Path.join directory) ∧
      isProject files directory = (do
        asked.forM visit
        return (projectMarks.map (Path.join directory)).any fun path => (look path).isSome) :=
  anyM_visit (fun path => by simp [FileReader.isThere, h.kind?]) _

theorem isAskedIn_files (directory : String) :
    ∀ path ∈ fileNames.map (Path.join directory), IsAskedIn [directory] path := by
  intro path hpath
  obtain ⟨name, hname, rfl⟩ := List.mem_map.mp hpath
  exact ⟨directory, by simp, name, List.mem_append_left _ hname, rfl⟩

/-- Without a configuration file in its first directory, a search looks for marks there, and goes on
if it finds none. -/
theorem search_of_none (h : files.Shows visit look)
    (hthere : filesThere look directory = []) (rest : List String) :
    search files (directory :: rest) = (do
      (fileNames.map (Path.join directory)).forM visit
      if ← isProject files directory then return .ok none else search files rest) := by
  simp [search, filesIn_eq h, hthere]

theorem search_found (h : files.Shows visit look)
    (directories : List String) : ∃ asked result, Found look directories asked result ∧
      search files directories = (do asked.forM visit; return result) := by
  induction directories with
  | nil => exact ⟨[], .ok none, .nowhere (by simp) (by simp), by simp [search]⟩
  | cons directory rest ih =>
    rcases filesThere_cases look directory with
      ⟨hthere, hnone⟩ | ⟨name, hname, hthere, hhas, honly⟩ | ⟨hthere, hall⟩
    · obtain ⟨marks, hmarks, hproject⟩ := isProject_eq h directory
      have hasked : ∀ path ∈ fileNames.map (Path.join directory) ++ marks,
          IsAskedIn [directory] path := by
        refine List.forall_mem_append.mpr ⟨isAskedIn_files directory, fun path hpath => ?_⟩
        obtain ⟨mark, hmark, rfl⟩ := List.mem_map.mp (hmarks hpath)
        exact ⟨directory, by simp, mark, List.mem_append_right _ hmark, rfl⟩
      have hmarked : ((projectMarks.map (Path.join directory)).any fun path =>
          (look path).isSome) = true ↔
          ∃ mark ∈ projectMarks, (look (Path.join directory mark)).isSome = true := by
        rw [List.any_map, List.any_eq_true]
        rfl
      rw [search_of_none h hthere, hproject]
      by_cases hmark : ∃ mark ∈ projectMarks, (look (Path.join directory mark)).isSome = true
      · rw [hmarked.mpr hmark]
        exact ⟨_, _, .here (Or.inr hmark) (decides_none hnone) hasked, by simp⟩
      · rw [Bool.eq_false_iff.mpr fun hany => hmark (hmarked.mp hany)]
        obtain ⟨asked, result, hfound, hsearch⟩ := ih
        have hpassed : ¬ IsDecisive look directory := by
          rintro (⟨name, hname, hhas⟩ | hthere)
          · exact hnone name hname hhas
          · exact hmark hthere
        exact ⟨_, _, hfound.cons hpassed hasked, by simp [hsearch]⟩
    · exact ⟨_, _, .here (Or.inl ⟨name, hname, hhas⟩) (decides_one hname hhas honly)
        (isAskedIn_files directory), by simp [search, filesIn_eq h, hthere]⟩
    · have hfirst := hall "windmill-ts.yaml" (by decide)
      exact ⟨_, _, .here (Or.inl ⟨_, by decide, hfirst⟩) (decides_both hall)
        (isAskedIn_files directory), by simp [search, filesIn_eq h, hthere, fileNames]⟩

end

/-! ## From a directory upwards -/

/-- Whatever the paths lead to, the search from a directory upwards comes to what the first directory
of its chain says that decides, and asks for nothing beyond that directory. The chain of a place in a
tree leads through the places above it, up to the root. -/
theorem nearest_found (files : FileReader Id) (start : String) :
    ∃ chain asked result, Path.Climbs start chain ∧
      (∀ place, (∀ name ∈ place, Path.IsName name) → start = Path.pathTo place →
        chain = place.inits.reverse.map Path.pathTo) ∧
      Found files.kind? chain asked result ∧
      nearest files start = result ∧ nearest files.watched start [] = (result, asked) := by
  have hquiet : files.Shows (fun _ => pure ()) files.kind? := ⟨fun _ => rfl⟩
  have hwatched : files.watched.Shows (fun path => modify (· ++ [path])) files.kind? :=
    ⟨fun _ => rfl⟩
  have hclimbs := Path.climbs_ancestors start
  obtain ⟨unseen, result, hfound, hsearch⟩ := search_found hquiet (Path.ancestors start)
  obtain ⟨asked, result', hfound', hsearch'⟩ := search_found hwatched (Path.ancestors start)
  obtain rfl := hfound.unique hfound'
  refine ⟨_, asked, result, hclimbs, ?_, hfound', ?_, ?_⟩
  · rintro place hplace rfl
    exact hclimbs.unique (Path.climbs_pathTo hplace)
  · have hvisit : (unseen.forM fun _ => (pure () : Id Unit)) = () := rfl
    rw [nearest, hsearch, hvisit]
    rfl
  · have hrun : ∀ act : StateM (List String) Unit,
        (do act; return result : StateM (List String) _) [] = (result, (act []).2) := fun _ => rfl
    rw [nearest, hsearch', hrun, forM_record, List.nil_append]

end Config

end SchemaClient
