/-
SchemaClient.Proofs.Workspace.Store — which workspace the store of credentials gives for a name.

The store is read line by line, and of the workspaces with one name the last takes the place of all
before it. So the answer depends on two lines only: the first one that should be a workspace and is
none, or else the last one that has the name.

* `WorkspaceStore.Gives`, `WorkspaceStore.IsBroken` — a line that has a workspace, and a broken line.
* `WorkspaceStore.parseFrom_of_firstBroken` — a broken line ends the reading.
* `WorkspaceStore.parseFrom_of_whole` — without one, the table has the last workspace of each name.
* `WorkspaceStore.find_answers` — what the store says about a name.
-/
import SchemaClient.Files.Tree
import SchemaClient.Proofs.Catalog.Instances
import SchemaClient.Proofs.Workspace.Line

namespace SchemaClient

/-- The text of a file in a tree. -/
theorem FileTree.readText?_of_find {m : Type → Type} [Monad m] [LawfulMonad m] {tree : FileTree}
    {path text : String} (h : tree.find path = .ok (.file (Utf8.encode text))) :
    (tree.reader : FileReader m).readText? path = pure (.ok (some text)) := by
  have hread : tree.read path = .ok (Utf8.encode text) := by
    rw [read, h]
    rfl
  simp [FileReader.readText?, FileReader.readText, reader, hread, Utf8.decode?_encode]

namespace WorkspaceStore

variable {line : List Char} {lines rest : List (List Char)} {name message : String} {w : Workspace}

/-! ## Lines -/

/-- What a line is read as. -/
def decoded (line : List Char) : Except String Workspace :=
  Json.Decoder.read Workspace.decoder (Utf8.encode (String.ofList line))

/-- A line that is not skipped has a workspace. -/
def Gives (line : List Char) (w : Workspace) : Prop := isSkipped line = false ∧ decoded line = .ok w

/-- A line that is not skipped has no workspace, and the message says why. -/
def IsBroken (line : List Char) (message : String) : Prop :=
  isSkipped line = false ∧ decoded line = .error message

/-- No line is broken. -/
def Whole (lines : List (List Char)) : Prop := ∀ line ∈ lines, ∀ message, ¬ IsBroken line message

/-- No line has a workspace of a name. -/
def Lacks (lines : List (List Char)) (name : String) : Prop :=
  ∀ line ∈ lines, ∀ w, Gives line w → w.name ≠ name

/-- The first line that is broken, counted from one, and what is wrong with it. -/
inductive FirstBroken (lines : List (List Char)) : Nat → String → Prop where
  | at {before after : List (List Char)} {line : List Char} {message : String} :
      lines = before ++ line :: after → Whole before → IsBroken line message →
      FirstBroken lines (before.length + 1) message

/-- The workspace of the last line that has the name. -/
inductive LastNamed (lines : List (List Char)) (name : String) : Workspace → Prop where
  | at {before after : List (List Char)} {line : List Char} {w : Workspace} :
      lines = before ++ line :: after → Gives line w → w.name = name → Lacks after name →
      LastNamed lines name w

theorem line_cases (line : List Char) :
    isSkipped line = true ∨ (∃ w, Gives line w) ∨ ∃ message, IsBroken line message := by
  cases hskipped : isSkipped line with
  | true => exact Or.inl rfl
  | false =>
    cases hdecoded : decoded line with
    | ok w => exact Or.inr (Or.inl ⟨w, hskipped, hdecoded⟩)
    | error message => exact Or.inr (Or.inr ⟨message, hskipped, hdecoded⟩)

theorem Gives.unique {v : Workspace} (h : Gives line v) (h' : Gives line w) : v = w :=
  Except.ok.inj (h.2.symm.trans h'.2)

theorem not_gives_of_skipped (h : isSkipped line = true) : ¬ Gives line w := by
  rintro ⟨hread, -⟩
  rw [h] at hread
  cases hread

/-- A line that a workspace was written on, its texts in any order, has this workspace. -/
theorem gives_written {pairs : List (String × String)} (h : pairs.Perm w.fields) :
    Gives (Json.text (.obj (Json.Decoder.texts pairs))).toList w := by
  have hne : Json.Decoder.texts pairs ≠ [] := by
    rintro hnil
    have hlength := h.length_eq
    rw [List.map_eq_nil_iff.mp hnil] at hlength
    cases hlength
  refine ⟨isSkipped_object hne, ?_⟩
  rw [decoded, String.ofList_toList, Json.Decoder.read, Workspace.run_decoder h]
  rfl

theorem lacks_cons :
    Lacks (line :: rest) name ↔ (∀ w, Gives line w → w.name ≠ name) ∧ Lacks rest name :=
  List.forall_mem_cons

/-- The last of some lines that has a name is the first one only if no later one has it. -/
theorem lastNamed_cons : LastNamed (line :: rest) name w ↔
    LastNamed rest name w ∨ Gives line w ∧ w.name = name ∧ Lacks rest name := by
  constructor
  · rintro ⟨hlines, hgives, hname, hlacks⟩
    rename_i before after last
    cases before with
    | nil =>
      cases hlines
      exact Or.inr ⟨hgives, hname, hlacks⟩
    | cons first before =>
      cases hlines
      exact Or.inl ⟨rfl, hgives, hname, hlacks⟩
  · rintro (⟨rfl, hgives, hname, hlacks⟩ | ⟨hgives, hname, hlacks⟩)
    · exact ⟨List.cons_append.symm, hgives, hname, hlacks⟩
    · exact ⟨(List.nil_append _).symm, hgives, hname, hlacks⟩

/-! What a line adds that is skipped, or has a workspace. -/

theorem lacks_cons_of_skipped (h : isSkipped line = true) :
    Lacks (line :: rest) name ↔ Lacks rest name := by
  rw [lacks_cons]
  exact and_iff_right fun w hgives => absurd hgives (not_gives_of_skipped h)

theorem lastNamed_cons_of_skipped (h : isSkipped line = true) :
    LastNamed (line :: rest) name w ↔ LastNamed rest name w := by
  rw [lastNamed_cons]
  exact or_iff_left fun ⟨hgives, _⟩ => not_gives_of_skipped h hgives

theorem lacks_cons_of_gives {v : Workspace} (h : Gives line v) :
    Lacks (line :: rest) name ↔ v.name ≠ name ∧ Lacks rest name := by
  rw [lacks_cons]
  refine and_congr_left' ⟨fun hall => hall v h, fun hne w hgives => ?_⟩
  rwa [hgives.unique h]

theorem lastNamed_cons_of_gives {v : Workspace} (h : Gives line v) :
    LastNamed (line :: rest) name w ↔
      LastNamed rest name w ∨ v = w ∧ v.name = name ∧ Lacks rest name := by
  rw [lastNamed_cons]
  refine or_congr_right ⟨fun ⟨hgives, hname⟩ => ?_, fun ⟨heq, hname⟩ => ?_⟩
  · obtain rfl := h.unique hgives
    exact ⟨rfl, hname⟩
  · subst heq
    exact ⟨h, hname⟩

/-- A name that some line has is on a last one. -/
theorem exists_lastNamed (h : ¬ Lacks lines name) : ∃ w, LastNamed lines name w := by
  induction lines with
  | nil => exact absurd (List.forall_mem_nil _) h
  | cons line rest ih =>
    by_cases hrest : Lacks rest name
    · by_cases hline : ∃ w, Gives line w ∧ w.name = name
      · obtain ⟨w, hgives, hname⟩ := hline
        exact ⟨w, lastNamed_cons.mpr (Or.inr ⟨hgives, hname, hrest⟩)⟩
      · refine absurd (lacks_cons.mpr ⟨fun w hgives hname => ?_, hrest⟩) h
        exact hline ⟨w, hgives, hname⟩
    · obtain ⟨w, hlast⟩ := ih hrest
      exact ⟨w, lastNamed_cons.mpr (Or.inl hlast)⟩

theorem LastNamed.not_lacks (h : LastNamed lines name w) : ¬ Lacks lines name := by
  obtain ⟨rfl, hgives, hname, -⟩ := h
  exact fun hlacks => hlacks _ (by simp) w hgives hname

theorem whole_cons : Whole (line :: rest) ↔ (∀ message, ¬ IsBroken line message) ∧ Whole rest :=
  List.forall_mem_cons

theorem FirstBroken.cons {number : Nat} (h : FirstBroken rest number message)
    (hline : ∀ message, ¬ IsBroken line message) :
    FirstBroken (line :: rest) (number + 1) message := by
  obtain ⟨rfl, hbefore, hbroken⟩ := h
  exact .at List.cons_append.symm (whole_cons.mpr ⟨hline, hbefore⟩) hbroken

/-- Of the lines that are broken one is the first. -/
theorem exists_firstBroken (h : ¬ Whole lines) :
    ∃ number message, FirstBroken lines number message := by
  induction lines with
  | nil => exact absurd (List.forall_mem_nil _) h
  | cons line rest ih =>
    by_cases hline : ∃ message, IsBroken line message
    · obtain ⟨message, hbroken⟩ := hline
      exact ⟨1, message, .at (List.nil_append _).symm (List.forall_mem_nil _) hbroken⟩
    · have hsound : ∀ message, ¬ IsBroken line message := fun message hbroken =>
        hline ⟨message, hbroken⟩
      obtain ⟨number, message, hfirst⟩ := ih fun hrest => h (whole_cons.mpr ⟨hsound, hrest⟩)
      exact ⟨number + 1, message, hfirst.cons hsound⟩

/-! ## Reading lines -/

section

variable {path : String} {number : Nat} {table : Table Workspace}

theorem parseFrom_of_skipped (h : isSkipped line = true) (rest : List (List Char)) :
    parseFrom path number table (line :: rest) = parseFrom path (number + 1) table rest := by
  rw [parseFrom, if_pos h]

theorem parseFrom_of_gives (h : Gives line w) (rest : List (List Char)) :
    parseFrom path number table (line :: rest) =
      parseFrom path (number + 1) (table.put w.name w) rest := by
  have hline : parseLine path number line = .ok w := by
    rw [parseLine, ← decoded, h.2]
    rfl
  rw [parseFrom, if_neg (by simp [h.1]), hline]
  rfl

theorem parseFrom_of_broken (h : IsBroken line message) (rest : List (List Char)) :
    parseFrom path number table (line :: rest) =
      .error (.workspaceStore path ("line " ++ toString number ++ ": " ++ message)) := by
  have hline : parseLine path number line =
      .error (.workspaceStore path ("line " ++ toString number ++ ": " ++ message)) := by
    rw [parseLine, ← decoded, h.2]
    rfl
  rw [parseFrom, if_neg (by simp [h.1]), hline]
  rfl

/-- A broken line ends the reading, whatever follows it. -/
theorem parseFrom_of_firstBroken {before after : List (List Char)} (hbefore : Whole before)
    (hbroken : IsBroken line message) :
    parseFrom path number table (before ++ line :: after) =
      .error (.workspaceStore path
        ("line " ++ toString (number + before.length) ++ ": " ++ message)) := by
  induction before generalizing number table with
  | nil => exact parseFrom_of_broken hbroken after
  | cons first before ih =>
    obtain ⟨hfirst, hbefore⟩ := whole_cons.mp hbefore
    have hnumber : number + 1 + before.length = number + (first :: before).length := by
      rw [List.length_cons]
      omega
    rcases line_cases first with hskipped | ⟨w, hgives⟩ | ⟨message, hbroken⟩
    · rw [List.cons_append, parseFrom_of_skipped hskipped, ih hbefore, hnumber]
    · rw [List.cons_append, parseFrom_of_gives hgives, ih hbefore, hnumber]
    · exact absurd hbroken (hfirst message)

/-- Lines of which none is broken put the last workspace of each name into the table, and leave the
names that they lack as they were. -/
theorem parseFrom_of_whole (h : Whole lines) :
    ∃ table', parseFrom path number table lines = .ok table' ∧
      ∀ name w, table'.find? name = some w ↔
        LastNamed lines name w ∨ Lacks lines name ∧ table.find? name = some w := by
  induction lines generalizing number table with
  | nil =>
    refine ⟨table, rfl, fun name w => ?_⟩
    constructor
    · exact fun hfind => Or.inr ⟨List.forall_mem_nil _, hfind⟩
    · rintro (hlast | ⟨-, hfind⟩)
      · exact absurd (List.forall_mem_nil _) hlast.not_lacks
      · exact hfind
  | cons line rest ih =>
    obtain ⟨hline, hrest⟩ := whole_cons.mp h
    rcases line_cases line with hskipped | ⟨v, hgives⟩ | ⟨message, hbroken⟩
    · rw [parseFrom_of_skipped hskipped]
      obtain ⟨table', hparse, hfind⟩ := @ih (number + 1) table hrest
      refine ⟨table', hparse, fun name w => ?_⟩
      rw [hfind, lastNamed_cons_of_skipped hskipped, lacks_cons_of_skipped hskipped]
    · rw [parseFrom_of_gives hgives]
      obtain ⟨table', hparse, hfind⟩ := @ih (number + 1) (table.put v.name v) hrest
      refine ⟨table', hparse, fun name w => ?_⟩
      rw [hfind, lastNamed_cons_of_gives hgives, lacks_cons_of_gives hgives, Table.put,
        Table.find?_alter]
      by_cases hname : v.name = name
      · simp [hname, and_comm]
      · simp [hname]
    · exact absurd hbroken (hline message)

end

/-! ## Looking up a name -/

/-- What a store with some lines answers about a name. A broken line spoils every answer; otherwise
the last line with the name counts. -/
structure Answers (path : String) (lines : List (List Char)) (name : String)
    (answer : Except Error Workspace) : Prop where
  broken : ¬ Whole lines → ∃ number message, FirstBroken lines number message ∧
    answer = .error (.workspaceStore path ("line " ++ toString number ++ ": " ++ message))
  found : Whole lines → ∀ w, answer = .ok w ↔ LastNamed lines name w
  missing : Whole lines → (answer = .error (.workspaceNotFound name) ↔ Lacks lines name)

theorem answers_select (path : String) (lines : List (List Char)) (name : String) :
    Answers path lines name ((parseFrom path 1 [] lines).bind (select name)) := by
  by_cases hwhole : Whole lines
  · obtain ⟨table, hparse, hfind⟩ := @parseFrom_of_whole lines path 1 [] hwhole
    have hlast : ∀ w, table.find? name = some w ↔ LastNamed lines name w := fun w =>
      (hfind name w).trans (or_iff_left fun ⟨_, hempty⟩ => nomatch hempty)
    rw [hparse, Except.bind, select]
    refine ⟨fun hbroken => absurd hwhole hbroken, fun _ w => ?_, fun _ => ?_⟩
    · rw [← hlast]
      cases table.find? name with
      | none => simp
      | some v => simp
    · by_cases hlacks : Lacks lines name
      · have hnone : table.find? name = none := Option.eq_none_iff_forall_not_mem.mpr
          fun w hw => ((hlast w).mp hw).not_lacks hlacks
        simp [hnone, hlacks]
      · obtain ⟨w, hw⟩ := exists_lastNamed hlacks
        simp [(hlast w).mpr hw, hlacks]
  · obtain ⟨number, message, hfirst⟩ := exists_firstBroken hwhole
    refine ⟨fun _ => ⟨number, message, hfirst, ?_⟩, (absurd · hwhole), (absurd · hwhole)⟩
    obtain ⟨rfl, hbefore, hbroken⟩ := hfirst
    rw [parseFrom_of_firstBroken hbefore hbroken, Nat.add_comm]
    rfl

/-- Of a store whose text can be read, the lines say which workspace a name has: the first broken one
if there is one, or else the last one with that name. What a line says of a workspace is all of it. -/
theorem find_answers {m : Type → Type} [Monad m] [LawfulMonad m] {files : FileReader m}
    {directory text : String}
    (h : files.readText? (Path.join directory "remotes.ndjson") = pure (.ok (some text)))
    (name : String) :
    (∃ answer, find files directory (some name) = pure answer ∧
      Answers (Path.join directory "remotes.ndjson") (linesOf text.toList) name answer) ∧
    ∀ (w : Workspace) (pairs : List (String × String)), pairs.Perm w.fields →
      Gives (Json.text (.obj (Json.Decoder.texts pairs))).toList w := by
  refine ⟨⟨(parse (Path.join directory "remotes.ndjson") text).bind (select name), ?_,
    answers_select ..⟩, fun w pairs hpairs => gives_written hpairs⟩
  simp [find, all, h]

/-- A store in which the token of a workspace was renewed. -/
def renewed : String :=
  r#"{"remote":"http://a/","workspaceId":"acme","name":"prod","token":"t1"}

{}
{"token":"t2","name":"prod","workspaceId":"acme","remote":"http://a/"}
"#

theorem find_answers_renewed :
    let files : FileReader Id := FileTree.reader ⟨[(["w"], .directory),
      (["w", "remotes.ndjson"], .file (Utf8.encode renewed))]⟩
    files.readText? (Path.join "/w" "remotes.ndjson") = pure (.ok (some renewed)) ∧
      (∃ answer, find files "/w" (some "prod") = pure answer ∧
        Answers (Path.join "/w" "remotes.ndjson") (linesOf renewed.toList) "prod" answer) ∧
      ∀ (w : Workspace) (pairs : List (String × String)), pairs.Perm w.fields →
        Gives (Json.text (.obj (Json.Decoder.texts pairs))).toList w := by
  intro files
  have hread : files.readText? (Path.join "/w" "remotes.ndjson") = pure (.ok (some renewed)) := by
    refine FileTree.readText?_of_find ?_
    have hpath : Path.components (Path.join "/w" "remotes.ndjson") =
        [.root, .named "w", .named "remotes.ndjson"] := by decide +kernel
    have hfile : FileTree.meansDirectory (Path.join "/w" "remotes.ndjson") = false := by
      decide +kernel
    rw [FileTree.find, hpath, hfile]
    rfl
  exact ⟨hread, find_answers hread "prod"⟩

end WorkspaceStore

end SchemaClient
