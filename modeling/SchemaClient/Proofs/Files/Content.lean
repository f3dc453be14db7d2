/-
SchemaClient.Proofs.Files.Content — what becomes of the content of a file.

Of all that a run does with files, only writing to a file changes what is in it. `content` is what
somebody sees who looks at one file from outside: its content, or that there is no such file.

* `Leaves` — a computation leaves an observation as it was.
* `FileStore.Observes` — how the operations of a store relate to the content of one file.
* `FileTree.observes_store` — a tree of files is such a store, whichever file is looked at.
-/
import SchemaClient.Files.Tree

namespace SchemaClient

variable {σ α β γ : Type} {content : σ → γ}

/-! ## Computations that leave something as it was -/

/-- Whatever the state, a computation leaves what is seen of it as it was. -/
def Leaves (content : σ → γ) (action : StateM σ α) : Prop :=
  ∀ state, content (action state).2 = content state

namespace Leaves

theorem pure (a : α) : Leaves content (pure a : StateM σ α) := fun _ => rfl

theorem bind {first : StateM σ α} {next : α → StateM σ β} (hfirst : Leaves content first)
    (hnext : ∀ a, Leaves content (next a)) : Leaves content (first >>= next) := fun state =>
  (hnext _ _).trans (hfirst state)

theorem filterM {test : α → StateM σ Bool} (htest : ∀ a, Leaves content (test a))
    (items : List α) : Leaves content (items.filterM test) := by
  have haux : ∀ items kept, Leaves content (List.filterAuxM test items kept) := by
    intro items
    induction items with
    | nil => exact fun kept => .pure kept
    | cons a rest ih => exact fun kept => (htest a).bind fun _ => ih _
  exact (haux items []).bind fun _ => .pure _

theorem anyM {test : α → StateM σ Bool} (htest : ∀ a, Leaves content (test a))
    (items : List α) : Leaves content (items.anyM test) := by
  induction items with
  | nil => exact .pure _
  | cons a rest ih =>
    refine (htest a).bind fun found => ?_
    cases found with
    | true => exact .pure _
    | false => exact ih

end Leaves

/-! ## Stores of files -/

/-- To read files leaves the content of a file as it was. -/
structure FileReader.Leaves (files : FileReader (StateM σ)) (content : σ → γ) : Prop where
  kind? : ∀ path, SchemaClient.Leaves content (files.kind? path)
  read : ∀ path, SchemaClient.Leaves content (files.read path)

/-- `content` is what is in the file at a path, if there is a file: reading and making directories
leave it, and once nothing was written to the file, the file is there and empty. If it could not be
written, it is what it was. -/
structure FileStore.Observes (files : FileStore (StateM σ)) (path : String)
    (content : σ → Option Bytes) : Prop where
  reader : files.toFileReader.Leaves content
  makeDirectories : ∀ path, Leaves content (files.makeDirectories path)
  emptied : ∀ {state after}, files.write path [] state = (.ok (), after) → content after = some []
  refused : ∀ {state fault after}, files.write path [] state = (.error fault, after) →
    content after = content state

namespace FileReader.Leaves

variable {files : FileReader (StateM σ)}

theorem isFile (h : files.Leaves content) (path : String) :
    SchemaClient.Leaves content (files.isFile path) :=
  (h.kind? path).bind fun _ => .pure _

theorem isThere (h : files.Leaves content) (path : String) :
    SchemaClient.Leaves content (files.isThere path) :=
  (h.kind? path).bind fun _ => .pure _

theorem readText (h : files.Leaves content) (path : String) :
    SchemaClient.Leaves content (files.readText path) := by
  refine (h.read path).bind fun result => ?_
  cases result with
  | error fault => exact .pure _
  | ok bytes => cases hdecode : Utf8.decode? bytes <;> simp only [hdecode] <;> exact .pure _

theorem readText? (h : files.Leaves content) (path : String) :
    SchemaClient.Leaves content (files.readText? path) := by
  refine (h.readText path).bind fun result => ?_
  split <;> exact .pure _

end FileReader.Leaves

/-! ## Trees of files -/

/-- What comes to a good end one after the other comes to a good end each. -/
theorem exists_of_bind_ok {ε : Type} {result : Except ε α} {next : α → Except ε β} {b : β}
    (h : (result >>= next) = .ok b) : ∃ a, result = .ok a ∧ next a = .ok b := by
  cases result with
  | error error => cases h
  | ok a => exact ⟨a, rfl, h⟩

namespace FileTree

variable {tree after : FileTree}

/-- The place that components lead to, if all of it is there. -/
def placeOf (components : List Path.Component) : Place := components.foldl stepFrom []

/-- What is in the file at a place. -/
def content? (place : Place) (tree : FileTree) : Option Bytes :=
  match tree.entry? place with
  | some (.file content) => some content
  | _ => none

theorem placeOf_of_locate {components : List Path.Component} {place : Place}
    (h : tree.locate components = .ok place) : place = placeOf components := by
  unfold locate at h
  unfold placeOf
  generalize ([] : Place) = start at h ⊢
  induction components generalizing start with
  | nil => cases h; rfl
  | cons component rest ih =>
    obtain ⟨middle, hmiddle, hrest⟩ := exists_of_bind_ok h
    obtain ⟨_, _, hstep⟩ := exists_of_bind_ok hmiddle
    cases hstep
    exact ih _ hrest

theorem lookup_filter_ne {place other : Place} (hne : other ≠ place)
    (entries : List (Place × FileEntry)) :
    (entries.filter (·.1 != place)).lookup other = entries.lookup other := by
  induction entries with
  | nil => rfl
  | cons first rest ih =>
    obtain ⟨found, entry⟩ := first
    by_cases hplace : found = place
    · subst hplace
      rw [List.filter_cons_of_neg (by simp), ih, List.lookup_cons, beq_false_of_ne hne]
    · rw [List.filter_cons_of_pos (by simpa using hplace), List.lookup_cons, List.lookup_cons, ih]

theorem entry?_put_self {place : Place} (hplace : place ≠ []) (entry : FileEntry) :
    FileTree.entry? (tree.put place entry) place = some entry := by
  rw [ entry?, if_neg (by simpa using hplace), put, List.lookup_cons_self]

theorem entry?_put_ne {place other : Place} (hne : other ≠ place) (entry : FileEntry) :
    FileTree.entry? (tree.put place entry) other = tree.entry? other := by
  unfold entry?
  rw [put, List.lookup_cons, beq_false_of_ne hne, lookup_filter_ne hne]

/-- A directory is made only where nothing is. -/
theorem content?_makeDirectory {reversed : List Path.Component} (place : Place)
    (h : tree.makeDirectory reversed = .ok after) : content? place after = content? place tree := by
  unfold makeDirectory at h
  split at h
  · rename_i name _
    obtain ⟨parent, _, h⟩ := exists_of_bind_ok h
    obtain ⟨_, _, h⟩ := exists_of_bind_ok h
    split at h
    · cases h
    · rename_i hfree
      cases h
      have hnone : tree.entry? (parent ++ [name]) = none := by simpa using hfree
      unfold content?
      by_cases hplace : place = parent ++ [name]
      · rw [hplace, entry?_put_self (by simp), hnone]
      · rw [entry?_put_ne hplace]
  · obtain ⟨_, _, h⟩ := exists_of_bind_ok h
    obtain ⟨_, _, h⟩ := exists_of_bind_ok h
    cases h

theorem content?_makeAll {reversed : List Path.Component} (place : Place)
    (h : tree.makeAll reversed = .ok after) : content? place after = content? place tree := by
  induction reversed generalizing after with
  | nil => cases h; rfl
  | cons last above ih =>
    unfold makeAll at h
    split at h
    · rename_i hmade
      cases h
      exact content?_makeDirectory place hmade
    · -- those above are made first
      obtain ⟨middle, habove, h⟩ := exists_of_bind_ok h
      split at h
      · rename_i hmade
        cases h
        exact (content?_makeDirectory place hmade).trans (ih habove)
      · split at h
        · cases h
          exact ih habove
        · cases h
    · split at h
      · cases h
        rfl
      · cases h

theorem content?_write {path : String} {bytes : Bytes} (h : tree.write path bytes = .ok after) :
    content? (placeOf (Path.components path)) after = some bytes := by
  obtain ⟨place, hplace, h⟩ := exists_of_bind_ok h
  rw [← placeOf_of_locate hplace]
  -- the root is a directory, and nothing can be written to a directory
  have hput : ∀ entry, tree.entry? place = entry → entry ≠ some .directory →
      content? place (tree.put place (.file bytes)) = some bytes := by
    rintro _ rfl hentry
    rw [content?, entry?_put_self]
    rintro rfl
    exact hentry rfl
  split at h
  · cases h
  · rename_i hentry
    split at h
    · cases h
    · cases h
      exact hput _ hentry (by simp)
  · rename_i hentry
    obtain ⟨_, _, h⟩ := exists_of_bind_ok h
    split at h
    · cases h
    · cases h
      exact hput _ hentry (by simp)

/-- What is in a file of a tree is what is at its place. -/
theorem observes_store (path : String) :
    store.Observes path (content? (placeOf (Path.components path))) where
  reader := ⟨fun _ _ => rfl, fun _ _ => rfl⟩
  makeDirectories := by
    intro directory tree
    rw [store]
    dsimp only
    unfold change
    split
    · rename_i hmade
      exact content?_makeAll _ hmade
    · rfl
  emptied := by
    intro tree after h
    rw [store] at h
    dsimp only at h
    unfold change at h
    split at h
    · rename_i hwrite
      cases h
      exact content?_write hwrite
    · cases h
  refused := by
    intro tree fault after h
    rw [store] at h
    dsimp only at h
    unfold change at h
    split at h
    · cases h
    · cases h
      rfl

end FileTree

end SchemaClient
