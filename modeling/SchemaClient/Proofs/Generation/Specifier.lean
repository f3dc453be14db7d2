/-
SchemaClient.Proofs.Generation.Specifier — where the import of a hook leads.

The specifier goes up from the directory of the output, once for each component that the path of the
directory does not share with the path of the file, and then down to the file. The paths are compared
as they are written. A `..` among the components that are not shared was a step up itself, and one more
up in its place does not undo it.

* `Preamble.compiledName_of_source` — the name of a source file once it is compiled.
* `Preamble.components_localSpecifier` — the components of a specifier.
* `Preamble.localSpecifier_leads_iff` — it leads to the compiled file, with two exceptions.
-/
import Mathlib.Data.List.ModifyLast
import SchemaClient.CommandLine.Run
import SchemaClient.Generation.Preamble
import SchemaClient.Proofs.Path.Lexical

namespace SchemaClient

namespace Preamble

open FileTree (placeFrom placeOf)
open SchemaClient.Path (Component IsName)

/-! ## Compiled names -/

/-- The extensions of source files, each with the one that the compiled file has. -/
def extensions : List (List Char × List Char) :=
  [(['.', 'm', 't', 's'], ['.', 'm', 'j', 's']), (['.', 'c', 't', 's'], ['.', 'c', 'j', 's']),
    (['.', 't', 's'], ['.', 'j', 's'])]

variable {name source target : List Char}

/-- A longer ending has a shorter one as its own ending. -/
theorem isSuffixOf_append_of_not_suffix (hlength : source.length ≤ target.length)
    (h : ¬ source <:+ target) (stem : List Char) : target.isSuffixOf (stem ++ source) = false := by
  rw [Bool.eq_false_iff, ne_eq, List.isSuffixOf_iff_suffix]
  exact fun hsuffix =>
    h (List.suffix_of_suffix_length_le (List.suffix_append stem source) hsuffix hlength)

theorem isSuffixOf_append_self (stem source : List Char) :
    source.isSuffixOf (stem ++ source) = true :=
  List.isSuffixOf_iff_suffix.mpr (List.suffix_append stem source)

/-- The extension of a source file is replaced. -/
theorem compiledName_of_source (stem : List Char) (h : (source, target) ∈ extensions) :
    compiledName (stem ++ source) = stem ++ target := by
  simp only [extensions, List.mem_cons, Prod.mk.injEq, List.not_mem_nil, or_false] at h
  rcases h with ⟨rfl, rfl⟩ | ⟨rfl, rfl⟩ | ⟨rfl, rfl⟩
  · simp [compiledName, isSuffixOf_append_self]
  · have hmodule : ['.', 'm', 't', 's'].isSuffixOf (stem ++ ['.', 'c', 't', 's']) = false :=
      isSuffixOf_append_of_not_suffix (by decide) (by decide) stem
    simp [compiledName, isSuffixOf_append_self, hmodule]
  · have hmodule : ['.', 'm', 't', 's'].isSuffixOf (stem ++ ['.', 't', 's']) = false :=
      isSuffixOf_append_of_not_suffix (by decide) (by decide) stem
    have hcommon : ['.', 'c', 't', 's'].isSuffixOf (stem ++ ['.', 't', 's']) = false :=
      isSuffixOf_append_of_not_suffix (by decide) (by decide) stem
    simp [compiledName, isSuffixOf_append_self, hmodule, hcommon]

/-- A name with no such extension stays as it is. -/
theorem compiledName_of_not_source (h : ∀ e ∈ extensions, ¬ e.1 <:+ name) :
    compiledName name = name := by
  have hnone : ∀ e ∈ extensions, e.1.isSuffixOf name = false := by
    intro e he
    simpa [← List.isSuffixOf_iff_suffix] using h e he
  simp only [extensions, List.forall_mem_cons] at hnone
  simp [compiledName, hnone]

theorem compiledName_cases (name : List Char) :
    (∃ stem source target, (source, target) ∈ extensions ∧ name = stem ++ source ∧
      compiledName name = stem ++ target) ∨
    (∀ e ∈ extensions, ¬ e.1 <:+ name) ∧ compiledName name = name := by
  by_cases h : ∀ e ∈ extensions, ¬ e.1 <:+ name
  · exact Or.inr ⟨h, compiledName_of_not_source h⟩
  · push Not at h
    obtain ⟨⟨source, target⟩, he, stem, rfl⟩ := h
    exact Or.inl ⟨stem, source, target, he, rfl, compiledName_of_source stem he⟩

/-- Only what stands behind the last slash matters. -/
theorem compiledName_append_slash (front name : List Char) :
    compiledName (front ++ '/' :: name) = front ++ '/' :: compiledName name := by
  rcases compiledName_cases name with ⟨stem, source, target, he, rfl, hname⟩ | ⟨hnone, hname⟩
  · rw [hname]
    have hsplit := compiledName_of_source (front ++ '/' :: stem) he
    simpa using hsplit
  · rw [hname]
    refine compiledName_of_not_source fun e he hsuffix => ?_
    have hslash : '/' ∉ e.1 := (by decide : ∀ e ∈ extensions, '/' ∉ e.1) e he
    rcases List.suffix_or_suffix_of_suffix hsuffix (List.suffix_append front ('/' :: name)) with
      hinside | houtside
    · rcases List.suffix_cons_iff.mp hinside with heq | hinside
      · exact hslash (heq ▸ List.mem_cons_self)
      · exact hnone e he hinside
    · exact hslash (houtside.subset List.mem_cons_self)

theorem isName_compiledName {name : String} (h : IsName name) :
    IsName (String.ofList (compiledName name.toList)) := by
  rcases compiledName_cases name.toList with ⟨stem, source, target, he, hname, heq⟩ | ⟨-, heq⟩
  · rw [heq]
    obtain ⟨hlength, hslash⟩ : 2 < target.length ∧ '/' ∉ target :=
      (by decide : ∀ e ∈ extensions, 2 < e.2.length ∧ '/' ∉ e.2) _ he
    have hne : ∀ other : String, other.toList.length ≤ 2 → String.ofList (stem ++ target) ≠ other := by
      rintro _ hother rfl
      rw [String.toList_ofList, List.length_append] at hother
      omega
    refine ⟨hne _ (by decide), hne _ (by decide), hne _ (by decide), ?_⟩
    have hstem := h.slash_not_mem
    rw [hname] at hstem
    rw [String.toList_ofList, List.mem_append]
    rintro (hmem | hmem)
    · exact hstem (List.mem_append_left _ hmem)
    · exact hslash hmem
  · rw [heq, String.ofList_toList]
    exact h

/-- A component with the extension it has once compiled. -/
def compiled : Component → Component
  | .named name => .named (String.ofList (compiledName name.toList))
  | other => other

theorem leads_compiled {c : Component} (h : c.Leads) : (compiled c).Leads := by
  cases h with
  | up => exact .up
  | named hname => exact .named (isName_compiledName hname)

theorem compiledName_text {c : Component} (h : c.Leads) :
    compiledName c.text.toList = (compiled c).text.toList := by
  cases h with
  | up => decide
  | named hname => exact String.toList_ofList.symm

/-- Of the text of a path, the extension of the last component is replaced. -/
theorem compiledName_joined {steps : List Component} (h : ∀ c ∈ steps, c.Leads) :
    compiledName (String.intercalate "/" (steps.map Component.text)).toList =
      (String.intercalate "/" ((steps.modifyLast compiled).map Component.text)).toList := by
  rcases List.eq_nil_or_concat' steps with rfl | ⟨front, last, rfl⟩
  · decide
  · rw [List.modifyLast_concat]
    have hlast := compiledName_text (h last (by simp))
    by_cases hfront : front = []
    · subst hfront
      simpa using hlast
    · rw [Path.joined_snoc hfront, Path.joined_snoc hfront]
      have hslash : ("/" : String).toList = ['/'] := by decide
      simp [hslash, compiledName_append_slash, hlast]

/-! ## Specifiers -/

theorem common_comm (first second : List Component) : common first second = common second first := by
  fun_induction common first second with
  | case1 a as bs ih => rw [common, if_pos rfl, ih]
  | case2 a as b bs hne => rw [common, if_neg (Ne.symm hne)]
  | case3 first second hnot =>
    cases first with
    | nil => cases second <;> rfl
    | cons a as =>
      cases second with
      | nil => rfl
      | cons b bs => exact absurd rfl (hnot a as b bs rfl)

theorem take_common (first second : List Component) :
    first.take (common first second) = second.take (common first second) := by
  fun_induction common first second with
  | case1 a as bs ih => rw [List.take_succ_cons, List.take_succ_cons, ih]
  | case2 | case3 => rfl

/-- The components of a path beyond those that it shares with another. -/
def own (path other : String) : List Component :=
  (moving path).drop (common (moving path) (moving other))

/-- The components that a path shares with another. -/
def shared (path other : String) : List Component :=
  (moving path).take (common (moving path) (moving other))

theorem leads_up_append (n : Nat) {steps : List Component} (h : ∀ c ∈ steps, c.Leads) :
    ∀ c ∈ List.replicate n Component.up ++ steps, c.Leads := by
  intro c hc
  rcases List.mem_append.mp hc with hc | hc
  · rw [List.eq_of_mem_replicate hc]
    exact .up
  · exact h c hc

section

variable {directory file : String} (hdirectory : Path.isAbsolute directory = true)
  (hfile : Path.isAbsolute file = true)
include hdirectory hfile

/-- Two paths from the root share the root, and every component beyond it leads on. -/
theorem exists_parted :
    ∃ base, shared directory file = .root :: base ∧
      Path.components directory = .root :: base ++ own directory file ∧
      Path.components file = .root :: base ++ own file directory ∧
      (∀ c ∈ own directory file, c.Leads) ∧ ∀ c ∈ own file directory, c.Leads := by
  obtain ⟨first, hfirst, hleads⟩ := Path.components_of_isAbsolute hdirectory
  obtain ⟨second, hsecond, hleads'⟩ := Path.components_of_isAbsolute hfile
  have hmoving : ∀ {path steps}, Path.components path = .root :: steps → (∀ c ∈ steps, c.Leads) →
      moving path = .root :: steps := by
    intro path steps hpath hsteps
    rw [moving, hpath, List.filter_eq_self, List.forall_mem_cons]
    refine ⟨by decide, fun c hc => ?_⟩
    cases hsteps c hc <;> simp
  have hshared : shared directory file = .root :: first.take (common first second) := by
    rw [shared, hmoving hfirst hleads, hmoving hsecond hleads', common, if_pos rfl,
      List.take_succ_cons]
  have hown : own directory file = first.drop (common first second) := by
    rw [own, hmoving hfirst hleads, hmoving hsecond hleads', common, if_pos rfl,
      List.drop_succ_cons]
  have hown' : own file directory = second.drop (common first second) := by
    rw [own, hmoving hfirst hleads, hmoving hsecond hleads', common, if_pos rfl,
      List.drop_succ_cons, common_comm]
  refine ⟨first.take (common first second), hshared, ?_, ?_, ?_, ?_⟩
  · rw [hfirst, hown, List.cons_append, List.take_append_drop]
  · rw [hsecond, hown', take_common, List.cons_append, List.take_append_drop]
  · rw [hown]
    exact fun c hc => hleads c (List.mem_of_mem_drop hc)
  · rw [hown']
    exact fun c hc => hleads' c (List.mem_of_mem_drop hc)

theorem components_relativePath :
    Path.components (relativePath directory file) =
      List.replicate (own directory file).length .up ++ own file directory := by
  obtain ⟨-, -, -, -, -, hleads⟩ := exists_parted hdirectory hfile
  have hroute : relativePath directory file = Path.ofComponents
      (List.replicate (own directory file).length .up ++ own file directory) := by
    rw [own, own, common_comm (moving file), List.length_drop]
    rfl
  rw [hroute]
  exact Path.components_ofComponents (leads_up_append _ hleads)

end

/-- The steps of a specifier: up out of the directory, then down to the compiled file. -/
def route (directory file : String) : List Component :=
  List.replicate (own directory file).length .up ++ (own file directory).modifyLast compiled

theorem modifyLast_replicate_up (n : Nat) (steps : List Component) :
    (List.replicate n Component.up ++ steps).modifyLast compiled =
      List.replicate n .up ++ steps.modifyLast compiled := by
  by_cases hsteps : steps = []
  · subst hsteps
    cases n with
    | zero => rfl
    | succ n =>
      rw [List.append_nil, List.replicate_succ', List.modifyLast_concat]
      exact (List.append_nil _).symm
  · exact List.modifyLast_append_of_right_ne_nil _ _ _ hsteps

theorem leads_modifyLast {steps : List Component} (h : ∀ c ∈ steps, c.Leads) :
    ∀ c ∈ steps.modifyLast compiled, c.Leads := by
  rcases List.eq_nil_or_concat' steps with rfl | ⟨front, last, rfl⟩
  · exact h
  · rw [List.modifyLast_concat]
    intro c hc
    rcases List.mem_append.mp hc with hc | hc
    · exact h c (List.mem_append_left _ hc)
    · rw [List.mem_singleton.mp hc]
      exact leads_compiled (h last (by simp))

section

variable {directory file : String} (hdirectory : Path.isAbsolute directory = true)
  (hfile : Path.isAbsolute file = true)
include hdirectory hfile

theorem leads_route : ∀ c ∈ route directory file, c.Leads := by
  obtain ⟨-, -, -, -, -, hleads⟩ := exists_parted hdirectory hfile
  exact leads_up_append _ (leads_modifyLast hleads)

theorem localSpecifier_eq :
    localSpecifier directory file =
      let joined := String.intercalate "/" ((route directory file).map Component.text)
      if "../".toList.isPrefixOf joined.toList then joined else "./" ++ joined := by
  obtain ⟨-, -, -, -, -, hleads⟩ := exists_parted hdirectory hfile
  rw [localSpecifier, components_relativePath hdirectory hfile]
  simp only
  rw [compiledName_joined (leads_up_append _ hleads), modifyLast_replicate_up, String.ofList_toList]
  rfl

/-- A specifier is relative. -/
theorem localSpecifier_relative :
    "./".toList <+: (localSpecifier directory file).toList ∨
      "../".toList <+: (localSpecifier directory file).toList := by
  rw [localSpecifier_eq hdirectory hfile]
  simp only
  split
  · rename_i hup
    exact Or.inr (List.isPrefixOf_iff_prefix.mp hup)
  · rw [String.toList_append]
    exact Or.inl (List.prefix_append _ _)

/-- A specifier is read as its steps, perhaps with a dot in front. -/
theorem components_localSpecifier :
    Path.components (localSpecifier directory file) = route directory file ∨
      Path.components (localSpecifier directory file) = .current :: route directory file := by
  have hleads := leads_route hdirectory hfile
  rw [localSpecifier_eq hdirectory hfile]
  simp only
  split
  · exact Or.inl (Path.components_joined hleads)
  · exact Or.inr (Path.components_dot_joined hleads)

end

/-! ## Where a specifier leads -/

/-- A place with the extension that its last name has once compiled. -/
def compiledPlace (place : Place) : Place :=
  place.modifyLast fun name => String.ofList (compiledName name.toList)

theorem length_compiledPlace (place : Place) : (compiledPlace place).length = place.length := by
  rcases List.eq_nil_or_concat' place with rfl | ⟨front, last, rfl⟩
  · rfl
  · rw [compiledPlace, List.modifyLast_concat, List.length_append, List.length_append]
    rfl

/-- The directory goes up beyond what it shares with the file, and the way down to the file depends on
where it begins. -/
def Astray (directory file : String) : Prop :=
  .up ∈ own directory file ∧
    placeFrom (placeOf (shared directory file)) (own file directory) ≠ placeOf (own file directory)

/-- The way down to the file does not end with a name, but what it leads to has the extension of a
source file: the directory is there or lies in it, or the way ends with a step up. -/
def Unnamed (directory file : String) : Prop :=
  (∀ name, (own file directory).getLast? ≠ some (.named name)) ∧
    compiledPlace (placeOf (Path.components file)) ≠ placeOf (Path.components file)

/-- To compile the last step compiles the last name, if the last step is one. -/
theorem placeFrom_modifyLast {steps : List Component} (place : Place) (h : ∀ c ∈ steps, c.Leads) :
    (∃ front name, steps = front ++ [.named name] ∧
      placeFrom place (steps.modifyLast compiled) =
        placeFrom place front ++ [String.ofList (compiledName name.toList)]) ∨
    (∀ name, steps.getLast? ≠ some (.named name)) ∧
      placeFrom place (steps.modifyLast compiled) = placeFrom place steps := by
  rcases List.eq_nil_or_concat' steps with rfl | ⟨front, last, rfl⟩
  · exact Or.inr ⟨by simp, rfl⟩
  · rw [List.modifyLast_concat, List.getLast?_concat]
    cases h last (by simp) with
    | up => exact Or.inr ⟨by simp, rfl⟩
    | named hname => exact Or.inl ⟨front, _, rfl, FileTree.placeFrom_named ..⟩

section

variable {directory file : String} (hdirectory : Path.isAbsolute directory = true)
  (hfile : Path.isAbsolute file = true)
include hdirectory hfile

theorem placeFrom_localSpecifier :
    let base := placeOf (shared directory file)
    placeFrom (placeOf (Path.components directory))
        (Path.components (localSpecifier directory file)) =
      placeFrom (base.take (base.length - 2 * (own directory file).count .up))
        ((own file directory).modifyLast compiled) := by
  obtain ⟨base, hshared, hparts, -, hleads, -⟩ := exists_parted hdirectory hfile
  have hroute : ∀ place, placeFrom place (Path.components (localSpecifier directory file)) =
      placeFrom place (route directory file) := by
    intro place
    rcases components_localSpecifier hdirectory hfile with h | h <;> rw [h]
    rfl
  have hplace : placeOf (Path.components directory) =
      placeFrom (placeOf (shared directory file)) (own directory file) := by
    rw [hparts, hshared]
    exact FileTree.placeFrom_append ..
  rw [hroute, hplace, route, FileTree.placeFrom_append, FileTree.placeFrom_return hleads]

theorem placeOf_file :
    placeOf (Path.components file) =
      placeFrom (placeOf (shared directory file)) (own file directory) := by
  obtain ⟨base, hshared, -, hparts, -, -⟩ := exists_parted hdirectory hfile
  rw [hparts, hshared]
  exact FileTree.placeFrom_append ..

/-- What is taken back too many does no harm exactly if nothing goes astray. -/
theorem placeFrom_own_iff :
    let base := placeOf (shared directory file)
    placeFrom (base.take (base.length - 2 * (own directory file).count .up)) (own file directory) =
      placeFrom base (own file directory) ↔ ¬ Astray directory file := by
  obtain ⟨-, -, -, -, -, hleads⟩ := exists_parted hdirectory hfile
  have hcount : 2 * (own directory file).count .up = 0 ↔ .up ∉ own directory file := by
    rw [← List.count_eq_zero]
    omega
  simp only
  rw [FileTree.placeFrom_take_eq_iff hleads, hcount, Astray, not_and, not_not, imp_iff_not_or]
  rfl

/-- The import specifier of a hook is relative. Seen from the directory of the output it leads to the
compiled file, unless it goes astray, or what it leads to is no file that it names. -/
theorem localSpecifier_leads_iff :
    ("./".toList <+: (localSpecifier directory file).toList ∨
      "../".toList <+: (localSpecifier directory file).toList) ∧
    (placeFrom (placeOf (Path.components directory))
        (Path.components (localSpecifier directory file)) =
      compiledPlace (placeOf (Path.components file)) ↔
        ¬ Astray directory file ∧ ¬ Unnamed directory file) := by
  refine ⟨localSpecifier_relative hdirectory hfile, ?_⟩
  obtain ⟨-, -, -, -, -, hleads⟩ := exists_parted hdirectory hfile
  have hastray := placeFrom_own_iff hdirectory hfile
  have hfile' := placeOf_file hdirectory hfile
  rw [placeFrom_localSpecifier hdirectory hfile]
  simp only at hastray ⊢
  rcases placeFrom_modifyLast _ hleads with ⟨front, name, hown, hplace⟩ | ⟨hlast, hplace⟩
  · -- both ends are the same name, so the places agree if they agree before it
    have hnamed : ¬ Unnamed directory file := fun ⟨hlast, _⟩ =>
      hlast name (by rw [hown, List.getLast?_concat])
    rw [hown, FileTree.placeFrom_named, FileTree.placeFrom_named, List.append_left_inj] at hastray
    rw [hplace, hfile', hown, FileTree.placeFrom_named, compiledPlace, List.modifyLast_concat,
      List.append_left_inj, hastray, and_iff_left hnamed]
  · rw [hplace]
    by_cases hcompiled : compiledPlace (placeOf (Path.components file)) =
        placeOf (Path.components file)
    · have hnamed : ¬ Unnamed directory file := fun ⟨_, hne⟩ => hne hcompiled
      rw [hcompiled, hfile', hastray, and_iff_left hnamed]
    · -- a place of the same length is the file's own, which has not been compiled
      refine iff_of_false (fun heq => hcompiled ?_) fun ⟨_, hnamed⟩ => hnamed ⟨hlast, hcompiled⟩
      have hlength := congrArg List.length heq
      rw [length_compiledPlace, hfile'] at hlength
      rw [← heq, hfile', FileTree.placeFrom_take_of_length hleads _ _ hlength]

end

/-- The paths may have steps up that are undone in time: here the file's own way begins with one. -/
theorem localSpecifier_leads_detour :
    Path.isAbsolute "/work/pkg/out" = true ∧ Path.isAbsolute "/work/pkg/../hooks/h.mts" = true ∧
      localSpecifier "/work/pkg/out" "/work/pkg/../hooks/h.mts" = "../../hooks/h.mjs" ∧
      placeFrom (placeOf (Path.components "/work/pkg/out"))
          (Path.components (localSpecifier "/work/pkg/out" "/work/pkg/../hooks/h.mts")) =
        compiledPlace (placeOf (Path.components "/work/pkg/../hooks/h.mts")) := by
  have hdirectory : Path.isAbsolute "/work/pkg/out" = true := by decide
  have hfile : Path.isAbsolute "/work/pkg/../hooks/h.mts" = true := by decide
  have hastray : ¬ Astray "/work/pkg/out" "/work/pkg/../hooks/h.mts" := fun ⟨hup, _⟩ =>
    absurd hup (by decide +kernel)
  have hnamed : ¬ Unnamed "/work/pkg/out" "/work/pkg/../hooks/h.mts" := fun ⟨hlast, _⟩ =>
    hlast "h.mts" (by decide +kernel)
  exact ⟨hdirectory, hfile, by decide +kernel,
    (localSpecifier_leads_iff hdirectory hfile).2.mpr ⟨hastray, hnamed⟩⟩

/-- A file that is generated beside the working directory imports the hook from a place where it is
not: the way up out of `..` and `gen` ends at the root, not in `work`. -/
theorem localSpecifier_astray :
    let directory := (Path.parent? (CommandLine.tidied (Path.join "/work" "../gen/out.ts"))).getD ""
    let hook := (⟨"./hooks/h.ts", "default"⟩ : Hook).resolved "/work/windmill-ts.yaml"
    directory = "/work/../gen" ∧ hook.module = "/work/./hooks/h.ts" ∧
      Path.isAbsolute directory = true ∧ Path.isAbsolute hook.module = true ∧
      localSpecifier directory hook.module = "../../hooks/h.js" ∧
      placeFrom (placeOf (Path.components directory))
        (Path.components (localSpecifier directory hook.module)) = ["hooks", "h.js"] ∧
      compiledPlace (placeOf (Path.components hook.module)) = ["work", "hooks", "h.js"] := by
  decide +kernel

end Preamble

end SchemaClient
