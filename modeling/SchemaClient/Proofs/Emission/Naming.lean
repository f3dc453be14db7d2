/-
SchemaClient.Proofs.Emission.Naming — what the constants of the generated file are named after.

The wrapper, the accessors, the tables and the two shared validators have fixed names. All others are
identifiers of texts that the workspace gives: the path of an artifact behind the name of its table,
or the name of a resource type before one of three suffixes. A fixed name has no underscore and an
identifier of such a text has one, so the families of the workspace can only clash with each other.

* `Constant`, `Constant.name` — a constant of the file, and its name.
* `Constant.Clashes` — the two ways in which two constants come to share a name.
* `Constant.name_eq_iff` — there is no other.
* `Constant.nodup_names_iff` — constants have distinct names exactly if no two of them clash.
-/
import SchemaClient.Proofs.Emission.Rows

namespace SchemaClient

/-! ## Constants -/

/-- What a resource type declares: its own validator, and if it has instances also that of the
references to them and that of either. -/
inductive Member where
  | own
  | references
  | union
  deriving DecidableEq

/-- What is put behind the name of the type. -/
def Member.suffix : Member → String
  | own => "_type"
  | references => "_references"
  | union => "_resource"

/-- The constants that a section has whatever it is made of. -/
def SectionKind.helpers : SectionKind → List String
  | .resources => SectionKind.resources.accessors ++ ["resourceToType", "resourceDefaults"]
  | kind => kind.accessors ++ [kind.table]

/-- A constant of the file, by what it is for. -/
inductive Constant where
  /-- The wrapper around declarations. -/
  | wrapper
  /-- One that a section has whatever it is made of. -/
  | helper (kind : SectionKind) (name : String)
  /-- The validator of an artifact's arguments. -/
  | artifact (kind : SectionKind) (path : String)
  /-- A validator that schemas demand. -/
  | demanded (d : Demand) (member : Member)

namespace Constant

/-- The name of a constant. -/
def name : Constant → String
  | wrapper => "lazyObject"
  | helper _ name => name
  | artifact kind path => identifier (kind.table ++ "_" ++ path)
  | demanded .base64Content _ => Declaration.base64Content.name
  | demanded .storageObject _ => Declaration.storageObject.name
  | demanded (.resourceType resourceType) member => identifier (resourceType ++ member.suffix)

/-- There is such a constant: sections have their own helpers, the section of the resources has no
artifacts, and a shared validator is a single constant. -/
def Fits : Constant → Prop
  | wrapper => True
  | helper kind name => name ∈ kind.helpers
  | artifact kind _ => kind ≠ .resources
  | demanded (.resourceType _) _ => True
  | demanded _ member => member = .own

/-- The text that the constant is named after, if its name is not fixed. -/
def text? : Constant → Option String
  | artifact kind path => some (kind.table ++ "_" ++ path)
  | demanded (.resourceType resourceType) member => some (resourceType ++ member.suffix)
  | _ => none

theorem name_of_text {c : Constant} {text : String} (h : c.text? = some text) :
    c.name = identifier text := by
  cases c with
  | wrapper => cases h
  | helper _ _ => cases h
  | artifact kind path => cases h; rfl
  | demanded d member => cases d <;> cases h; rfl

end Constant

/-! ## Fixed names -/

namespace Constant

/-- The constants that have fixed names. -/
def fixed : List Constant :=
  [wrapper, demanded .base64Content .own, demanded .storageObject .own] ++
    SectionKind.order.flatMap fun kind => kind.helpers.map (helper kind)

theorem mem_fixed {c : Constant} (hfits : c.Fits) (htext : c.text? = none) : c ∈ fixed := by
  cases c with
  | wrapper => exact List.mem_append_left _ List.mem_cons_self
  | helper kind name =>
    refine List.mem_append_right _ (List.mem_flatMap.mpr ⟨kind, ?_, List.mem_map_of_mem hfits⟩)
    cases kind <;> decide
  | artifact _ _ => cases htext
  | demanded d member =>
    cases d with
    | resourceType _ => cases htext
    | base64Content =>
      cases hfits
      exact List.mem_append_left _ (by simp)
    | storageObject =>
      cases hfits
      exact List.mem_append_left _ (by simp)

theorem nodup_fixed : (fixed.map name).Nodup := by decide

theorem underscore_not_mem_fixed : ∀ other ∈ fixed.map name, '_' ∉ other.toList := by decide

end Constant

/-! ## Names that the workspace gives -/

open Identifier

namespace Member

/-- The suffixes differ in their last two characters. -/
theorem suffix_inj {a b : String} {m n : Member} (h : a ++ m.suffix = b ++ n.suffix) :
    a = b ∧ m = n := by
  have hlists : a.toList ++ m.suffix.toList = b.toList ++ n.suffix.toList := by
    rw [← String.toList_append, h, String.toList_append]
  have hend : ∀ (text : List Char) (member : Member),
      (text ++ member.suffix.toList).reverse.take 2 = member.suffix.toList.reverse.take 2 := by
    intro text member
    cases member <;> simp [suffix]
  have hmembers : m.suffix.toList.reverse.take 2 = n.suffix.toList.reverse.take 2 := by
    rw [← hend a.toList m, hlists, hend]
  have hmember : m = n := by
    revert hmembers
    cases m <;> cases n <;> decide
  subst hmember
  exact ⟨String.toList_inj.mp (List.append_cancel_right hlists), rfl⟩

theorem underscore_mem (resourceType : String) (member : Member) :
    '_' ∈ (resourceType ++ member.suffix).toList := by
  rw [String.toList_append]
  refine List.mem_append_right _ ?_
  cases member <;> decide

/-- Behind the suffix of a type there is a digit in front only if the type opens with one. -/
theorem guarded_iff {resourceType : String} {member : Member} :
    Guarded (resourceType ++ member.suffix) ↔ OpensWithDigit resourceType := by
  have hsuffix : ¬ OpensWithDigit member.suffix := by cases member <;> decide
  rw [Identifier.guarded_iff_of_underscore (underscore_mem resourceType member)]
  unfold OpensWithDigit at hsuffix ⊢
  rw [String.toList_append]
  cases htext : resourceType.toList with
  | nil => simpa using hsuffix
  | cons c rest => simp

end Member

namespace SectionKind

theorem underscore_mem (kind : SectionKind) (path : String) :
    '_' ∈ (kind.table ++ "_" ++ path).toList := by
  simp

/-- The name of a table opens with a letter. -/
theorem not_guarded (kind : SectionKind) (path : String) :
    ¬ Guarded (kind.table ++ "_" ++ path) := by
  have hletter : ∃ c rest, kind.table.toList = c :: rest ∧ c.isDigit = false := by
    cases kind with
    | resources => exact ⟨'r', _, rfl, by decide⟩
    | scripts => exact ⟨'s', _, rfl, by decide⟩
    | flows => exact ⟨'f', _, rfl, by decide⟩
  obtain ⟨c, rest, htable, hdigit⟩ := hletter
  rw [guarded_iff_of_underscore (underscore_mem kind path), OpensWithDigit, String.toList_append,
    String.toList_append, htable]
  simp [hdigit]

theorem table_ne_underscore (kind : SectionKind) (path other : String) :
    kind.table ++ "_" ++ path ≠ "_" ++ other := by
  intro h
  have hlists := congrArg (fun text : String => text.toList.head?) h
  cases kind <;> simp [table] at hlists

/-- The tables differ in their first character, so table and path can be told from the text. -/
theorem table_inj {a b : SectionKind} {path other : String}
    (h : a.table ++ "_" ++ path = b.table ++ "_" ++ other) : a = b ∧ path = other := by
  have hlists := congrArg String.toList h
  have hkind : a = b := by
    have hheads := congrArg List.head? hlists
    revert hheads
    cases a <;> cases b <;> simp [table]
  subst hkind
  rw [String.toList_append] at hlists
  rw [String.toList_append (t := other)] at hlists
  exact ⟨rfl, String.toList_inj.mp (List.append_cancel_left hlists)⟩

end SectionKind

/-! ## Clashes -/

namespace Constant

/-- Two constants that share a name: those of two resource types of which one opens with a digit and
the other has an underscore in front of it; and that of an artifact whose path continues the name of
the table to the name of a resource type and its suffix. -/
inductive Clashes : Constant → Constant → Prop where
  | opening {resourceType : String} {member : Member} : OpensWithDigit resourceType →
      Clashes (demanded (.resourceType resourceType) member)
        (demanded (.resourceType ("_" ++ resourceType)) member)
  | path {kind : SectionKind} {path resourceType : String} {member : Member} :
      kind.table ++ "_" ++ path = resourceType ++ member.suffix →
        Clashes (artifact kind path) (demanded (.resourceType resourceType) member)

theorem Clashes.name_eq {a b : Constant} (h : a.Clashes b) : a.name = b.name := by
  cases h with
  | @opening resourceType member hdigit =>
    have hguarded : Guarded (resourceType ++ member.suffix) := Member.guarded_iff.mpr hdigit
    simp only [name]
    rw [identifier_of_guarded hguarded, String.append_assoc]
  | path heq => simp only [name, heq]

theorem Clashes.ne {a b : Constant} (h : a.Clashes b) : a ≠ b := by
  cases h with
  | @opening resourceType member hdigit =>
    intro heq
    simp only [demanded.injEq, Demand.resourceType.injEq, and_true] at heq
    have hlength := congrArg String.length heq
    simp [String.length_append] at hlength
  | path heq => exact fun h => nomatch h

/-- Of a type that opens with a digit and another text of a type: if they share an identifier, the
other type has an underscore in front. -/
theorem clashes_of_guarded {first second : String} {m n : Member}
    (hguarded : Guarded (first ++ m.suffix)) (h : second ++ n.suffix = "_" ++ (first ++ m.suffix)) :
    Clashes (demanded (.resourceType first) m) (demanded (.resourceType second) n) := by
  rw [← String.append_assoc] at h
  obtain ⟨rfl, rfl⟩ := Member.suffix_inj h
  exact .opening (Member.guarded_iff.mp hguarded)

/-- Constants named after texts share a name only if they clash. -/
theorem eq_or_clashes {a b : Constant} {s t : String} (ha : a.text? = some s) (hb : b.text? = some t)
    (h : identifier s = identifier t) : a = b ∨ a.Clashes b ∨ b.Clashes a := by
  have htext := identifier_eq_iff.mp h
  cases a with
  | wrapper => cases ha
  | helper _ _ => cases ha
  | artifact kind path =>
    cases ha
    have hplain := kind.not_guarded path
    cases b with
    | wrapper => cases hb
    | helper _ _ => cases hb
    | artifact kind' path' =>
      cases hb
      have hplain' := kind'.not_guarded path'
      rcases htext with heq | ⟨hguarded, -⟩ | ⟨hguarded, -⟩
      · obtain ⟨rfl, rfl⟩ := SectionKind.table_inj heq
        exact Or.inl rfl
      · exact absurd hguarded hplain
      · exact absurd hguarded hplain'
    | demanded d member =>
      cases d <;> cases hb
      rcases htext with heq | ⟨hguarded, -⟩ | ⟨-, heq⟩
      · exact Or.inr (Or.inl (.path heq))
      · exact absurd hguarded hplain
      · exact absurd heq (kind.table_ne_underscore path _)
  | demanded d member =>
    cases d <;> cases ha
    cases b with
    | wrapper => cases hb
    | helper _ _ => cases hb
    | artifact kind path =>
      cases hb
      have hplain := kind.not_guarded path
      rcases htext with heq | ⟨-, heq⟩ | ⟨hguarded, -⟩
      · exact Or.inr (Or.inr (.path heq.symm))
      · exact absurd heq (kind.table_ne_underscore path _)
      · exact absurd hguarded hplain
    | demanded d member' =>
      cases d <;> cases hb
      rcases htext with heq | ⟨hguarded, heq⟩ | ⟨hguarded, heq⟩
      · obtain ⟨rfl, rfl⟩ := Member.suffix_inj heq
        exact Or.inl rfl
      · exact Or.inr (Or.inl (clashes_of_guarded hguarded heq))
      · exact Or.inr (Or.inr (clashes_of_guarded hguarded heq))

theorem underscore_mem_name {c : Constant} {text : String} (h : c.text? = some text) :
    '_' ∈ c.name.toList := by
  rw [name_of_text h]
  refine underscore_mem_identifier ?_
  cases c with
  | wrapper => cases h
  | helper _ _ => cases h
  | artifact kind path => cases h; exact kind.underscore_mem path
  | demanded d member => cases d <;> cases h; exact Member.underscore_mem _ _

/-- A constant with a fixed name has not the name of one that the workspace names. -/
theorem fixed_ne {a b : Constant} {text : String} (hfits : a.Fits) (ha : a.text? = none)
    (hb : b.text? = some text) : a.name ≠ b.name := by
  intro h
  have hmem : a.name ∈ fixed.map name := List.mem_map_of_mem (mem_fixed hfits ha)
  exact underscore_not_mem_fixed _ hmem (h ▸ underscore_mem_name hb)

theorem valid_name {c : Constant} (h : c.Fits) : Identifier.Valid c.name := by
  cases htext : c.text? with
  | some text =>
    rw [name_of_text htext]
    exact identifier_valid text
  | none =>
    have hfixed : ∀ other ∈ fixed.map name, Identifier.Valid other := by decide
    exact hfixed _ (List.mem_map_of_mem (mem_fixed h htext))

theorem name_ne_z {c : Constant} (h : c.Fits) : c.name ≠ "z" := by
  cases htext : c.text? with
  | some text =>
    intro heq
    have hunderscore := underscore_mem_name htext
    rw [heq] at hunderscore
    exact absurd hunderscore (by decide)
  | none =>
    have hfixed : ∀ other ∈ fixed.map name, other ≠ "z" := by decide
    exact hfixed _ (List.mem_map_of_mem (mem_fixed h htext))

/-- Two constants share a name if and only if they are the same or clash. -/
theorem name_eq_iff {a b : Constant} (ha : a.Fits) (hb : b.Fits) :
    a.name = b.name ↔ a = b ∨ a.Clashes b ∨ b.Clashes a := by
  constructor
  · intro h
    cases hs : a.text? with
    | none =>
      cases ht : b.text? with
      | none =>
        exact Or.inl (List.inj_on_of_nodup_map nodup_fixed (mem_fixed ha hs) (mem_fixed hb ht) h)
      | some t => exact absurd h (fixed_ne ha hs ht)
    | some s =>
      cases ht : b.text? with
      | none => exact absurd h.symm (fixed_ne hb ht hs)
      | some t => exact eq_or_clashes hs ht (name_of_text hs ▸ name_of_text ht ▸ h)
  · rintro (rfl | h | h)
    · rfl
    · exact h.name_eq
    · exact h.name_eq.symm

/-- Different constants have different names exactly if no two of them clash. -/
theorem nodup_names_iff {constants : List Constant} (hfits : ∀ c ∈ constants, c.Fits)
    (hnodup : constants.Nodup) :
    (constants.map name).Nodup ↔ ∀ a ∈ constants, ∀ b ∈ constants, ¬ a.Clashes b := by
  rw [List.nodup_map_iff_inj_on hnodup]
  constructor
  · intro hinj a ha b hb h
    exact h.ne (hinj a ha b hb h.name_eq)
  · intro hclash a ha b hb h
    rcases (name_eq_iff (hfits a ha) (hfits b hb)).mp h with heq | h | h
    · exact heq
    · exact absurd h (hclash a ha b hb)
    · exact absurd h (hclash b hb a ha)

end Constant

end SchemaClient
