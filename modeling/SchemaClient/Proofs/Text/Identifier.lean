/-
SchemaClient.Proofs.Text.Identifier — what identifiers look like, and when two texts share one.

Every text becomes a valid identifier. Escaping loses nothing, but the underscore that is put in
front of some texts can also be part of a text. So two texts share an identifier if one of them needs
the underscore and the other is the same text with an underscore in front, and only then.

* `Identifier.Valid`, `identifier_valid` — a valid identifier, and every identifier is one.
* `Identifier.hex_injective`, `Identifier.escaped_injective` — escaping loses nothing.
* `Identifier.Guarded` — the texts that need an underscore in front.
* `Identifier.guarded_iff` — they are empty, open with a digit or are reserved words.
* `identifier_eq_iff` — when two texts have the same identifier.
* `identifier_shared_iff` — which different texts have.
-/
import Mathlib.Data.List.Basic
import SchemaClient.Text.Identifier

namespace SchemaClient

namespace Identifier

/-! ## Characters -/

/-- The characters that may stand in an identifier. -/
def isPart (c : Char) : Bool := c.isAlphanum || c == '_' || c == '$'

theorem isPart_of_isPlain {c : Char} (h : isPlain c = true) : isPart c = true := by
  unfold isPlain at h
  simp only [isPart, h, Bool.true_or]

theorem isPlain_digitChar : ∀ n < 16, isPlain (Nat.digitChar n) = true := by decide

theorem digitChar_injective :
    ∀ m < 16, ∀ n < 16, Nat.digitChar m = Nat.digitChar n → m = n := by decide

theorem hex_of_lt {n : Nat} (h : n < 16) : hex n = [Nat.digitChar n] :=
  Nat.toDigits_of_lt_base h

theorem hex_of_le {n : Nat} (h : 16 ≤ n) :
    hex n = hex (n / 16) ++ [Nat.digitChar (n % 16)] :=
  Nat.toDigits_of_base_le (by decide) h

theorem isPlain_of_mem_hex {n : Nat} {c : Char} (hc : c ∈ hex n) : isPlain c = true := by
  induction n using Nat.strongRecOn with
  | ind n ih =>
    by_cases hlt : n < 16
    · rw [hex_of_lt hlt, List.mem_singleton] at hc
      rw [hc]
      exact isPlain_digitChar n hlt
    · rw [hex_of_le (by omega), List.mem_append, List.mem_singleton] at hc
      rcases hc with hc | rfl
      · exact ih (n / 16) (by omega) hc
      · exact isPlain_digitChar _ (by omega)

theorem dollar_not_mem_hex (n : Nat) : '$' ∉ hex n := by
  intro hmem
  exact absurd (isPlain_of_mem_hex hmem) (by decide)

/-- The digits determine the number. -/
theorem hex_injective {m n : Nat} (h : hex m = hex n) : m = n := by
  have hne : ∀ k, hex k ≠ [] := fun k => Nat.toDigits_ne_nil
  induction m using Nat.strongRecOn generalizing n with
  | ind m ih =>
    by_cases hm : m < 16 <;> by_cases hn : n < 16
    · rw [hex_of_lt hm, hex_of_lt hn] at h
      exact digitChar_injective m hm n hn (List.singleton_inj.mp h)
    · rw [hex_of_lt hm, hex_of_le (n := n) (by omega)] at h
      have hlength := congrArg List.length h
      simp [hne] at hlength
    · rw [hex_of_le (n := m) (by omega), hex_of_lt hn] at h
      have hlength := congrArg List.length h
      simp [hne] at hlength
    · rw [hex_of_le (n := m) (by omega), hex_of_le (n := n) (by omega)] at h
      obtain ⟨hinit, hlast⟩ := List.append_inj' h rfl
      have hquotient : m / 16 = n / 16 := ih (m / 16) (by omega) hinit
      have hremainder : m % 16 = n % 16 :=
        digitChar_injective _ (by omega) _ (by omega) (List.singleton_inj.mp hlast)
      omega

/-! ## Escaped texts -/

/-- The characters of a text, each as it is written in an identifier. -/
def escaped (text : List Char) : List Char := text.flatMap escape

@[simp] theorem escaped_nil : escaped [] = [] := rfl

@[simp] theorem escaped_cons (c : Char) (text : List Char) :
    escaped (c :: text) = escape c ++ escaped text := rfl

theorem escape_of_isPlain {c : Char} (h : isPlain c = true) : escape c = [c] := by
  simp [escape, h]

theorem escape_of_not_isPlain {c : Char} (h : isPlain c ≠ true) :
    escape c = '$' :: (hex c.toNat ++ ['$']) := by
  simp [escape, h]

theorem isPart_of_mem_escaped {text : List Char} {c : Char} (hc : c ∈ escaped text) :
    isPart c = true := by
  obtain ⟨d, -, hc⟩ := List.mem_flatMap.mp hc
  by_cases hplain : isPlain d = true
  · rw [escape_of_isPlain hplain, List.mem_singleton] at hc
    rw [hc]
    exact isPart_of_isPlain hplain
  · rw [escape_of_not_isPlain hplain] at hc
    simp only [List.mem_cons, List.mem_append, List.not_mem_nil, or_false] at hc
    rcases hc with rfl | hc | rfl
    · decide
    · exact isPart_of_isPlain (isPlain_of_mem_hex hc)
    · decide

/-- Where a mark stands that neither of two texts has, they end in the same place. -/
theorem append_mark_inj {mark : Char} {a b s t : List Char} (ha : mark ∉ a) (hb : mark ∉ b)
    (h : a ++ mark :: s = b ++ mark :: t) : a = b ∧ s = t := by
  induction a generalizing b with
  | nil =>
    cases b with
    | nil => simpa using h
    | cons c b =>
      simp only [List.nil_append, List.cons_append, List.cons.injEq] at h
      exact absurd (h.1 ▸ List.mem_cons_self) hb
  | cons c a ih =>
    cases b with
    | nil =>
      simp only [List.nil_append, List.cons_append, List.cons.injEq] at h
      exact absurd (h.1 ▸ List.mem_cons_self) ha
    | cons d b =>
      simp only [List.cons_append, List.cons.injEq] at h
      obtain ⟨rfl, hrest⟩ := h
      have ha' : mark ∉ a := fun hmem => ha (List.mem_cons_of_mem _ hmem)
      have hb' : mark ∉ b := fun hmem => hb (List.mem_cons_of_mem _ hmem)
      obtain ⟨rfl, hs⟩ := ih ha' hb' hrest
      exact ⟨rfl, hs⟩

/-- What one character is written as tells it apart from every other, whatever follows. -/
theorem escape_append_inj {c d : Char} {s t : List Char} (h : escape c ++ s = escape d ++ t) :
    c = d ∧ s = t := by
  by_cases hc : isPlain c = true <;> by_cases hd : isPlain d = true
  · rw [escape_of_isPlain hc, escape_of_isPlain hd] at h
    simpa using h
  · rw [escape_of_isPlain hc, escape_of_not_isPlain hd] at h
    simp only [List.cons_append, List.nil_append, List.cons.injEq] at h
    exact absurd (h.1 ▸ hc) (by decide)
  · rw [escape_of_not_isPlain hc, escape_of_isPlain hd] at h
    simp only [List.cons_append, List.nil_append, List.cons.injEq] at h
    exact absurd (h.1 ▸ hd) (by decide)
  · rw [escape_of_not_isPlain hc, escape_of_not_isPlain hd] at h
    simp only [List.cons_append, List.append_assoc, List.nil_append, List.cons.injEq,
      true_and] at h
    obtain ⟨hhex, hs⟩ := append_mark_inj (dollar_not_mem_hex _) (dollar_not_mem_hex _) h
    exact ⟨Char.toNat_inj.mp (hex_injective hhex), hs⟩

theorem escape_ne_nil (c : Char) : escape c ≠ [] := by
  unfold escape
  split <;> exact List.cons_ne_nil _ _

/-- Escaping loses nothing. -/
theorem escaped_injective {a b : List Char} (h : escaped a = escaped b) : a = b := by
  induction a generalizing b with
  | nil =>
    cases b with
    | nil => rfl
    | cons d b =>
      rw [escaped_nil, escaped_cons] at h
      exact absurd (List.append_eq_nil_iff.mp h.symm).1 (escape_ne_nil d)
  | cons c a ih =>
    cases b with
    | nil =>
      rw [escaped_nil, escaped_cons] at h
      exact absurd (List.append_eq_nil_iff.mp h).1 (escape_ne_nil c)
    | cons d b =>
      obtain ⟨rfl, hrest⟩ := escape_append_inj h
      rw [ih hrest]

/-! ## Valid identifiers -/

/-- A name that can be declared: not empty, made of letters, digits, underscores and dollar signs,
not opening with a digit, and no reserved word. -/
structure Valid (name : String) : Prop where
  nonempty : name ≠ ""
  isPart : ∀ c ∈ name.toList, isPart c = true
  opening : ∀ c ∈ name.toList.head?, c.isDigit = false
  unreserved : name ∉ reserved

instance (name : String) : Decidable (Valid name) :=
  decidable_of_iff (name ≠ "" ∧ name.toList.all Identifier.isPart = true ∧
      (name.toList.head?.all fun c => !c.isDigit) = true ∧ name ∉ reserved)
    ⟨fun ⟨hnonempty, hall, hopening, hunreserved⟩ =>
      ⟨hnonempty, List.all_eq_true.mp hall, by simpa [Option.all_eq_true] using hopening,
        hunreserved⟩,
      fun h => ⟨h.nonempty, List.all_eq_true.mpr h.isPart,
        by simpa [Option.all_eq_true] using h.opening, h.unreserved⟩⟩

theorem reserved_plain : ∀ word ∈ reserved, ∀ c ∈ word.toList, c.isLower = true := by
  have hall : (reserved.all fun word => word.toList.all Char.isLower) = true := by decide
  intro word hword c hc
  exact List.all_eq_true.mp (List.all_eq_true.mp hall word hword) c hc

/-- A reserved word is not changed by escaping. -/
theorem escaped_of_reserved {word : String} (h : word ∈ reserved) :
    escaped word.toList = word.toList := by
  have hplain : ∀ c ∈ word.toList, escape c = [c] := by
    intro c hc
    have halpha : c.isAlpha = true :=
      (Bool.or_eq_true _ _).mpr (Or.inr (reserved_plain word h c hc))
    refine escape_of_isPlain ?_
    simp only [isPlain, Char.isAlphanum, halpha, Bool.true_or]
  rw [escaped, List.flatMap_congr hplain, List.flatMap_singleton']

/-- No reserved word has an underscore. -/
theorem not_reserved_of_underscore {word : String} (h : '_' ∈ word.toList) : word ∉ reserved := by
  intro hmem
  have hlower := reserved_plain word hmem '_' h
  exact absurd hlower (by decide)

end Identifier

open Identifier

/-- Every text becomes a valid identifier. -/
theorem identifier_valid (text : String) : Valid (identifier text) := by
  by_cases hguard : needsGuard (escaped text.toList) = true
  · have hlist : (identifier text).toList = '_' :: escaped text.toList := by
      rw [identifier, String.toList_ofList]
      exact if_pos hguard
    refine ⟨fun h => ?_, ?_, ?_, ?_⟩
    · rw [h] at hlist
      cases hlist
    · intro c hc
      rw [hlist, List.mem_cons] at hc
      rcases hc with rfl | hc
      · decide
      · exact isPart_of_mem_escaped hc
    · intro c hc
      rw [hlist] at hc
      cases hc
      decide
    · exact not_reserved_of_underscore (hlist ▸ List.mem_cons_self)
  · have hlist : (identifier text).toList = escaped text.toList := by
      rw [identifier, String.toList_ofList]
      exact if_neg hguard
    cases hescaped : escaped text.toList with
    | nil =>
      rw [hescaped] at hguard
      exact absurd rfl hguard
    | cons first rest =>
      rw [hescaped] at hguard hlist
      simp only [needsGuard, Bool.or_eq_true, not_or, Bool.not_eq_true] at hguard
      refine ⟨fun h => ?_, ?_, ?_, fun hmem => ?_⟩
      · rw [h] at hlist
        cases hlist
      · intro c hc
        rw [hlist, ← hescaped] at hc
        exact isPart_of_mem_escaped hc
      · intro c hc
        rw [hlist] at hc
        cases hc
        exact hguard.1
      · have hname : identifier text = String.ofList (first :: rest) := by
          rw [← hlist, String.ofList_toList]
        rw [hname] at hmem
        simp only [List.contains_eq_mem, hmem, decide_true] at hguard
        exact absurd hguard.2 (by decide)

namespace Identifier

/-! ## Shared identifiers -/

/-- The texts that an underscore is put in front of: the empty one, those that open with a digit, and
the reserved words. -/
def Guarded (text : String) : Prop := needsGuard (escaped text.toList) = true

instance (text : String) : Decidable (Guarded text) := inferInstanceAs (Decidable (_ = true))

theorem toList_of_guarded {text : String} (h : Guarded text) :
    (identifier text).toList = '_' :: escaped text.toList := by
  rw [identifier, String.toList_ofList]
  exact if_pos h

theorem toList_of_not_guarded {text : String} (h : ¬ Guarded text) :
    (identifier text).toList = escaped text.toList := by
  rw [identifier, String.toList_ofList]
  exact if_neg h

theorem underscore_mem_escaped {text : List Char} (h : '_' ∈ text) : '_' ∈ escaped text :=
  List.mem_flatMap.mpr ⟨'_', h, by decide⟩

theorem underscore_mem_identifier {text : String} (h : '_' ∈ text.toList) :
    '_' ∈ (identifier text).toList := by
  have hescaped := underscore_mem_escaped h
  by_cases hguarded : Guarded text
  · rw [toList_of_guarded hguarded]
    exact List.mem_cons_of_mem _ hescaped
  · rw [toList_of_not_guarded hguarded]
    exact hescaped

/-- A text opens with a digit. -/
def OpensWithDigit (text : String) : Prop := text.toList.head?.any Char.isDigit = true

instance (text : String) : Decidable (OpensWithDigit text) :=
  inferInstanceAs (Decidable (_ = true))

/-- The texts that need an underscore can be told without escaping them: what is escaped opens with a
dollar sign, which is no digit, and every character of a reserved word is plain. -/
theorem guarded_iff {text : String} :
    Guarded text ↔ text = "" ∨ OpensWithDigit text ∨ text ∈ reserved := by
  have hreserved : String.ofList (escaped text.toList) ∈ reserved ↔ text ∈ reserved := by
    constructor
    · intro h
      have hword : escaped (escaped text.toList) = escaped text.toList := by
        simpa only [String.toList_ofList] using escaped_of_reserved h
      rwa [escaped_injective hword, String.ofList_toList] at h
    · intro h
      rwa [escaped_of_reserved h, String.ofList_toList]
  unfold Guarded OpensWithDigit
  cases htext : text.toList with
  | nil =>
    have hempty : text = "" := String.toList_inj.mp htext
    simp [needsGuard, hempty]
  | cons c rest =>
    have hne : text ≠ "" := by
      rintro rfl
      cases htext
    have hopening : ∃ more, ∃ first, escaped (c :: rest) = first :: more ∧
        first.isDigit = c.isDigit := by
      by_cases hplain : isPlain c = true
      · exact ⟨escaped rest, c, by rw [escaped_cons, escape_of_isPlain hplain]; rfl, rfl⟩
      · have hdigit : c.isDigit = false := by
          simp only [isPlain, Char.isAlphanum, Bool.or_eq_true, not_or, Bool.not_eq_true] at hplain
          exact hplain.1.2
        refine ⟨hex c.toNat ++ ['$'] ++ escaped rest, '$', ?_, by rw [hdigit]; decide⟩
        rw [escaped_cons, escape_of_not_isPlain hplain]
        rfl
    obtain ⟨more, first, hescaped, hfirst⟩ := hopening
    rw [htext, hescaped] at hreserved
    rw [hescaped, needsGuard, Bool.or_eq_true, hfirst, List.contains_iff_mem, hreserved]
    simp [hne]

/-- No reserved word has an underscore, so a text with one needs another only to hide a digit. -/
theorem guarded_iff_of_underscore {text : String} (h : '_' ∈ text.toList) :
    Guarded text ↔ OpensWithDigit text := by
  have hne : text ≠ "" := by
    rintro rfl
    cases h
  rw [guarded_iff]
  simp [hne, not_reserved_of_underscore h]

/-- With an underscore in front no text needs another. -/
theorem not_guarded_underscore (text : String) : ¬ Guarded ("_" ++ text) := by
  have hlist : ("_" ++ text).toList = '_' :: text.toList := by simp
  have hmem : '_' ∈ ("_" ++ text).toList := hlist ▸ List.mem_cons_self
  rw [guarded_iff_of_underscore hmem, OpensWithDigit, hlist]
  exact Bool.false_ne_true

end Identifier

/-- Of a text that needs an underscore the identifier is that of the text with one. -/
theorem identifier_of_guarded {text : String} (h : Guarded text) :
    identifier text = identifier ("_" ++ text) := by
  have hlist : ("_" ++ text).toList = '_' :: text.toList := by simp
  have hunderscore : escape '_' = ['_'] := rfl
  refine String.toList_inj.mp ?_
  rw [toList_of_guarded h, toList_of_not_guarded (not_guarded_underscore text), hlist,
    escaped_cons, hunderscore]
  rfl

/-- Two texts share an identifier exactly if they are the same, up to an underscore in front of one
that needs it. -/
theorem identifier_eq_iff {a b : String} :
    identifier a = identifier b ↔
      a = b ∨ (Guarded a ∧ b = "_" ++ a) ∨ (Guarded b ∧ a = "_" ++ b) := by
  have hsame : ∀ {c d : String}, ¬ Guarded c → ¬ Guarded d → identifier c = identifier d →
      c = d := by
    intro c d hc hd h
    have hlists := congrArg String.toList h
    rw [toList_of_not_guarded hc, toList_of_not_guarded hd] at hlists
    exact String.toList_inj.mp (escaped_injective hlists)
  constructor
  · intro h
    by_cases ha : Guarded a <;> by_cases hb : Guarded b
    · have hlists := congrArg String.toList h
      rw [toList_of_guarded ha, toList_of_guarded hb, List.cons.injEq] at hlists
      exact Or.inl (String.toList_inj.mp (escaped_injective hlists.2))
    · rw [identifier_of_guarded ha] at h
      exact Or.inr (Or.inl ⟨ha, (hsame (not_guarded_underscore a) hb h).symm⟩)
    · rw [identifier_of_guarded hb] at h
      exact Or.inr (Or.inr ⟨hb, hsame ha (not_guarded_underscore b) h⟩)
    · exact Or.inl (hsame ha hb h)
  · rintro (rfl | ⟨ha, rfl⟩ | ⟨hb, rfl⟩)
    · rfl
    · exact identifier_of_guarded ha
    · exact (identifier_of_guarded hb).symm

theorem ne_underscore_append (text : String) : text ≠ "_" ++ text := by
  intro h
  have hlength := congrArg (fun text => text.toList.length) h
  simp at hlength

/-- Two different texts share an identifier exactly if one of them is the other with an underscore in
front, and the other is empty, opens with a digit or is a reserved word. -/
theorem identifier_shared_iff (a b : String) :
    (a ≠ b ∧ identifier a = identifier b) ↔
      (b = "_" ++ a ∧ (a = "" ∨ OpensWithDigit a ∨ a ∈ reserved)) ∨
        (a = "_" ++ b ∧ (b = "" ∨ OpensWithDigit b ∨ b ∈ reserved)) := by
  rw [identifier_eq_iff, guarded_iff, guarded_iff]
  constructor
  · rintro ⟨hne, rfl | ⟨hguard, rfl⟩ | ⟨hguard, rfl⟩⟩
    · exact absurd rfl hne
    · exact Or.inl ⟨rfl, hguard⟩
    · exact Or.inr ⟨rfl, hguard⟩
  · rintro (⟨rfl, hguard⟩ | ⟨rfl, hguard⟩)
    · exact ⟨ne_underscore_append a, Or.inr (Or.inl ⟨hguard, rfl⟩)⟩
    · exact ⟨(ne_underscore_append b).symm, Or.inr (Or.inr ⟨hguard, rfl⟩)⟩

/-- A text that opens with a digit, and the same text with an underscore. -/
example : identifier "3d" = identifier "_3d" := identifier_of_guarded (by decide)

end SchemaClient
