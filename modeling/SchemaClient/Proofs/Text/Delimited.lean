/-
SchemaClient.Proofs.Text.Delimited — where an embedded text ends.

A text that comes from outside stands in the generated file inside of quotes, or inside of brackets
that are closed after it. Whatever it contains, the place where it ends can be found again: a quoted
text ends at its closing quote, and a whole text before a bracket that it has not opened. The
statements have what follows on both sides of the equation, so they can be used one after the other
from the left.

* `quote_append_inj`, `quote_injective` — a quoted text determines what is quoted.
* `Whole.append_inj` — a whole text before a closing bracket.
-/
import SchemaClient.Proofs.Text.Reading

namespace SchemaClient

/-! ## Quoted texts -/

namespace Quoted

/-- The characters that are not written as they are. -/
def special : List Char := '"' :: '\\' :: (List.range 0x20).map Char.ofNat

theorem mem_special_of_lt {c : Char} (h : c.toNat < 0x20) : c ∈ special := by
  refine List.mem_cons_of_mem _ (List.mem_cons_of_mem _ (List.mem_map.mpr ⟨c.toNat, ?_, ?_⟩))
  · exact List.mem_range.mpr h
  · exact Char.ofNat_toNat c

theorem escape_of_not_special {c : Char} (h : c ∉ special) : escape c = [c] := by
  have hmark : ¬ (c = '"' ∨ c = '\\') := by
    rintro (rfl | rfl) <;> exact h (by decide)
  have hletter : shortLetter? c = none := by
    unfold shortLetter?
    split <;> first | rfl | exact absurd (by decide) h
  have hcontrol : ¬ c.toNat < 0x20 := fun hlt => h (mem_special_of_lt hlt)
  simp only [escape, if_neg hmark, hletter, if_neg hcontrol]

theorem head_escape_of_special : ∀ c ∈ special, (escape c).head? = some '\\' := by
  have hall : special.all (fun c => (escape c).head? == some '\\') = true := by decide
  simpa only [List.all_eq_true, beq_iff_eq] using hall

/-- Of the special characters none is written as the beginning of another. -/
theorem escape_prefix_free :
    ∀ c ∈ special, ∀ d ∈ special, escape c <+: escape d → c = d := by
  have hall : special.all (fun c =>
      special.all fun d => decide (escape c <+: escape d → c = d)) = true := by decide +kernel
  simpa only [List.all_eq_true, decide_eq_true_eq] using hall

theorem escape_append_ne {c d : Char} {s t : List Char} (hc : c ∈ special) (hd : d ∉ special) :
    escape c ++ s ≠ escape d ++ t := by
  intro h
  have hheads := congrArg List.head? h
  rw [escape_of_not_special hd, List.head?_append, head_escape_of_special c hc] at hheads
  have hslash : '\\' = d := by simpa using hheads
  exact hd (hslash ▸ by decide)

/-- What one character is written as tells it apart from every other, whatever follows. -/
theorem escape_append_inj {c d : Char} {s t : List Char} (h : escape c ++ s = escape d ++ t) :
    c = d ∧ s = t := by
  have hsame : c = d := by
    by_cases hc : c ∈ special <;> by_cases hd : d ∈ special
    · rcases List.append_eq_append_iff.mp h with ⟨rest, heq, -⟩ | ⟨rest, heq, -⟩
      · exact escape_prefix_free c hc d hd ⟨rest, heq.symm⟩
      · exact (escape_prefix_free d hd c hc ⟨rest, heq.symm⟩).symm
    · exact absurd h (escape_append_ne hc hd)
    · exact absurd h.symm (escape_append_ne hd hc)
    · rw [escape_of_not_special hc, escape_of_not_special hd] at h
      exact (List.cons.inj h).1
  subst hsame
  exact ⟨rfl, List.append_cancel_left h⟩

/-- No character is written with a quote in front. -/
theorem escape_append_ne_quote (c : Char) (s t : List Char) : escape c ++ s ≠ '"' :: t := by
  intro h
  by_cases hc : c ∈ special
  · have hheads := congrArg List.head? h
    rw [List.head?_append, head_escape_of_special c hc] at hheads
    exact absurd hheads (by simp)
  · rw [escape_of_not_special hc] at h
    exact hc ((List.cons.inj h).1 ▸ by decide)

/-- A quoted text ends at its closing quote. -/
theorem body_append_inj {a b s t : List Char} (h : body a ++ '"' :: s = body b ++ '"' :: t) :
    a = b ∧ s = t := by
  have hcons : ∀ (c : Char) (rest after : List Char),
      body (c :: rest) ++ after = escape c ++ (body rest ++ after) := fun c rest after => by
    rw [body, List.flatMap_cons, List.append_assoc]
    rfl
  induction a generalizing b with
  | nil =>
    cases b with
    | nil => exact ⟨rfl, (List.cons.inj h).2⟩
    | cons d b =>
      rw [hcons] at h
      exact absurd h.symm (escape_append_ne_quote d _ _)
  | cons c a ih =>
    cases b with
    | nil =>
      rw [hcons] at h
      exact absurd h (escape_append_ne_quote c _ _)
    | cons d b =>
      rw [hcons, hcons] at h
      obtain ⟨rfl, hrest⟩ := escape_append_inj h
      obtain ⟨rfl, hs⟩ := ih hrest
      exact ⟨rfl, hs⟩

end Quoted

theorem toList_quote (text : String) :
    (quote text).toList = '"' :: (Quoted.body text.toList ++ ['"']) := by
  rw [quote, String.toList_ofList]
  rfl

/-- A quoted text determines what is quoted, whatever follows. -/
theorem quote_append_inj {a b : String} {s t : List Char}
    (h : (quote a).toList ++ s = (quote b).toList ++ t) : a = b ∧ s = t := by
  simp only [toList_quote, List.cons_append, List.append_assoc, List.nil_append, List.cons.injEq,
    true_and] at h
  obtain ⟨hbody, hs⟩ := Quoted.body_append_inj h
  exact ⟨String.toList_inj.mp hbody, hs⟩

theorem quote_injective {a b : String} (h : quote a = quote b) : a = b := by
  refine (quote_append_inj (s := []) (t := []) ?_).1
  rw [h]

/-! ## Whole texts -/

/-- A character that closes a bracket. -/
def Balance.Closes (c : Char) : Prop := (Balance.code []).step c = none

instance (c : Char) : Decidable (Balance.Closes c) :=
  inferInstanceAs (Decidable (_ = none))

/-- A whole text does not begin with another one and a bracket that this has not opened. -/
theorem Whole.ne_append {x y : String} {c : Char} {rest : List Char} (hx : Whole x) (hy : Whole y)
    (hc : Balance.Closes c) : y.toList ≠ x.toList ++ c :: rest := by
  intro h
  have hread := hy.read
  rw [h, Balance.read_append, hx.read, Option.bind_some, Balance.read, hc] at hread
  cases hread

/-- A whole text ends before a bracket that it has not opened. -/
theorem Whole.append_inj {x y : String} {c : Char} {s t : List Char} (hx : Whole x) (hy : Whole y)
    (hc : Balance.Closes c) (h : x.toList ++ c :: s = y.toList ++ c :: t) : x = y ∧ s = t := by
  have hlists : x.toList = y.toList := by
    rcases List.append_eq_append_iff.mp h with ⟨rest, hlonger, hrest⟩ | ⟨rest, hlonger, hrest⟩
    · cases rest with
      | nil => rw [hlonger, List.append_nil]
      | cons d rest =>
        obtain rfl : c = d := (List.cons.inj hrest).1
        exact absurd hlonger (hx.ne_append hy hc)
    · cases rest with
      | nil => rw [hlonger, List.append_nil]
      | cons d rest =>
        obtain rfl : c = d := (List.cons.inj hrest).1
        exact absurd hlonger (hy.ne_append hx hc)
  refine ⟨String.toList_inj.mp hlists, ?_⟩
  rw [hlists] at h
  exact (List.cons.inj (List.append_cancel_left h)).2

end SchemaClient
