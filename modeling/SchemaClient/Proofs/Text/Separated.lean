/-
SchemaClient.Proofs.Text.Separated — lists that are written with commas.

The elements of a list are written one after the other, with a comma in between. Nothing marks where
an element ends. But if the text of each element determines the element, as long as what follows does
not continue a chain, then the list is determined too: a comma does not continue one, and what follows
the list does not begin with a comma.

* `Apart` — elements that are told apart by their texts.
* `intercalate_append_inj`, `intercalate_inj` — the list is determined by its text.
-/
import SchemaClient.Proofs.Text.Chain

namespace SchemaClient

theorem stops_comma (s : List Char) : Stops (", ".toList ++ s) := stops_cons (by decide) (by decide)

/-- What follows a list of chains: it continues neither the last chain nor the list. -/
def Ends (s : List Char) : Prop := Stops s ∧ s.head? ≠ some ','

theorem Ends.ne_comma {s : List Char} (h : Ends s) (t : List Char) : s ≠ ", ".toList ++ t := by
  rintro rfl
  exact h.2 rfl

section

variable {α β : Type} {print : α → String} {key : α → β} {a b : α} {as bs : List α}
  {s t : List Char}

/-- The text of an element determines its key and ends where it does, unless a chain goes on. -/
def Apart (print : α → String) (key : α → β) (a b : α) : Prop :=
  ∀ ⦃s t : List Char⦄, Stops s → Stops t → (print a).toList ++ s = (print b).toList ++ t →
    key a = key b ∧ s = t

theorem toList_intercalate_cons (print : α → String) (a a' : α) (as : List α) (s : List Char) :
    (String.intercalate ", " ((a :: a' :: as).map print)).toList ++ s = (print a).toList ++
      (", ".toList ++ ((String.intercalate ", " ((a' :: as).map print)).toList ++ s)) := by
  rw [List.map_cons, List.map_cons, String.intercalate_cons_cons, ← List.map_cons]
  simp only [String.toList_append, List.append_assoc]

/-- A list that is not empty is determined by its text, whatever ends it. -/
theorem intercalate_append_inj (hapart : ∀ x ∈ a :: as, ∀ y ∈ b :: bs, Apart print key x y)
    (hs : Ends s) (ht : Ends t)
    (h : (String.intercalate ", " ((a :: as).map print)).toList ++ s =
      (String.intercalate ", " ((b :: bs).map print)).toList ++ t) :
    (a :: as).map key = (b :: bs).map key ∧ s = t := by
  have hone : ∀ x : α, String.intercalate ", " ([x].map print) = print x := fun _ =>
    String.intercalate_singleton
  induction as generalizing a b bs with
  | nil =>
    have hfirst := hapart a List.mem_cons_self b List.mem_cons_self
    cases bs with
    | nil =>
      rw [hone, hone] at h
      obtain ⟨hkey, hrest⟩ := hfirst hs.1 ht.1 h
      exact ⟨congrArg (· :: []) hkey, hrest⟩
    | cons b' bs =>
      rw [hone, toList_intercalate_cons] at h
      exact absurd (hfirst hs.1 (stops_comma _) h).2 (hs.ne_comma _)
  | cons a' as ih =>
    have hfirst := hapart a List.mem_cons_self b List.mem_cons_self
    cases bs with
    | nil =>
      rw [hone, toList_intercalate_cons] at h
      exact absurd (hfirst (stops_comma _) ht.1 h).2.symm (ht.ne_comma _)
    | cons b' bs =>
      rw [toList_intercalate_cons, toList_intercalate_cons] at h
      obtain ⟨hkey, hrest⟩ := hfirst (stops_comma _) (stops_comma _) h
      have hothers : ∀ x ∈ a' :: as, ∀ y ∈ b' :: bs, Apart print key x y := fun x hx y hy =>
        hapart x (List.mem_cons_of_mem _ hx) y (List.mem_cons_of_mem _ hy)
      obtain ⟨hkeys, hend⟩ := ih hothers (List.append_cancel_left hrest)
      exact ⟨by rw [List.map_cons, hkey, hkeys, ← List.map_cons], hend⟩

theorem intercalate_cons_ne_empty (hne : print a ≠ "") :
    String.intercalate ", " ((a :: as).map print) ≠ "" := by
  intro hempty
  have hlist := congrArg String.toList hempty
  cases as with
  | nil => exact hne (String.intercalate_singleton.symm.trans hempty)
  | cons a' as =>
    have htext := toList_intercalate_cons print a a' as []
    rw [hlist] at htext
    simp at htext

/-- If no element is written as nothing, the list is determined by its text. -/
theorem intercalate_inj (hapart : ∀ x ∈ as, ∀ y ∈ bs, Apart print key x y)
    (has : ∀ x ∈ as, print x ≠ "") (hbs : ∀ y ∈ bs, print y ≠ "")
    (h : String.intercalate ", " (as.map print) = String.intercalate ", " (bs.map print)) :
    as.map key = bs.map key := by
  have hend : Ends [] := ⟨stops_nil, by simp⟩
  cases as with
  | nil =>
    cases bs with
    | nil => rfl
    | cons b bs => exact absurd h.symm (intercalate_cons_ne_empty (hbs b List.mem_cons_self))
  | cons a as =>
    cases bs with
    | nil => exact absurd h (intercalate_cons_ne_empty (has a List.mem_cons_self))
    | cons b bs =>
      exact (intercalate_append_inj hapart hend hend
        (congrArg (fun text => text.toList ++ []) h)).1

end

end SchemaClient
