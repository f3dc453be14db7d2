/-
SchemaClient.Proofs.Path.Lexical — where the components of a path lead.

Components lead from one place to another by themselves, whatever is there: `..` takes the last name
off a place, and leaves the root as it is. Seen from a place, some components take a number of names
back and then add names of their own; both depend on the components alone.

* `FileTree.placeFrom` — where components lead from a place.
* `FileTree.exists_placeFrom` — what they take back from any place, and what they add.
* `FileTree.placeFrom_return` — as many steps up as there were components lead back to where they came
  from only if none of them was a step up: each of those takes two names too many.
* `FileTree.placeFrom_take_eq_iff` — when it makes no difference that names are missing at the start.
-/
import SchemaClient.Proofs.Files.Content
import SchemaClient.Proofs.Path.Components

namespace SchemaClient

namespace FileTree

open SchemaClient.Path (Component)

variable {place : Place} {steps : List Component}

/-- The place that components lead to from another; nothing need be there. -/
def placeFrom (place : Place) (steps : List Component) : Place := steps.foldl stepFrom place

theorem placeFrom_append (place : Place) (first second : List Component) :
    placeFrom place (first ++ second) = placeFrom (placeFrom place first) second :=
  List.foldl_append

theorem placeFrom_named (place : Place) (front : List Component) (name : String) :
    placeFrom place (front ++ [.named name]) = placeFrom place front ++ [name] :=
  placeFrom_append ..

theorem dropLast_take (place : Place) (n : Nat) :
    (place.take (place.length - n)).dropLast = place.take (place.length - (n + 1)) := by
  rw [List.dropLast_eq_take, List.length_take, List.take_take]
  exact congrArg (place.take ·) (by omega)

theorem placeFrom_replicate_up (place : Place) (n : Nat) :
    placeFrom place (List.replicate n .up) = place.take (place.length - n) := by
  induction n with
  | zero => simp [placeFrom]
  | succ n ih =>
    rw [List.replicate_succ', placeFrom_append, ih]
    exact dropLast_take place n

/-- Components that lead on take names back from the place where they begin, as many as it has, and
add others. Each of them adds a name, or it is a step up and takes back one that was added or was
there before. -/
theorem exists_placeFrom (h : ∀ c ∈ steps, c.Leads) :
    ∃ (back : Nat) (forth : List String), back ≤ steps.count .up ∧
      forth.length + 2 * steps.count .up = steps.length + back ∧
      ∀ place, placeFrom place steps = place.take (place.length - back) ++ forth := by
  induction steps using List.reverseRecOn with
  | nil => exact ⟨0, [], by simp [placeFrom]⟩
  | append_singleton front last ih =>
    obtain ⟨back, forth, hback, hlength, hplace⟩ := ih fun c hc => h c (by simp [hc])
    rw [List.count_append, List.length_append, List.length_singleton]
    cases h last (by simp) with
    | named hname =>
      rename_i name
      rw [List.count_singleton, if_neg (by simp)]
      refine ⟨back, forth ++ [name], hback, ?_, fun place => ?_⟩
      · rw [List.length_append, List.length_singleton]
        omega
      · rw [placeFrom_named, hplace, List.append_assoc]
    | up =>
      rw [List.count_singleton, if_pos (by simp)]
      have hstep : ∀ place, placeFrom place (front ++ [.up]) =
          (place.take (place.length - back) ++ forth).dropLast := fun place =>
        (placeFrom_append ..).trans (congrArg List.dropLast (hplace place))
      by_cases hforth : forth = []
      · subst hforth
        refine ⟨back + 1, [], by omega, ?_, fun place => ?_⟩
        · rw [List.length_nil] at hlength ⊢
          omega
        · rw [hstep, List.append_nil, List.append_nil, dropLast_take]
      · have hpositive := List.length_pos_iff.mpr hforth
        refine ⟨back, forth.dropLast, by omega, ?_, fun place => ?_⟩
        · rw [List.length_dropLast]
          omega
        · rw [hstep, List.dropLast_append_of_ne_nil hforth]

/-- A step up for each component leads back, less two names for each component that was itself a
step up. -/
theorem placeFrom_return (h : ∀ c ∈ steps, c.Leads) (place : Place) :
    placeFrom (placeFrom place steps) (List.replicate steps.length .up) =
      place.take (place.length - 2 * steps.count .up) := by
  obtain ⟨back, forth, hback, hlength, hplace⟩ := exists_placeFrom h
  rw [placeFrom_replicate_up, hplace, List.length_append, List.length_take, List.take_append,
    List.take_take, List.length_take]
  have hforth : forth.take (min (place.length - back) place.length + forth.length - steps.length -
      min (place.length - back) place.length) = [] :=
    List.take_eq_nil_iff.mpr (Or.inl (by omega))
  rw [hforth, List.append_nil]
  exact congrArg (place.take ·) (by omega)

section

variable (h : ∀ c ∈ steps, c.Leads) (place : Place) (k : Nat)
include h

/-- Names that are missing where components begin are missing where they lead to, unless all the names
there are taken back anyway. -/
theorem placeFrom_take_eq_iff :
    placeFrom (place.take (place.length - k)) steps = placeFrom place steps ↔
      k = 0 ∨ placeFrom place steps = placeFrom [] steps := by
  obtain ⟨back, forth, -, -, hplace⟩ := exists_placeFrom h
  rw [hplace, hplace place, hplace [], List.append_left_inj, List.append_left_inj, List.take_take,
    List.length_take, List.take_eq_take_iff, List.take_nil, List.take_eq_nil_iff,
    ← List.length_eq_zero_iff]
  omega

theorem placeFrom_take_of_length
    (hlength : (placeFrom (place.take (place.length - k)) steps).length =
      (placeFrom place steps).length) :
    placeFrom (place.take (place.length - k)) steps = placeFrom place steps := by
  obtain ⟨back, forth, -, -, hplace⟩ := exists_placeFrom h
  rw [hplace, hplace place, List.length_append, List.length_append] at hlength
  rw [hplace, hplace place, List.append_left_inj]
  rw [List.take_take, List.take_eq_take_iff]
  simp only [List.length_take] at hlength ⊢
  omega

end

end FileTree

end SchemaClient
