/-
SchemaClient.Proofs.Url.Endpoint — what an endpoint looks like as a URL.

* `push_of_isPlain` — a segment of ordinary characters is put on a path as it is.
* `foldl_push_keeps` — segments never take away more than the last one that was there before.
* `toList_text` — the characters of a URL: origin, path and query.
* `queryText_toString` — a number stands in a query as its digits.
-/
import Mathlib.Data.List.Basic
import SchemaClient.Url.Endpoint

namespace SchemaClient

namespace Url

theorem escaped_eq_self {keeps : Char → Bool} {text : List Char} (h : text.all keeps = true) :
    escaped keeps text = text := by
  have hkept : ∀ c ∈ text,
      (if keeps c then [c] else (Utf8.encode c.toString).flatMap escape) = [c] :=
    fun c hc => if_pos (List.all_eq_true.1 h c hc)
  rw [escaped, List.flatMap_congr hkept, List.flatMap_singleton']

/-- A number stands in a query as its digits. -/
theorem queryText_toString (n : Nat) : queryText (toString n).toList = Nat.toDigits 10 n := by
  have hdigits : (toString n).toList = Nat.toDigits 10 n := Nat.toList_repr
  have hkept : ∀ c ∈ Nat.toDigits 10 n,
      (if c = ' ' then ['+'] else escaped queryKeeps [c]) = [c] := by
    intro c hc
    have hdigit := Nat.isDigit_of_mem_toDigits (by decide) (by decide) hc
    rw [if_neg (by rintro rfl; cases hdigit), escaped_eq_self]
    simp [queryKeeps, Char.isAlphanum, hdigit]
  rw [hdigits, queryText, List.flatMap_congr hkept, List.flatMap_singleton']

end Url

namespace Endpoint

/-! ## Paths -/

/-- Whether a segment is put on a path as it is. -/
def isPlain (segment : String) : Bool :=
  segment != "." && segment != ".." && segment.toList.all Url.pathKeeps

theorem push_of_isPlain {segment : String} (h : isPlain segment = true) (path : List (List Char)) :
    push path segment = path ++ [segment.toList] := by
  simp only [isPlain, Bool.and_eq_true, bne_iff_ne] at h
  obtain ⟨⟨hdot, hdots⟩, hkeeps⟩ := h
  have hkept : (segment.toList.filter fun c => c != '\t' && c != '\n' && c != '\r') =
      segment.toList := by
    refine List.filter_eq_self.2 fun c hc => ?_
    have hne : ∀ gone, Url.pathKeeps gone = false → c ≠ gone := by
      rintro gone hgone rfl
      rw [List.all_eq_true.1 hkeeps c hc] at hgone
      cases hgone
    simp only [Bool.and_eq_true, bne_iff_ne]
    exact ⟨⟨hne _ (by decide), hne _ (by decide)⟩, hne _ (by decide)⟩
  have hnotDot : segment.toList ≠ ['.'] := fun heq => hdot (String.toList_inj.1 heq)
  have hnotDots : segment.toList ≠ ['.', '.'] := fun heq => hdots (String.toList_inj.1 heq)
  simp only [push, hkept, if_neg hnotDot, if_neg hnotDots, Url.escaped_eq_self hkeeps]
  rw [if_neg (not_or_intro hdot hdots)]

theorem foldl_push_of_isPlain {segments : List String} (h : segments.all isPlain = true)
    (path : List (List Char)) : segments.foldl push path = path ++ segments.map String.toList := by
  induction segments generalizing path with
  | nil => exact (List.append_nil path).symm
  | cons segment rest ih =>
    rw [List.all_cons, Bool.and_eq_true] at h
    rw [List.foldl_cons, push_of_isPlain h.1, ih h.2, List.append_assoc, List.map_cons]
    rfl

/-- A path goes on from these segments, of which the last may have become empty. -/
def Keeps (front : List (List Char)) (last : List Char) (path : List (List Char)) : Prop :=
  ∃ kept rest, path = front ++ kept :: rest ∧ (kept = last ∨ kept = [])

variable {front path : List (List Char)} {last : List Char}

theorem push_keeps (h : Keeps front last path) (segment : String) :
    Keeps front last (push path segment) := by
  obtain ⟨kept, rest, rfl, hkept⟩ := h
  unfold push
  split
  · exact ⟨kept, rest, rfl, hkept⟩
  dsimp only
  split
  · exact ⟨kept, rest ++ [[]], List.append_assoc .., hkept⟩
  split
  · rcases List.eq_nil_or_concat rest with rfl | ⟨rest', other, rfl⟩
    · -- a step up: the last segment is what it takes away
      rw [List.dropLast_concat]
      exact ⟨[], [], rfl, .inr rfl⟩
    · rw [List.concat_eq_append, ← List.cons_append, ← List.append_assoc, List.dropLast_concat,
        List.append_assoc]
      exact ⟨kept, rest' ++ [[]], rfl, hkept⟩
  · exact ⟨kept, rest ++ [_], List.append_assoc .., hkept⟩

/-- Whatever segments follow, of what is on a path only the last can be lost, and then an empty one
stands in its place. -/
theorem foldl_push_keeps (h : Keeps front last path) (segments : List String) :
    Keeps front last (segments.foldl push path) := by
  induction segments generalizing path with
  | nil => exact h
  | cons segment rest ih => exact ih (push_keeps h segment)

/-! ## Whole URLs -/

/-- A query as it stands behind the path. -/
def suffix (query : List (String × String)) : List Char :=
  if query.isEmpty then [] else '?' :: List.intercalate ['&'] (query.map pairText)

theorem toList_text {url : Endpoint} (hpath : url.path ≠ []) :
    url.text.toList =
      url.origin.text.toList ++ (url.path.flatMap ('/' :: ·) ++ suffix url.query) := by
  have hparts : url.path.flatMap ('/' :: ·) ≠ [] := by
    obtain ⟨first, others, heq⟩ := List.exists_cons_of_ne_nil hpath
    rw [heq]
    exact List.cons_ne_nil _ _
  rw [text, target, String.toList_append, String.toList_ofList, if_neg (by simpa using hparts)]
  rfl

end Endpoint

end SchemaClient
