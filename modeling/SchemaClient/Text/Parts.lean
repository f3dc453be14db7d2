/-
SchemaClient.Text.Parts — the parts of a text.

* `partsAt` — the parts between marks. There is always one part more than there are marks, so a part
  may be empty.
* `linesOf` — the lines. A line ends with a line feed, before which there may be a carriage return;
  neither belongs to it. What follows the last line feed is a line of its own unless it is empty.
* `trimmed` — what is between the blanks at either end. A blank is a character with the property
  White_Space.
-/

namespace SchemaClient

/-- The parts of a text between the characters that are marks. -/
def partsAt (isMark : Char → Bool) (text : List Char) : List (List Char) :=
  match text with
  | [] => [[]]
  | c :: rest =>
    if isMark c then [] :: partsAt isMark rest
    else match partsAt isMark rest with
      | [] => [[c]]
      | first :: others => (c :: first) :: others

theorem length_partsAt (isMark : Char → Bool) (text : List Char) :
    (partsAt isMark text).length = (text.filter isMark).length + 1 := by
  induction text with
  | nil => rfl
  | cons c rest ih =>
    by_cases h : isMark c = true
    · simp [partsAt, h, ih]
    · rcases hr : partsAt isMark rest with _ | ⟨first, others⟩
      · simp [hr] at ih
      · rw [hr] at ih
        simpa [partsAt, h, hr] using ih

theorem partsAt_ne_nil (isMark : Char → Bool) (text : List Char) : partsAt isMark text ≠ [] := by
  intro h
  have hlength := length_partsAt isMark text
  simp [h] at hlength

/-- The parts of two texts with a mark between them are the parts of the one and those of the
other. -/
theorem partsAt_append_mark {isMark : Char → Bool} {mark : Char} (hmark : isMark mark = true)
    (first second : List Char) :
    partsAt isMark (first ++ mark :: second) = partsAt isMark first ++ partsAt isMark second := by
  induction first with
  | nil => simp [partsAt, hmark]
  | cons c rest ih =>
    by_cases hc : isMark c = true
    · simp [partsAt, hc, ih]
    · obtain ⟨part, parts, hparts⟩ := List.exists_cons_of_ne_nil (partsAt_ne_nil isMark rest)
      simp [partsAt, hc, ih, hparts]

theorem partsAt_of_not_mark {isMark : Char → Bool} {text : List Char}
    (h : ∀ c ∈ text, isMark c = false) : partsAt isMark text = [text] := by
  induction text with
  | nil => rfl
  | cons c rest ih =>
    have hrest := ih fun d hd => h d (List.mem_cons_of_mem _ hd)
    simp [partsAt, h c List.mem_cons_self, hrest]

/-- No part has a mark. -/
theorem not_mark_of_mem_partsAt {isMark : Char → Bool} {text part : List Char} {c : Char}
    (hpart : part ∈ partsAt isMark text) (hc : c ∈ part) : isMark c = false := by
  induction text generalizing part with
  | nil =>
    rw [partsAt, List.mem_singleton] at hpart
    rw [hpart] at hc
    cases hc
  | cons d rest ih =>
    by_cases hd : isMark d = true
    · rw [partsAt, if_pos hd, List.mem_cons] at hpart
      rcases hpart with rfl | hpart
      · cases hc
      · exact ih hpart hc
    · obtain ⟨first, others, hparts⟩ := List.exists_cons_of_ne_nil (partsAt_ne_nil isMark rest)
      rw [partsAt, if_neg hd, hparts, List.mem_cons] at hpart
      rw [hparts] at ih
      rcases hpart with rfl | hpart
      · rcases List.mem_cons.mp hc with rfl | hc
        · simpa using hd
        · exact ih List.mem_cons_self hc
      · exact ih (List.mem_cons_of_mem _ hpart) hc

example : partsAt (· == '/') ['a', '/', '/', 'b'] = [['a'], [], ['b']] := by decide

/-! ## Lines -/

/-- A line without the carriage return at its end. -/
def withoutReturn (line : List Char) : List Char :=
  if line.getLast? = some '\r' then line.dropLast else line

/-- The lines of a text. -/
def linesOf (text : List Char) : List (List Char) :=
  let parts := partsAt (· == '\n') text
  parts.dropLast.map withoutReturn ++ (parts.getLast?.filter (!·.isEmpty)).toList

example : linesOf ['a', '\r', '\n', '\n', 'b', '\r'] = [['a'], [], ['b', '\r']] := by decide

/-! ## Blanks -/

/-- Whether a character is a blank. -/
def isBlank (c : Char) : Bool :=
  let n := c.toNat
  (0x09 ≤ n && n ≤ 0x0D) || n == 0x20 || n == 0x85 || n == 0xA0 || n == 0x1680 ||
    (0x2000 ≤ n && n ≤ 0x200A) || n == 0x2028 || n == 0x2029 || n == 0x202F || n == 0x205F ||
    n == 0x3000

example (c : Char) (h : c.isWhitespace) : isBlank c := by
  simp only [Char.isWhitespace, Bool.or_eq_true, decide_eq_true_eq] at h
  rcases h with ((h | h) | h) | h <;> subst h <;> decide

/-- A text without the blanks at either end. -/
def trimmed (text : List Char) : List Char :=
  ((text.dropWhile isBlank).reverse.dropWhile isBlank).reverse

end SchemaClient
