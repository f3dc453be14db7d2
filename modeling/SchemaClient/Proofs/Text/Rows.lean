/-
SchemaClient.Proofs.Text.Rows — the rows of a text and the constants that they declare.

* `rows` — what stands between the line feeds of a text.
* `rows_linesText` — the rows of a text that was written line by line.
* `constants` — the constants that a text declares at its left margin.
* `constants_linesText` — they are those of its lines, one after the other.
-/
import SchemaClient.Proofs.Run.Output
import SchemaClient.Text.Parts

namespace SchemaClient

/-! ## Rows -/

/-- What stands between the line feeds of a text. -/
def rows (text : String) : List (List Char) := partsAt (· == '\n') text.toList

theorem rows_append_feed (first second : String) :
    rows (first ++ "\n" ++ second) = rows first ++ rows second := by
  have hlist : (first ++ "\n" ++ second).toList = first.toList ++ '\n' :: second.toList := by simp
  rw [rows, hlist, partsAt_append_mark (by decide)]
  rfl

/-- A text without line feeds is one row. -/
theorem rows_of_not_mem {text : String} (h : '\n' ∉ text.toList) : rows text = [text.toList] := by
  have hnone : ∀ c ∈ text.toList, (c == '\n') = false := by
    intro c hc
    have hne : c ≠ '\n' := fun heq => h (heq ▸ hc)
    simpa using hne
  exact partsAt_of_not_mark hnone

/-- A text that was written line by line has the rows of its lines, and an empty one at the end. -/
theorem rows_linesText (lines : List String) :
    rows (Outlet.linesText lines) = lines.flatMap rows ++ [[]] := by
  induction lines with
  | nil => rfl
  | cons line rest ih =>
    rw [Outlet.linesText, rows_append_feed, ih, List.flatMap_cons, List.append_assoc]

/-! ## Constants -/

/-- What follows a word at the left margin. -/
def following? (word row : List Char) : Option (List Char) :=
  if word.isPrefixOf row then some (row.drop word.length) else none

/-- The constant that a row declares at the left margin: the word after `const`. -/
def constant? (row : List Char) : Option String :=
  ((following? "const ".toList row).orElse fun _ => following? "export const ".toList row).map
    fun rest => String.ofList (rest.takeWhile (· != ' '))

/-- The constants that a text declares at its left margin, from top to bottom. -/
def constants (text : String) : List String := (rows text).filterMap constant?

theorem constants_append_feed (first second : String) :
    constants (first ++ "\n" ++ second) = constants first ++ constants second := by
  rw [constants, rows_append_feed, List.filterMap_append]
  rfl

theorem constants_linesText (lines : List String) :
    constants (Outlet.linesText lines) = lines.flatMap constants := by
  have hempty : [[]].filterMap constant? = [] := by decide
  rw [constants, rows_linesText, List.filterMap_append, hempty, List.append_nil,
    List.filterMap_flatMap]
  rfl

theorem following?_append (word rest : List Char) : following? word (word ++ rest) = some rest := by
  simp [following?]

/-- A row that begins with another character than a word does not have that word at its margin. -/
theorem following?_of_head {word row : List Char} {c d : Char} (hword : word.head? = some c)
    (hrow : row.head? = some d) (hne : d ≠ c) : following? word row = none := by
  cases word with
  | nil => cases hword
  | cons c word =>
    cases row with
    | nil => cases hrow
    | cons d row =>
      cases hword
      cases hrow
      simp [following?, hne.symm]

/-- A row that begins with neither `c` nor `e` declares nothing. -/
theorem constant?_of_head {row : List Char} {d : Char} (hrow : row.head? = some d)
    (hconst : d ≠ 'c') (hexport : d ≠ 'e') : constant? row = none := by
  have hconst' : following? "const ".toList row = none := following?_of_head rfl hrow hconst
  have hexport' : following? "export const ".toList row = none := following?_of_head rfl hrow hexport
  rw [constant?, hconst', hexport']
  rfl

/-- The word after `const`, if a blank follows it. -/
theorem constant?_const {name rest : List Char} (hname : ' ' ∉ name) :
    constant? ("const ".toList ++ (name ++ ' ' :: rest)) = some (String.ofList name) := by
  have hall : ∀ c ∈ name, (c != ' ') = true := by
    intro c hc
    have hne : c ≠ ' ' := fun heq => hname (heq ▸ hc)
    simpa using hne
  have hword : (name ++ ' ' :: rest).takeWhile (· != ' ') = name := by
    rw [List.takeWhile_append_of_pos hall]
    simp
  rw [constant?, following?_append]
  simp only [Option.orElse_some, Option.map_some, hword]

end SchemaClient
