/-
SchemaClient.Proofs.Json.Text — the text of a JSON value closes what it opens.

* `isNumeral`, `Number.isNumeral_text` — numbers are written with digits, signs, a point and an `e`.
* `Json.whole_text` — the text of a value is whole, whatever texts it holds.
-/
import Mathlib.Data.List.Basic
import SchemaClient.Json.Printer
import SchemaClient.Proofs.Text.Reading

namespace SchemaClient

/-! ## Numbers -/

/-- The characters that numbers are written with. -/
def isNumeral (c : Char) : Bool := c.isDigit || ['-', '+', '.', 'e'].contains c

theorem isInert_of_isNumeral {c : Char} (h : isNumeral c = true) : isInert c = true := by
  simp only [isNumeral, Bool.or_eq_true, List.contains_eq_mem, decide_eq_true_eq, List.mem_cons,
    List.not_mem_nil, or_false] at h
  rcases h with h | rfl | rfl | rfl | rfl
  · exact isInert_of_isAlphanum (by simp [Char.isAlphanum, h])
  all_goals decide

theorem isNumeral_of_mem_digitsOf {n : Nat} {c : Char} (hc : c ∈ digitsOf n) :
    isNumeral c = true := by
  have hdigit : c.isDigit = true := Nat.isDigit_of_mem_toDigits (by decide) (by decide) hc
  simp [isNumeral, hdigit]

theorem isNumeral_of_mem_integerText {n : Int} {c : Char} (hc : c ∈ integerText n) :
    isNumeral c = true := by
  unfold integerText at hc
  split at hc
  · rcases List.mem_cons.mp hc with rfl | hc
    · decide
    · exact isNumeral_of_mem_digitsOf hc
  · exact isNumeral_of_mem_digitsOf hc

namespace Decimal

variable {digits : List Char} {exponent : Int} {c : Char}

theorem isNumeral_of_mem_scientific (hdigits : ∀ d ∈ digits, isNumeral d = true)
    (hc : c ∈ scientific digits exponent) : isNumeral c = true := by
  unfold scientific at hc
  simp only [List.mem_append, List.mem_cons] at hc
  rcases hc with hc | rfl | rfl | hc
  · split at hc
    · simp only [List.mem_cons] at hc
      rcases hc with rfl | rfl | rfl | hc
      · exact hdigits c (by simp)
      · decide
      · exact hdigits c (by simp)
      · exact hdigits c (by simp [hc])
    · exact hdigits c hc
  · decide
  · split <;> decide
  · exact isNumeral_of_mem_digitsOf hc

theorem isNumeral_of_mem_plain (hdigits : ∀ d ∈ digits, isNumeral d = true)
    (hc : c ∈ plain digits exponent) : isNumeral c = true := by
  have hzero : ∀ n, c ∈ List.replicate n '0' → isNumeral c = true := by
    intro n hc
    rw [List.eq_of_mem_replicate hc]
    decide
  unfold plain at hc
  simp only at hc
  split at hc
  · simp only [List.mem_cons, List.mem_append] at hc
    rcases hc with rfl | rfl | hc | hc
    · decide
    · decide
    · exact hzero _ hc
    · exact hdigits c hc
  · simp only [List.mem_append, List.mem_cons] at hc
    rcases hc with hc | rfl | hc
    · rcases List.mem_append.mp (List.mem_of_mem_take hc) with hc | hc
      · exact hdigits c hc
      · exact hzero _ hc
    · decide
    · split at hc
      · rw [List.mem_singleton.mp hc]
        decide
      · exact hdigits c (List.mem_of_mem_drop hc)

theorem isNumeral_of_mem_text {d : Decimal} (hc : c ∈ d.text) : isNumeral c = true := by
  have hdigits : ∀ e ∈ digitsOf d.digits, isNumeral e = true := fun e he =>
    isNumeral_of_mem_digitsOf he
  unfold text positional at hc
  split at hc
  · split at hc
    · simp only [List.mem_cons, List.not_mem_nil, or_false] at hc
      rcases hc with rfl | rfl | rfl <;> decide
    · exact isNumeral_of_mem_plain hdigits hc
  · exact isNumeral_of_mem_scientific hdigits hc

end Decimal

theorem isNumeral_of_mem_floatText {x : Float} {c : Char} (hc : c ∈ floatText x) :
    isNumeral c = true := by
  unfold floatText signed at hc
  split at hc
  · rcases List.mem_cons.mp hc with rfl | hc
    · decide
    · exact Decimal.isNumeral_of_mem_text hc
  · exact Decimal.isNumeral_of_mem_text hc

/-- A number is written without quotes and brackets. -/
theorem Number.whole_text (n : Number) : Whole n.text := by
  cases n with
  | int n => exact whole_of_isInert fun c hc =>
      isInert_of_isNumeral (isNumeral_of_mem_integerText hc)
  | float x => exact whole_of_isInert fun c hc =>
      isInert_of_isNumeral (isNumeral_of_mem_floatText hc)

/-! ## Values -/

namespace Json

mutual

/-- The text of a value closes what it opens, whatever texts it holds. -/
theorem whole_text : ∀ value : Json, Whole value.text
  | null => by decide
  | bool true => by decide
  | bool false => by decide
  | num n => n.whole_text
  | str s => whole_quote s
  | arr [] => by decide
  | arr (item :: rest) => by
    have hopen : Leads [] "[" ['['] := by decide
    rw [text]
    exact (hopen.insert (whole_text item)).append (leads_itemsText rest)
  | obj [] => by decide
  | obj ((key, value) :: rest) => by
    have hopen : Leads [] "\x7b" ['{'] := by decide
    have hcolon : Whole ":" := by decide
    rw [text]
    exact (((hopen.insert (whole_quote key)).insert hcolon).insert (whole_text value)).append
      (leads_entriesText rest)

/-- The rest of an array closes its bracket. -/
theorem leads_itemsText : ∀ rest : List Json, Leads ['['] (itemsText rest) []
  | [] => by decide
  | item :: rest => by
    have hcomma : Whole "," := by decide
    rw [itemsText]
    exact ((hcomma.leads _).insert (whole_text item)).append (leads_itemsText rest)

/-- The rest of an object closes its brace. -/
theorem leads_entriesText :
    ∀ rest : List (String × Json), Leads ['{'] (entriesText rest) []
  | [] => by decide
  | (key, value) :: rest => by
    have hcomma : Whole "," := by decide
    have hcolon : Whole ":" := by decide
    rw [entriesText]
    exact ((((hcomma.leads _).insert (whole_quote key)).insert hcolon).insert
      (whole_text value)).append (leads_entriesText rest)

end

end Json

end SchemaClient
