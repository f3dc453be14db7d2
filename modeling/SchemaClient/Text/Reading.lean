/-
SchemaClient.Text.Reading — what all readers of texts share.

Texts are read by computations that take something off the front of an input, or fail. `loopOn` is the
only repetition among them: a step that wants to be repeated has to have made the input smaller, so
the input runs out sooner or later.

* `loopOn` — reading by repetition.
* `hexValue?` — the value of a hexadecimal digit, in either case.
* `numberIn?` — the number that digits stand for in a base of at most sixteen.
-/

namespace SchemaClient

/-! ## Repetition -/

/-- Whether a step is to be repeated, with what it hands on, or finished, with its result. -/
inductive Turn (σ α : Type) where
  | again (state : σ)
  | done (result : α)

/-- Repeat a step until it is finished; `left` measures the input. A step may not ask to be repeated
without having made the input smaller; if one did, the result would be the failure `stuck`. -/
def loopOn {ι ε σ α : Type} (left : ι → Nat) (stuck : ι → ε)
    (step : σ → StateT ι (Except ε) (Turn σ α)) (state : σ) : StateT ι (Except ε) α := fun input =>
  match step state input with
  | .error failure => .error failure
  | .ok (.done result, rest) => .ok (result, rest)
  | .ok (.again state, rest) =>
    if left rest < left input then loopOn left stuck step state rest else .error (stuck rest)
termination_by input => left input

/-! ## Digits -/

/-- The value of a hexadecimal digit. -/
def hexValue? (c : Char) : Option Nat :=
  if c.isDigit then some (c.toNat - '0'.toNat)
  else if 'a' ≤ c ∧ c ≤ 'f' then some (c.toNat - 'a'.toNat + 10)
  else if 'A' ≤ c ∧ c ≤ 'F' then some (c.toNat - 'A'.toNat + 10)
  else none

/-- The value of a digit in a base of at most sixteen. -/
def digit? (base : Nat) (c : Char) : Option Nat := (hexValue? c).filter (· < base)

/-- The number that digits stand for, unless there are none or one of them is no digit. -/
def numberIn? (base : Nat) (digits : List Char) : Option Nat :=
  if digits.isEmpty then none
  else (digits.mapM (digit? base)).map fun values => values.foldl (fun n v => n * base + v) 0

example : numberIn? 16 ['f', 'F'] = some 255 := by decide
example : numberIn? 8 ['1', '8'] = none := by decide

end SchemaClient
