/-
SchemaClient.Http.Retry — trying again.

A failed attempt is repeated when its error is one that may pass, and no more often than the policy
says. Before each repetition there is a wait, which grows by a factor up to a limit.

* `RetryPolicy.backoff` — the wait before a repetition.
* `withRetry` — an operation with its repetitions.
-/
import SchemaClient.Config.Basic
import SchemaClient.Error

namespace SchemaClient

/-- `x ^ n` by repeated squaring; each step is rounded. -/
def power (x : Float) (n : Nat) : Float :=
  go x n 1.0
where
  go (square : Float) (n : Nat) (product : Float) : Float :=
    let product := if n % 2 = 1 then product * square else product
    if n / 2 = 0 then product else go (square * square) (n / 2) product
  termination_by n

namespace RetryPolicy

/-- An attempt number as an exponent: 32 bits with a sign. -/
def exponent (attempt : Nat) : Int := (attempt : Int).bmod UInt32.size

/-- A growth factor that does not shrink: at least one, and one if it is no number. -/
def growth (policy : RetryPolicy) : Float := if policy.factor > 1.0 then policy.factor else 1.0

/-- The growth after a number of repetitions. -/
def grown (policy : RetryPolicy) (attempt : Nat) : Float :=
  let e := exponent attempt
  let p := power policy.growth e.natAbs
  if e < 0 then 1.0 / p else p

/-- The milliseconds to wait before repetition number `attempt`, counted from zero. -/
def backoff (policy : RetryPolicy) (attempt : Nat) : Nat :=
  let wait := Float.ofNat policy.minTimeout * policy.grown attempt
  let limit := Float.ofNat policy.maxTimeout
  (if wait < limit then wait else limit).toUInt64.toNat

/-- How often a failed attempt is repeated at most. -/
def repetitions (policy : RetryPolicy) : Nat := if policy.enabled then policy.retries else 0

end RetryPolicy

section

variable {m : Type → Type} [Monad m] {α : Type}

/-- Attempt an operation; `left` repetitions are left, and `attempt` have been made. -/
def attempts (policy : RetryPolicy) (wait : Nat → m Unit) (operation : m (Except Error α)) :
    (left attempt : Nat) → m (Except Error α)
  | left, attempt => do
    match ← operation with
    | .ok value => pure (.ok value)
    | .error error =>
      if error.isRetryable then
        match left with
        | 0 => pure (.error error)
        | left + 1 =>
          wait (policy.backoff attempt)
          attempts policy wait operation left (attempt + 1)
      else pure (.error error)

/-- An operation, repeated as the policy says while its error may pass. -/
def withRetry (policy : RetryPolicy) (wait : Nat → m Unit) (operation : m (Except Error α)) :
    m (Except Error α) :=
  attempts policy wait operation policy.repetitions 0

end

end SchemaClient
