/-
SchemaClient.Proofs.Http.Retry — how often an operation is attempted.

Which attempt is the last one can be told from the outcomes: it is the first that succeeds, that
fails for a reason which does not pass, or that is the last repetition the policy allows. Everything
else follows from that: an operation with its repetitions comes to what its last attempt comes to,
in the state that the attempts before it and the waits between them have left.

* `Error.Passing` — the errors after which it makes sense to try again.
* `RetryPolicy.Ends`, `RetryPolicy.lastAttempt` — the attempt that is not followed by another.
* `withRetry_eq` — an operation with its repetitions, in any state.
* `exists_withRetry_eq_of_preserved` — what holds before its last attempt.
* `Deed`, `RetryPolicy.deeds` — attempts and waits, and the order in which they are made.
* `withRetry_deeds` — what is done, and what comes of it, for any outcomes.
-/
import Mathlib.Data.Nat.Find
import Mathlib.Order.Bounds.Basic
import SchemaClient.Http.Retry

namespace SchemaClient

/-! ## Errors that may pass -/

namespace HttpFault

/-- The answer came, but could not be read to its end. -/
def IsDecode : HttpFault → Prop
  | truncatedBody => True
  | _ => False

/-- There was no request that could have been sent. -/
def IsBuilder : HttpFault → Prop
  | illegalHeader | illegalScheme _ | illegalHost _ => True
  | _ => False

end HttpFault

/-- The server says that it failed, or the network did so while a request was under way. -/
inductive Error.Passing : Error → Prop where
  | server {url : String} {code : Nat} : 500 ≤ code → code ≤ 599 → Passing (.status url code)
  | network {url : String} {fault : HttpFault} : ¬ fault.IsDecode → ¬ fault.IsBuilder →
      Passing (.http url fault)

theorem Error.isRetryable_iff {error : Error} : error.isRetryable = true ↔ error.Passing := by
  constructor
  · intro h
    cases error with
    | http url fault =>
      cases fault with
      | unanswered => exact .network id id
      | _ => cases h
    | status url code =>
      simp only [isRetryable, Http.isServerError, Bool.and_eq_true, decide_eq_true_eq] at h
      exact .server h.1 (by omega)
    | _ => cases h
  · rintro (⟨hlow, hhigh⟩ | @⟨url, fault, hdecode, hbuilder⟩)
    · simp only [isRetryable, Http.isServerError, Bool.and_eq_true, decide_eq_true_eq]
      omega
    · cases fault with
      | unanswered => rfl
      | truncatedBody => exact absurd trivial hdecode
      | _ => exact absurd trivial hbuilder

/-! ## The last attempt -/

variable {σ α : Type}

namespace RetryPolicy

variable (policy : RetryPolicy) (outcomes : Nat → Except Error α)

/-- The attempt of a number, counted from zero, is not followed by another. -/
inductive Ends (n : Nat) : Prop where
  | success {value : α} : outcomes n = .ok value → Ends n
  | lasting {error : Error} : outcomes n = .error error → ¬ error.Passing → Ends n
  | spent : n = (if policy.enabled then policy.retries else 0) → Ends n

theorem exists_ends : ∃ n, policy.Ends outcomes n := ⟨_, .spent rfl⟩

open Classical in
/-- The first attempt that is not followed by another. -/
noncomputable def lastAttempt : Nat := Nat.find (policy.exists_ends outcomes)

theorem isLeast_lastAttempt :
    IsLeast {n | policy.Ends outcomes n} (policy.lastAttempt outcomes) := by
  classical
  exact ⟨Nat.find_spec (policy.exists_ends outcomes), fun _ h => Nat.find_min' _ h⟩

theorem lastAttempt_eq {policy : RetryPolicy} {outcomes : Nat → Except Error α} {k : Nat}
    (h : IsLeast {n | policy.Ends outcomes n} k) : policy.lastAttempt outcomes = k :=
  (policy.isLeast_lastAttempt outcomes).unique h

/-- An attempt that another one follows has failed for a reason that may pass. -/
theorem exists_passing {policy : RetryPolicy} {outcomes : Nat → Except Error α} {n : Nat}
    (h : ¬ policy.Ends outcomes n) : ∃ error, outcomes n = .error error ∧ error.Passing := by
  cases houtcome : outcomes n with
  | ok value => exact absurd (.success houtcome) h
  | error error => exact ⟨error, rfl, by_contra fun hnot => h (.lasting houtcome hnot)⟩

/-- An error that may pass is followed by another attempt while repetitions are left. -/
theorem not_ends {policy : RetryPolicy} {outcomes : Nat → Except Error α} {n : Nat} {error : Error}
    (h : outcomes n = .error error) (hpassing : error.Passing) (hleft : n < policy.repetitions) :
    ¬ policy.Ends outcomes n := by
  intro hends
  cases hends with
  | success hvalue => cases h.symm.trans hvalue
  | lasting hother hlasting =>
    cases h.symm.trans hother
    exact hlasting hpassing
  | spent hspent => exact Nat.ne_of_lt hleft hspent

/-! ## Attempts in a state -/

variable (wait : Nat → StateM σ Unit) (operation : StateM σ (Except Error α))

/-- The state in which the attempt of a number is made, if all before it are followed by another. -/
def stateBefore (start : σ) : Nat → σ
  | 0 => start
  | n + 1 => (wait (policy.backoff n) (operation (stateBefore start n)).2).2

/-- What the attempts come to, made one after the other. -/
def outcomesFrom (start : σ) (n : Nat) : Except Error α :=
  (operation (policy.stateBefore wait operation start n)).1

end RetryPolicy

section

variable {policy : RetryPolicy} {wait : Nat → StateM σ Unit} {operation : StateM σ (Except Error α)}
  {left n : Nat} {state : σ}

theorem StateM.bind_apply {β : Type} (first : StateM σ α) (next : α → StateM σ β) (state : σ) :
    (first >>= next) state = next (first state).1 (first state).2 := rfl

/-- Nothing comes after an attempt that succeeds or whose error does not pass, nor after one for
which no repetition is left. -/
theorem attempts_of_last
    (h : ∀ error, (operation state).1 = .error error → left = 0 ∨ ¬ error.Passing) :
    attempts policy wait operation left n state = operation state := by
  rw [attempts, StateM.bind_apply]
  cases hresult : (operation state).1 with
  | ok value => exact Prod.ext hresult.symm rfl
  | error error =>
    have hsame : (.error error, (operation state).2) = operation state := Prod.ext hresult.symm rfl
    by_cases hretryable : error.isRetryable = true
    · obtain rfl := (h error hresult).resolve_right fun hnot =>
        hnot (Error.isRetryable_iff.mp hretryable)
      simp only [hretryable, if_true]
      exact hsame
    · simp only [hretryable]
      exact hsame

/-- After an error that may pass there is a wait and another attempt. -/
theorem attempts_of_passing {error : Error} (h : (operation state).1 = .error error)
    (hpassing : error.Passing) :
    attempts policy wait operation (left + 1) n state =
      attempts policy wait operation left (n + 1)
        (wait (policy.backoff n) (operation state).2).2 := by
  rw [attempts, StateM.bind_apply, h]
  simp only [Error.isRetryable_iff.mpr hpassing, if_true]
  rfl

/-- From any attempt that is made one gets to the last. The induction is on the repetitions that are
left. -/
theorem attempts_eq {start : σ} {k : Nat} (hleft : n + left = policy.repetitions)
    (hk : IsLeast {n | policy.Ends (policy.outcomesFrom wait operation start) n} k) (hn : n ≤ k) :
    attempts policy wait operation left n (policy.stateBefore wait operation start n) =
      operation (policy.stateBefore wait operation start k) := by
  induction left generalizing n with
  | zero =>
    obtain rfl : n = k := Nat.le_antisymm hn (hk.2 (.spent hleft))
    exact attempts_of_last fun _ _ => Or.inl rfl
  | succ left ih =>
    by_cases hends : policy.Ends (policy.outcomesFrom wait operation start) n
    · obtain rfl : n = k := Nat.le_antisymm hn (hk.2 hends)
      refine attempts_of_last fun error herror => Or.inr ?_
      cases hends with
      | success hvalue =>
        rw [RetryPolicy.outcomesFrom, herror] at hvalue
        cases hvalue
      | lasting hother hlasting =>
        rw [RetryPolicy.outcomesFrom, herror] at hother
        cases hother
        exact hlasting
      | spent hspent =>
        have hspent : n = policy.repetitions := hspent
        omega
    · obtain ⟨error, herror, hpassing⟩ := RetryPolicy.exists_passing hends
      rw [attempts_of_passing herror hpassing]
      have hlt : n < k := Nat.lt_of_le_of_ne hn fun heq => hends (heq ▸ hk.1)
      exact ih (by omega) hlt

/-- An operation with its repetitions comes to what its last attempt comes to, made in the state
that the attempts and the waits before have left. -/
theorem withRetry_eq {start : σ} {k : Nat}
    (hk : IsLeast {n | policy.Ends (policy.outcomesFrom wait operation start) n} k) :
    withRetry policy wait operation start =
      operation (policy.stateBefore wait operation start k) :=
  attempts_eq (Nat.zero_add _) hk (Nat.zero_le k)

/-- It comes to what one of its attempts comes to. -/
theorem exists_withRetry_eq (policy : RetryPolicy) (wait : Nat → StateM σ Unit)
    (operation : StateM σ (Except Error α)) (start : σ) :
    ∃ state, withRetry policy wait operation start = operation state :=
  ⟨_, withRetry_eq (policy.isLeast_lastAttempt _)⟩

/-- What attempts and waits preserve holds when the last attempt is made. The induction is on the
number of this attempt. -/
theorem exists_withRetry_eq_of_preserved (policy : RetryPolicy) (inv : σ → Prop) {start : σ}
    (hoperation : ∀ state, inv state → inv (operation state).2)
    (hwait : ∀ milliseconds state, inv state → inv (wait milliseconds state).2) (h : inv start) :
    ∃ state, inv state ∧ withRetry policy wait operation start = operation state := by
  have hbefore (n : Nat) : inv (policy.stateBefore wait operation start n) := by
    induction n with
    | zero => exact h
    | succ n ih => exact hwait _ _ (hoperation _ ih)
  exact ⟨_, hbefore _, withRetry_eq (policy.isLeast_lastAttempt _)⟩

end

/-! ## Attempts and waits, one after the other -/

/-- Something is tried, or some time passes. -/
inductive Deed (ρ : Type) where
  | tried (what : ρ)
  | waited (milliseconds : Nat)
  deriving DecidableEq

namespace Deed

variable {ρ : Type}

/-- To wait, and to write down how long. -/
def wait (milliseconds : Nat) : StateM (List (Deed ρ)) Unit :=
  modify (· ++ [.waited milliseconds])

/-- An operation whose attempts come to these outcomes, and write down that they were made. -/
def attempt (outcomes : Nat → Except Error α) : StateM (List (Deed Unit)) (Except Error α) :=
  fun journal => (outcomes (journal.count (.tried ())), journal ++ [.tried ()])

end Deed

namespace RetryPolicy

variable {ρ : Type} (policy : RetryPolicy)

/-- A number of attempts, each with the wait for the next. -/
def repeated (attempt : List (Deed ρ)) (n : Nat) : List (Deed ρ) :=
  (List.range n).flatMap fun i => attempt ++ [.waited (policy.backoff i)]

/-- All attempts up to that of a number, with a wait between any two. -/
def deeds (attempt : List (Deed ρ)) (last : Nat) : List (Deed ρ) :=
  policy.repeated attempt last ++ attempt

variable {policy}

theorem repeated_succ (attempt : List (Deed ρ)) (n : Nat) :
    policy.repeated attempt (n + 1) =
      policy.repeated attempt n ++ attempt ++ [.waited (policy.backoff n)] := by
  rw [repeated, List.range_succ, List.flatMap_append, List.flatMap_singleton, ← repeated,
    List.append_assoc]

/-- An operation that writes down the same for every attempt. -/
theorem stateBefore_eq {operation : StateM (List (Deed ρ)) (Except Error α)}
    {attempt : List (Deed ρ)} (h : ∀ journal, (operation journal).2 = journal ++ attempt)
    (start : List (Deed ρ)) (n : Nat) :
    policy.stateBefore Deed.wait operation start n = start ++ policy.repeated attempt n := by
  induction n with
  | zero => exact (List.append_nil start).symm
  | succ n ih =>
    rw [stateBefore, ih, h, repeated_succ, ← List.append_assoc, ← List.append_assoc]
    rfl

theorem count_repeated [DecidableEq ρ] (what : ρ) (n : Nat) :
    (policy.repeated [.tried what] n).count (.tried what) = n := by
  induction n with
  | zero => rfl
  | succ n ih => simp [repeated_succ, ih]

end RetryPolicy

/-- Whatever the attempts of an operation come to, the last one is the first that succeeds, fails
with an error that does not pass, or is the last repetition that the policy allows. The attempts up
to it are made, one after the other, with a wait before each but the first, and no others; and what
it comes to is the result. -/
theorem withRetry_deeds (policy : RetryPolicy) (outcomes : Nat → Except Error α) :
    ∃ k, IsLeast {n | policy.Ends outcomes n} k ∧
      withRetry policy Deed.wait (Deed.attempt outcomes) [] =
        (outcomes k, policy.deeds [.tried ()] k) := by
  have hstate (n : Nat) : policy.stateBefore Deed.wait (Deed.attempt outcomes) [] n =
      policy.repeated [.tried ()] n := RetryPolicy.stateBefore_eq (fun _ => rfl) [] n
  have houtcomes : policy.outcomesFrom Deed.wait (Deed.attempt outcomes) [] = outcomes := by
    funext n
    rw [RetryPolicy.outcomesFrom, hstate, Deed.attempt, RetryPolicy.count_repeated]
  obtain ⟨k, hk⟩ : ∃ k, IsLeast {n | policy.Ends outcomes n} k :=
    ⟨_, policy.isLeast_lastAttempt outcomes⟩
  refine ⟨k, hk, ?_⟩
  rw [withRetry_eq (houtcomes.symm ▸ hk), hstate, Deed.attempt, RetryPolicy.count_repeated]
  rfl

/-- What is done if the third attempt is the last. -/
example (policy : RetryPolicy) : policy.deeds [.tried ()] 2 =
    [.tried (), .waited (policy.backoff 0), .tried (), .waited (policy.backoff 1), .tried ()] := rfl

end SchemaClient
