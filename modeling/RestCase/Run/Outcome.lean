/-
# RestCase.Run.Outcome — outcomes of steps

A step may be tried again a number of times, with a pause before each attempt but the first
(`RetryPolicy`).  How it ended is its `Outcome`, from which its status, the number of its requests
and its messages follow; exactly the steps that did not fail have no message
(`messages_eq_nil_iff`).
-/
import RestCase.Case.Result
import RestCase.Chars.Digits

namespace RestCase

/-! ## Attempts -/

/-- How often a step is tried after the first time, and the pause between, in milliseconds. -/
structure RetryPolicy where
  retries : Nat
  interval : Nat
  deriving DecidableEq, Repr

namespace RetryPolicy

/-- The policy of a step. -/
def ofStep (s : Step) : RetryPolicy := ⟨s.retries, s.retryInterval⟩

/-- The greatest number of attempts. -/
def attemptLimit : Nat := 0xFFFFFFFF

/-- The number of attempts that a step has: one more than its retries, `attemptLimit` at most. -/
def maxAttempts (p : RetryPolicy) : Nat := min (p.retries + 1) attemptLimit

/-- The pause before an attempt. -/
def pauseBefore? (p : RetryPolicy) (attempt : Nat) : Option Nat :=
  if 1 < attempt ∧ 0 < p.interval then some p.interval else none

/-- No attempt follows this one. -/
def isLast (p : RetryPolicy) (attempt : Nat) : Bool := p.maxAttempts ≤ attempt

end RetryPolicy

/-! ## Outcomes -/

/-- How a step ended. -/
inductive Outcome where
  | skipped
  | passed (attempts : Nat)
  /-- The last response was not what it should be. -/
  | failed (attempts : Nat) (failures : List String)
  /-- There was no request to send, or no answer to it. -/
  | errored (attempts : Nat) (error : String)
  deriving DecidableEq, Repr

namespace Outcome

/-- The status of the step. -/
def status : Outcome → StepStatus
  | skipped => .skipped
  | passed _ => .passed
  | failed .. => .failed
  | errored .. => .failed

/-- The number of requests that the step sent. -/
def attempts : Outcome → Nat
  | skipped => 0
  | passed n => n
  | failed n _ => n
  | errored n _ => n

/-- What a message of a step begins with. -/
def opening (step : String) : String := "Step '" ++ step ++ "': "

/-- A note on the attempts of a step that was tried again. -/
def retryNote (opening closing : String) (retries : Nat) : String :=
  if 0 < retries then opening ++ retryCount retries ++ closing else ""

/-- The messages of a step with a name and a number of attempts after the first: `opening`, what
went wrong, and the `retryNote`. -/
def messages (step : String) (retries : Nat) : Outcome → List String
  | skipped => []
  | passed _ => []
  | failed _ failures =>
    let note := retryNote " after " "" retries
    if failures.isEmpty then [opening step ++ "Failed" ++ note]
    else failures.map fun f => opening step ++ f ++ note
  | errored _ error =>
    [opening step ++ "Exception - " ++ error ++ retryNote " (after " ")" retries]

theorem messages_eq_nil_iff (step : String) (retries : Nat) (o : Outcome) :
    o.messages step retries = [] ↔ o.status ≠ .failed := by
  cases o with
  | failed n failures => cases failures <;> simp [messages, status]
  | skipped | passed | errored => simp [messages, status]

end Outcome

end RestCase
