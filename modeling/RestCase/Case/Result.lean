/-
# RestCase.Case.Result — results of test cases

A `CaseResult` says what came of a case: an `ExecutedStep` for each step that was reached, the
messages of those that failed, the last response and the variables.  Messages of the cleanup are
kept apart as warnings and do not count for `CaseResult.passed`.

`CaseResult.aborted` is the result of a case that could not be run to its end.
-/
import RestCase.Case.Basic
import RestCase.Clock
import RestCase.Context
import RestCase.Http.Response

namespace RestCase

/-- How a step ended. -/
inductive StepStatus where
  | passed | skipped | failed
  deriving DecidableEq, Repr

namespace StepStatus

/-- The name of a status. -/
def name : StepStatus → String
  | passed => "passed"
  | skipped => "skipped"
  | failed => "failed"

/-- Every status. -/
def all : List StepStatus := [passed, skipped, failed]

end StepStatus

/-- The word for a number of attempts after the first one. -/
def retryWord (count : Nat) : String := if count = 1 then "retry" else "retries"

/-- A number of attempts after the first one, in words. -/
def retryCount (count : Nat) : String := Text.ofNat count ++ " " ++ retryWord count

/-- A step that was reached, with the number of requests that it sent: none for a step that was
skipped. -/
structure ExecutedStep where
  phase : Phase
  name : String
  status : StepStatus
  attempts : Nat
  duration : Nat
  deriving DecidableEq, Repr

/-- The name of a step with a note on how it ended, `retryCount` among it. -/
def ExecutedStep.label (s : ExecutedStep) : String :=
  match s.status with
  | .skipped => s.name ++ " (conditionally skipped)"
  | .passed =>
    if 1 < s.attempts then s.name ++ " (after " ++ retryCount (s.attempts - 1) ++ ")" else s.name
  | .failed => s.name ++ " (failed)"

/-- The result of a case.  Durations are in milliseconds. -/
structure CaseResult where
  name : String
  description : Option String
  passed : Bool
  failures : List String
  cleanupWarnings : List String
  executed : List ExecutedStep
  lastResponse : Option Response
  context : Context
  startedAt : Instant
  finishedAt : Instant
  duration : Nat

namespace CaseResult

/-- The result of a case that has not begun. -/
def start (c : TestCase) : CaseResult :=
  ⟨c.name, c.description, true, [], [], [], none, .empty, .epoch, .epoch, 0⟩

/-- The result of a case that could not run at all, as `Suite.taskResult` puts it in the place of
a task that died. -/
def aborted (c : TestCase) (message : String) : CaseResult :=
  { start c with passed := false, failures := [message] }

/-- The status of the last response. -/
def statusCode (r : CaseResult) : Option Nat := r.lastResponse.map (·.status)

end CaseResult

end RestCase
