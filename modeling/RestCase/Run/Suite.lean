/-
# RestCase.Run.Suite — running suites

The cases of a suite run one after the other (`Suite.sequentially`), or as tasks of which several
are under way at a time (`Suite.tasks`).  A case that breaks down takes the suite down with it only
where the cases run one after the other; a task that breaks down counts as a case that could not run
(`CaseResult.aborted`).

`Suite.run` gives no results where there are more workers than there can be (`Suite.maxWorkers`).
Its tasks take all their steps one task after the other; that the order makes no difference, as far
as it makes none, is shown over `RestCase.Run.Pool`, and `Suite.Player` is any way to play a suite.
-/
import RestCase.Run.Case

namespace RestCase

/-- What stands in the result of a task that broke down. -/
def incompleteMessage : String := "Exception occurred: test case task did not complete"

variable [Pattern.Engine] [Url.Names]

namespace Suite

/-- Run cases one after the other, as one process: where one breaks down, so do all after it. -/
def sequentially (env : Environment) : List TestCase → Process (List CaseResult)
  | [] => .done []
  | c :: r => (runCase env c).bind fun a => (sequentially env r).bind fun l => .done (a :: l)

/-- The result of a task for a case: the one it came to, or `CaseResult.aborted` with the
`incompleteMessage`. -/
def taskResult (c : TestCase) (r : Option CaseResult) : CaseResult :=
  r.getD (.aborted c incompleteMessage)

/-- The results of tasks that take their steps one task after the other, and the
journal.  `Pool.Step` allows every other order. -/
def tasks (env : Environment) (client : Client) :
    List TestCase → Journal → List CaseResult × Journal
  | [], j => ([], j)
  | c :: r, j =>
    let (result, j') := (runCase env c).play client j
    let (rest, j'') := tasks env client r j'
    (taskResult c result :: rest, j'')

theorem tasks_length (env : Environment) (client : Client) (cases : List TestCase) (j : Journal) :
    (tasks env client cases j).1.length = cases.length := by
  induction cases generalizing j with
  | nil => rfl
  | cons c r ih => simp [tasks, ih]

/-- The greatest number of workers that there can be: there are no more permits than these. -/
def maxWorkers : Nat := 0x1FFFFFFFFFFFFFFF

/-- The results of a suite on a number of workers, if the suite does not break down, and the
journal.  On one worker the cases run `sequentially`, and with more than `maxWorkers` none
begins. -/
def run (env : Environment) (client : Client) (workers : Nat) (cases : List TestCase) :
    Option (List CaseResult) × Journal :=
  if workers ≤ 1 then (sequentially env cases).play client .empty
  else if maxWorkers < workers then (none, .empty)
  else
    let (results, j) := tasks env client cases .empty
    (some results, j)

/-- What plays the cases of a suite, on a number of workers: it settles in which order the tasks
go on where there are several.  `Suite.run` is one. -/
abbrev Player := Environment → Client → Nat → List TestCase → Option (List CaseResult) × Journal

end Suite

end RestCase
