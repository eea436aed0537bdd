/-
# RestCase.Run.Case — running test cases

`runCase` is the process of a case.  Its phases run in order and share their variables (`Progress`).
A failed step ends the preconditions or the setup and leaves only the cleanup to do; in the
execution and the cleanup the next step follows all the same (`Phase.abortsOnFailure`).  A step
whose condition does not hold is skipped (`runStep_skipped`); a step that fails is tried again with
the same request (`attempt`), its checks and rules being applied to each response anew.

Who answers, which engine reads patterns and how names of hosts are written in ASCII are left open:
the first is the client that plays the process, the other two are the parameters `Pattern.Engine`
and `Url.Names`.
-/
import RestCase.Condition
import RestCase.Extraction
import RestCase.Run.Outcome
import RestCase.Run.Preparation
import RestCase.Run.Process
import RestCase.Verification.Check

namespace RestCase

/-- What the cases of a run have in common. -/
structure Environment where
  settings : Settings
  users : Table User

/-- What a case has come to: the variables, and the result so far.  `Progress.result` makes a
`CaseResult` of it. -/
structure Progress where
  context : Context
  lastResponse : Option Response
  executed : List ExecutedStep
  failures : List String
  cleanupWarnings : List String

/-- A case at its beginning. -/
def Progress.start : Progress := ⟨.empty, none, [], [], []⟩

variable [Pattern.Engine] [Url.Names]

/-! ## Attempts -/

/-- What an attempt leaves behind: the outcome, the variables and the last response. -/
structure Attempted where
  outcome : Outcome
  context : Context
  lastResponse : Option Response

/-- The messages of the checks that a response fails (`Verification.check`); a path that cannot be
followed breaks the process down. -/
def checkFailures (s : Step) (ctx : Context) (r : Response) : Except Path.Breakdown (List String) :=
  match s.verification with
  | none => .ok []
  | some v => (v.check r (some ctx)).map fun l => l.map Failure.message

/-- The variables with what a step takes from a response (`extract`). -/
def extractAll (s : Step) (ctx : Context) (r : Response) : Except Path.Breakdown Context :=
  match s.verification with
  | none => .ok ctx
  | some v => (extract ctx s.name v.extractions r.body).map (·.context)

/-- The words for a request without an answer. -/
def sendFaultText (fault : SendFault) : String := String.intercalate ": " fault

/-- Send a request until a response passes (`checkFailures`); `left` attempts follow the ones
before, each after the pause of `RetryPolicy.pauseBefore?`. -/
def attempt (s : Step) (request : Request) (ctx : Context) :
    (left attempts : Nat) → (failures : List String) → Option Response → Process Attempted
  | 0, attempts, failures, last => .done ⟨.failed attempts failures, ctx, last⟩
  | left + 1, before, failures, last =>
    let attempts := before + 1
    let sending : Process Attempted :=
      .send request fun
        | .ok response =>
          (Process.ofExcept (checkFailures s ctx response)).bind fun found =>
            if found.isEmpty then
              -- only a response that passes all checks changes the variables
              (Process.ofExcept (extractAll s ctx response)).bind fun ctx' =>
                .done ⟨.passed attempts, ctx', some response⟩
            else attempt s request ctx left attempts found (some response)
        | .error fault =>
          -- there are no messages of its own, so those of the response before are kept
          if left = 0 then .done ⟨.errored attempts (sendFaultText fault), ctx, last⟩
          else attempt s request ctx left attempts failures last
    match (RetryPolicy.ofStep s).pauseBefore? attempts with
    | some time => .nap time sending
    | none => sending

/-! ## Steps -/

/-- The condition of a step, if it has one, holds. -/
def Step.isWanted (s : Step) (ctx : Context) : Bool :=
  match s.condition with
  | none => true
  | some expression => Condition.holds ctx expression

/-- Run a step: skip it unless it `isWanted`, prepare its request once, and `attempt` it as often
as its `RetryPolicy` grants. -/
def runStep (env : Environment) (s : Step) (p : Progress) : Process Attempted :=
  if s.isWanted p.context then
    match s.request.prepare env.settings env.users p.context with
    -- without a request there is no attempt
    | .error fault => .done ⟨.errored 0 fault.message, p.context, p.lastResponse⟩
    | .ok request =>
      attempt s request p.context (RetryPolicy.ofStep s).maxAttempts 0 [] p.lastResponse
  else .done ⟨.skipped, p.context, p.lastResponse⟩

theorem runStep_skipped {env : Environment} {s : Step} {p : Progress}
    (h : s.isWanted p.context = false) :
    runStep env s p = .done ⟨.skipped, p.context, p.lastResponse⟩ := by
  simp [runStep, h]

/-- The case after a step of a phase, which comes to the end of the executed steps.  What fails in
the cleanup counts as a warning. -/
def Progress.after (p : Progress) (phase : Phase) (s : Step) (a : Attempted) : Progress :=
  let messages := a.outcome.messages s.name s.retries
  { context := a.context
    lastResponse := a.lastResponse
    executed := p.executed ++ [⟨phase, s.name, a.outcome.status, a.outcome.attempts, 0⟩]
    -- what fails in the cleanup does not fail the case
    failures := if phase = .cleanup then p.failures else p.failures ++ messages
    cleanupWarnings :=
      if phase = .cleanup then p.cleanupWarnings ++ messages else p.cleanupWarnings }

/-! ## Phases -/

/-- Run the steps of a phase; the answer tells also whether the phase was cut short
(`Phase.abortsOnFailure`). -/
def runPhase (env : Environment) (phase : Phase) :
    List Step → Progress → Process (Progress × Bool)
  | [], p => .done (p, false)
  | s :: r, p =>
    (runStep env s p).bind fun a =>
      if phase.abortsOnFailure && a.outcome.status == .failed then
        .done (p.after phase s a, true)
      else runPhase env phase r (p.after phase s a)

/-- Run phases of a case one after the other, each with `runPhase`; once one is cut short only
cleanup is left. -/
def runPhases (env : Environment) (c : TestCase) :
    List Phase → (cut : Bool) → Progress → Process Progress
  | [], _, p => .done p
  | phase :: r, cut, p =>
    -- a phase that is left out does not cut anything itself
    if cut && phase != .cleanup then runPhases env c r cut p
    else (runPhase env phase (c.steps phase) p).bind fun e => runPhases env c r (cut || e.2) e.1

/-- The result that the progress of a case amounts to: it has passed if no message of `failures`
is there. -/
def Progress.result (p : Progress) (c : TestCase) : CaseResult :=
  { CaseResult.start c with
    passed := p.failures.isEmpty
    failures := p.failures
    cleanupWarnings := p.cleanupWarnings
    executed := p.executed
    lastResponse := p.lastResponse
    context := p.context }

/-- Run a case: `runPhases` over `Phase.all` from `Progress.start`. -/
def runCase (env : Environment) (c : TestCase) : Process CaseResult :=
  (runPhases env c Phase.all false .start).bind fun p => .done (p.result c)

end RestCase
