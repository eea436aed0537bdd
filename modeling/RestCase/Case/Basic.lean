/-
# RestCase.Case.Basic — test cases

A `TestCase` has four phases (`Phase`), each a list of steps.  A `Step` sends one request
(`RequestSpec`), checks the response (`Verification`, with its list of `PathAssertion`) and copies
parts of it into variables (`ExtractionRule`).

Nothing in these records is checked when they are made, but for one thing: `TestCase.invalid?`
refuses a case without a name or without a step to execute (`TestCase.invalid?_eq_none_iff`), and
that is asked wherever a case is read.  A method, a time or a comparison is kept as far as its own
type goes; the comparison of an assertion is a text, whatever it says, and is looked up only when a
response is checked.
-/
import RestCase.Http.Method
import RestCase.Json.Basic
import RestCase.Template

namespace RestCase

/-- A comparison of what a path leads to with an expected value.  The name of the comparison is
looked up by `Comparison.ofName?` when the assertion is checked, so that an unknown name is a
failed check. -/
structure PathAssertion where
  path : String
  expected : Json
  comparison : String

/-- What an assertion is without a comparison. -/
def defaultComparison : String := "equals"

/-- A part of a response that goes into a variable; `ExtractionRule.yield?` says which. -/
structure ExtractionRule where
  source : String
  target : String
  defaultValue : Option Json

/-- What a response has to be like (`Verification.check`), and what is taken from it (`extract`). -/
structure Verification where
  statusCode : Option Nat
  headers : Table String
  assertions : List PathAssertion
  extractions : List ExtractionRule

/-- The verification that checks nothing. -/
def Verification.empty : Verification := ⟨none, .empty, [], []⟩

/-- The request of a step, before `RequestSpec.prepare` puts variables in. -/
structure RequestSpec where
  method : Method
  endpoint : String
  headers : Table String
  payload : Option String
  user : Option String
  timeout : Option Nat
  connectionTimeout : Option Nat
  templateVariables : List Template.Variable

/-- A request without headers, payload or settings. -/
def RequestSpec.plain (method : Method) (endpoint : String) : RequestSpec :=
  ⟨method, endpoint, .empty, none, none, none, none, []⟩

/-- A step: a request, when to send it, and what to expect. -/
structure Step where
  name : String
  condition : Option String
  request : RequestSpec
  verification : Option Verification
  retries : Nat
  retryInterval : Nat
  service : Option String

/-- A step that sends a request and expects nothing. -/
def Step.plain (name : String) (request : RequestSpec) : Step :=
  ⟨name, none, request, none, 0, 0, none⟩

/-- The phases of a case in the order in which they run. -/
inductive Phase where
  | preconditions | setup | execution | cleanup
  deriving DecidableEq, Repr

namespace Phase

/-- Every phase, in order. -/
def all : List Phase := [preconditions, setup, execution, cleanup]

/-- The name of a phase. -/
def name : Phase → String
  | preconditions => "preconditions"
  | setup => "setup"
  | execution => "execution"
  | cleanup => "cleanup"

/-- A failed step of the phase ends it and makes `runPhases` skip every phase but cleanup. -/
def abortsOnFailure : Phase → Bool
  | preconditions | setup => true
  | execution | cleanup => false

end Phase

/-- A test case. -/
structure TestCase where
  name : String
  description : Option String
  preconditions : List Step
  setup : List Step
  execution : List Step
  cleanup : List Step

namespace TestCase

/-- The steps of a phase. -/
def steps (c : TestCase) : Phase → List Step
  | .preconditions => c.preconditions
  | .setup => c.setup
  | .execution => c.execution
  | .cleanup => c.cleanup

/-- What a well-formed case can still lack. -/
inductive Invalid where
  | blankName
  | nothingToExecute (name : String)
  deriving DecidableEq, Repr

/-- The words for an invalid case. -/
def Invalid.message : Invalid → String
  | blankName => "test case name must not be empty"
  | nothingToExecute name =>
    "test case '" ++ name ++ "' has no steps in its mandatory 'execution' section"

/-- What the case lacks, if anything: the first `Invalid` in the order in which a case is looked
through. -/
def invalid? (c : TestCase) : Option Invalid :=
  if Text.isBlank c.name then some .blankName
  else if c.execution.isEmpty then some (.nothingToExecute c.name)
  else none

theorem invalid?_eq_none_iff (c : TestCase) :
    c.invalid? = none ↔ Text.isBlank c.name = false ∧ c.execution ≠ [] := by
  unfold invalid?
  split
  · simp_all
  · split <;> simp_all

end TestCase

end RestCase
