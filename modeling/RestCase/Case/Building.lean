/-
# RestCase.Case.Building — putting steps together

`RequestSpec.plain`, `Verification.empty` and `Step.plain` are the least of their kind; the calls of
this module say, one at a time, what a request, a verification or a step has in addition.  No call
fails.  That a case put together from them can be written down and read again is shown in
`RestCase.Proofs.Case.Building`.
-/
import RestCase.Case.Basic

namespace RestCase

namespace RequestSpec

/-- The request with a header; by `Table.insert` one of the same name gives way. -/
def withHeader (r : RequestSpec) (name value : String) : RequestSpec :=
  { r with headers := r.headers.insert name value }

/-- The request with a payload, in which `Template.applyVariables` finds the template variables. -/
def withPayload (r : RequestSpec) (payload : String) : RequestSpec :=
  { r with payload := some payload }

/-- The request with one more template variable, which has a value. -/
def withVariable (r : RequestSpec) (name value : String) : RequestSpec :=
  { r with templateVariables := r.templateVariables ++ [⟨name, some value, none⟩] }

end RequestSpec

/-- The assertion that a path leads to a value. -/
def PathAssertion.equals (path : String) (expected : Json) : PathAssertion :=
  ⟨path, expected, defaultComparison⟩

namespace Verification

/-- The verification of a status alone. -/
def status (code : Nat) : Verification := { empty with statusCode := some code }

/-- The verification with one more assertion. -/
def withAssertion (v : Verification) (a : PathAssertion) : Verification :=
  { v with assertions := v.assertions ++ [a] }

/-- The verification with one more extraction. -/
def withExtraction (v : Verification) (r : ExtractionRule) : Verification :=
  { v with extractions := v.extractions ++ [r] }

end Verification

namespace Step

/-- The step with a condition. -/
def withCondition (s : Step) (condition : String) : Step := { s with condition := some condition }

/-- The step with a verification. -/
def withVerification (s : Step) (v : Verification) : Step := { s with verification := some v }

/-- The step with more attempts and a pause between them. -/
def withRetries (s : Step) (retries interval : Nat) : Step :=
  { s with retries := retries, retryInterval := interval }

end Step

end RestCase
