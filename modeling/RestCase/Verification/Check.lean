/-
# RestCase.Verification.Check — checking a response

A `Verification` is a list of independent checks: of the status, of each expected header in the
order of the names, and of each assertion in turn.  A check that fails says so with one `Failure`,
and `Failure.message` gives its words.

Only the assertions can break down, with a path that cannot be followed; the others always say
something.  `RestCase.Proofs.Verification.Independence` states the list of checks as a list.
-/
import RestCase.Case.Basic
import RestCase.Http.Response
import RestCase.Path.Selection
import RestCase.Verification.Comparison

namespace RestCase

/-- A check that failed, with what `Failure.message` needs to say so. -/
inductive Failure where
  | status (expected actual : Nat)
  | headerMissing (name : String)
  | header (name expected actual : String)
  | bodyUnreadable (path : String) (fault : Json.SyntaxFault)
  | unknownComparison (name : String)
  | badPath (path : String) (fault : Path.Fault)
  | notFound (path : String)
  | absent (path : String)
  | present (path : String)
  | comparison (path : String) (comparison : Comparison) (wanted shown : String)

namespace Failure

/-- What a comparison expects, before the expected value is shown. -/
def expectation : Comparison → String
  | .contains => "to contain "
  | .startsWith => "to start with "
  | .endsWith => "to end with "
  | .matchesPattern => "to match pattern "
  | .greaterThan => "greater than "
  | .lessThan => "less than "
  | _ => ""

/-- The words for a failed comparison. -/
def comparisonMessage (path : String) (c : Comparison) (wanted shown : String) : String :=
  match c with
  | .isNull => "Expected null for path '" ++ path ++ "' but got: '" ++ shown ++ "'"
  | .isNotNull => "Expected non-null value for path '" ++ path ++ "'"
  | .isEmpty => "Expected empty value for path '" ++ path ++ "' but got: '" ++ shown ++ "'"
  | .isNotEmpty => "Expected non-empty value for path '" ++ path ++ "'"
  | c => "JSONPath assertion failed for '" ++ path ++ "': expected " ++ expectation c ++ "'"
      ++ wanted ++ "' but got '" ++ shown ++ "'"

/-- The words for a failed check. -/
def message : Failure → String
  | status expected actual =>
    "Status code assertion failed: expected " ++ Text.ofNat expected ++ " but got "
      ++ Text.ofNat actual
  | headerMissing name =>
    "Header assertion failed: header '" ++ name ++ "' not found in response"
  | header name expected actual =>
    "Header assertion failed for '" ++ name ++ "': expected '" ++ expected ++ "' but got '"
      ++ actual ++ "'"
  | bodyUnreadable path fault =>
    "Error evaluating JSONPath '" ++ path ++ "': response body is not valid JSON ("
      ++ fault.message ++ ")"
  | unknownComparison name => "Unknown assertion type: '" ++ name ++ "'"
  | badPath path fault => "Error evaluating JSONPath '" ++ path ++ "': " ++ fault.message
  | notFound path => "JSONPath not found: '" ++ path ++ "'"
  | absent path => "JSONPath does not exist: '" ++ path ++ "'"
  | present path => "JSONPath should not exist but was found: '" ++ path ++ "'"
  | comparison path c wanted shown => comparisonMessage path c wanted shown

end Failure

namespace PathAssertion

/-- The expected value with the variables put in (`Template.interpolate`), if it is a text with
placeholders. -/
def resolved (a : PathAssertion) (ctx : Option Context) : Json :=
  match a.expected, ctx with
  | .string s, some ctx =>
    if Template.hasPlaceholders s then .string (Template.interpolate ctx s) else .string s
  | v, _ => v

/-- What is wrong with the value that a path led to, by `Comparison.holds`, or with its absence. -/
def failureOf? [Pattern.Engine] (path : String) (c : Comparison) (expected : Json) :
    Option Json → Option Failure
  | none =>
    match c with
    | .notExist => none
    | .exist => some (.absent path)
    | _ => some (.notFound path)
  | some actual =>
    match c with
    | .notExist => some (.present path)
    | c =>
      if c.holds actual expected then none
      else some (.comparison path c expected.stringForm actual.stringForm)

/-- Check one assertion against a document: nothing, or the failure (`failureOf?`).  An unknown
comparison or a path that does not parse is a failure as well. -/
def check [Pattern.Engine] (document : Json) (a : PathAssertion) (ctx : Option Context) :
    Except Path.Breakdown (Option Failure) :=
  match Comparison.ofName? a.comparison with
  | none => .ok (some (.unknownComparison (Text.trim a.comparison)))
  | some c =>
    match Path.parse a.path with
    | .error fault => .ok (some (.badPath a.path fault))
    | .ok path => (path.evaluate document).map (failureOf? a.path c (a.resolved ctx))

end PathAssertion

namespace Verification

/-- The failures of the status: at most one. -/
def statusFailures (v : Verification) (r : Response) : List Failure :=
  match v.statusCode with
  | some expected => if expected = r.status then [] else [.status expected r.status]
  | none => []

/-- An expected header value with the variables put in. -/
def expectedHeader (ctx : Option Context) (expected : String) : String :=
  match ctx with
  | some ctx =>
    if Template.hasPlaceholders expected then Template.interpolate ctx expected else expected
  | none => expected

/-- What is wrong with one header. -/
def headerFailure? (r : Response) (name expected : String) : Option Failure :=
  match r.header? name with
  | none => some (.headerMissing name)
  | some actual => if actual = expected then none else some (.header name expected actual)

/-- The failures of the headers, in the order of their names. -/
def headerFailures (v : Verification) (r : Response) (ctx : Option Context) : List Failure :=
  v.headers.entries.filterMap fun h => headerFailure? r h.1 (expectedHeader ctx h.2)

/-- The failures of the assertions, in turn. -/
def assertionFailures [Pattern.Engine] (v : Verification) (r : Response) (ctx : Option Context) :
    Except Path.Breakdown (List Failure) :=
  match r.json with
  -- without a document each assertion fails for this reason, whatever it asks
  | .error fault => .ok (v.assertions.map fun a => .bodyUnreadable a.path fault)
  | .ok document =>
    (v.assertions.mapM fun a => PathAssertion.check document a ctx).map fun l => l.filterMap id

/-- Check a response: every failure, in order: `statusFailures`, `headerFailures`,
`assertionFailures`. -/
def check [Pattern.Engine] (v : Verification) (r : Response) (ctx : Option Context) :
    Except Path.Breakdown (List Failure) :=
  (v.assertionFailures r ctx).map fun l => v.statusFailures r ++ v.headerFailures r ctx ++ l

end Verification

end RestCase
