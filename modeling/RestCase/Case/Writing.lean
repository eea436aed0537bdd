/-
# RestCase.Case.Writing — writing test cases

`TestCase.toJson` gives a case as a JSON document with every field; what a case does not have is
written as `null`, so that the document has the same members for every case.  `Json.ofHeaders` is
the object of a table of texts, in the order of the names.
-/
import RestCase.Case.Basic

namespace RestCase

/-- Headers, as an object. -/
def Json.ofHeaders (headers : Table String) : Json :=
  .object (headers.entries.map fun e => (e.1, .string e.2))

/-- A template variable as a document. -/
def Template.Variable.toJson (v : Template.Variable) : Json :=
  .object [("name", .string v.name), ("value", .ofOptionalString v.value),
    ("defaultValue", .ofOptionalString v.defaultValue)]

/-- A request as a document, under the names that `Decoding.requestLayout` has first. -/
def RequestSpec.toJson (r : RequestSpec) : Json :=
  .object [("method", .string r.method.name), ("endpoint", .string r.endpoint),
    ("headers", Json.ofHeaders r.headers), ("payload", .ofOptionalString r.payload),
    ("user", .ofOptionalString r.user), ("timeout", .ofOptionalNat r.timeout),
    ("connectionTimeout", .ofOptionalNat r.connectionTimeout),
    ("templateVariables", .array (r.templateVariables.map Template.Variable.toJson))]

/-- An assertion as a document. -/
def PathAssertion.toJson (a : PathAssertion) : Json :=
  .object [("path", .string a.path), ("expected", a.expected), ("type", .string a.comparison)]

/-- An extraction rule as a document. -/
def ExtractionRule.toJson (r : ExtractionRule) : Json :=
  .object [("from", .string r.source), ("storeTo", .string r.target),
    ("defaultValue", r.defaultValue.getD .null)]

/-- A verification as a document. -/
def Verification.toJson (v : Verification) : Json :=
  .object [("statusCode", .ofOptionalNat v.statusCode), ("headers", Json.ofHeaders v.headers),
    ("jsonPathAssertions", .array (v.assertions.map PathAssertion.toJson)),
    ("extractions", .array (v.extractions.map ExtractionRule.toJson))]

/-- A step as a document. -/
def Step.toJson (s : Step) : Json :=
  .object [("name", .string s.name), ("condition", .ofOptionalString s.condition),
    ("request", s.request.toJson),
    ("verify", match s.verification with
      | some v => v.toJson
      | none => .null),
    ("retries", .int s.retries), ("retryInterval", .int s.retryInterval),
    ("service", .ofOptionalString s.service)]

/-- A case as a document; `Decoding.testCase` reads it back. -/
def TestCase.toJson (c : TestCase) : Json :=
  .object [("name", .string c.name), ("description", .ofOptionalString c.description),
    ("preconditions", .array (c.preconditions.map Step.toJson)),
    ("setup", .array (c.setup.map Step.toJson)),
    ("execution", .array (c.execution.map Step.toJson)),
    ("cleanup", .array (c.cleanup.map Step.toJson))]

end RestCase
