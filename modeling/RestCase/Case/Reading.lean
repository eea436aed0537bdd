/-
# RestCase.Case.Reading — reading test cases

A case is read from a document tree (`Decoding.testCase`): fields have their names, some of them a
second one, and most may be left out.  Each record is read into a draft whose fields are filled once
(`Decoding.StepDraft`, `Decoding.CaseDraft` and their like), and a record is made of the draft at
the end.

Three things are peculiar to cases.  A step may stand under a single key `step`, and a YAML document
under a single key `test` (`Decoding.unwrapped`).  A payload is kept as text, and
`Decoding.distinctPayload` refuses one in which a key comes twice.  And `Decoding.steps` reads the
steps of a case in the dialect of YAML wherever the case comes from, since what stands in a list of
steps is a tree by then.
-/
import RestCase.Case.Basic
import RestCase.Decoding.Value
import RestCase.Json.Reader
import RestCase.Yaml.Node

namespace RestCase.Decoding

/-! ## Small records -/

/-- A method. -/
def method (d : Dialect) (v : Node) : Decoded Method :=
  (text d v).bind fun s => (Method.parse s).mapError .method

/-- A time in milliseconds: a number, or a text with one in it; another text says nothing. -/
def milliseconds (d : Dialect) (v : Node) : Decoded (Option Nat) :=
  match v with
  | .null => .ok none
  | .int n => if 0 ≤ n ∧ n ≤ (word64.greatest : Int) then .ok (some n.toNat)
    else .error (.noVariant "Millis")
  | .string s => .ok (Text.toNatUpTo? word64.greatest (Text.trim s))
  | v => if d = .yaml ∧ hasTag v = true then .error .taggedChoice
    else .error (.noVariant "Millis")
where
  /-- A tag stands somewhere in the node. -/
  hasTag : Node → Bool
    | .tagged .. => true
    | .sequence items => items.any fun v => match v with
      | .tagged .. => true
      | _ => false
    | .mapping entries => entries.any fun e => match e.1, e.2 with
      | .tagged .., _ => true
      | _, .tagged .. => true
      | _, _ => false
    | _ => false

/-- The fields of a template variable so far. -/
structure VariableDraft where
  name : Option String
  value : Option (Option String)
  defaultValue : Option (Option String)

/-- The fields of a template variable. -/
def variableLayout : Layout :=
  ⟨"struct TemplateVariable", [("name", false), ("value", true), ("defaultValue", true)]⟩

/-- One more field of a template variable. -/
def VariableDraft.add (d : Dialect) (r : VariableDraft) (field : String) (v : Node) :
    Decoded VariableDraft :=
  match field with
  | "name" => do return { r with name := ← fill "name" r.name (text d v) }
  | "value" => do return { r with value := ← fill "value" r.value (optional (text d) v) }
  | "defaultValue" => do
    let place ← fill "defaultValue" r.defaultValue (optional (text d) v)
    return { r with defaultValue := place }
  | _ => .ok r

/-- A template variable. -/
def templateVariable (d : Dialect) (v : Node) : Decoded Template.Variable := do
  let r ← record d variableLayout (VariableDraft.mk none none none) (VariableDraft.add d) v
  return ⟨← required "name" r.name, r.value.join, r.defaultValue.join⟩

/-- Any JSON value. -/
def anyValue (d : Dialect) (v : Node) : Decoded Json :=
  match d with
  | .json => (toValue v).map Json.normalize
  | .yaml => toValue v

/-- The fields of an assertion so far. -/
structure AssertionDraft where
  path : Option String
  expected : Option Json
  comparison : Option String

/-- The fields of an assertion. -/
def assertionLayout : Layout :=
  ⟨"struct PathAssertion", [("path", false), ("expected", true), ("type", true)]⟩

/-- One more field of an assertion. -/
def AssertionDraft.add (d : Dialect) (r : AssertionDraft) (field : String) (v : Node) :
    Decoded AssertionDraft :=
  match field with
  | "path" => do return { r with path := ← fill "path" r.path (text d v) }
  | "expected" | "value" => do
    return { r with expected := ← fill "expected" r.expected (anyValue d v) }
  | "type" => do return { r with comparison := ← fill "type" r.comparison (text d v) }
  | _ => .ok r

/-- An assertion. -/
def assertion (d : Dialect) (v : Node) : Decoded PathAssertion := do
  let r ← record d assertionLayout (AssertionDraft.mk none none none) (AssertionDraft.add d) v
  return ⟨← required "path" r.path, r.expected.getD .null, r.comparison.getD defaultComparison⟩

/-- The fields of an extraction rule so far. -/
structure ExtractionDraft where
  source : Option String
  target : Option String
  defaultValue : Option (Option Json)

/-- The fields of an extraction rule. -/
def extractionLayout : Layout :=
  ⟨"struct ExtractionRule", [("from", false), ("storeTo", false), ("defaultValue", true)]⟩

/-- One more field of an extraction rule. -/
def ExtractionDraft.add (d : Dialect) (r : ExtractionDraft) (field : String) (v : Node) :
    Decoded ExtractionDraft :=
  match field with
  | "from" | "jsonPath" => do return { r with source := ← fill "from" r.source (text d v) }
  | "storeTo" | "variableName" => do
    return { r with target := ← fill "storeTo" r.target (text d v) }
  | "defaultValue" => do
    let place ← fill "defaultValue" r.defaultValue (optional (anyValue d) v)
    return { r with defaultValue := place }
  | _ => .ok r

/-- An extraction rule. -/
def extraction (d : Dialect) (v : Node) : Decoded ExtractionRule := do
  let r ← record d extractionLayout (ExtractionDraft.mk none none none) (ExtractionDraft.add d) v
  return ⟨← required "from" r.source, ← required "storeTo" r.target, r.defaultValue.join⟩

/-! ## Verifications, requests and steps -/

/-- The fields of a verification so far. -/
structure VerificationDraft where
  statusCode : Option (Option Nat)
  headers : Option (Table String)
  assertions : Option (List PathAssertion)
  extractions : Option (List ExtractionRule)

/-- The fields of a verification. -/
def verificationLayout : Layout :=
  ⟨"struct VerificationDefinition",
    [("statusCode", true), ("headers", true), ("jsonPathAssertions", true),
      ("extractions", true)]⟩

/-- One more field of a verification. -/
def VerificationDraft.add (d : Dialect) (r : VerificationDraft) (field : String) (v : Node) :
    Decoded VerificationDraft :=
  match field with
  | "statusCode" | "status" => do
    let place ← fill "statusCode" r.statusCode (optional (natural word16 d) v)
    return { r with statusCode := place }
  | "headers" => do return { r with headers := ← fill "headers" r.headers (table d (text d) v) }
  | "jsonPathAssertions" => do
    let place ← fill "jsonPathAssertions" r.assertions (list d (assertion d) v)
    return { r with assertions := place }
  | "extractions" => do
    let place ← fill "extractions" r.extractions (list d (extraction d) v)
    return { r with extractions := place }
  | _ => .ok r

/-- A verification. -/
def verification (d : Dialect) (v : Node) : Decoded Verification := do
  let r ← record d verificationLayout (VerificationDraft.mk none none none none)
    (VerificationDraft.add d) v
  return ⟨r.statusCode.join, r.headers.getD .empty, r.assertions.getD [], r.extractions.getD []⟩

/-- The payload of a request, read like YAML: no key of it may come twice (`distinct`). -/
def distinctPayload (v : Node) : Decoded (Option String) :=
  (distinct v).bind fun _ => payload v

/-- The fields of a request so far. -/
structure RequestDraft where
  method : Option Method
  endpoint : Option String
  headers : Option (Table String)
  payload : Option (Option String)
  user : Option (Option String)
  timeout : Option (Option Nat)
  connectionTimeout : Option (Option Nat)
  templateVariables : Option (List Template.Variable)

/-- A request without any field. -/
def RequestDraft.empty : RequestDraft := ⟨none, none, none, none, none, none, none, none⟩

/-- The fields of a request. -/
def requestLayout : Layout :=
  ⟨"struct RequestDefinition",
    [("method", true), ("endpoint", false), ("headers", true), ("payload", true), ("user", true),
      ("timeout", true), ("connectionTimeout", true), ("templateVariables", true)]⟩

/-- One more field of a request. -/
def RequestDraft.add (d : Dialect) (r : RequestDraft) (field : String) (v : Node) :
    Decoded RequestDraft :=
  match field with
  | "method" => do
    return { r with method := ← fill "method" r.method (Decoding.method d v) }
  | "endpoint" | "url" => do
    return { r with endpoint := ← fill "endpoint" r.endpoint (text d v) }
  | "headers" => do return { r with headers := ← fill "headers" r.headers (table d (text d) v) }
  | "payload" => do return { r with payload := ← fill "payload" r.payload (distinctPayload v) }
  | "user" => do return { r with user := ← fill "user" r.user (optional (text d) v) }
  | "timeout" => do return { r with timeout := ← fill "timeout" r.timeout (milliseconds d v) }
  | "connectionTimeout" => do
    let place ← fill "connectionTimeout" r.connectionTimeout (milliseconds d v)
    return { r with connectionTimeout := place }
  | "templateVariables" => do
    let place ← fill "templateVariables" r.templateVariables (list d (templateVariable d) v)
    return { r with templateVariables := place }
  | _ => .ok r

/-- A request: `record` over `requestLayout`, field by field with `RequestDraft.add`. -/
def request (d : Dialect) (v : Node) : Decoded RequestSpec := do
  let r ← record d requestLayout RequestDraft.empty (RequestDraft.add d) v
  return ⟨r.method.getD .get, ← required "endpoint" r.endpoint, r.headers.getD .empty,
    r.payload.join, r.user.join, r.timeout.join, r.connectionTimeout.join,
    r.templateVariables.getD []⟩

/-- The fields of a step so far. -/
structure StepDraft where
  name : Option String
  condition : Option (Option String)
  request : Option RequestSpec
  verification : Option (Option Verification)
  retries : Option Nat
  retryInterval : Option Nat
  service : Option (Option String)

/-- A step without any field. -/
def StepDraft.empty : StepDraft := ⟨none, none, none, none, none, none, none⟩

/-- The fields of a step. -/
def stepLayout : Layout :=
  ⟨"struct Step",
    [("name", false), ("condition", true), ("request", false), ("verify", true),
      ("retries", true), ("retryInterval", true), ("service", true)]⟩

/-- One more field of a step. -/
def StepDraft.add (d : Dialect) (r : StepDraft) (field : String) (v : Node) :
    Decoded StepDraft :=
  match field with
  | "name" => do return { r with name := ← fill "name" r.name (text d v) }
  | "condition" => do
    return { r with condition := ← fill "condition" r.condition (optional (text d) v) }
  | "request" => do
    return { r with request := ← fill "request" r.request (Decoding.request d v) }
  | "verify" => do
    let place ← fill "verify" r.verification (optional (Decoding.verification d) v)
    return { r with verification := place }
  | "retries" => do
    return { r with retries := ← fill "retries" r.retries (natural word32 d v) }
  | "retryInterval" => do
    let place ← fill "retryInterval" r.retryInterval (natural word64 d v)
    return { r with retryInterval := place }
  | "service" => do
    return { r with service := ← fill "service" r.service (optional (text d) v) }
  | _ => .ok r

/-- A step: `record` over `stepLayout`, field by field with `StepDraft.add`. -/
def step (d : Dialect) (v : Node) : Decoded Step := do
  let r ← record d stepLayout StepDraft.empty (StepDraft.add d) v
  return ⟨← required "name" r.name, r.condition.join, ← required "request" r.request,
    r.verification.join, r.retries.getD 0, r.retryInterval.getD 0, r.service.join⟩

/-! ## Cases -/

/-- The value under a key, where a mapping has this one entry. -/
def unwrapped (key : String) (v : Node) : Node :=
  match v with
  | .mapping [(.string k, inner)] => if k = key then inner else v
  | v => v

theorem unwrapped_of_two_entries (key : String) (a b : Node × Node) (r : List (Node × Node)) :
    unwrapped key (.mapping (a :: b :: r)) = .mapping (a :: b :: r) := by
  simp [unwrapped]

/-- The steps of a phase; null stands for none. -/
def steps (d : Dialect) (v : Node) : Decoded (List Step) := do
  match v with
  | .null => return []
  | v => do
    let entries ← itemsOf d v
    let _ ← distinctItems entries
    -- whatever the text was, its steps are trees by now, and those are read in one way
    entries.mapM fun e => step .yaml (unwrapped "step" e)

/-- The fields of a case so far. -/
structure CaseDraft where
  name : Option String
  description : Option (Option String)
  preconditions : Option (List Step)
  setup : Option (List Step)
  execution : Option (List Step)
  cleanup : Option (List Step)

/-- The fields of a case. -/
def caseLayout : Layout :=
  ⟨"struct TestCase",
    [("name", false), ("description", true), ("preconditions", true), ("setup", true),
      ("execution", false), ("cleanup", true)]⟩

/-- One more field of a case. -/
def CaseDraft.add (d : Dialect) (r : CaseDraft) (field : String) (v : Node) :
    Decoded CaseDraft :=
  match field with
  | "name" => do return { r with name := ← fill "name" r.name (text d v) }
  | "description" => do
    return { r with description := ← fill "description" r.description (optional (text d) v) }
  | "preconditions" => do
    return { r with preconditions := ← fill "preconditions" r.preconditions (steps d v) }
  | "setup" => do return { r with setup := ← fill "setup" r.setup (steps d v) }
  | "execution" => do
    return { r with execution := ← fill "execution" r.execution (steps d v) }
  | "cleanup" => do return { r with cleanup := ← fill "cleanup" r.cleanup (steps d v) }
  | _ => .ok r

/-- A case: `record` over `caseLayout`, field by field with `CaseDraft.add`. -/
def testCase (d : Dialect) (v : Node) : Decoded TestCase := do
  let r ← record d caseLayout (CaseDraft.mk none none none none none none) (CaseDraft.add d) v
  return ⟨← required "name" r.name, r.description.join, r.preconditions.getD [],
    r.setup.getD [], ← required "execution" r.execution, r.cleanup.getD []⟩

/-! ## Texts -/

/-- What a JSON text holds, read by a decoder in the JSON dialect. -/
def ofJsonText {α : Type} (decode : Dialect → Node → Decoded α) (s : String) : Decoded α :=
  match Json.readDocument s with
  | .ok v => decode .json (ofDocument v)
  | .error _ => .error .noDocument

end RestCase.Decoding
