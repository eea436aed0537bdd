/-
# RestCase.Case.ResultReading — reading results

`Decoding.result` reads the result of a case from a JSON document, as a report holds it, and
`Decoding.results` a list of them.  The drafts follow the pattern of `RestCase.Case.Reading`.  That
a report is read back without loss is `Report.render_json_lossless`.
-/
import RestCase.Case.Reading
import RestCase.Case.Result

namespace RestCase.Decoding

/-- A point in time, read by `Instant.parse`. -/
def instant (d : Dialect) (v : Node) : Decoded Instant :=
  match untaggedIn d v with
  | .string s => (Instant.parse s).mapError fun e => .timestamp e.message
  | w => wrong d w "an RFC 3339 formatted date and time string"

/-- A pair of texts. -/
def textPair (d : Dialect) (v : Node) : Decoded (String × String) :=
  let title := "a tuple of size 2"
  match untaggedIn d v with
  | .sequence (a :: r) => do
    let name ← text d a
    match r with
    | [] => .error (.tooShort 1 title)
    | b :: more => do
      let value ← text d b
      if more.isEmpty then return (name, value) else .error .noDocument
  | .sequence [] => .error (.tooShort 0 title)
  | w => wrong d w title

/-- The fields of a response so far. -/
structure ResponseDraft where
  status : Option Nat
  headers : Option (List (String × String))
  body : Option String

/-- The fields of a response. -/
def responseLayout : Layout :=
  ⟨"struct HttpResponse", [("status", false), ("headers", false), ("body", false)]⟩

/-- One more field of a response. -/
def ResponseDraft.add (d : Dialect) (r : ResponseDraft) (field : String) (v : Node) :
    Decoded ResponseDraft :=
  match field with
  | "status" => do return { r with status := ← fill "status" r.status (natural word16 d v) }
  | "headers" => do
    return { r with headers := ← fill "headers" r.headers (list d (textPair d) v) }
  | "body" => do return { r with body := ← fill "body" r.body (text d v) }
  | _ => .ok r

/-- A response. -/
def response (d : Dialect) (v : Node) : Decoded Response := do
  let r ← record d responseLayout (ResponseDraft.mk none none none) (ResponseDraft.add d) v
  return ⟨← required "status" r.status, ← required "headers" r.headers, ← required "body" r.body⟩

/-- The fields of an executed step so far. -/
structure ExecutedDraft where
  phase : Option Phase
  name : Option String
  status : Option StepStatus
  attempts : Option Nat
  duration : Option Nat

/-- The fields of an executed step. -/
def executedLayout : Layout :=
  ⟨"struct ExecutedStep",
    [("phase", false), ("name", false), ("status", false), ("attempts", false),
      ("durationMs", false)]⟩

/-- One more field of an executed step. -/
def ExecutedDraft.add (d : Dialect) (r : ExecutedDraft) (field : String) (v : Node) :
    Decoded ExecutedDraft :=
  match field with
  | "phase" => do
    let place ← fill "phase" r.phase (oneOf d (Phase.all.map fun p => (p.name, p)) v)
    return { r with phase := place }
  | "name" => do return { r with name := ← fill "name" r.name (text d v) }
  | "status" => do
    let place ← fill "status" r.status (oneOf d (StepStatus.all.map fun s => (s.name, s)) v)
    return { r with status := place }
  | "attempts" => do
    return { r with attempts := ← fill "attempts" r.attempts (natural word32 d v) }
  | "durationMs" => do
    return { r with duration := ← fill "durationMs" r.duration (natural word64 d v) }
  | _ => .ok r

/-- An executed step. -/
def executedStep (d : Dialect) (v : Node) : Decoded ExecutedStep := do
  let r ← record d executedLayout (ExecutedDraft.mk none none none none none)
    (ExecutedDraft.add d) v
  return ⟨← required "phase" r.phase, ← required "name" r.name, ← required "status" r.status,
    ← required "attempts" r.attempts, ← required "durationMs" r.duration⟩

/-- The fields of a tracked variable so far. -/
structure TrackedDraft where
  value : Option Json
  step : Option String
  path : Option String

/-- The fields of a tracked variable. -/
def trackedLayout : Layout :=
  ⟨"struct TrackedVariable", [("value", false), ("sourceStep", false), ("path", false)]⟩

/-- One more field of a tracked variable. -/
def TrackedDraft.add (d : Dialect) (r : TrackedDraft) (field : String) (v : Node) :
    Decoded TrackedDraft :=
  match field with
  | "value" => do return { r with value := ← fill "value" r.value (anyValue d v) }
  | "sourceStep" => do return { r with step := ← fill "sourceStep" r.step (text d v) }
  | "path" => do return { r with path := ← fill "path" r.path (text d v) }
  | _ => .ok r

/-- A tracked variable. -/
def tracked (d : Dialect) (v : Node) : Decoded Tracked := do
  let r ← record d trackedLayout (TrackedDraft.mk none none none) (TrackedDraft.add d) v
  return ⟨← required "value" r.value, ← required "sourceStep" r.step, ← required "path" r.path⟩

/-- The fields of a result so far. -/
structure ResultDraft where
  name : Option String
  description : Option (Option String)
  passed : Option Bool
  failures : Option (List String)
  cleanupWarnings : Option (List String)
  executed : Option (List ExecutedStep)
  lastResponse : Option (Option Response)
  values : Option (Table Json)
  tracking : Option (Table Tracked)
  startedAt : Option Instant
  finishedAt : Option Instant
  duration : Option Nat

/-- A result without any field. -/
def ResultDraft.empty : ResultDraft :=
  ⟨none, none, none, none, none, none, none, none, none, none, none, none⟩

/-- The fields of a result. -/
def resultLayout : Layout :=
  ⟨"struct TestResult",
    ["name", "description", "passed", "failureMessages", "cleanupWarnings", "executedSteps",
      "lastResponse", "variables", "variableTracking", "startedAt", "finishedAt",
      "durationMs"].map fun f => (f, false)⟩

/-- One more field of a result. -/
def ResultDraft.add (d : Dialect) (r : ResultDraft) (field : String) (v : Node) :
    Decoded ResultDraft :=
  match field with
  | "name" => do return { r with name := ← fill "name" r.name (text d v) }
  | "description" => do
    return { r with description := ← fill "description" r.description (optional (text d) v) }
  | "passed" => do return { r with passed := ← fill "passed" r.passed (truth d v) }
  | "failureMessages" => do
    let place ← fill "failureMessages" r.failures (list d (text d) v)
    return { r with failures := place }
  | "cleanupWarnings" => do
    let place ← fill "cleanupWarnings" r.cleanupWarnings (list d (text d) v)
    return { r with cleanupWarnings := place }
  | "executedSteps" => do
    let place ← fill "executedSteps" r.executed (list d (executedStep d) v)
    return { r with executed := place }
  | "lastResponse" => do
    let place ← fill "lastResponse" r.lastResponse (optional (response d) v)
    return { r with lastResponse := place }
  | "variables" => do
    return { r with values := ← fill "variables" r.values (table d (anyValue d) v) }
  | "variableTracking" => do
    let place ← fill "variableTracking" r.tracking (table d (tracked d) v)
    return { r with tracking := place }
  | "startedAt" => do
    return { r with startedAt := ← fill "startedAt" r.startedAt (instant d v) }
  | "finishedAt" => do
    return { r with finishedAt := ← fill "finishedAt" r.finishedAt (instant d v) }
  | "durationMs" => do
    return { r with duration := ← fill "durationMs" r.duration (natural word64 d v) }
  | _ => .ok r

/-- A result: `record` over `resultLayout`, field by field with `ResultDraft.add`. -/
def result (d : Dialect) (v : Node) : Decoded CaseResult := do
  let r ← record d resultLayout ResultDraft.empty (ResultDraft.add d) v
  return {
    name := ← required "name" r.name
    description := r.description.join
    passed := ← required "passed" r.passed
    failures := ← required "failureMessages" r.failures
    cleanupWarnings := ← required "cleanupWarnings" r.cleanupWarnings
    executed := ← required "executedSteps" r.executed
    lastResponse := r.lastResponse.join
    context := ⟨← required "variables" r.values, ← required "variableTracking" r.tracking⟩
    startedAt := ← required "startedAt" r.startedAt
    finishedAt := ← required "finishedAt" r.finishedAt
    duration := ← required "durationMs" r.duration }

/-- Results. -/
def results (d : Dialect) (v : Node) : Decoded (List CaseResult) := list d (result d) v

end RestCase.Decoding
