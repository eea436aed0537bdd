/-
# RestCase.Report.Document — reports as documents

`Report.document` is a report as a JSON document, from which the results can be read again: the
results stand under `results` as `CaseResult.toJson` writes them, and the summary and the time of
the report beside them.
-/
import RestCase.Json.Render
import RestCase.Report.Summary

namespace RestCase

/-- A response as a document. -/
def Response.toJson (r : Response) : Json :=
  .object [("status", .int r.status),
    ("headers", .array (r.headers.map fun h => .array [.string h.1, .string h.2])),
    ("body", .string r.body)]

/-- An executed step as a document. -/
def ExecutedStep.toJson (s : ExecutedStep) : Json :=
  .object [("phase", .string s.phase.name), ("name", .string s.name),
    ("status", .string s.status.name), ("attempts", .int s.attempts),
    ("durationMs", .int s.duration)]

/-- A tracked variable as a document. -/
def Tracked.toJson (t : Tracked) : Json :=
  .object [("value", t.value), ("sourceStep", .string t.origin.step),
    ("path", .string t.origin.path)]

/-- A result as a document; `Decoding.result` reads it back. -/
def CaseResult.toJson (r : CaseResult) : Json :=
  .object [("name", .string r.name), ("description", .ofOptionalString r.description),
    ("passed", .bool r.passed), ("failureMessages", .array (r.failures.map .string)),
    ("cleanupWarnings", .array (r.cleanupWarnings.map .string)),
    ("executedSteps", .array (r.executed.map ExecutedStep.toJson)),
    ("lastResponse", match r.lastResponse with
      | some p => p.toJson
      | none => .null),
    ("variables", .ofTable r.context.values),
    ("variableTracking", .ofTable (r.context.tracking.map fun _ t => t.toJson)),
    ("startedAt", .string r.startedAt.text), ("finishedAt", .string r.finishedAt.text),
    ("durationMs", .int r.duration)]

namespace Report

/-- A summary as a document. -/
def Summary.toJson (s : Summary) : Json :=
  .object [("total", .int s.total), ("passed", .int s.passed), ("failed", .int s.failed),
    ("successRate", .int s.successRate)]

/-- The report as a document: when it was generated, on the clock of the place (`LocalTime.text`),
the summary and the results. -/
def document (results : List CaseResult) (generatedAt : LocalTime) : Json :=
  .object [("generatedAt", .string generatedAt.text),
    ("summary", (Summary.ofResults results).toJson),
    ("results", .array (results.map CaseResult.toJson))]

theorem document_results (results : List CaseResult) (generatedAt : LocalTime) :
    (document results generatedAt).member? "results" =
      some (.array (results.map CaseResult.toJson)) := by
  simp [document, Json.member?, Table.lookup]

end Report

end RestCase
