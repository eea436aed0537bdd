/-
# RestCase.Report.Plain — reports in plain text

A report is a list of lines: the summary (`Plain.headLines`), then a paragraph for each case
(`Plain.caseLines`).  Nothing is escaped, and a line feed in a message is a line feed in the report.
-/
import RestCase.Json.Coercion
import RestCase.Report.Summary

namespace RestCase.Report

/-- A text with a line end after each line. -/
def unlines (lines : List String) : String := String.join (lines.map (· ++ "\n"))

/-- Whether a case has passed, in one word. -/
def verdict (r : CaseResult) : String := if r.passed then "PASSED" else "FAILED"

/-- The status of the last response, in words. -/
def responseStatus (r : CaseResult) : String :=
  match r.statusCode with
  | some n => Text.ofNat n
  | none => "none"

/-- A heading and the lines below it, if there are any. -/
def partWithHeading (heading : String) (lines : List String) : List String :=
  if lines.isEmpty then [] else heading :: lines

namespace Plain

/-- The line of a variable. -/
def variableLine (ctx : Context) (e : String × Json) : String :=
  let flow := "     - " ++ e.1 ++ ": " ++ e.2.stringForm
  match ctx.tracked? e.1 with
  | some t => flow ++ " (from step '" ++ t.origin.step ++ "', path '" ++ t.origin.path ++ "')"
  | none => flow

/-- The lines of a case with a number. -/
def caseLines (number : Nat) (r : CaseResult) : List String :=
  [Text.ofNat number ++ ". " ++ r.name, "   Status: " ++ verdict r] ++
  r.description.toList.map ("   Description: " ++ ·) ++
  ["   Duration: " ++ Text.ofNat r.duration ++ " ms",
    "   Executed Steps: " ++ Text.ofNat r.executed.length] ++
  partWithHeading "     Steps:"
    (r.executed.map fun s => "       - [" ++ s.phase.name ++ "] " ++ s.label) ++
  partWithHeading "   Variable Flow:" (r.context.values.entries.map (variableLine r.context)) ++
  ["   Response Status: " ++ responseStatus r] ++
  partWithHeading "   Failure Reasons:" (r.failures.map ("     - " ++ ·)) ++
  partWithHeading "   Cleanup Warnings:" (r.cleanupWarnings.map ("     - " ++ ·)) ++
  [""]

/-- The lines of all cases, numbered. -/
def caseLinesFrom : Nat → List CaseResult → List String
  | _, [] => []
  | number, r :: rest => caseLines number r ++ caseLinesFrom (number + 1) rest

/-- The lines above the cases. -/
def headLines (s : Summary) (generatedAt : Instant) : List String :=
  ["Stepwise Test Execution Report",
    "==============================",
    "Generated at: " ++ generatedAt.plainText,
    "",
    "Summary:",
    "  Total Tests: " ++ Text.ofNat s.total,
    "  Passed: " ++ Text.ofNat s.passed,
    "  Failed: " ++ Text.ofNat s.failed,
    "  Success Rate: " ++ Text.ofNat s.successRate ++ "%",
    "",
    "Detailed Results:",
    "================",
    ""]

/-- The report in plain text: `headLines` and the lines of every case (`caseLinesFrom`). -/
def render (results : List CaseResult) (generatedAt : Instant) : String :=
  unlines (headLines (Summary.ofResults results) generatedAt ++ caseLinesFrom 1 results)

end Plain

end RestCase.Report
