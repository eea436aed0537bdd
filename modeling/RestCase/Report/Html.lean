/-
# RestCase.Report.Html — reports as web pages

A page is a list of lines (`Html.render`).  Whatever comes from the results is escaped
(`Html.escape`), so that no mark-up gets in: an escaped text has no angle brackets
(`lt_not_mem_escape`, `gt_not_mem_escape`).  What this means for a page as a whole is in
`RestCase.Proofs.Report.Markup`.
-/
import RestCase.Report.Plain

namespace RestCase.Report.Html

/-! ## Escaping -/

/-- A character as it stands in a page. -/
def escapeChar (c : Char) : List Char :=
  if c = '&' then "&amp;".toList
  else if c = '<' then "&lt;".toList
  else if c = '>' then "&gt;".toList
  else if c = '"' then "&quot;".toList
  else if c = '\'' then "&#x27;".toList
  else if c = '\x60' then "&#x60;".toList
  else if c = '=' then "&#x3D;".toList
  else [c]

/-- A text as it stands in a page: each character by `escapeChar`, so that no bracket of it
remains. -/
def escape (s : String) : String := String.ofList (s.toList.flatMap escapeChar)

theorem lt_not_mem_escapeChar (c : Char) : '<' ∉ escapeChar c := by
  unfold escapeChar
  repeat' split
  all_goals simp_all [eq_comm]

theorem gt_not_mem_escapeChar (c : Char) : '>' ∉ escapeChar c := by
  unfold escapeChar
  repeat' split
  all_goals simp_all [eq_comm]

theorem lt_not_mem_escape (s : String) : '<' ∉ (escape s).toList := by
  simp only [escape, String.toList_ofList, List.mem_flatMap, not_exists, not_and]
  exact fun c _ => lt_not_mem_escapeChar c

theorem gt_not_mem_escape (s : String) : '>' ∉ (escape s).toList := by
  simp only [escape, String.toList_ofList, List.mem_flatMap, not_exists, not_and]
  exact fun c _ => gt_not_mem_escapeChar c

/-! ## Parts of a page -/

/-- The style sheet. -/
def styleLines : List String :=
  ["  <style>",
    "    body \x7b font-family: Arial, sans-serif; margin: 0; padding: 20px; color: #333; \x7d",
    "    h1, h2 \x7b color: #2c3e50; \x7d",
    "    .summary \x7b background-color: #f8f9fa; padding: 15px; " ++
      "border-radius: 5px; margin-bottom: 20px; \x7d",
    "    .test-case \x7b border: 1px solid #ddd; border-radius: 5px; " ++
      "padding: 15px; margin-bottom: 15px; \x7d",
    "    .test-case.passed \x7b border-left: 5px solid #28a745; \x7d",
    "    .test-case.failed \x7b border-left: 5px solid #dc3545; \x7d",
    "    .status.passed \x7b color: #28a745; font-weight: bold; \x7d",
    "    .status.failed \x7b color: #dc3545; font-weight: bold; \x7d",
    "    .steps, .variables, .failures, .warnings " ++
      "\x7b padding: 10px; border-radius: 5px; margin-top: 10px; \x7d",
    "    .steps \x7b background-color: #e9ecef; \x7d",
    "    .variables \x7b background-color: #d1ecf1; color: #0c5460; \x7d",
    "    .failures \x7b background-color: #f8d7da; \x7d",
    "    .warnings \x7b background-color: #fff3cd; \x7d",
    "    .progress \x7b height: 20px; border-radius: 5px; overflow: hidden; " ++
      "background-color: #e9ecef; \x7d",
    "    .progress > div \x7b height: 100%; background-color: #28a745; \x7d",
    "    td, th \x7b text-align: left; padding: 5px; \x7d",
    "  </style>"]

/-- The lines above the cases. -/
def headLines (s : Summary) (generatedAt : Instant) : List String :=
  ["<!DOCTYPE html>",
    "<html lang='en'>",
    "<head>",
    "  <meta charset='UTF-8'>",
    "  <title>Stepwise Test Report</title>"] ++
  styleLines ++
  ["</head>",
    "<body>",
    "  <h1>Stepwise Test Execution Report</h1>",
    "  <p>Generated at: " ++ escape generatedAt.plainText ++ "</p>",
    "  <div class='summary'>",
    "    <h2>Summary</h2>",
    "    <p><strong>Total Tests:</strong> " ++ Text.ofNat s.total ++ "</p>",
    "    <p><strong>Passed:</strong> " ++ Text.ofNat s.passed ++ "</p>",
    "    <p><strong>Failed:</strong> " ++ Text.ofNat s.failed ++ "</p>",
    "    <p><strong>Success Rate:</strong> " ++ Text.ofNat s.successRate ++ "%</p>",
    "    <div class='progress'><div style='width: " ++ Text.ofNat s.successRate ++
      "%'></div></div>",
    "  </div>",
    "  <h2>Detailed Results</h2>"]

/-- The steps of a case. -/
def stepLines (r : CaseResult) : List String :=
  ["    <div class='steps'>",
    "      <p><strong>Executed Steps (" ++ Text.ofNat r.executed.length ++ "):</strong></p>"] ++
  (if r.executed.isEmpty then ["      <p>No steps were executed.</p>"]
  else ["      <ol>"] ++
    r.executed.map (fun s =>
      "        <li>[" ++ s.phase.name ++ "] " ++ escape s.label ++ "</li>") ++
    ["      </ol>"]) ++
  ["    </div>"]

/-- Where a variable came from. -/
def sourceOf (ctx : Context) (name : String) : String :=
  match ctx.tracked? name with
  | some t => t.origin.step ++ " (" ++ t.origin.path ++ ")"
  | none => ""

/-- The row of a variable. -/
def variableRow (ctx : Context) (e : String × Json) : String :=
  "        <tr><td><strong>" ++ escape e.1 ++ "</strong></td><td>" ++ escape e.2.stringForm ++
    "</td><td>" ++ escape (sourceOf ctx e.1) ++ "</td></tr>"

/-- The variables of a case, if there are any. -/
def variableLines (ctx : Context) : List String :=
  if ctx.isEmpty then []
  else ["    <div class='variables'>",
      "      <p><strong>Variable Flow:</strong></p>",
      "      <table>",
      "        <tr><th>Variable</th><th>Value</th><th>Source</th></tr>"] ++
    ctx.values.entries.map (variableRow ctx) ++
    ["      </table>",
      "    </div>"]

/-- A list of messages under a title, if there are any. -/
def messageLines (kind title : String) (messages : List String) : List String :=
  if messages.isEmpty then []
  else ["    <div class='" ++ kind ++ "'>",
      "      <p><strong>" ++ title ++ ":</strong></p>",
      "      <ul>"] ++
    messages.map (fun m => "        <li>" ++ escape m ++ "</li>") ++
    ["      </ul>",
      "    </div>"]

/-- The description of a case, if it has one that is not empty. -/
def descriptionLines : Option String → List String
  | some d => if d.isEmpty then []
    else ["    <p><strong>Description:</strong> " ++ escape d ++ "</p>"]
  | none => []

/-- The lines of a case with a number. -/
def caseLines (number : Nat) (r : CaseResult) : List String :=
  let kind := if r.passed then "passed" else "failed"
  ["  <div class='test-case " ++ kind ++ "'>",
    "    <h3>" ++ Text.ofNat number ++ ". " ++ escape r.name ++ "</h3>",
    "    <p><span class='status " ++ kind ++ "'>" ++ verdict r ++ "</span> (" ++
      Text.ofNat r.duration ++ " ms)</p>"] ++
  descriptionLines r.description ++
  stepLines r ++
  variableLines r.context ++
  ["    <p><strong>Response Status:</strong> " ++ responseStatus r ++ "</p>"] ++
  messageLines "failures" "Failure Reasons" r.failures ++
  messageLines "warnings" "Cleanup Warnings" r.cleanupWarnings ++
  ["  </div>"]

/-- The lines of all cases, numbered. -/
def caseLinesFrom : Nat → List CaseResult → List String
  | _, [] => []
  | number, r :: rest => caseLines number r ++ caseLinesFrom (number + 1) rest

/-- The report as a web page: `styleLines`, `headLines` and the lines of every case
(`caseLinesFrom`). -/
def render (results : List CaseResult) (generatedAt : Instant) : String :=
  unlines (headLines (Summary.ofResults results) generatedAt ++ caseLinesFrom 1 results ++
    ["</body>", "</html>"])

end RestCase.Report.Html
