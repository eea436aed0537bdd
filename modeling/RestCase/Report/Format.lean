/-
# RestCase.Report.Format — formats of reports

The three formats (`Report.Format`), the text of a report in each of them (`Report.render`), and the
names of the files that hold them (`Report.fileName`).
-/
import RestCase.Report.Document
import RestCase.Report.Html

namespace RestCase.Report

/-- The formats of reports. -/
inductive Format where
  | text | html | json
  deriving DecidableEq, Repr

namespace Format

/-- Every format, in the order in which they are written. -/
def all : List Format := [text, html, json]

/-- What the name of a file in the format ends with. -/
def ending : Format → String
  | text => "txt"
  | html => "html"
  | json => "json"

end Format

/-- The report in a format. -/
def render (format : Format) (results : List CaseResult) (generatedAt : LocalTime) : String :=
  match format with
  | .text => Plain.render results generatedAt.shown
  | .html => Html.render results generatedAt.shown
  | .json => (document results generatedAt).indented

/-- The name of the file of a report that is generated at a time. -/
def fileName (format : Format) (t : LocalTime) : String :=
  String.ofList ("stepwise_report_".toList ++ t.shown.dateChars ++ '_' :: t.shown.timeChars '-' ++
    '.' :: format.ending.toList)

end RestCase.Report
