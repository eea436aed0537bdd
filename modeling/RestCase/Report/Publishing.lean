/-
# RestCase.Report.Publishing — publishing reports

`Report.publish` writes a report into a directory, one file for each format; the directory is made
if need be.  Of several formats the first that cannot be written ends the publishing.
-/
import RestCase.Files.Tree
import RestCase.Report.Format

namespace RestCase.Report

/-- What keeps a report from being written. -/
inductive PublishFault where
  | directory (path : String) (fault : Files.Fault)
  | file (path : String) (fault : Files.Fault)
  deriving DecidableEq, Repr

/-- The words for a fault. -/
def PublishFault.message : PublishFault → String
  | directory path fault => "Failed to create report directory: " ++ path ++ ": " ++ fault.message
  | file path fault => "Failed to write report: " ++ path ++ ": " ++ fault.message

/-- A file that was written: its path and its text. -/
structure Published where
  path : String
  text : String
  deriving DecidableEq, Repr

/-- Write a report in one format, rendered by `Report.render` under a name from `fileName`. -/
def publishOne (directory : String) (results : List CaseResult) (now : LocalTime)
    (files : Files.Tree) (format : Format) : Except PublishFault (Published × Files.Tree) :=
  match files.makeDirectories directory with
  | .error fault => .error (.directory directory fault)
  | .ok made =>
    let path := Files.join directory (fileName format now)
    let text := render format results now
    match made.writeText path text with
    | .error fault => .error (.file path fault)
    | .ok written => .ok (⟨path, text⟩, written)

/-- Write a report in several formats, each with `publishOne`; the first fault ends it, and what
is written by then stays. -/
def publish (directory : String) (results : List CaseResult) (now : LocalTime) :
    List Format → Files.Tree → Except PublishFault (List Published) × Files.Tree
  | [], files => (.ok [], files)
  | format :: r, files =>
    match publishOne directory results now files format with
    | .error fault => (.error fault, files)
    | .ok (p, written) =>
      let (rest, after) := publish directory results now r written
      (rest.map (p :: ·), after)

end RestCase.Report
