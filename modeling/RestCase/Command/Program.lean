/-
# RestCase.Command.Program — the program

`Command.program` loads cases and users, runs the cases, tells what came of each and writes a
report.  It ends with 0 if every case has passed and with 1 if not; a report that cannot be written
makes no difference.  What keeps the run from beginning (`Command.start`) ends the program with 1,
and words that cannot be used end it with 2.

`Command.run` is the run itself, and `Command.runWith` the same with any way to play the suite
(`Suite.Player`): the verdict of a run is that on the results of its suite (`runWith_verdict`).  The
client is not part of the program.  `Command.Transport` is the attempt to make one, which may fail.
-/
import RestCase.Case.Loading
import RestCase.Command.Arguments
import RestCase.Command.Log
import RestCase.Report.Publishing
import RestCase.Run.Suite
import RestCase.Run.Users

namespace RestCase.Command

/-! ## Beginning -/

/-- What keeps a run from beginning. -/
inductive StartFault where
  | noTestFile (path : String)
  | noTestDirectory (path : String)
  | unloadable (fault : LoadFault)
  | noCases
  | users (fault : Users.Fault)
  | noClient (reasons : List String)

/-- The words for a fault, from the outermost to the innermost. -/
def StartFault.messages : StartFault → List String
  | noTestFile path => ["Test file does not exist: " ++ path]
  | noTestDirectory path => ["Test directory does not exist: " ++ path]
  | unloadable fault => fault.messages
  | noCases => ["No test cases found"]
  | users fault => fault.messages
  | noClient reasons => "Failed to create test runner" :: "Failed to build HTTP client" :: reasons

/-- What is said of a fault: the outermost words, and below them its causes. -/
def complaint : List String → String
  | [] => ""
  | [message] => "Error: " ++ message ++ "\n"
  | message :: causes =>
    "Error: " ++ message ++ "\n\nCaused by:\n    " ++ String.intercalate "\n    " causes ++ "\n"

/-- Where the cases of a run are. -/
def casePath (a : Arguments) (files : Files.Tree) : Except StartFault String :=
  match a.testFile with
  | some path => if files.isFile path then .ok path else .error (.noTestFile path)
  | none =>
    if files.isDirectory a.testDir then .ok a.testDir else .error (.noTestDirectory a.testDir)

/-- The cases of a run, of which there is at least one. -/
def casesOf (a : Arguments) (files : Files.Tree) : Except StartFault (List TestCase) := do
  let path ← casePath a files
  let cases ← (Loading.ofPaths files [path]).mapError .unloadable
  if cases.isEmpty then throw .noCases
  return cases.map (·.case)

/-- The users of a run. -/
def usersOf (a : Arguments) (files : Files.Tree) : Except StartFault (Table User) :=
  match a.users with
  | some path => (Users.ofFile files path).mapError .users
  | none => .ok .empty

/-- What sends the requests of a run: a client, or the reasons why there can be none, the outermost
first. -/
abbrev Transport := Except (List String) Client

/-- What a run begins with. -/
structure Begun where
  cases : List TestCase
  users : Table User
  client : Client

/-- The beginning of a run: cases by `casesOf`, users by `usersOf` and a client from the
`Transport`, or the first `StartFault` in this order. -/
def start (a : Arguments) (transport : Transport) (files : Files.Tree) :
    Except StartFault Begun := do
  let cases ← casesOf a files
  let users ← usersOf a files
  let client ← transport.mapError .noClient
  return ⟨cases, users, client⟩

/-! ## What is told -/

/-- A line on the level of plain news. -/
def news (text : String) : LogLine := ⟨.info, text⟩

/-- A number of milliseconds in words. -/
def milliseconds (n : Nat) : String := Text.ofNat n ++ " ms"

/-- The sign for a status. -/
def statusSign : StepStatus → String
  | .passed => Colour.green.paint "✓"
  | .skipped => Colour.yellow.paint "-"
  | .failed => Colour.red.paint "✗"

/-- The line on a step, which has a number. -/
def stepLine (number : Nat) (s : ExecutedStep) : LogLine :=
  news ("  " ++ Text.ofNat number ++ ". " ++ statusSign s.status ++ " [" ++ s.phase.name ++ "] " ++
    s.label ++ " (" ++ milliseconds s.duration ++ ")")

/-- The lines on the result of a case. -/
def resultLines (r : CaseResult) : List LogLine :=
  news ((if r.passed then Colour.green.paint "PASS" else Colour.red.paint "FAIL") ++
      " test: " ++ r.name ++ " (" ++ milliseconds r.duration ++ ")") ::
    (r.executed.zipIdx 1).map (fun e => stepLine e.2 e.1) ++
    r.failures.map (fun text => ⟨.error, "     " ++ Colour.red.paint text⟩) ++
    r.cleanupWarnings.map fun text => news ("     cleanup warning: " ++ text)

/-- The line on all cases, which took some milliseconds. -/
def summaryLine (s : Report.Summary) (duration : Nat) : LogLine :=
  news (String.intercalate "\n  " [
    "Summary:",
    "Total: " ++ Text.ofNat s.total,
    Colour.green.paint ("Passed: " ++ Text.ofNat s.passed),
    Colour.red.paint ("Failed: " ++ Text.ofNat s.failed),
    "Success Rate: " ++ Text.ofNat s.successRate ++ "%",
    "Duration: " ++ milliseconds duration])

/-- The lines before the run. -/
def openingLines (a : Arguments) (cases : Nat) : List LogLine :=
  (a.baseUrl.map fun url => news ("Base URL: " ++ url)).toList ++
    [news ("Running " ++ Text.ofNat cases ++ " test(s)...")]

/-- The lines on what was published. -/
def publishedLines (directory : String) :
    Except Report.PublishFault (List Report.Published) → List LogLine
  | .ok l =>
    news ("Writing reports to " ++ directory) :: l.map fun p => news ("Report saved: " ++ p.path)
  | .error fault => [news ("Writing reports to " ++ directory),
      ⟨.error, "Failed to save report: " ++ fault.message⟩]

/-! ## Running -/

/-- What came of a run: it did not begin, it broke down, or it ended, with every case passed or
not.  `Verdict.exit` is the code of each. -/
inductive Verdict where
  | refused (fault : StartFault)
  | broken
  | ended (allPassed : Bool)

namespace Verdict

/-- The verdict on the results of a suite, if it has any: by `Summary.allPassed`. -/
def ofResults : Option (List CaseResult) → Verdict
  | none => broken
  | some results => ended (Report.Summary.ofResults results).allPassed

/-- The code that the program ends with. -/
def exit : Verdict → Nat
  | refused _ => 1
  | broken => 101
  | ended allPassed => if allPassed then 0 else 1

/-- What the program says on the error channel. -/
def complaint : Verdict → String
  | refused fault => Command.complaint fault.messages
  | broken | ended _ => ""

theorem exit_eq_zero_iff (v : Verdict) : v.exit = 0 ↔ v = .ended true := by
  cases v with
  | refused fault => simp [exit]
  | broken => simp [exit]
  | ended allPassed => cases allPassed <;> simp [exit]

end Verdict

/-- How a run ends: what came of it, its log, and the files. -/
structure Ending where
  verdict : Verdict
  log : List LogLine
  files : Files.Tree

/-- A result that began and ended at a time.  The clock of a place plays no part in it. -/
def stamped (now : Instant) (r : CaseResult) : CaseResult :=
  { r with startedAt := now, finishedAt := now }

/-- The ending of a run with results, which took some milliseconds.  Whether they can be published
makes no difference to the verdict. -/
def close (a : Arguments) (results : List CaseResult) (duration : Nat) (now : LocalTime)
    (files : Files.Tree) : Ending :=
  let summary := Report.Summary.ofResults results
  let (published, after) := Report.publish a.reportDir results now a.formats files
  { verdict := .ended summary.allPassed
    log := openingLines a results.length ++ results.flatMap resultLines ++
      summaryLine summary duration :: publishedLines a.reportDir published
    files := after }

/-- The environment of a run. -/
def environment (a : Arguments) (users : Table User) : Environment :=
  ⟨{ Settings.standard with baseUrl := a.baseUrl }, users⟩

/-- Run the cases that are asked for, as a player plays them.  A suite without results takes the
program down with it (`Verdict.ofResults`). -/
def runWith (player : Suite.Player) (a : Arguments) (transport : Transport) (now : LocalTime)
    (files : Files.Tree) : Ending :=
  match start a transport files with
  | .error fault => ⟨.refused fault, [], files⟩
  | .ok b =>
    match player (environment a b.users) b.client a.workers b.cases with
    -- there are no results to report on
    | (none, _) => ⟨.broken, openingLines a b.cases.length, files⟩
    | (some results, journal) =>
      close a (results.map (stamped now.instant)) journal.napTime now files

/-- Run the cases that are asked for: `runWith` with `Suite.run`, in which tasks take their steps
one task after the other. -/
def run [Pattern.Engine] [Url.Names] (a : Arguments) (transport : Transport) (now : LocalTime)
    (files : Files.Tree) : Ending :=
  runWith Suite.run a transport now files

theorem allPassed_stamped (now : Instant) (results : List CaseResult) :
    (Report.Summary.ofResults (results.map (stamped now))).allPassed =
      (Report.Summary.ofResults results).allPassed := by
  rw [Bool.eq_iff_iff, Report.Summary.allPassed_iff, Report.Summary.allPassed_iff]
  exact List.forall_mem_map

/-- **The verdict of a run is that on the results of its suite**, if the run begins. -/
theorem runWith_verdict (player : Suite.Player) (a : Arguments) (transport : Transport)
    (now : LocalTime) (files : Files.Tree) :
    (runWith player a transport now files).verdict =
      match start a transport files with
      | .error fault => .refused fault
      | .ok b =>
        .ofResults (player (environment a b.users) b.client a.workers b.cases).1 := by
  unfold runWith
  cases start a transport files with
  | error fault => rfl
  | ok b =>
    rcases hplayed : player (environment a b.users) b.client a.workers b.cases with
      ⟨_ | results, journal⟩
    · simp only [hplayed]
      rfl
    · simp only [hplayed, close, Verdict.ofResults, allPassed_stamped]

/-! ## The whole program -/

/-- What the program says of itself. -/
def versionText : String := programName ++ " 0.1.0\n"

/-- How the program is used. -/
def usageText : String := "Usage: " ++ programName ++ " [OPTIONS]\n\nOptions:\n" ++
  String.join (options.map fun o =>
    "  " ++ (match o.letter with
      | some c => "-" ++ String.ofList [c] ++ ", "
      | none => "    ") ++ "--" ++ o.name ++ (match o.wish with
      | .setting _ => " <VALUE>"
      | _ => "") ++ "\n")

/-- What is shown of the program: its code, and the texts on the two channels. -/
structure Shown where
  exit : Nat
  output : String
  complaint : String
  files : Files.Tree

/-- The rules by which the log is shown, if there is a filter for it and if there is none. -/
def logRules (logFilter : Option String) (a : Arguments) : List LogRule :=
  match logFilter with
  | some text => rulesOf text
  | none => [⟨"", (if a.verbose then Level.debug else Level.info).rank⟩]

/-- The program on a command line, in an environment, at a time and on files: `Arguments.read` and
then `run`, with the log filtered by `logRules`. -/
def program [Pattern.Engine] [Url.Names] (vars : Variables) (logFilter : Option String)
    (words : List String) (client : Client) (now : LocalTime) (files : Files.Tree) : Shown :=
  match Arguments.read vars words with
  | .error .help => ⟨0, usageText, "", files⟩
  | .error .version => ⟨0, versionText, "", files⟩
  | .error .refused => ⟨2, "", "error: the arguments cannot be used\n\n" ++ usageText, files⟩
  | .ok a =>
    let ending := run a (.ok client) now files
    let lines := ending.log.filter fun l => shows (logRules logFilter a) l.level
    ⟨ending.verdict.exit, String.join (lines.map LogLine.shown), ending.verdict.complaint,
      ending.files⟩

end RestCase.Command
