/-
# RestCase.Main — the executable

What the program needs to know of the world is gathered first: the variables of the environment
(`Executable.surroundings`), the time (`Executable.now`), and the files that the arguments and the
payloads of cases name (`Executable.files`).  Then `Command.program` runs on that, and what it
leaves is shown and written (`Executable.write`).

Boundary: no connection is opened, so every request counts as one that could not be sent
(`Client.offline`), and the clock is on universal time.
-/
import RestCase.Command.Program

namespace RestCase.Executable

open Files (Tree)

/-- The variables that the program looks at, as far as they are set. -/
def surroundings : IO Command.Variables := do
  let found ← (Command.settingVariables.map (·.2)).mapM fun name => do
    return (← IO.getEnv name).map fun value => (name, value)
  return found.filterMap id

/-- The present time, which is the one at which a new file was last changed, on a clock of universal
time. -/
def now : IO LocalTime :=
  IO.FS.withTempFile fun _ path => do
    let time := (← path.metadata).modified
    return ⟨⟨time.sec / 86400, (time.sec % 86400).toNat, time.nsec.toNat⟩, 0⟩

/-- A tree with the directories that a path goes through. -/
def withWay (path : String) (t : Tree) : Tree :=
  match Files.parent? path with
  | some above => (t.makeDirectories above).toOption.getD t
  | none => t

/-- A tree with what stands at a path, down to a depth. -/
def gathered : Nat → String → Tree → IO Tree
  | depth, path, t => do
    let some place ← (some <$> IO.FS.realPath path) <|> pure none | return t
    if ← place.isDir then
      let mut t := (t.makeDirectories path).toOption.getD t
      match depth with
      | 0 => return t
      | depth + 1 =>
        for e in ← place.readDir do
          t ← gathered depth (Files.join path e.fileName) t
        return t
    else
      let content := String.fromUTF8? (← IO.FS.readBinFile place)
      return ((withWay path t).writeFile path content).toOption.getD t

/-- How deep directories of cases are looked into. -/
def caseDepth : Nat := 64

/-- A path and the paths that it goes through, the longest last. -/
def waysTo (path : String) : List String :=
  let parts := Files.writtenParts path
  (List.range parts.length).map fun n => Files.ofWrittenParts (parts.take (n + 1))

/-- A tree with what the payloads name of the cases in a list of files. -/
def withPayloads (paths : List String) (t : Tree) : IO Tree :=
  paths.foldlM (fun t path => do
    match t.readText path with
    | .ok text => (Loading.wantedPaths path text).foldlM (fun t p => gathered 0 p t) t
    | .error _ => return t) t

/-- The files that a run may look at. -/
def files (a : Command.Arguments) : IO Tree := do
  let here := (← IO.currentDir).toString
  let empty : Tree := ⟨[], Files.parts here⟩
  let t := (empty.makeDirectories here).toOption.getD empty
  let t ← gathered caseDepth (a.testFile.getD a.testDir) t
  let t ← withPayloads (Loading.caseFilesAt t (a.testFile.getD a.testDir)) t
  let t ← match a.users with
    | some path => gathered 0 path t
    | none => pure t
  (waysTo a.reportDir).foldlM (fun t path => gathered 0 path t) t

/-- Write what is new. -/
def write (change : Files.Change) : IO Unit :=
  let path := "/" ++ Files.ofWrittenParts change.place
  match change.content with
  | .directory _ => IO.FS.createDirAll path
  | .file text => IO.FS.writeFile path (text.getD "")

end RestCase.Executable

open RestCase

/-- Run the program. -/
def main (words : List String) : IO UInt32 := do
  let vars ← Executable.surroundings
  let before ← match Command.Arguments.read vars words with
    | .ok a => Executable.files a
    | .error _ => pure ⟨[], []⟩
  let logFilter ← IO.getEnv "RUST_LOG"
  let shown := Command.program vars logFilter words Client.offline (← Executable.now) before
  for change in before.changes shown.files do
    Executable.write change
  IO.print shown.output
  IO.eprint shown.complaint
  return shown.exit.toUInt32
