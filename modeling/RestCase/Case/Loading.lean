/-
# RestCase.Case.Loading — loading test cases

`Loading.ofFile` loads the case of one file, `Loading.ofDirectory` those of all case files below a
directory, in the order of their paths compared part by part (`Loading.notAfter`), and
`Loading.ofPaths` those of files and directories in turn.

What a payload names is looked for next to the file of the case and then where relative paths begin
(`Loading.payloadPaths`); the first place where there is a file decides, even if it cannot be read.

A list of files and a directory leave out the files that cannot be loaded, and a list of paths those
that lead nowhere.  Only a directory that cannot be listed is a fault (`LoadFault.directory`).
-/
import RestCase.Case.Document
import RestCase.Files.Tree

namespace RestCase

open Files (Entry)

/-- A case and the path of the file from which it was loaded. -/
structure LoadedCase where
  source : String
  case : TestCase

/-- What keeps cases from being loaded. -/
inductive LoadFault where
  | unreadable (path : String) (fault : Files.Fault)
  | unfit (path : String) (fault : DocumentFault)
  | directory (path : String) (fault : Files.Fault)

/-- The words for a fault of loading, from the outermost to the innermost. -/
def LoadFault.messages : LoadFault → List String
  | unreadable path fault => ["Failed to read test file: " ++ path, fault.message]
  | unfit path fault => ["Failed to load test case from " ++ path, fault.message]
  | directory path fault => ["Failed to read directory: " ++ path, fault.message]

/-- The words for a fault in one line. -/
def LoadFault.message (f : LoadFault) : String := String.intercalate ": " f.messages

namespace Loading

/-! ## Files -/

/-- Where a file can be that a payload names: in a directory, or where relative paths begin. -/
def payloadPaths (directory : Option String) (reference : String) : List String :=
  (directory.map fun d => Files.join d reference).toList ++ [reference]

/-- The files that payloads name, each read from the first of its `payloadPaths` that leads to a
file. -/
def payloadFiles (files : Files.Tree) (directory : Option String) : PayloadFiles := fun reference =>
  match (payloadPaths directory reference).find? files.isFile with
  | none => .error (.notFound reference)
  | some path =>
    -- a file that is there is not passed over, even if it cannot be read
    match files.readText path with
    | .error fault => .error (.unreadable path fault.message)
    | .ok content => checkedPayload path content

/-- The case of a file. -/
def ofFile (files : Files.Tree) (path : String) : Except LoadFault LoadedCase :=
  match files.readText path with
  | .error fault => .error (.unreadable path fault)
  | .ok text =>
    match TestCase.ofYaml (payloadFiles files (Files.parent? path)) text with
    | .error fault => .error (.unfit path fault)
    | .ok c => .ok ⟨path, c⟩

/-- Where the files can be that the case of a file names. -/
def wantedPaths (path text : String) : List String :=
  match TestCase.described text with
  | .ok c => c.payloadReferences.flatMap (payloadPaths (Files.parent? path))
  | .error _ => []

/-! ## Directories -/

/-- The endings of the names of case files. -/
def caseEndings : List String := ["yaml", "yml"]

/-- The name is one of a case file: it has one of `caseEndings`. -/
def isCaseFile (name : String) : Bool :=
  match Files.endingOf? name with
  | some ending => caseEndings.contains ending
  | none => false

theorem isCaseFile_iff (name : String) :
    isCaseFile name = true ↔
      Files.endingOf? name = some "yaml" ∨ Files.endingOf? name = some "yml" := by
  unfold isCaseFile caseEndings
  split <;> simp_all

mutual
/-- The case files of an entry that stands under `way`, a list of names. -/
def filesBelow (way : List String) : Entry → List (List String)
  | .file _ => [way]
  | .directory l => filesAmong way l

/-- The case files among the entries of a directory and below. -/
def filesAmong (way : List String) : List (String × Entry) → List (List String)
  | [] => []
  | (name, e) :: r =>
    -- a directory is entered whatever its name ends in
    (if e.isDirectory || isCaseFile name then filesBelow (way ++ [name]) e else []) ++
      filesAmong way r
end

/-- The order of ways, name by name. -/
def notAfter : List String → List String → Bool
  | [], _ => true
  | _ :: _, [] => false
  | a :: r, b :: s => if a = b then notAfter r s else a < b

/-- The case files of a directory (`filesAmong`), in the order of `notAfter`. -/
def caseFiles (l : List (String × Entry)) : List (List String) :=
  (filesAmong [] l).mergeSort notAfter

/-- The case files at a path, which leads to a directory or to one of them. -/
def caseFilesAt (files : Files.Tree) (path : String) : List String :=
  match files.readDirectory path with
  | .ok l => (caseFiles l).map fun way => way.foldl Files.join path
  | .error _ => [path]

/-- The cases of a list of files, those left out that `ofFile` cannot load. -/
def ofFiles (files : Files.Tree) (paths : List String) : List LoadedCase :=
  paths.filterMap fun p => (ofFile files p).toOption

/-- The cases below a directory: `ofFiles` on its `caseFiles`. -/
def ofDirectory (files : Files.Tree) (path : String) : Except LoadFault (List LoadedCase) :=
  match files.readDirectory path with
  | .error fault => .error (.directory path fault)
  | .ok l => .ok (ofFiles files ((caseFiles l).map fun way => way.foldl Files.join path))

/-- The cases of paths, each to a file or a directory; any other path is left out. -/
def ofPaths (files : Files.Tree) (paths : List String) : Except LoadFault (List LoadedCase) :=
  (paths.mapM one).map List.flatten
where
  /-- The cases of a path. -/
  one (path : String) : Except LoadFault (List LoadedCase) :=
    if files.isDirectory path then ofDirectory files path
    else if files.isFile path then .ok (ofFiles files [path])
    else .ok []

end Loading

end RestCase
