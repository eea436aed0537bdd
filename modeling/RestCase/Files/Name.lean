/-
# RestCase.Files.Name — file names

A path is a text with slashes between its parts.  It is shown as it was put together (`Files.join`);
what it leads to depends only on its parts (`Files.parts`), among which `.` and the empty part count
for nothing.  `..` is a part like any other here; where it leads is a matter of the tree.
-/

namespace RestCase.Files

/-- The path begins at the root. -/
def isAbsolute (path : String) : Bool := path.toList.head? == some '/'

/-- The path of a name below a directory. -/
def join (directory name : String) : String :=
  if isAbsolute name then name
  else if directory.isEmpty then name
  else if directory.toList.getLast? == some '/' then directory ++ name
  else directory ++ "/" ++ name

/-- The parts of a path between slashes, as they are written. -/
def writtenParts (path : String) : List String :=
  (path.toList.splitOnP (· == '/')).map String.ofList

/-- The part counts for nothing. -/
def isIdle (part : String) : Bool := part == "" || part == "."

/-- The parts of a path that count. -/
def parts (path : String) : List String := (writtenParts path).filter fun p => !isIdle p

/-- The path of a list of parts, as it is written. -/
def ofWrittenParts (parts : List String) : String := String.intercalate "/" parts

/-- The path of the directory that a path leads to a part of; the root and the empty path have none.
Whatever counts for nothing at the end is left out. -/
def parent? (path : String) : Option String :=
  let written := writtenParts path
  match written.reverse.dropWhile isIdle with
  | [] => if path.toList.head? == some '.' then some "" else none
  | _ :: before =>
    match before.reverse, before.dropWhile isIdle with
    | [], _ => some ""
    | first :: _, [] => some (if isAbsolute path then "/" else if first == "." then "." else "")
    | _, l => some (ofWrittenParts l.reverse)

/-- The last part of a path, unless it leads upwards. -/
def fileName? (path : String) : Option String :=
  match (parts path).getLast? with
  | some name => if name == ".." then none else some name
  | none => none

/-- What comes after the last dot of a name, unless the name begins with it. -/
def endingOf? (name : String) : Option String :=
  let tail := (name.toList.reverse.takeWhile (· != '.')).reverse
  let stem := name.toList.take (name.toList.length - tail.length - 1)
  if tail.length = name.toList.length || stem.isEmpty then none else some (String.ofList tail)

end RestCase.Files
