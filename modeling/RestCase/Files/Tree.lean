/-
# RestCase.Files.Tree — trees of files

A `Files.Tree` has directories and files with a text, or with bytes that are no text, and a
directory at which paths begin that do not begin at the root.  `Files.Tree.locate` follows a path to
its place; reading and writing are stated over places.

A directory lists its entries in some order, which has a meaning for nothing but the listing.
`Files.Tree.changes` is what has to be written to get from one tree to another.

Boundary: there are no links, no rights and no other sizes or times; what could fail for such a
reason fails as a `Files.Fault` of the operation or not at all.
-/
import RestCase.Files.Name

namespace RestCase.Files

/-- What stands under a name: a file, which need not hold a text, or a directory. -/
inductive Entry where
  | file (text : Option String)
  | directory (entries : List (String × Entry))

instance : Inhabited Entry := ⟨.directory []⟩

namespace Entry

/-- The entry is a directory. -/
def isDirectory : Entry → Bool
  | directory _ => true
  | file _ => false

/-- The entries of a directory. -/
def entries : Entry → List (String × Entry)
  | directory l => l
  | file _ => []

end Entry

/-- All files, and the directory at which relative paths begin. -/
structure Tree where
  root : List (String × Entry)
  here : List String

/-- What keeps a file or a directory from being used. -/
inductive Fault where
  | notFound | notDirectory | isDirectory | taken | notText | zeroByte | longName
  deriving DecidableEq, Repr

/-- The words for a fault. -/
def Fault.message : Fault → String
  | notFound => "No such file or directory (os error 2)"
  | notDirectory => "Not a directory (os error 20)"
  | isDirectory => "Is a directory (os error 21)"
  | taken => "File exists (os error 17)"
  | notText => "stream did not contain valid UTF-8"
  | zeroByte => "file name contained an unexpected NUL byte"
  | longName => "File name too long (os error 36)"

/-! ## Finding entries -/

/-- The place of an entry: the names on the way to it from the root. -/
abbrev Place := List String

/-- The entry under a name. -/
def lookup (name : String) : List (String × Entry) → Option Entry
  | [] => none
  | (n, e) :: r => if n = name then some e else lookup name r

/-- The entry at a place below a directory. -/
def entryAt? : Place → Entry → Option Entry
  | [], e => some e
  | _ :: _, .file _ => none
  | name :: r, .directory l => (lookup name l).bind (entryAt? r)

/-- One step on the way along a path. -/
def follow (root : Entry) (place : Place) (part : String) : Except Fault Place :=
  match entryAt? place root with
  | none => .error .notFound
  | some (.file _) => .error .notDirectory
  | some (.directory l) =>
    if isIdle part then .ok place
    -- there are no links, so the directory above has the place without its last name
    else if part = ".." then .ok place.dropLast
    else if 255 < part.utf8ByteSize then .error .longName
    else match lookup part l with
      | some _ => .ok (place ++ [part])
      | none => .error .notFound

namespace Tree

/-- The root as a directory. -/
def rootEntry (t : Tree) : Entry := .directory t.root

/-- The place that a path leads to, each part of it being a step (`follow`). -/
def locate (t : Tree) (path : String) : Except Fault Place :=
  if path.isEmpty then .error .notFound
  else if path.toList.contains '\x00' then .error .zeroByte
  else if 4095 < path.utf8ByteSize then .error .longName
  else (writtenParts path).foldlM (follow t.rootEntry) (if isAbsolute path then [] else t.here)

/-- What a path leads to: the entry at the place that `locate` finds. -/
def find (t : Tree) (path : String) : Except Fault Entry := do
  match entryAt? (← t.locate path) t.rootEntry with
  | some e => return e
  | none => throw .notFound

/-- The path leads to a file. -/
def isFile (t : Tree) (path : String) : Bool :=
  match t.find path with
  | .ok (.file _) => true
  | _ => false

/-- The path leads to a directory. -/
def isDirectory (t : Tree) (path : String) : Bool :=
  match t.find path with
  | .ok (.directory _) => true
  | _ => false

/-- The path leads somewhere. -/
def hasEntry (t : Tree) (path : String) : Bool :=
  match t.find path with
  | .ok _ => true
  | .error _ => false

/-- The text of the file that a path leads to. -/
def readText (t : Tree) (path : String) : Except Fault String := do
  match ← t.find path with
  | .file (some text) => return text
  | .file none => throw .notText
  | .directory _ => throw .isDirectory

/-- The entries of the directory that a path leads to. -/
def readDirectory (t : Tree) (path : String) : Except Fault (List (String × Entry)) := do
  match ← t.find path with
  | .directory l => return l
  | .file _ => throw .notDirectory

end Tree

/-! ## Changing trees -/

/-- The entries with one under a name; an entry of that name gives way. -/
def put (name : String) (e : Entry) : List (String × Entry) → List (String × Entry)
  | [] => [(name, e)]
  | (n, f) :: r => if n = name then (name, e) :: r else (n, f) :: put name e r

theorem lookup_put (name : String) (e : Entry) (l : List (String × Entry)) :
    lookup name (put name e l) = some e := by
  induction l with
  | nil => simp [put, lookup]
  | cons a r ih =>
    obtain ⟨n, f⟩ := a
    by_cases h : n = name <;> simp [put, lookup, h, ih]

/-- The entries with one at a place, whose directories are there. -/
def putAt : Place → Entry → List (String × Entry) → List (String × Entry)
  | [], _, l => l
  | [name], e, l => put name e l
  | name :: next :: r, e, l =>
    match lookup name l with
    | some (.directory inner) => put name (.directory (putAt (next :: r) e inner)) l
    | _ => l

namespace Tree

/-- The place of the directory in which the last part of a path is to stand, and that part. -/
def locateNew (t : Tree) (path : String) : Except Fault (Place × String) := do
  let written := (writtenParts path).reverse.dropWhile (· == "")
  match written with
  -- nothing but slashes leads to the root, which is there
  | [] => throw (if path.isEmpty then .notFound else .taken)
  | last :: before =>
    let directory := ofWrittenParts before.reverse
    let place ←
      if before.all (· == "") then t.locate (if isAbsolute path then "/" else ".")
      else t.locate directory
    match entryAt? place t.rootEntry with
    | some (.directory _) => return (place, last)
    | some (.file _) => throw .notDirectory
    | none => throw .notFound

/-- The tree with a new directory. -/
def makeDirectory (t : Tree) (path : String) : Except Fault Tree := do
  let (place, name) ← t.locateNew path
  if isIdle name || name == ".." then throw .taken
  if 255 < name.utf8ByteSize then throw .longName
  match entryAt? (place ++ [name]) t.rootEntry with
  | some _ => throw .taken
  | none => return { t with root := putAt (place ++ [name]) (.directory []) t.root }

/-- The tree with a directory and whatever directories lead to it (`Files.parent?`); every turn
leaves out a part of the path. -/
def makeDirectories (t : Tree) (path : String) : Except Fault Tree :=
  go (writtenParts path).length path
where
  /-- The same with a bound on the number of parts. -/
  go : Nat → String → Except Fault Tree
    | fuel, path =>
      if path.isEmpty then .ok t
      else match t.makeDirectory path with
        | .ok u => .ok u
        | .error .notFound =>
          (match fuel, parent? path with
          | fuel + 1, some above =>
            match go fuel above with
            | .error e => .error e
            | .ok u =>
              match u.makeDirectory path with
              | .ok v => .ok v
              | .error e => if u.isDirectory path then .ok u else .error e
          | _, _ => .error .notFound)
        -- a directory that is there already is as good as a new one
        | .error e => if t.isDirectory path then .ok t else .error e

/-- The tree with a file; one that holds no text has no content here. -/
def writeFile (t : Tree) (path : String) (content : Option String) : Except Fault Tree := do
  let (place, name) ← t.locateNew path
  if isIdle name || name == ".." then throw .isDirectory
  if 255 < name.utf8ByteSize then throw .longName
  match entryAt? (place ++ [name]) t.rootEntry with
  | some (.directory _) => throw .isDirectory
  | _ => return { t with root := putAt (place ++ [name]) (.file content) t.root }

/-- The tree with a file that holds a text. -/
def writeText (t : Tree) (path text : String) : Except Fault Tree := t.writeFile path (some text)

end Tree

/-! ## Comparing trees -/

/-- A file or a directory that is new at a place; a file need not hold a text. -/
structure Change where
  place : Place
  content : Entry

mutual
/-- What is new in an entry at a place, of which there may have been an earlier one. -/
def changesAt (place : Place) (before : Option Entry) : Entry → List Change
  | .file text =>
    (match before with
    | some (.file old) => if old = text then [] else [⟨place, .file text⟩]
    | _ => [⟨place, .file text⟩])
  | .directory l =>
    (match before with
    | some (.directory old) => changesAmong place old l
    | _ => ⟨place, .directory []⟩ :: changesAmong place [] l)

/-- What is new among the entries of a directory. -/
def changesAmong (place : Place) (before : List (String × Entry)) :
    List (String × Entry) → List Change
  | [] => []
  | (name, e) :: r =>
    changesAt (place ++ [name]) (lookup name before) e ++ changesAmong place before r
end

/-- What is new in a tree (`changesAmong`), a directory before what stands in it. -/
def Tree.changes (before after : Tree) : List Change :=
  changesAmong [] before.root after.root

end RestCase.Files
