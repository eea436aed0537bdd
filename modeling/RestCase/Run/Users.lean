/-
# RestCase.Run.Users — the users of a run

`Users.ofFile` reads the users that a YAML file lists, each under an id.  Every setting is a text as
it is written, whatever it looks like (`Users.settingOf?`); one that says null is not given.  Of
users with one id the last counts.  A file that is not there stands for no users.
-/
import RestCase.Chars.Search
import RestCase.Files.Tree
import RestCase.Run.Reading
import RestCase.Yaml.Node

namespace RestCase.Users

open Yaml (Tree)

/-- A text as it is written. -/
def textOf? : Tree → Option String
  | .scalar _ text _ => some text
  | _ => none

/-- A scalar that stands for null, if it can be told. -/
def isNull? (tag : Option String) (text : String) (plain : Bool) : Option Bool :=
  if !plain then some false
  else match tag with
    | some t =>
      if t = Yaml.coreTag "null" then (if Yaml.isNullWord text then some true else none)
      else some false
    | none => some (text.isEmpty || Yaml.isNullWord text)

/-- A setting, which null leaves out. -/
def settingOf? : Tree → Option (Option String)
  | .scalar tag text plain => (isNull? tag text plain).map fun b => if b then none else some text
  | _ => none

/-- The entries of a mapping; an empty plain scalar has none. -/
def entriesOf? : Tree → Option (List (Tree × Tree))
  | .mapping _ entries => some entries
  | .scalar _ "" true => some []
  | _ => none

/-- One more setting of a user; each is given once, and others than the known ones do not count. -/
def addSetting (r : Decoding.UserDraft) (e : Tree × Tree) : Option Decoding.UserDraft := do
  let field ← textOf? e.1
  if Decoding.userFields.contains field then
    if (r.lookup field).isSome then none
    else return (field, ← settingOf? e.2) :: r
  else return r

/-- A user. -/
def userOf? (t : Tree) : Option User := do
  let entries ← entriesOf? t
  return Decoding.UserDraft.user (← entries.foldlM addSetting [])

/-- Users by their ids. -/
def tableOf? (t : Tree) : Option (Table User) := do
  let entries ← entriesOf? t
  let users ← entries.mapM fun e => do return (← textOf? e.1, ← userOf? e.2)
  return Table.ofList users

/-- The users that a text lists: none where it stands for null, else those of its mapping
(`tableOf?`). -/
def ofText? (text : String) : Option (Table User) := do
  match ← Yaml.tree? text with
  | .scalar tag text plain =>
    if ← isNull? tag text plain then return .empty else tableOf? (.scalar tag text plain)
  | t => tableOf? t

/-- What keeps the file of users from being used. -/
inductive Fault where
  | unreadable (path : String) (fault : Files.Fault)
  | unfit (path : String)
  deriving DecidableEq, Repr

/-- The words for a fault, from the outermost to the innermost. -/
def Fault.messages : Fault → List String
  | unreadable path fault => ["Failed to read user config: " ++ path, fault.message]
  | unfit path => ["Failed to parse user config: " ++ path]

/-- The words for a fault in one line. -/
def Fault.message (f : Fault) : String := String.intercalate ": " f.messages

/-- The users that a file lists, by `ofText?`. -/
def ofFile (files : Files.Tree) (path : String) : Except Fault (Table User) :=
  if !files.hasEntry path then .ok .empty
  else match files.readText path with
    | .error fault => .error (.unreadable path fault)
    | .ok text =>
      match ofText? text with
      | some users => .ok users
      | none => .error (.unfit path)

end RestCase.Users
