/-
# RestCase.Command.Arguments — arguments of the command line

The words after the name of the program are options (`Command.options`), some of which a value goes
with.  They count from left to right: the first word that cannot be used ends the reading
(`Command.Stop`), and so does the wish for help or for the version.  An option is given at most once
(`Command.Given.add`).  What the words leave open is taken from the environment
(`Command.Given.completed`), or has a value of its own (`Command.Given.arguments`).

`Command.Arguments.read` puts the three stages together.
-/
import RestCase.Chars.Digits
import RestCase.Chars.Search
import RestCase.Report.Format

namespace RestCase.Command

/-! ## Options -/

/-- The settings that a value goes with. -/
inductive Setting where
  | testDir | reportDir | testFile | users | baseUrl | workers | format
  deriving DecidableEq, Repr

/-- What an option asks for. -/
inductive Wish where
  | setting (s : Setting)
  | verbose
  | help
  | version
  deriving DecidableEq, Repr

/-- An option: its name, its letter if it has one, and what it asks for (`Wish`). -/
structure CommandOption where
  name : String
  letter : Option Char
  wish : Wish
  deriving DecidableEq, Repr

/-- Every option. -/
def options : List CommandOption := [
  ⟨"testDir", none, .setting .testDir⟩,
  ⟨"reportDir", none, .setting .reportDir⟩,
  ⟨"testFile", none, .setting .testFile⟩,
  ⟨"users", none, .setting .users⟩,
  ⟨"baseUrl", some 'b', .setting .baseUrl⟩,
  ⟨"parallel", some 'j', .setting .workers⟩,
  ⟨"reportFormat", none, .setting .format⟩,
  ⟨"verbose", some 'v', .verbose⟩,
  ⟨"help", some 'h', .help⟩,
  ⟨"version", some 'V', .version⟩]

/-- What the option of a name asks for. -/
def wishOfName? (name : List Char) : Option Wish :=
  (options.find? fun o => o.name.toList == name).map (·.wish)

/-- What the option of a letter asks for. -/
def wishOfLetter? (letter : Char) : Option Wish :=
  (options.find? fun o => o.letter == some letter).map (·.wish)

/-! ## Values -/

/-- The number of workers that a text gives; a plus sign in front is no matter. -/
def workersOf? (text : String) : Option Nat :=
  let digits := match text.toList with
    | '+' :: r => r
    | s => s
  match Chars.ofRadix? 10 digits with
  | some n => if n ≤ Chars.maxWord64 then some n else none
  | none => none

/-- The formats of reports that a word asks for. -/
def formatsOf? : String → Option (List Report.Format)
  | "text" => some [.text]
  | "html" => some [.html]
  | "json" => some [.json]
  | "all" => some Report.Format.all
  | _ => none

/-- The text can be the value of the setting. -/
def Setting.accepts (s : Setting) (value : String) : Bool :=
  match s with
  | testDir | reportDir | testFile | users => !value.isEmpty
  | baseUrl => true
  | workers => (workersOf? value).isSome
  | format => (formatsOf? value).isSome

/-! ## Reading -/

/-- What ends the reading of words. -/
inductive Stop where
  | refused | help | version
  deriving DecidableEq, Repr

/-- What has been given. -/
structure Given where
  values : List (Setting × String)
  verbose : Bool
  deriving DecidableEq, Repr

namespace Given

/-- Nothing has been given. -/
def nothing : Given := ⟨[], false⟩

/-- The value of a setting. -/
def value? (g : Given) (s : Setting) : Option String := g.values.lookup s

/-- One more value. -/
def add (g : Given) (s : Setting) (value : String) : Except Stop Given :=
  if (g.value? s).isSome || !s.accepts value then .error .refused
  else .ok { g with values := (s, value) :: g.values }

theorem value?_add {g h : Given} {s : Setting} {value : String} (e : g.add s value = .ok h) :
    h.value? s = some value := by
  unfold add at e
  split at e
  · cases e
  · obtain rfl := Except.ok.inj e
    simp [value?]

/-- An option that stands without a value. -/
def use (g : Given) : Wish → Except Stop Given
  | .setting _ => .error .refused
  | .verbose => if g.verbose then .error .refused else .ok { g with verbose := true }
  | .help => .error .help
  | .version => .error .version

/-- An option by its name, and a value that stands in the same word, if any.  The answer holds the
setting whose value is still to come. -/
def useName (g : Given) (name : List Char) (attached : Option (List Char)) :
    Except Stop (Option Setting × Given) :=
  match wishOfName? name, attached with
  | none, _ => .error .refused
  -- the value is the next word
  | some (.setting s), none => .ok (some s, g)
  | some (.setting s), some value => (g.add s (String.ofList value)).map fun h => (none, h)
  | some wish, none => (g.use wish).map fun h => (none, h)
  | some _, some _ => .error .refused

/-- Options by their letters; what stands after the letter of a setting is its value, an equals sign
between them apart. -/
def useLetters (g : Given) : List Char → Except Stop (Option Setting × Given)
  | [] => .ok (none, g)
  | c :: r =>
    match wishOfLetter? c with
    | none => .error .refused
    | some (.setting s) =>
      (match r with
      | [] => .ok (some s, g)
      | '=' :: value | value => (g.add s (String.ofList value)).map fun h => (none, h))
    | some wish =>
      match g.use wish with
      | .error stop => .error stop
      | .ok h => useLetters h r

/-- A word that stands where an option can: `useName` takes it after two dashes, `useLetters`
after one. -/
def useWord (g : Given) (word : String) : Except Stop (Option Setting × Given) :=
  match word.toList with
  | '-' :: '-' :: r =>
    let name := r.takeWhile (· != '=')
    g.useName name (if name.length < r.length then some (r.drop (name.length + 1)) else none)
  | '-' :: c :: r => g.useLetters (c :: r)
  | _ => .error .refused

end Given

/-- The word can be a value that stands on its own: it is a dash alone or begins with none. -/
def isLooseValue (word : String) : Bool := word == "-" || !Text.startsWith "-" word

/-- Read words, the first of which is the value of a setting if one is still to come. -/
def read (pending : Option Setting) (g : Given) : List String → Except Stop Given
  | [] => if pending.isSome then .error .refused else .ok g
  | word :: rest =>
    match pending with
    | some s =>
      if isLooseValue word then
        match g.add s word with
        | .error stop => .error stop
        | .ok h => read none h rest
      else .error .refused
    | none =>
      -- no words are expected after the mark that ends the options
      if word = "--" then if rest.isEmpty then .ok g else .error .refused
      else match g.useWord word with
        | .error stop => .error stop
        | .ok (next, h) => read next h rest

/-! ## What is asked for -/

/-- The variables of the environment and their values. -/
abbrev Variables := List (String × String)

/-- The variables that give the value of a setting. -/
def settingVariables : List (Setting × String) :=
  [(.users, "STEPWISE_USERS"), (.baseUrl, "STEPWISE_BASE_URL")]

/-- What has been given, with what the environment gives in addition (`settingVariables`). -/
def Given.completed (vars : Variables) (g : Given) : Except Stop Given :=
  settingVariables.foldlM (fun g e =>
    match g.value? e.1, vars.lookup e.2 with
    | none, some value => g.add e.1 value
    | _, _ => .ok g) g

/-- What a command line asks for. -/
structure Arguments where
  testDir : String
  reportDir : String
  testFile : Option String
  users : Option String
  baseUrl : Option String
  workers : Nat
  formats : List Report.Format
  verbose : Bool
  deriving DecidableEq, Repr

/-- What is asked for by what has been given. -/
def Given.arguments (g : Given) : Arguments where
  testDir := (g.value? .testDir).getD "tests/testcases"
  reportDir := (g.value? .reportDir).getD "target/reports"
  testFile := g.value? .testFile
  users := g.value? .users
  baseUrl := g.value? .baseUrl
  workers := ((g.value? .workers).bind workersOf?).getD 1
  formats := ((g.value? .format).bind formatsOf?).getD Report.Format.all
  verbose := g.verbose

/-- What a command line and the environment ask for: `read` over the words, then `Given.completed`
and `Given.arguments`. -/
def Arguments.read (vars : Variables) (words : List String) : Except Stop Arguments := do
  let given ← Command.read none .nothing words
  return (← given.completed vars).arguments

end RestCase.Command
