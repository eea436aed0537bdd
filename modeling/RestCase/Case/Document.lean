/-
# RestCase.Case.Document — test case documents

A test case is written as a YAML document (`TestCase.ofYaml`).  The payload of a step may stand in a
file of its own, which the payload names after `file:` (`payloadReference?`); reading the document
puts the content of the file in its place (`Step.inlined`, `TestCase.inlined`).  Where such a file
is looked for is not decided here: `PayloadFiles` is a function from the name to a content or a
fault.

Boundary: the content has to hold something in braces or brackets (`checkedPayload`), and nothing
else is asked of it.  It is not read as JSON.
-/
import RestCase.Case.Reading
import RestCase.Chars.Search

namespace RestCase

/-! ## Payload files -/

/-- What keeps the file of a payload from being used. -/
inductive PayloadFault where
  | notFound (reference : String)
  | unreadable (place problem : String)
  | empty (place : String)
  | unbracketed (place : String)
  deriving DecidableEq, Repr

/-- The words for a fault of a payload. -/
def PayloadFault.message : PayloadFault → String
  | notFound reference => "payload file '" ++ reference ++ "' not found"
  | unreadable place problem => "Failed to read payload file: " ++ place ++ ": " ++ problem
  | empty place => "payload file '" ++ place ++ "' is empty"
  | unbracketed place =>
    "payload file '" ++ place ++ "' does not contain a JSON object or array"

/-- The text stands between two marks, blanks at the ends apart. -/
def between (opening closing : Char) (text : List Char) : Bool :=
  text.head? == some opening && text.getLast? == some closing

/-- The content of a payload file at a place, if it can be a payload: it has to begin and end like
JSON (`between`). -/
def checkedPayload (place content : String) : Except PayloadFault String :=
  let inner := Chars.trim content.toList
  if inner.isEmpty then .error (.empty place)
  -- the blanks at the ends are sent as well
  else if between '\x7b' '\x7d' inner || between '[' ']' inner then .ok content
  else .error (.unbracketed place)

/-- The file that a payload names. -/
def payloadReference? (payload : String) : Option String :=
  (Text.afterPrefix? "file:" (Text.trim payload)).map Text.trim

/-- A way to get at the content of the files that payloads name: `Loading.payloadFiles` looks into
a tree, `PayloadFiles.none` finds nothing. -/
abbrev PayloadFiles := String → Except PayloadFault String

/-- No file can be found. -/
def PayloadFiles.none : PayloadFiles := fun reference => .error (.notFound reference)

/-! ## Documents -/

/-- What keeps a document from being a test case. -/
inductive DocumentFault where
  | notYaml
  | unfit (fault : Decoding.Fault)
  | payload (step : String) (fault : PayloadFault)
  | invalid (fault : TestCase.Invalid)

/-- The words for a fault of a document. -/
def DocumentFault.message : DocumentFault → String
  | notYaml => "Failed to parse YAML"
  | unfit fault => "Invalid test case document: " ++ fault.message
  | payload step fault => "Invalid payload for step '" ++ step ++ "': " ++ fault.message
  | invalid fault => fault.message

namespace Step

/-- The step with the content of the file that its payload names. -/
def inlined (files : PayloadFiles) (s : Step) : Except DocumentFault Step :=
  match s.request.payload.bind payloadReference? with
  | none => .ok s
  | some reference =>
    match files reference with
    | .ok content => .ok { s with request := { s.request with payload := some content } }
    | .error fault => .error (.payload s.name fault)

theorem inlined_eq_self {files : PayloadFiles} {s : Step}
    (h : s.request.payload.bind payloadReference? = none) : s.inlined files = .ok s := by
  simp [inlined, h]

end Step

namespace TestCase

/-- The case with the files that its payloads name put in, in the order of the phases. -/
def inlined (files : PayloadFiles) (c : TestCase) : Except DocumentFault TestCase := do
  let preconditions ← c.preconditions.mapM (Step.inlined files)
  let setup ← c.setup.mapM (Step.inlined files)
  let execution ← c.execution.mapM (Step.inlined files)
  let cleanup ← c.cleanup.mapM (Step.inlined files)
  return { c with preconditions, setup, execution, cleanup }

/-- A case that lacks nothing (`TestCase.invalid?`). -/
def checked (c : TestCase) : Except DocumentFault TestCase :=
  match c.invalid? with
  | some fault => .error (.invalid fault)
  | none => .ok c

theorem checked_eq_ok_iff (c d : TestCase) : c.checked = .ok d ↔ c.invalid? = none ∧ c = d := by
  unfold checked
  split <;> simp_all

/-- The case that a YAML document describes, with its payloads as they are written. -/
def described (text : String) : Except DocumentFault TestCase :=
  match Yaml.node? text with
  | none => .error .notYaml
  | some document =>
    (Decoding.testCase .yaml (Decoding.unwrapped "test" document)).mapError .unfit

/-- The case of a YAML document: `described`, with its files `inlined`, and `checked`. -/
def ofYaml (files : PayloadFiles) (text : String) : Except DocumentFault TestCase :=
  match described text with
  | .error fault => .error fault
  | .ok c =>
    match c.inlined files with
    | .error fault => .error fault
    | .ok d => d.checked

theorem invalid?_of_ofYaml {files : PayloadFiles} {text : String} {c : TestCase}
    (h : ofYaml files text = .ok c) : c.invalid? = none := by
  unfold ofYaml at h
  split at h
  · cases h
  · split at h
    · cases h
    · obtain ⟨hv, rfl⟩ := (checked_eq_ok_iff _ _).1 h
      exact hv

/-- The files that the payloads of a case name, by `payloadReference?`. -/
def payloadReferences (c : TestCase) : List String :=
  (c.preconditions ++ c.setup ++ c.execution ++ c.cleanup).filterMap fun s =>
    s.request.payload.bind payloadReference?

end TestCase

end RestCase
