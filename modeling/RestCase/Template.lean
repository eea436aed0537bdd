/-
# RestCase.Template — placeholders in texts

A template is filled in one pass from left to right (`Template.fill`): a placeholder opens at the
first opening mark of the text that is left and closes at the first closing mark after it; the text
put in its place is never looked at again.  A placeholder whose name has no value stays as it is and
is reported (`Filled.unresolved`).

Two kinds of placeholder use this pass, told apart by their `Marks`: `${name}` for variables of the
context (`Template.interpolate`), and `{{name}}` for the template variables of a payload
(`Template.applyVariables`).
-/
import RestCase.Context
import RestCase.Chars.Search

namespace RestCase

/-- The two marks around the name of a placeholder. -/
structure Marks where
  opening : List Char
  closing : List Char
  opening_ne_nil : opening ≠ []

namespace Template

/-- The marks of a variable of the context: a dollar sign and a brace, and a brace. -/
def variableMarks : Marks := ⟨['$', '\x7b'], ['\x7d'], by simp⟩

/-- The marks of a template variable: two braces on either side. -/
def payloadMarks : Marks := ⟨['\x7b', '\x7b'], ['\x7d', '\x7d'], by simp⟩

/-! ## Filling -/

/-- A filled template and the names that had no value, in order of appearance. -/
structure Filled where
  text : List Char
  unresolved : List (List Char)
  deriving DecidableEq, Repr

/-- Fill a template: every placeholder whose name `value?` knows is replaced.  A value is not
looked at again, since the recursion goes on behind the placeholder. -/
def fill (marks : Marks) (value? : List Char → Option (List Char)) (template : List Char) :
    Filled :=
  match _h : Chars.splitFirst? marks.opening template with
  | none => ⟨template, []⟩
  | some (before, inside) =>
    match _h' : Chars.splitFirst? marks.closing inside with
    | none => ⟨template, []⟩
    | some (name, rest) =>
      let tail := fill marks value? rest
      match value? name with
      | some v => ⟨before ++ (v ++ tail.text), tail.unresolved⟩
      | none =>
        ⟨before ++ (marks.opening ++ (name ++ (marks.closing ++ tail.text))),
          name :: tail.unresolved⟩
termination_by template.length
decreasing_by
  have h₁ := Chars.splitFirst?_length _h
  have h₂ := Chars.splitFirst?_length _h'
  have h₃ := List.length_pos_iff.2 marks.opening_ne_nil
  omega

/-! ## The pieces of a template -/

/-- A part of a template: text that stands for itself, or the name in a placeholder. -/
inductive Piece where
  | literal (text : List Char)
  | hole (name : List Char)
  deriving DecidableEq, Repr

/-- A template cut into literal text and placeholders, at the same places at which `fill`
replaces. -/
def pieces (marks : Marks) (template : List Char) : List Piece :=
  match _h : Chars.splitFirst? marks.opening template with
  | none => [.literal template]
  | some (before, inside) =>
    match _h' : Chars.splitFirst? marks.closing inside with
    | none => [.literal template]
    | some (name, rest) => .literal before :: .hole name :: pieces marks rest
termination_by template.length
decreasing_by
  have h₁ := Chars.splitFirst?_length _h
  have h₂ := Chars.splitFirst?_length _h'
  have h₃ := List.length_pos_iff.2 marks.opening_ne_nil
  omega

/-- A piece as it stands in the template. -/
def Piece.verbatim (marks : Marks) : Piece → List Char
  | .literal t => t
  | .hole name => marks.opening ++ name ++ marks.closing

/-! ## Variables of the context -/

/-- A text with its variables put in, and the names that have no value. -/
structure Interpolation where
  text : String
  unresolved : List String
  deriving DecidableEq, Repr

/-- Put the variables of the context into a text: `fill` with `variableMarks` and
`Context.getString?`. -/
def interpolation (ctx : Context) (template : String) : Interpolation :=
  let f := fill variableMarks
    (fun name => (ctx.getString? (String.ofList name)).map String.toList) template.toList
  ⟨String.ofList f.text, f.unresolved.map String.ofList⟩

/-- The text with the variables of the context put in. -/
def interpolate (ctx : Context) (template : String) : String := (interpolation ctx template).text

/-- The text has a placeholder for a variable: a closing mark behind the first opening one. -/
def hasPlaceholders (text : String) : Bool :=
  match Chars.splitFirst? variableMarks.opening text.toList with
  | some (_, inside) => Chars.contains variableMarks.closing inside
  | none => false

/-! ## Template variables -/

/-- A template variable of a payload: a value, or else a default (`Variable.effective?`). -/
structure Variable where
  name : String
  value : Option String
  defaultValue : Option String
  deriving DecidableEq

/-- The value, or the default where there is no value. -/
def Variable.effective? (v : Variable) : Option String := v.value <|> v.defaultValue

/-- The effective value of the first variable with a name, blanks around the name ignored. -/
def effectiveValue? (vars : List Variable) (name : List Char) : Option (List Char) :=
  let key := String.ofList (Chars.trim name)
  ((vars.find? (·.name == key)).bind Variable.effective?).map String.toList

/-- Put template vars into a text: `fill` with `payloadMarks` and `effectiveValue?`.  Nothing is
looked for when there are no vars or no opening marks. -/
def applyVariables (vars : List Variable) (template : String) : String :=
  if vars.isEmpty || !Chars.contains payloadMarks.opening template.toList then template
  else String.ofList (fill payloadMarks (effectiveValue? vars) template.toList).text

end Template

end RestCase
