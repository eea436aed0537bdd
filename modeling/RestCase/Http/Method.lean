/-
# RestCase.Http.Method — request methods

The seven methods that a step may use, of which `Method.allowsBody` tells those whose requests carry
a payload.  The name of a method reads back as that method (`parse_name`).
-/
import RestCase.Chars.Basic

namespace RestCase

/-- A request method. -/
inductive Method where
  | get | post | put | delete | patch | head | options
  deriving DecidableEq, Repr

namespace Method

/-- Every method. -/
def all : List Method := [get, post, put, delete, patch, head, options]

/-- The name of a method, in upper case. -/
def name : Method → String
  | get => "GET"
  | post => "POST"
  | put => "PUT"
  | delete => "DELETE"
  | patch => "PATCH"
  | head => "HEAD"
  | options => "OPTIONS"

/-- Only these methods send a body; `RequestSpec.bodyOf` drops the payload of any other. -/
def allowsBody : Method → Bool
  | post | put | patch => true
  | _ => false

/-- A text that names no method, as it was looked for. -/
structure Unsupported where
  name : String
  deriving DecidableEq, Repr

/-- The words for an unsupported method. -/
def Unsupported.message (u : Unsupported) : String := "unsupported HTTP method: " ++ u.name

/-- The method that a text names; case and blanks at the ends do not matter. -/
def parse (text : String) : Except Unsupported Method :=
  let wanted := Text.toUpper (Text.trim text)
  match all.find? fun m => m.name == wanted with
  | some m => .ok m
  | none => .error ⟨wanted⟩

theorem parse_name (m : Method) : parse m.name = .ok m := by
  cases m <;> rfl

end Method

end RestCase
