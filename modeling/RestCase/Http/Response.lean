/-
# RestCase.Http.Response — responses

A `Response` is kept as it was received: the headers in order, the body as text.  Of several headers
with one name, letter case ignored, `Response.header?` takes the first.
-/
import RestCase.Json.Reader

namespace RestCase

/-- A received response. -/
structure Response where
  status : Nat
  headers : List (String × String)
  body : String
  deriving DecidableEq, Repr

/-- The value of the first header with a name, by `Text.sameIgnoringCase`. -/
def headerNamed? (headers : List (String × String)) (name : String) : Option String :=
  (headers.find? fun h => Text.sameIgnoringCase h.1 name).map (·.2)

namespace Response

/-- The value of a header. -/
def header? (r : Response) (name : String) : Option String := headerNamed? r.headers name

/-- The body as a JSON value (`Json.parse`), or the fault that keeps it from being one. -/
def json (r : Response) : Except Json.SyntaxFault Json := Json.parse r.body

end Response

end RestCase
