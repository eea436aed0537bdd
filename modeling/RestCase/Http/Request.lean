/-
# RestCase.Http.Request — requests

A `Request` as it is sent: the URL is absolute, every variable is filled in and every default
applied.  `Request.anonymous` is the request without what it authenticates with.
-/
import RestCase.Http.Credentials
import RestCase.Http.Method
import RestCase.Http.Response

namespace RestCase

/-- A request that is ready to be sent.  Times are in milliseconds. -/
structure Request where
  method : Method
  url : String
  headers : Table String
  body : Option String
  timeout : Nat
  connectionTimeout : Nat
  credentials : Option Credentials
  deriving DecidableEq

namespace Request

/-- The request without what it authenticates with: all that a client blind to credentials sees. -/
def anonymous (r : Request) : Request := { r with credentials := none }

end Request

end RestCase
