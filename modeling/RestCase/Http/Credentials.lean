/-
# RestCase.Http.Credentials — users and their credentials

A `User` is described by optional settings.  The `Credentials` of a request are what the settings
amount to (`User.credentials?`); a user with an unknown scheme or a missing setting has none, and
neither has an unknown user (`credentialsOf?`).
-/
import RestCase.Chars.Basic
import RestCase.Table

namespace RestCase

/-- The ways to authenticate. -/
inductive AuthScheme where
  | basic | bearer | jwt | apiKey
  deriving DecidableEq, Repr

namespace AuthScheme

/-- The name of a scheme. -/
def name : AuthScheme → String
  | basic => "basic"
  | bearer => "bearer"
  | jwt => "jwt"
  | apiKey => "apikey"

/-- A text that names no scheme, as it was looked for. -/
structure Unsupported where
  name : String
  deriving DecidableEq, Repr

/-- The words for an unsupported scheme. -/
def Unsupported.message (u : Unsupported) : String := "unsupported auth type: " ++ u.name

/-- The scheme that a text names; case and blanks at the ends do not matter
(`Text.sameIgnoringCase`, `Text.trim`). -/
def parse (text : String) : Except Unsupported AuthScheme :=
  match Text.toLower (Text.trim text) with
  | "basic" => .ok basic
  | "bearer" => .ok bearer
  | "jwt" => .ok jwt
  | "apikey" => .ok apiKey
  | "api_key" => .ok apiKey
  | other => .error ⟨other⟩

end AuthScheme

/-- The settings of a user. -/
structure User where
  authType : Option String
  username : Option String
  password : Option String
  token : Option String
  apiKey : Option String
  apiKeyHeader : Option String
  deriving DecidableEq, Repr

/-- What a request authenticates with. -/
inductive Credentials where
  | basic (username password : String)
  | bearer (token : String)
  | apiKey (header key : String)
  deriving DecidableEq, Repr

namespace User

/-- The credentials that a scheme takes from the settings. -/
def credentialsFor? (u : User) : AuthScheme → Option Credentials
  | .basic => do return .basic (← u.username) (← u.password)
  | .bearer | .jwt => do return .bearer (← u.token)
  | .apiKey => do return .apiKey (← u.apiKeyHeader) (← u.apiKey)

/-- The credentials of a user: what its scheme takes from its settings (`credentialsFor?`). -/
def credentials? (u : User) : Option Credentials :=
  match u.authType.map AuthScheme.parse with
  | some (.ok scheme) => u.credentialsFor? scheme
  | _ => none

end User

/-- The credentials of the user with an id; a user that is unknown or lacks a setting has none. -/
def credentialsOf? (users : Table User) (id : String) : Option Credentials :=
  (users.find? id).bind User.credentials?

end RestCase
