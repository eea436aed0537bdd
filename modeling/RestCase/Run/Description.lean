/-
# RestCase.Run.Description — descriptions without secrets

Users, credentials and runs as they may be shown in a log: whatever could be used to authenticate is
left out or masked (`secretMask`).  That no secret has a say in any of these texts is
`Environment.descriptions_of_masked`.
-/
import RestCase.Chars.Quoted
import RestCase.Run.Case

namespace RestCase

/-- What stands for a secret. -/
def secretMask : String := Text.quoted "***"

/-- A text that may be missing. -/
def describedText : Option String → String
  | some s => "Some(" ++ Text.quoted s ++ ")"
  | none => "None"

/-- A name and fields between braces. -/
def describedRecord (name : String) (fields : List (String × String)) (more : Bool) : String :=
  let shown := fields.map (fun f => f.1 ++ ": " ++ f.2) ++ if more then [".."] else []
  name ++ " \x7b " ++ String.intercalate ", " shown ++ " \x7d"

/-- A user: the scheme and the name alone. -/
def User.description (u : User) : String :=
  describedRecord "UserConfig"
    [("auth_type", describedText u.authType), ("username", describedText u.username)] true

/-- Credentials with the secret masked: `secretMask` stands in its place. -/
def Credentials.description : Credentials → String
  | basic username _ =>
    describedRecord "Basic" [("username", Text.quoted username), ("password", secretMask)] false
  | bearer _ => "Bearer(" ++ secretMask ++ ")"
  | apiKey header _ =>
    describedRecord "ApiKey" [("header", Text.quoted header), ("key", secretMask)] false

/-- Credentials that may be missing. -/
def describedCredentials : Option Credentials → String
  | some c => "Some(" ++ c.description ++ ")"
  | none => "None"

/-- Settings. -/
def Settings.description (s : Settings) : String :=
  describedRecord "RunnerConfig"
    [("base_url", describedText s.baseUrl), ("default_timeout_ms", Text.ofNat s.defaultTimeout),
      ("default_connection_timeout_ms", Text.ofNat s.defaultConnectionTimeout)] false

/-- What the cases of a run have in common: the settings, and how many users there are. -/
def Environment.description (env : Environment) : String :=
  describedRecord "DefaultTestRunner"
    [("config", env.settings.description), ("users", Text.ofNat env.users.size)] true

end RestCase
