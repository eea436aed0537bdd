/-
# RestCase.Run.Reading — reading settings and users

Settings and users from JSON documents (`Decoding.settings`, `Decoding.users`).  Every field may be
left out.
-/
import RestCase.Case.Reading
import RestCase.Http.Credentials
import RestCase.Run.Settings

namespace RestCase.Decoding

/-- The fields of settings so far. -/
structure SettingsDraft where
  baseUrl : Option (Option String)
  defaultTimeout : Option Nat
  defaultConnectionTimeout : Option Nat

/-- The fields of settings. -/
def settingsLayout : Layout :=
  ⟨"struct RunnerConfig",
    [("baseUrl", true), ("defaultTimeoutMs", true), ("defaultConnectionTimeoutMs", true)]⟩

/-- One more field of settings. -/
def SettingsDraft.add (d : Dialect) (r : SettingsDraft) (field : String) (v : Node) :
    Decoded SettingsDraft :=
  match field with
  | "baseUrl" => do return { r with baseUrl := ← fill "baseUrl" r.baseUrl (optional (text d) v) }
  | "defaultTimeoutMs" => do
    let place ← fill "defaultTimeoutMs" r.defaultTimeout (natural word64 d v)
    return { r with defaultTimeout := place }
  | "defaultConnectionTimeoutMs" => do
    let place ← fill "defaultConnectionTimeoutMs" r.defaultConnectionTimeout (natural word64 d v)
    return { r with defaultConnectionTimeout := place }
  | _ => .ok r

/-- Settings; what is left out is as in `Settings.standard`. -/
def settings (d : Dialect) (v : Node) : Decoded Settings := do
  let r ← record d settingsLayout (SettingsDraft.mk none none none) (SettingsDraft.add d) v
  let s := Settings.standard
  return ⟨r.baseUrl.join, r.defaultTimeout.getD s.defaultTimeout,
    r.defaultConnectionTimeout.getD s.defaultConnectionTimeout⟩

/-- The fields of a user, in order. -/
def userFields : List String :=
  ["authType", "username", "password", "token", "apiKey", "apiKeyHeader"]

/-- The fields of a user. -/
def userLayout : Layout := ⟨"struct UserConfig", userFields.map fun f => (f, true)⟩

/-- What is given of the fields of a user. -/
abbrev UserDraft := List (String × Option String)

/-- One more field of a user. -/
def UserDraft.add (d : Dialect) (r : UserDraft) (field : String) (v : Node) : Decoded UserDraft :=
  if userFields.contains field then do
    if (r.lookup field).isSome then throw (.repeated field)
    return (field, ← optional (text d) v) :: r
  else .ok r

/-- The user with the fields that are given. -/
def UserDraft.user (r : UserDraft) : User :=
  let given (field : String) : Option String := (r.lookup field).join
  ⟨given "authType", given "username", given "password", given "token", given "apiKey",
    given "apiKeyHeader"⟩

/-- A user. -/
def user (d : Dialect) (v : Node) : Decoded User :=
  (record d userLayout [] (UserDraft.add d) v).map UserDraft.user

/-- Users by their ids. -/
def users (d : Dialect) (v : Node) : Decoded (Table User) := table d (user d) v

end RestCase.Decoding
