/-
# RestCase.Run.Settings — settings of a run

A run has a base URL, which endpoints may be relative to, and times after which a request is given
up.  In `Settings.resolve` an endpoint with `://` in it is a URL of its own and is used as it is
written, blanks around it apart (`resolve_absolute`); any other endpoint stands below the base,
whatever slashes it begins with.

How the host of a URL is written in ASCII is the parameter `Url.Names`.
-/
import RestCase.Chars.Search
import RestCase.Url.Reader

namespace RestCase

/-- What all cases of a run share. -/
structure Settings where
  baseUrl : Option String
  defaultTimeout : Nat
  defaultConnectionTimeout : Nat
  deriving DecidableEq, Repr

namespace Settings

/-- Without a base, thirty seconds for an answer and ten for a connection. -/
def standard : Settings := ⟨none, 30000, 10000⟩

/-- The settings with another base. -/
def withBase (s : Settings) (baseUrl : String) : Settings := { s with baseUrl := some baseUrl }

/-- What keeps an endpoint from being used. -/
inductive EndpointFault where
  | empty
  | invalid (endpoint : String) (fault : Url.Fault)
  | noBase (endpoint : String)
  | invalidBase (base : String) (fault : Url.Fault)
  | notBelow (base endpoint : String) (fault : Url.Fault)
  deriving DecidableEq, Repr

/-- The words for a fault of an endpoint. -/
def EndpointFault.message : EndpointFault → String
  | empty => "request endpoint is empty"
  | invalid endpoint fault => "Invalid endpoint URL: " ++ endpoint ++ ": " ++ fault.message
  | noBase endpoint => "relative endpoint '" ++ endpoint ++ "' requires a base URL"
  | invalidBase base fault => "Invalid base URL: " ++ base ++ ": " ++ fault.message
  | notBelow base endpoint fault =>
    "Failed to join base URL '" ++ base ++ "' with '" ++ endpoint ++ "': " ++ fault.message

/-- The endpoint without the slashes at its front. -/
def withoutSlashes (endpoint : String) : String :=
  String.ofList (endpoint.toList.dropWhile (· == '/'))

/-- The URL of an endpoint: the endpoint itself where `://` stands in it and `Url.parse` takes it,
else what `Url.join` makes of it below the base, which counts as a directory (`Url.asDirectory`). -/
def resolve [Url.Names] (settings : Settings) (written : String) : Except EndpointFault String :=
  let endpoint := Text.trim written
  if endpoint.isEmpty then .error .empty
  else if Text.contains "://" endpoint then
    match Url.parse endpoint with
    -- the text itself is sent, not what it was read as
    | .ok _ => .ok endpoint
    | .error fault => .error (.invalid endpoint fault)
  else
    match settings.baseUrl with
    | none => .error (.noBase endpoint)
    | some base =>
      match Url.parse base with
      | .error fault => .error (.invalidBase base fault)
      | .ok url =>
        -- as a directory the base keeps its last segment
        match url.asDirectory.join (withoutSlashes endpoint) with
        | .ok joined => .ok joined.text
        | .error fault => .error (.notBelow base endpoint fault)

theorem resolve_absolute [Url.Names] {settings : Settings} {written url : String}
    (h : Text.contains "://" (Text.trim written) = true)
    (hu : settings.resolve written = .ok url) : url = Text.trim written := by
  simp only [resolve, h, if_true] at hu
  split at hu
  · cases hu
  · split at hu
    · exact (Except.ok.inj hu).symm
    · cases hu

end Settings

end RestCase
