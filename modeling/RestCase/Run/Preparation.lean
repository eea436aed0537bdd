/-
# RestCase.Run.Preparation — preparing requests

The request of a step is built from its description, the variables, the settings and the users
(`RequestSpec.prepare`).  `Accept` and `Content-Type` are JSON unless the step says otherwise
(`withDefaultHeader`); only a method that allows a body sends the payload (`RequestSpec.bodyOf`).
-/
import RestCase.Case.Basic
import RestCase.Http.Request
import RestCase.Run.Settings

namespace RestCase

/-- The media type of JSON. -/
def jsonMediaType : String := "application/json"

/-- The headers with a header that none of them has, letter case ignored (`headerNamed?`). -/
def withDefaultHeader (name value : String) (headers : Table String) : Table String :=
  -- names of headers are compared without their case, keys of the table are not
  if (headerNamed? headers.entries name).isSome then headers else headers.insert name value

namespace RequestSpec

/-- The body that is sent, if `Method.allowsBody`: `Template.interpolate` first,
`Template.applyVariables` on what that gives. -/
def bodyOf (r : RequestSpec) (ctx : Context) : Option String :=
  if r.method.allowsBody then
    r.payload.map fun p =>
      Template.applyVariables r.templateVariables (Template.interpolate ctx p)
  else none

/-- The headers that are sent: those given, `Accept`, and `Content-Type` where there is a body
(`withDefaultHeader`). -/
def headersOf (r : RequestSpec) (ctx : Context) : Table String :=
  let given := r.headers.map fun _ value => Template.interpolate ctx value
  let accepting := withDefaultHeader "Accept" jsonMediaType given
  if (r.bodyOf ctx).isSome then withDefaultHeader "Content-Type" jsonMediaType accepting
  else accepting

/-- The request that is sent: the endpoint by `Settings.resolve`, `headersOf`, `bodyOf`, and times
and credentials from the step or else from the run. -/
def prepare [Url.Names] (settings : Settings) (users : Table User) (r : RequestSpec)
    (ctx : Context) : Except Settings.EndpointFault Request :=
  match settings.resolve (Template.interpolate ctx r.endpoint) with
  | .error fault => .error fault
  | .ok url => .ok {
      method := r.method
      url := url
      headers := r.headersOf ctx
      body := r.bodyOf ctx
      timeout := r.timeout.getD settings.defaultTimeout
      connectionTimeout := r.connectionTimeout.getD settings.defaultConnectionTimeout
      credentials := r.user.bind (credentialsOf? users) }

end RequestSpec

end RestCase
