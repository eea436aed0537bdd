/-
# RestCase.Extraction — copying parts of a response into variables

A rule yields the value that its path leads to; instead of nothing, or of null, it yields its
default if it has one (`ExtractionRule.yield?`).  A text that is no path leads nowhere, and so does
a body that is no document.  What rules yield goes into the context one rule after the other, each
with its origin (`extract`).

An extraction has no failures, but it can break down: with `Path.Breakdown`, where a path cannot be
followed.
-/
import RestCase.Case.Basic
import RestCase.Context
import RestCase.Json.Reader
import RestCase.Path.Selection

namespace RestCase

variable [Pattern.Engine]

namespace ExtractionRule

/-- What a path leads to in a document; a text that `Path.parse` refuses leads nowhere. -/
def find? (document : Json) (path : String) : Except Path.Breakdown (Option Json) :=
  match Path.parse path with
  | .ok p => p.evaluate document
  | .error _ => .ok none

/-- The value of a rule, given what its path has found: the default stands in for null and for
nothing found. -/
def valueOf? (rule : ExtractionRule) (found : Option Json) : Option Json :=
  match found, rule.defaultValue with
  | some v, some d => some (if v.isNull then d else v)
  | some v, none => some v
  | none, d => d

/-- What a rule yields from a body (`valueOf?`), which is missing when it is no JSON: then the
default, if there is one. -/
def yield? (rule : ExtractionRule) (document : Option Json) :
    Except Path.Breakdown (Option Json) :=
  match document with
  | some d => (find? d rule.source).map rule.valueOf?
  | none => .ok rule.defaultValue

end ExtractionRule

/-- The context after extraction, and how many variables were written. -/
structure Extracted where
  context : Context
  written : Nat

namespace Extracted

/-- Apply one rule: what it yields (`ExtractionRule.yield?`) goes into the context with the rule
as its origin, and without a yield nothing changes. -/
def apply (step : String) (document : Option Json) (state : Extracted) (rule : ExtractionRule) :
    Except Path.Breakdown Extracted :=
  (rule.yield? document).map fun
    | some v =>
      ⟨state.context.set rule.target v (some ⟨step, rule.source⟩), state.written + 1⟩
    | none => state

end Extracted

/-- Apply rules in turn (`Extracted.apply`) to the body of a response.  A later rule does not read
what an earlier one wrote. -/
def extract (ctx : Context) (step : String) (rules : List ExtractionRule) (body : String) :
    Except Path.Breakdown Extracted :=
  let document := (Json.parse body).toOption
  rules.foldlM (Extracted.apply step document) ⟨ctx, 0⟩

end RestCase
