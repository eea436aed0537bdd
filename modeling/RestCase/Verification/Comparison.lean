/-
# RestCase.Verification.Comparison — comparing a value with an expected one

The thirteen comparisons of an assertion.  Two of them ask whether a path leads anywhere; the others
ask something of the value that it leads to (`Comparison.holds`).  The name of a comparison is read
back (`ofName?_name`), in any letter case.

Null is not ordered (`ordering?_null_left`, `ordering?_null_right`).  `Comparison.hasPattern` asks
whether a text matches a pattern from one end to the other, and is the one comparison that depends
on the `Pattern.Engine`.
-/
import RestCase.Chars.Search
import RestCase.Json.Coercion
import RestCase.Pattern.Reader

namespace RestCase

/-- The comparisons of an assertion. -/
inductive Comparison where
  | equals | contains | startsWith | endsWith | matchesPattern | greaterThan | lessThan
  | exist | notExist | isNull | isNotNull | isEmpty | isNotEmpty
  deriving DecidableEq, Repr

namespace Comparison

/-- Every comparison. -/
def all : List Comparison :=
  [equals, contains, startsWith, endsWith, matchesPattern, greaterThan, lessThan, exist, notExist,
    isNull, isNotNull, isEmpty, isNotEmpty]

/-- The name of a comparison. -/
def name : Comparison → String
  | equals => "equals"
  | contains => "contains"
  | startsWith => "startsWith"
  | endsWith => "endsWith"
  | matchesPattern => "matches"
  | greaterThan => "greaterThan"
  | lessThan => "lessThan"
  | exist => "exists"
  | notExist => "notExists"
  | isNull => "isNull"
  | isNotNull => "isNotNull"
  | isEmpty => "isEmpty"
  | isNotEmpty => "isNotEmpty"

/-- The comparison that a text names; case and blanks at the ends do not matter. -/
def ofName? (text : String) : Option Comparison :=
  let wanted := Text.trim text
  all.find? fun c => Text.sameIgnoringCase c.name wanted

theorem ofName?_name (c : Comparison) : ofName? c.name = some c := by
  cases c <;> decide +kernel

/-! ## Membership, patterns and order -/

/-- Whether a value contains another: a key or a value of an object, an item of an array (by
`Json.looselyEqual`), or a part of a text.  Null contains nothing. -/
def holdsPart (actual expected : Json) : Bool :=
  match actual with
  | .null => false
  | .object members =>
    members.any (fun m => m.1 == expected.stringForm)
      || members.any fun m => m.2.looselyEqual expected
  | .array items => items.any fun v => v.looselyEqual expected
  | _ => Text.contains expected.stringForm actual.stringForm

/-- Whether the text of a value is found by a pattern put between the two ends of a text
(`Pattern.ofWholeChars?`). -/
def hasPattern [Pattern.Engine] (actual : Json) (pattern : String) : Bool :=
  !actual.isNull && match Pattern.ofWholeChars? pattern.toList with
    | some p => p.found actual.stringForm.toList
    | none => false

/-- The order of two values: by number where both have one (`Json.toNumber?`), else by text.  Null
has no order. -/
def ordering? (actual expected : Json) : Option Ordering :=
  if actual.isNull || expected.isNull then none
  else match actual.toNumber?, expected.toNumber? with
    | some a, some b => a.compare? b
    -- one number among two values does not count as one
    | _, _ => some (compareOfLessAndEq actual.stringForm expected.stringForm)

@[simp] theorem ordering?_null_left (v : Json) : ordering? .null v = none := by
  simp [ordering?, Json.isNull]

@[simp] theorem ordering?_null_right (v : Json) : ordering? v .null = none := by
  simp [ordering?, Json.isNull]

/-- Whether a comparison holds of the value that was found. -/
def holds [Pattern.Engine] (c : Comparison) (actual expected : Json) : Bool :=
  match c with
  | exist => true
  | notExist => false
  | isNull => actual.isNull
  | isNotNull => !actual.isNull
  | isEmpty => actual.isEmpty
  | isNotEmpty => !actual.isEmpty
  | equals => actual.looselyEqual expected
  | contains => holdsPart actual expected
  | startsWith => !actual.isNull && Text.startsWith expected.stringForm actual.stringForm
  | endsWith => !actual.isNull && Text.endsWith expected.stringForm actual.stringForm
  | matchesPattern => hasPattern actual expected.stringForm
  | greaterThan => ordering? actual expected == some .gt
  | lessThan => ordering? actual expected == some .lt

end Comparison

end RestCase
