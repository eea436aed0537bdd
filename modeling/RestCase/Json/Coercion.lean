/-
# RestCase.Json.Coercion — how loosely typed values turn into texts and numbers, and when two of
them agree

Variables, expected values and parts of a response are plain JSON values.  `Json.stringForm` is what
a placeholder shows and what texts are compared by; `Json.toNumber?` is what orderings are decided
by; `Json.looselyEqual` is the equality of the assertion `equals` and of membership.

Loose equality is reflexive and symmetric, on two integers it is equality, and null agrees with null
only (`looselyEqual_refl`, `looselyEqual_comm`, `looselyEqual_int_iff`, `looselyEqual_null_iff`).

Boundary: a string counts as a number only if it looks like one (`Json.isNumeral`), digits of any
script included, and then only if `Binary64.ofChars?` reads it.  The two conditions differ;
`RestCase.Proofs.Json.Numerals` says what passes both.
-/
import RestCase.Json.Render
import RestCase.Binary64.Reading
import RestCase.Chars.DecimalDigits

namespace RestCase.Json

/-! ## Texts -/

/-- A string as it is; anything else as compact JSON. -/
def stringForm : Json → String
  | string s => s
  | v => v.compact

/-- No content: null, the empty string, the empty array or the empty object. -/
def isEmpty : Json → Bool
  | null => true
  | string s => s.isEmpty
  | array items => items.isEmpty
  | object members => members.isEmpty
  | bool _ | int _ | float _ => false

/-! ## Numbers -/

/-- The longest run of decimal digits of any script in front, and the rest. -/
def takeDecimalDigits (s : List Char) : List Char × List Char :=
  (s.takeWhile Chars.isDecimalDigit, s.dropWhile Chars.isDecimalDigit)

/-- Digits, and optionally a point and more digits. -/
def isUnsignedNumeral (s : List Char) : Bool :=
  let (whole, r) := takeDecimalDigits s
  !whole.isEmpty && match r with
    | [] => true
    | '.' :: r => !r.isEmpty && r.all Chars.isDecimalDigit
    | _ => false

/-- An optional minus sign, digits of any script, and optionally a point and more digits. -/
def isNumeral : List Char → Bool
  | '-' :: r => isUnsignedNumeral r
  | s => isUnsignedNumeral s

/-- `isNumeral` on strings: digits of any script (`Chars.isDecimalDigit`) count, an exponent does
not. -/
def isNumericString (s : String) : Bool := isNumeral s.toList

/-- The binary64 number nearest to an integer, or the number itself. -/
def toNumber? : Json → Option Binary64
  | int n => some (Binary64.ofInt n)
  | float x => some (.finite x)
  | string s => if isNumericString s then Binary64.ofChars? s.toList else none
  | _ => none

/-! ## Loose equality -/

/-- The integer and the binary64 number are `near`, once the integer is rounded to the format. -/
def nearInt (n : Int) (x : Finite64) : Bool :=
  match Binary64.ofInt n with
  | .finite y => y.near x
  -- an integer that is rounded to infinity is near nothing
  | _ => false

/-- Agreement of an actual and an expected value: null with null only, integers exactly, other
pairs of numbers up to one ten-thousandth (`Finite64.near`), and anything else by `stringForm`. -/
def looselyEqual : Json → Json → Bool
  | null, null => true
  | null, _ => false
  | _, null => false
  | int a, int b => a == b
  | int a, float y => nearInt a y
  | float x, int b => nearInt b x
  | float x, float y => x.near y
  | bool a, bool b => a == b
  | a, b => a.stringForm == b.stringForm

theorem looselyEqual_refl (v : Json) : looselyEqual v v = true := by
  cases v <;> simp [looselyEqual, Finite64.near_refl]

theorem looselyEqual_comm (v w : Json) : looselyEqual v w = looselyEqual w v := by
  cases v <;> cases w <;> simp only [looselyEqual]
  case float.float x y => exact Finite64.near_symm x y
  all_goals exact BEq.comm

theorem looselyEqual_int_iff (a b : Int) : looselyEqual (int a) (int b) = true ↔ a = b := by
  simp [looselyEqual]

theorem looselyEqual_null_iff (v : Json) : looselyEqual null v = true ↔ v = null := by
  cases v <;> simp [looselyEqual]

end RestCase.Json
