/-
# RestCase.Condition — conditions of steps

A condition is one comparison `left operator right`, or a bare word that is true exactly when it
reads `true`.  Its variables are put in first (`Condition.holds?`); then the operator is looked for,
in the order of `Operator.priority`, outside the quoted stretches of the text
(`Condition.quotedMask`).

A quote opens a stretch at the start of the text or after an ASCII gap, and closes it before an
ASCII gap or the end; so an apostrophe inside a word is no quote.  An opening quote that is never
closed quotes nothing, and neither does any quote after it.  What this comes to is said without a
mask in `RestCase.Proofs.Condition.Spans` and `RestCase.Proofs.Condition.Meaning`.

A condition that makes no sense is a `Condition.Fault`, and does not hold.
-/
import RestCase.Template

namespace RestCase

/-- The comparisons of a condition. -/
inductive Operator where
  | eq | ne | ge | le | gt | lt | contains | startsWith | endsWith
  deriving DecidableEq, Repr

namespace Operator

/-- The order in which `parseWith` looks for operators: two-character comparisons come before the
one-character comparisons they begin with. -/
def priority : List Operator := [eq, ne, ge, le, gt, lt, contains, startsWith, endsWith]

/-- The text of the operator in a condition; a word stands between blanks. -/
def token : Operator → List Char
  | eq => "==".toList
  | ne => "!=".toList
  | ge => ">=".toList
  | le => "<=".toList
  | gt => ">".toList
  | lt => "<".toList
  | contains => " contains ".toList
  | startsWith => " startsWith ".toList
  | endsWith => " endsWith ".toList

/-- The operator without blanks. -/
def name (op : Operator) : String := String.ofList (Chars.trim op.token)

/-- A comparison of two texts as numbers, read by `Binary64.ofChars?`; false when one of them is
none. -/
def compareNumbers (holds : Binary64 → Binary64 → Bool) (left right : List Char) : Bool :=
  match Binary64.ofChars? left, Binary64.ofChars? right with
  | some l, some r => holds l r
  | _, _ => false

/-- The comparison of two texts. -/
def apply (op : Operator) (left right : List Char) : Bool :=
  match op with
  | eq => left == right
  | ne => left != right
  | contains => Chars.contains right left
  | startsWith => right.isPrefixOf left
  | endsWith => right.isSuffixOf left
  | ge => compareNumbers (fun l r => r.le l) left right
  | le => compareNumbers Binary64.le left right
  | gt => compareNumbers (fun l r => r.lt l) left right
  | lt => compareNumbers Binary64.lt left right

end Operator

namespace Condition

/-! ## Quoted stretches -/

/-- One of the two quote characters. -/
def isQuote (c : Char) : Bool := c == '\'' || c == '"'

/-- How many characters stand before the next `quote` that is followed by a gap or the end: an
apostrophe within a word closes nothing. -/
def closingAt? (quote : Char) : List Char → Option Nat
  | [] => none
  | c :: r =>
    if c = quote ∧ (r.head?.map Chars.isAsciiGap).getD true = true then some 0
    else (closingAt? quote r).map (· + 1)

/-- The mask of a text whose first `inside` characters belong to a quoted stretch, which
`closingAt?` has measured; `gap` tells that a quote may open here. -/
def maskFrom : Nat → Bool → List Char → List Bool
  | _, _, [] => []
  | inside + 1, _, _ :: r => true :: maskFrom inside false r
  | 0, gap, c :: r =>
    if isQuote c && gap then
      match closingAt? c r with
      | some n => true :: maskFrom (n + 1) false r
      -- no quote closes it, and quotes behind it do not open a stretch either
      | none => List.replicate (r.length + 1) false
    else false :: maskFrom 0 (Chars.isAsciiGap c) r

/-- For each character: does it stand in a quoted stretch, quotes included?  It is `maskFrom` at
the start of a text. -/
def quotedMask (text : List Char) : List Bool := maskFrom 0 true text

theorem length_maskFrom (inside : Nat) (gap : Bool) (text : List Char) :
    (maskFrom inside gap text).length = text.length := by
  induction text generalizing inside gap with
  | nil => cases inside <;> rfl
  | cons c r ih =>
    cases inside with
    | succ n => simp [maskFrom, ih]
    | zero =>
      simp only [maskFrom]
      split
      · split <;> simp [ih]
      · simp [ih]

/-- An operand without one pair of equal quotes around it. -/
def unquote (operand : List Char) : List Char :=
  match operand with
  | c :: d :: r =>
    if isQuote c && (d :: r).getLast? == some c then (d :: r).dropLast else operand
  | _ => operand

/-! ## Parsing -/

/-- Why a text is no condition. -/
inductive Fault where
  | missingOperand (op : Operator) (text : List Char)
  | repeated (op : Operator) (count : Nat) (text : List Char)
  deriving DecidableEq, Repr

/-- The words for a fault. -/
def Fault.message : Fault → String
  | missingOperand op text =>
    "operator '" ++ op.name ++ "' needs two operands in '" ++ String.ofList text ++ "'"
  | repeated op count text =>
    "operator '" ++ op.name ++ "' appears " ++ Text.ofNat count ++ " times in '"
      ++ String.ofList text ++ "'"

/-- A condition after its variables were put in. -/
inductive Expression where
  | compare (left : List Char) (op : Operator) (right : List Char)
  | literal (value : Bool)
  deriving DecidableEq, Repr

/-- The places outside the `quotedMask` at which the token of an operator occurs in the text. -/
def hits (op : Operator) (text : List Char) : List Nat :=
  -- an operator stands where its first character stands, whatever the others are masked by
  let mask := quotedMask text
  (Chars.occurrences op.token text).filter fun i => !(mask[i]?.getD false)

/-- The comparison around the one place at which the operator occurs, its operands trimmed and
without quotes (`unquote`). -/
def compareAt (op : Operator) (text : List Char) (place : Nat) : Except Fault Expression :=
  let left := Chars.trim (text.take place)
  let right := Chars.trim (text.drop (place + op.token.length))
  if left.isEmpty || right.isEmpty then .error (.missingOperand op text)
  else .ok (.compare (unquote left) op (unquote right))

/-- The first of the operators that has `hits` decides; without one the text is a literal. -/
def parseWith (text : List Char) : List Operator → Except Fault Expression
  | [] => .ok (.literal (Chars.sameIgnoringCase text "true".toList))
  | op :: ops =>
    match hits op text with
    | [] => parseWith text ops
    | [place] => compareAt op text place
    | places => .error (.repeated op places.length text)

/-- The expression that a text without placeholders denotes: `parseWith` over the operators in
`Operator.priority`. -/
def Expression.parse (text : String) : Except Fault Expression :=
  parseWith (Chars.trim text.toList) Operator.priority

/-- Whether an expression holds. -/
def Expression.eval : Expression → Bool
  | compare left op right => op.apply left right
  | literal value => value

/-! ## Evaluation -/

/-- Whether a condition holds in a context; a blank one does.  `Template.interpolate` comes first,
so that a value can bring an operator in. -/
def holds? (ctx : Context) (expression : String) : Except Fault Bool :=
  if Text.isBlank expression then .ok true
  else (Expression.parse (Template.interpolate ctx expression)).map Expression.eval

/-- Whether a condition holds; one that makes no sense (`Condition.Fault`) does not. -/
def holds (ctx : Context) (expression : String) : Bool :=
  match holds? ctx expression with
  | .ok b => b
  | .error _ => false

end Condition

end RestCase
