/-
# RestCase.Path.Basic — path expressions

A `Path` is a chain of steps.  Some steps lead to one place of a document at most; the others
(wildcards, descents, slices, unions and filters) lead to any number of them.  A `Path.Filter` keeps
the items of which a condition holds, and its operands are constants or paths of their own, so
steps, filters and operands are one mutual family.

Numerals are kept as they are written: which of them are indices is asked when a path is evaluated
(`Path.index?`, `index?_digits`).
-/
import RestCase.Binary64.Reading
import RestCase.Json.Basic

namespace RestCase

namespace Path

/-- The relations between the operands of a filter. -/
inductive Relation where
  | eq | ne | matchesPattern | ge | gt | le | lt | isIn | isNotIn | hasSize
  | noneOf | anyOf | subsetOf
  deriving DecidableEq, Repr

mutual
/-- One step of a path.  `follow` says where it leads. -/
inductive Step where
  /-- Back to the document as a whole. -/
  | root
  /-- What a filter looks at, followed by steps from there. -/
  | here (chain : List Step)
  /-- The member of an object. -/
  | member (name : String)
  /-- All items of an array, or all values of an object. -/
  | wildcard
  /-- The members with a name, at any depth. -/
  | descent (name : String)
  /-- Everything below, at any depth. -/
  | descentAll
  /-- The number of items. -/
  | length
  /-- An item of an array. -/
  | item (numeral : List Char)
  /-- Items of an array, one after the other. -/
  | items (numerals : List (List Char))
  /-- Members of an object, one after the other. -/
  | members (names : List String)
  /-- The items between two bounds, every so many of them. -/
  | slice (start stop : Int) (stride : Nat)
  /-- The items of which a condition holds. -/
  | filter (condition : Filter)

/-- The condition of a filter. -/
inductive Filter where
  | exist (operand : Operand)
  | compare (left : Operand) (relation : Relation) (right : Operand)
  | and (left right : Filter)
  | or (left right : Filter)
  | not (condition : Filter)

/-- An operand of a filter. -/
inductive Operand where
  | constant (value : Json)
  | path (chain : List Step)
end

/-! ## Numerals -/

/-- The greatest value of a signed word. -/
def maxSignedWord : Nat := 0x7FFFFFFFFFFFFFFF

/-- The value of a numeral: an integer where it is one that fits a signed word, else the nearest
binary64 number, or `null` beyond all of them. -/
def numeralValue? (s : List Char) : Option Json :=
  match s with
  | '-' :: d =>
    if !d.isEmpty && d.all Chars.isDigit && Chars.ofDigits d ≤ maxSignedWord + 1 then
      some (.int (-(Chars.ofDigits d : Int)))
    else inexact
  | d =>
    if !d.isEmpty && d.all Chars.isDigit && Chars.ofDigits d ≤ maxSignedWord then
      some (.int (Chars.ofDigits d : Int))
    else inexact
where
  /-- The value as a binary64 number. -/
  inexact : Option Json :=
    (Binary64.ofChars? s).map fun
      | .finite x => .float x
      | _ => .null

/-- The index that a numeral denotes: it has to be a natural number that fits a signed word. -/
def index? (s : List Char) : Option Nat :=
  match numeralValue? s with
  | some (.int (.ofNat n)) => some n
  | _ => none

theorem index?_digits {n : Nat} (h : n ≤ maxSignedWord) : index? (Chars.digits n) = some n := by
  have hd := Chars.isDigit_of_mem_digits n
  have hne := Chars.digits_ne_nil n
  have hv : numeralValue? (Chars.digits n) = some (.int (n : Int)) := by
    unfold numeralValue?
    split
    · next d heq =>
      have := hd '-' (by rw [heq]; exact List.mem_cons_self)
      exact absurd this (by decide)
    · have hall : (Chars.digits n).all Chars.isDigit = true := List.all_eq_true.2 hd
      simp [hne, hall, Chars.ofDigits_digits, h]
  simp [index?, hv]

/-- Whether a numeral denotes some number. -/
def isNumeral (s : List Char) : Bool := (numeralValue? s).isSome

end Path

/-- A path expression: its text and its steps, and whether it can lead to several places
(`isDefinite`). -/
structure Path where
  source : String
  chain : List Path.Step
  definite : Bool

end RestCase
