/-
# RestCase.Json.Number — numbers in a JSON text

An integer that fits 64 bits, signed or unsigned, stays an integer (`Json.ofWhole?`).  Any other
number is read in two rounded steps (`Json.scaled?`): its leading digits, as many as fit an unsigned
64-bit word, become a binary64 number, which is then multiplied or divided by a power of ten.

Boundary: the result can therefore differ from the nearest number in the last place, and the proofs
about texts of documents are about integers.  `-0` is a binary64 number, since no integer keeps the
sign.
-/
import RestCase.Json.Basic
import RestCase.Binary64.Rounding
import RestCase.Chars.Digits

namespace RestCase.Json

/-- The leading digits that fit a word, continuing from `acc`, and how many digits are left out. -/
def wholePart (acc : Nat) : List Char → Nat × Nat
  | [] => (acc, 0)
  | c :: r =>
    let next := acc * 10 + Chars.digitValue c
    if Chars.maxWord64 < next then (acc, r.length + 1) else wholePart next r

/-- The leading digits of a fraction that fit a word, continuing from `acc`, and how many were
used. -/
def fractionPart (acc : Nat) : List Char → Nat × Nat
  | [] => (acc, 0)
  | c :: r =>
    let next := acc * 10 + Chars.digitValue c
    if Chars.maxWord64 < next then (acc, 0)
    else ((fractionPart next r).1, (fractionPart next r).2 + 1)

/-- The greatest power of ten of the format. -/
def topPower : Nat := 308

/-- `x / 10 ^ k`, dividing by at most `10 ^ topPower` at a time and rounding each time. -/
def scaleDown (x : Finite64) (k : Nat) : Finite64 :=
  if x.rank = 0 then x
  else
    let step := min k topPower
    let y := ((Finite64.ofRatio? false (Chars.tenTo step) 1).bind x.div?).getD x
    if _h : k ≤ topPower then y else scaleDown y (k - topPower)
termination_by k
decreasing_by simp [topPower] at *; omega

/-- `significand * 10 ^ exponent` in two rounded steps (`scaleDown` where the exponent is
negative); none beyond the greatest finite number. -/
def scaled? (negative : Bool) (significand : Nat) (exponent : Int) : Option Finite64 := do
  let x ← Finite64.ofRatio? negative significand 1
  if exponent < 0 then some (scaleDown x exponent.natAbs)
  else if exponent ≤ topPower then
    x.mul? (← Finite64.ofRatio? false (Chars.tenTo exponent.toNat) 1)
  else if x.rank = 0 then some x
  else none

/-- The number of an integer text: an integer where it fits 64 bits and is not `-0`. -/
def ofWhole? (negative : Bool) (digits : List Char) : Option Json :=
  let (n, dropped) := wholePart 0 digits
  if dropped = 0 ∧ !negative then some (int n)
  else if dropped = 0 ∧ 0 < n ∧ n ≤ 0x8000000000000000 then some (int (-(n : Int)))
  else (scaled? negative n dropped).map float

end RestCase.Json
