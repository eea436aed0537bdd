/-
# RestCase.Binary64.Rounding — rounding to binary64

Every operation here is "compute exactly, then round once to the nearest number of the format, a tie
going to the even significand".  The exact value is a quotient of natural numbers: `leadingBit`
finds where its leading bit stands, `nearestRank` the rank that it is rounded to, and
`Finite64.ofRatio?`, `Finite64.mul?` and `Finite64.div?` are stated over that, with nothing where
the result is infinite.
-/
import RestCase.Binary64.Basic

namespace RestCase

/-- The quotient rounded to the nearest whole number, a tie going to the even one. -/
def roundHalfEven (num den : Nat) : Nat :=
  let q := num / den
  let r := num % den
  if 2 * r < den then q
  else if den < 2 * r then q + 1
  else if q % 2 = 0 then q else q + 1

/-- The exponent of the leading bit of a positive quotient. -/
def leadingBit (num den : Nat) : Int :=
  let l : Int := (num.log2 : Int) - den.log2
  let reached :=
    if 0 ≤ l then den * Finite64.twoTo l.toNat ≤ num else den ≤ num * Finite64.twoTo (-l).toNat
  if reached then l else l - 1

/-- The rank of the number nearest to `num / den`, ties by `roundHalfEven`.  A rank at or above
`rankLimit` stands for a quotient that is too large for the format. -/
def nearestRank (num den : Nat) : Nat :=
  if num = 0 then 0
  else
    let e : Int := max (-1074) (leadingBit num den - 52)
    let q := if 0 ≤ e then roundHalfEven num (den * Finite64.twoTo e.toNat)
      else roundHalfEven (num * Finite64.twoTo (-e).toNat) den
    (e + 1074).toNat * Finite64.hiddenBit + q

namespace Finite64

/-- The number nearest to `±num / den`; none when that is beyond the greatest finite number. -/
def ofRatio? (negative : Bool) (num den : Nat) : Option Finite64 :=
  let r := nearestRank num den
  if h : r < rankLimit then some ⟨negative, r, h⟩ else none

/-- The product, rounded once. -/
def mul? (x y : Finite64) : Option Finite64 :=
  ofRatio? (x.negative != y.negative) (x.magnitude * y.magnitude) (twoTo 2148)

/-- The quotient by a number other than zero, rounded once. -/
def div? (x y : Finite64) : Option Finite64 :=
  ofRatio? (x.negative != y.negative) x.magnitude y.magnitude

end Finite64

namespace Binary64

/-- The number nearest to `±num / den`, infinity beyond the greatest finite number. -/
def ofRatio (negative : Bool) (num den : Nat) : Binary64 :=
  match Finite64.ofRatio? negative num den with
  | some x => .finite x
  | none => .infinite negative

/-- The number nearest to an integer. -/
def ofInt (n : Int) : Binary64 := ofRatio (decide (n < 0)) n.natAbs 1

end Binary64

end RestCase
