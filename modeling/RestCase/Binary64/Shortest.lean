/-
# RestCase.Binary64.Shortest — the shortest decimal text of a number

Among the decimals that read back as the number, the text has the fewest digits, and of those it is
the nearest one (an exact tie goes to the even last digit).  For each count of digits the two
neighbours of the number on that decimal grid are tried (`Finite64.onGrid?`); the first grid with a
hit wins (`Finite64.shortestFrom`).

`Finite64.text` writes magnitudes from `0.00001` up to below `10 ^ 16` positionally, with a digit on
both sides of the point, and all others as `d.ddde±x`.  `Binary64.positionalText` never uses an
exponent; it is the form in which messages about YAML documents show a number.
-/
import RestCase.Binary64.Rounding
import RestCase.Chars.Digits

namespace RestCase

/-- A decimal without sign: `0.d₁d₂d₃… * 10 ^ point`. -/
structure ShortDecimal where
  digits : List Char
  point : Int
  deriving Repr, DecidableEq

namespace Finite64

/-- The magnitude as a quotient. -/
def ratio (x : Finite64) : Nat × Nat :=
  if x.place ≤ 1074 then (x.significand, twoTo (1074 - x.place))
  else (x.significand * twoTo (x.place - 1074), 1)

/-- `num / den < 10 ^ p`. -/
def belowPowerOfTen (num den : Nat) (p : Int) : Bool :=
  if 0 ≤ p then num < den * Chars.tenTo p.toNat else num * Chars.tenTo (-p).toNat < den

/-- The place of the leading decimal digit: `10 ^ (p - 1) ≤ num / den < 10 ^ p`. -/
def decimalPlace (num den : Nat) : Int :=
  if den ≤ num then (Chars.digits (num / den)).length
  else
    let d : Int := (Chars.digits (den / num)).length
    -- the quotient of the reciprocal may be off by one place
    if belowPowerOfTen num den (1 - d) then 1 - d else 2 - d

/-- The decimal `q * 10 ^ p` reads back as `x`: it lies between the midpoints to the neighbours of
`x`, which belong to `x` when its significand is even, as `roundHalfEven` has it. -/
def readsBack (x : Finite64) (q : Nat) (p : Int) : Bool :=
  let s := x.significand
  -- the neighbour below a power of two is half as far away
  let below := if s = hiddenBit ∧ 0 < x.place then 4 * s - 1 else 4 * s - 2
  let above := 4 * s + 2
  -- both sides in units of a quarter of the last place
  let num := 4 * q * (if 0 ≤ p then Chars.tenTo p.toNat else 1) * twoTo (1074 - x.place)
  let den := (if 0 ≤ p then 1 else Chars.tenTo (-p).toNat) * twoTo (x.place - 1074)
  if s % 2 = 0 then below * den ≤ num && num ≤ above * den
  else below * den < num && num < above * den

/-- The better of the two neighbours of `x` on the grid `10 ^ p` that read back as `x`. -/
def onGrid? (x : Finite64) (p : Int) : Option Nat :=
  let (num, den) := x.ratio
  let (n, d) :=
    if 0 ≤ p then (num, den * Chars.tenTo p.toNat) else (num * Chars.tenTo (-p).toNat, den)
  let q := n / d
  match readsBack x q p, readsBack x (q + 1) p with
  | true, true => some (roundHalfEven n d)
  | true, false => some q
  | false, true => some (q + 1)
  | false, false => none

/-- A decimal that needs no more digits than the first grid with a hit. -/
def shortestFrom (x : Finite64) (place : Int) : Nat → Nat → ShortDecimal
  | _, 0 => ⟨Chars.digits x.significand, place⟩
  | count, fuel + 1 =>
    match onGrid? x (place - count) with
    | some q =>
      let ds := Chars.digits q
      let point := place - count + ds.length
      ⟨(ds.reverse.dropWhile (· == '0')).reverse, point⟩
    | none => shortestFrom x place (count + 1) fuel

/-- The shortest decimal of a magnitude other than zero, searched by `shortestFrom` on the grid of
one digit, then of two, and so on. -/
def shortest (x : Finite64) : ShortDecimal :=
  let (num, den) := x.ratio
  shortestFrom x (decimalPlace num den) 1 17

/-- Digits with a point after place `point`, and a digit on both sides of it. -/
def positional (d : ShortDecimal) : List Char :=
  if d.point ≤ 0 then
    '0' :: '.' :: (List.replicate (-d.point).toNat '0' ++ d.digits)
  else
    let p := d.point.toNat
    if d.digits.length ≤ p then
      d.digits ++ List.replicate (p - d.digits.length) '0' ++ ['.', '0']
    else d.digits.take p ++ '.' :: d.digits.drop p

/-- Digits in the form `d.ddde±x`. -/
def scientific (d : ShortDecimal) : List Char :=
  let e := d.point - 1
  let mantissa := match d.digits with
    | [] => []
    | [c] => [c]
    | c :: r => c :: '.' :: r
  mantissa ++ 'e' :: (if e < 0 then '-' else '+') :: Chars.digits e.natAbs

/-- The sign of a number in front of a text. -/
def signed (x : Finite64) (s : List Char) : List Char := if x.negative then '-' :: s else s

/-- The shortest decimal text: `positional` where the point is near the digits, else
`scientific`. -/
def chars (x : Finite64) : List Char :=
  x.signed <|
    if x.rank = 0 then ['0', '.', '0']
    else
      let d := x.shortest
      if -5 < d.point ∧ d.point ≤ 16 then positional d else scientific d

/-- The shortest decimal text without an exponent, however long. -/
def positionalChars (x : Finite64) : List Char :=
  x.signed <| if x.rank = 0 then ['0', '.', '0'] else positional x.shortest

/-- The shortest decimal text as a string. -/
def text (x : Finite64) : String := String.ofList x.chars

end Finite64

namespace Binary64

/-- The shortest decimal text; `inf`, `-inf` and `NaN` for the others. -/
def text : Binary64 → String
  | .finite x => x.text
  | .infinite negative => if negative then "-inf" else "inf"
  | .nan => "NaN"

/-- The shortest decimal text without an exponent. -/
def positionalText : Binary64 → String
  | .finite x => String.ofList x.positionalChars
  | .infinite negative => if negative then "-inf" else "inf"
  | .nan => "NaN"

end Binary64

end RestCase
