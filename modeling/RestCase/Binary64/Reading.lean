/-
# RestCase.Binary64.Reading — reading a decimal

`Binary64.ofChars?` reads an optional sign, and then `inf`, `infinity` or `nan` in any case, or
digits with an optional point anywhere among them (at least one digit in all) and an optional
exponent.  A `Decimal` is what the digits and the exponent come to before anything is rounded, and
`Decimal.toBinary64` gives the number nearest to it, infinity where it is too large.

A decimal that is far too large or far too small for the format is not worked out, so that a long
exponent costs nothing; `RestCase.Proofs.Json.Numerals` shows that these cut-offs change no result.
-/
import RestCase.Binary64.Rounding
import RestCase.Chars.Digits

namespace RestCase

/-- A decimal without sign: `digits * 10 ^ exponent`.  `Decimal.toBinary64` rounds it. -/
structure Decimal where
  digits : Nat
  exponent : Int
  deriving Repr, DecidableEq

namespace Decimal

/-- The nearest number, by `Binary64.ofRatio`.  Decimals that are far outside the range of the
format are told by their size alone. -/
def toBinary64 (negative : Bool) (d : Decimal) : Binary64 :=
  if d.digits = 0 then Binary64.ofRatio negative 0 1
  else
    let size := (Chars.digits d.digits).length + d.exponent
    if 400 < size then .infinite negative
    else if size < -400 then Binary64.ofRatio negative 0 1
    else if 0 ≤ d.exponent then
      Binary64.ofRatio negative (d.digits * Chars.tenTo d.exponent.toNat) 1
    else Binary64.ofRatio negative d.digits (Chars.tenTo (-d.exponent).toNat)

/-- An exponent part: `e` or `E`, a sign, at least one digit, and the end. -/
def exponentOf? : List Char → Option Int
  | [] => some 0
  | c :: r =>
    if c = 'e' ∨ c = 'E' then
      match r with
      | '-' :: ds => (Chars.ofRadix? 10 ds).map fun n => -(n : Int)
      | '+' :: ds => (Chars.ofRadix? 10 ds).map fun n => (n : Int)
      | ds => (Chars.ofRadix? 10 ds).map fun n => (n : Int)
    else none

/-- Digits with an optional point and an optional exponent. -/
def ofChars? (s : List Char) : Option Decimal :=
  let (whole, r) := Chars.takeDigits s
  let (fraction, r) := match r with
    | '.' :: r => Chars.takeDigits r
    | r => ([], r)
  if whole.isEmpty && fraction.isEmpty then none
  else (exponentOf? r).map fun e =>
    ⟨Chars.ofDigits (whole ++ fraction), e - fraction.length⟩

end Decimal

namespace Binary64

/-- A number without its sign. -/
def ofUnsignedChars? (negative : Bool) (s : List Char) : Option Binary64 :=
  if Chars.sameIgnoringCase s "inf".toList || Chars.sameIgnoringCase s "infinity".toList then
    some (.infinite negative)
  else if Chars.sameIgnoringCase s "nan".toList then some .nan
  else (Decimal.ofChars? s).map (Decimal.toBinary64 negative)

/-- The number that a text denotes. -/
def ofChars? : List Char → Option Binary64
  | '-' :: r => ofUnsignedChars? true r
  | '+' :: r => ofUnsignedChars? false r
  | s => ofUnsignedChars? false s

end Binary64

end RestCase
