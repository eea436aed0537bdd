/-
# RestCase.Binary64.Basic — binary64 numbers, exactly

A `Finite64` is kept as its sign and the *rank* of its magnitude: the non-negative finite numbers of
the format, listed in increasing order, are rank `0` (zero), rank `1` (the least subnormal), and so
on; the rank is also the bit pattern of the format.  Order is then order of ranks
(`Finite64.compare`), and every finite number is a whole multiple of `2 ^ -1074` (`Finite64.units`),
so that sums and differences are compared without any rounding.

`Finite64.near` is the nearness by which loosely typed numbers are held to agree.  It is decided by
`Finite64.toleranceEdge`, one bound on the exact difference, and is symmetric and reflexive
(`near_symm`, `near_refl`); that the bound is the right one is shown in
`RestCase.Proofs.Binary64.Difference`.

Boundary: `Binary64` has one number that is none, without sign or payload, since nothing in this
library tells two of them apart.
-/

namespace RestCase

/-- Two to a power. -/
def Finite64.twoTo (e : Nat) : Nat := Nat.pow 2 e

/-- The weight of the leading bit of a significand, which the format leaves out. -/
def Finite64.hiddenBit : Nat := 0x10000000000000

/-- The number of non-negative finite magnitudes, and so the first rank that `Finite64` excludes. -/
def Finite64.rankLimit : Nat := 2047 * Finite64.hiddenBit

/-- A finite binary64 number: its sign and the rank of its magnitude. -/
structure Finite64 where
  negative : Bool
  rank : Nat
  rank_lt : rank < Finite64.rankLimit
  deriving DecidableEq

namespace Finite64

/-- Positive zero. -/
def zero : Finite64 := ⟨false, 0, by decide⟩

instance : Inhabited Finite64 := ⟨zero⟩

/-- The integer significand: the `magnitude` is `significand * 2 ^ place`, in units of
`2 ^ -1074`. -/
def significand (x : Finite64) : Nat :=
  if x.rank < hiddenBit then x.rank else x.rank % hiddenBit + hiddenBit

/-- The exponent of the last place, counted from `2 ^ -1074`. -/
def place (x : Finite64) : Nat := x.rank / hiddenBit - 1

/-- The magnitude in units of `2 ^ -1074`. -/
def magnitude (x : Finite64) : Nat := x.significand * twoTo x.place

/-- The number in units of `2 ^ -1074`. -/
def units (x : Finite64) : Int := if x.negative then -(x.magnitude : Int) else x.magnitude

/-- The rank with the sign in front: `compare` orders the numbers by it, the two zeros being
equal. -/
def signedRank (x : Finite64) : Int := if x.negative then -(x.rank : Int) else x.rank

/-- The numerical order. -/
def compare (x y : Finite64) : Ordering := Ord.compare x.signedRank y.signedRank

theorem compare_swap (x y : Finite64) : (compare x y).swap = compare y x := by
  simp [compare, Int.compare_swap]

/-- Twice the greatest difference, in units of `2 ^ -1074`, that still rounds to a number below one
ten-thousandth: the midpoint between that tolerance and the number just below it, which has the even
significand and so wins the tie. -/
def toleranceEdge : Nat :=
  let tolerance := 0x1A36E2EB1C432D
  (2 * tolerance - 1) * twoTo (0x3F1 - 1)

/-- The rounded difference of the two numbers is below one ten-thousandth in magnitude;
`toleranceEdge` says which exact differences round to that. -/
def near (x y : Finite64) : Bool := 2 * (x.units - y.units).natAbs ≤ toleranceEdge

theorem near_symm (x y : Finite64) : near x y = near y x := by
  simp only [near]
  rw [← Int.natAbs_neg, Int.neg_sub]

theorem near_refl (x : Finite64) : near x x = true := by
  simp [near]

end Finite64

/-- A binary64 number: finite, one of the infinities, or not a number. -/
inductive Binary64 where
  | finite (x : Finite64)
  | infinite (negative : Bool)
  | nan
  deriving DecidableEq, Inhabited

namespace Binary64

/-- The numerical order, `Finite64.compare` on finite numbers; nothing compares with `nan`. -/
def compare? : Binary64 → Binary64 → Option Ordering
  | .nan, _ | _, .nan => none
  | .finite x, .finite y => some (x.compare y)
  | .infinite a, .infinite b => some (if a = b then .eq else if a then .lt else .gt)
  | .infinite a, .finite _ => some (if a then .lt else .gt)
  | .finite _, .infinite b => some (if b then .gt else .lt)

/-- Below, in the numerical order. -/
def lt (x y : Binary64) : Bool := compare? x y == some .lt

/-- Not above, in the numerical order. -/
def le (x y : Binary64) : Bool := compare? x y == some .lt || compare? x y == some .eq

end Binary64

end RestCase
