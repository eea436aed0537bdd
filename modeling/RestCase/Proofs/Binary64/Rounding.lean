/-
# RestCase.Proofs.Binary64.Rounding — rounding keeps the order

The number nearest to a quotient depends on the value of the quotient alone, and a greater quotient
never has a smaller nearest number (`nearestRank_le_of_le`).  The proof goes from `roundHalfEven`
over the leading bit (`leadingBit_spec`) to the rank.

Exponents are integers and powers are powers of natural numbers, so a shift by `e` places is written
as a pair of natural numbers `i` and `j` with `i - j = e`: both sides of a comparison are multiplied
up, and no case is made of the sign of `e`.
-/
import Mathlib.Algebra.Group.Nat.Defs
import Mathlib.Tactic.SplitIfs
import RestCase.Binary64.Rounding

namespace RestCase

/-! ## Rounding to a whole number -/

theorem roundHalfEven_one (num : Nat) : roundHalfEven num 1 = num := by
  simp [roundHalfEven, Nat.mod_one]

/-- Rounding keeps the quotient or adds one. -/
theorem roundHalfEven_near (num den : Nat) :
    num / den ≤ roundHalfEven num den ∧ roundHalfEven num den ≤ num / den + 1 := by
  simp only [roundHalfEven]
  split
  · omega
  · split
    · omega
    · split <;> omega

/-- **Rounding keeps the order**: `roundHalfEven_near` settles it for different quotients, and for
equal ones the remainders are in order. -/
theorem roundHalfEven_mono {a b : Nat} (h : a ≤ b) (den : Nat) :
    roundHalfEven a den ≤ roundHalfEven b den := by
  have hquotients : a / den ≤ b / den := Nat.div_le_div_right h
  rcases Nat.lt_or_eq_of_le hquotients with hlt | heq
  · calc
      roundHalfEven a den ≤ a / den + 1 := (roundHalfEven_near a den).2
      _ ≤ b / den := hlt
      _ ≤ roundHalfEven b den := (roundHalfEven_near b den).1
  · -- with the same quotient the greater number has the greater remainder
    have hremainders : a % den ≤ b % den := by
      have ha := Nat.div_add_mod a den
      have hb := Nat.div_add_mod b den
      rw [heq] at ha
      omega
    simp only [roundHalfEven, heq]
    split_ifs <;> omega

/-- Rounding does not depend on how the quotient is written. -/
theorem roundHalfEven_mul_right (num den : Nat) {k : Nat} (hk : 0 < k) :
    roundHalfEven (num * k) (den * k) = roundHalfEven num den := by
  have hbelow : ∀ r : Nat, 2 * (r * k) < den * k ↔ 2 * r < den := by
    intro r
    rw [← Nat.mul_assoc]
    exact Nat.mul_lt_mul_right hk
  have habove : ∀ r : Nat, den * k < 2 * (r * k) ↔ den < 2 * r := by
    intro r
    rw [← Nat.mul_assoc]
    exact Nat.mul_lt_mul_right hk
  simp only [roundHalfEven, Nat.mul_div_mul_right num den hk, Nat.mul_mod_mul_right, hbelow, habove]

/-- A whole number is not changed by rounding. -/
theorem roundHalfEven_mul_self (m : Nat) {den : Nat} (hden : 0 < den) :
    roundHalfEven (m * den) den = m := by
  have h := roundHalfEven_mul_right m 1 hden
  rwa [Nat.one_mul, roundHalfEven_one] at h

/-- A greater quotient is not rounded to a smaller number. -/
theorem roundHalfEven_le_of_le {a b d e : Nat} (hd : 0 < d) (he : 0 < e) (h : a * e ≤ b * d) :
    roundHalfEven a d ≤ roundHalfEven b e :=
  calc
    roundHalfEven a d = roundHalfEven (a * e) (d * e) := (roundHalfEven_mul_right a d he).symm
    _ ≤ roundHalfEven (b * d) (d * e) := roundHalfEven_mono h _
    _ = roundHalfEven (b * d) (e * d) := by rw [Nat.mul_comm d e]
    _ = roundHalfEven b e := roundHalfEven_mul_right b e hd

/-! ## Shifts -/

/-- Two exponents are written with one common shift to the left. -/
theorem exists_shifts (e e' : Int) : ∃ i i' j : Nat, (i : Int) - j = e ∧ (i' : Int) - j = e' :=
  ⟨(e + (e.natAbs + e'.natAbs : Nat)).toNat, (e' + (e.natAbs + e'.natAbs : Nat)).toNat,
    e.natAbs + e'.natAbs, by omega, by omega⟩

/-! ## The leading bit -/

/-- The quotient reaches a power of two. -/
theorem reaches_iff {num den i j : Nat} {l : Int} (h : (i : Int) - j = l) :
    (if 0 ≤ l then den * Finite64.twoTo l.toNat ≤ num
      else den ≤ num * Finite64.twoTo (-l).toNat) ↔ den * 2 ^ i ≤ num * 2 ^ j := by
  show (if 0 ≤ l then den * 2 ^ l.toNat ≤ num else den ≤ num * 2 ^ (-l).toNat) ↔ _
  split
  · have hi : i = l.toNat + j := by omega
    rw [hi, Nat.pow_add, ← Nat.mul_assoc]
    exact (Nat.mul_le_mul_right_iff (Nat.two_pow_pos j)).symm
  · have hj : j = (-l).toNat + i := by omega
    rw [hj, Nat.pow_add, ← Nat.mul_assoc]
    exact (Nat.mul_le_mul_right_iff (Nat.two_pow_pos i)).symm

/-- **The leading bit** is the greatest power of two that the quotient reaches; `leadingBit`
guesses it from two logarithms and is off by one at most. -/
theorem leadingBit_spec {num den i j : Nat} (hnum : num ≠ 0) (hden : den ≠ 0)
    (h : (i : Int) - j = leadingBit num den) :
    den * 2 ^ i ≤ num * 2 ^ j ∧ num * 2 ^ j < den * 2 ^ (i + 1) := by
  have hlow : 2 ^ num.log2 ≤ num := Nat.log2_self_le hnum
  have hhigh : num < 2 ^ (num.log2 + 1) := Nat.lt_log2_self
  have hlow' : 2 ^ den.log2 ≤ den := Nat.log2_self_le hden
  have hhigh' : den < 2 ^ (den.log2 + 1) := Nat.lt_log2_self
  unfold leadingBit at h
  by_cases hreached : if 0 ≤ (num.log2 : Int) - den.log2 then
      den * Finite64.twoTo ((num.log2 : Int) - den.log2).toNat ≤ num
    else den ≤ num * Finite64.twoTo (-((num.log2 : Int) - den.log2)).toNat
  · rw [if_pos hreached] at h
    have hexponents : num.log2 + 1 + j = den.log2 + (i + 1) := by omega
    refine ⟨(reaches_iff h).1 hreached, ?_⟩
    calc
      num * 2 ^ j < 2 ^ (num.log2 + 1) * 2 ^ j :=
        Nat.mul_lt_mul_of_pos_right hhigh (Nat.two_pow_pos j)
      _ = 2 ^ den.log2 * 2 ^ (i + 1) := by rw [← Nat.pow_add, ← Nat.pow_add, hexponents]
      _ ≤ den * 2 ^ (i + 1) := Nat.mul_le_mul_right _ hlow'
  · rw [if_neg hreached] at h
    have hexponents : den.log2 + 1 + i = num.log2 + j := by omega
    have hnext : ((i + 1 : Nat) : Int) - j = (num.log2 : Int) - den.log2 := by omega
    refine ⟨?_, Nat.lt_of_not_le (mt (reaches_iff hnext).2 hreached)⟩
    calc
      den * 2 ^ i ≤ 2 ^ (den.log2 + 1) * 2 ^ i := Nat.mul_le_mul_right _ (Nat.le_of_lt hhigh')
      _ = 2 ^ num.log2 * 2 ^ j := by rw [← Nat.pow_add, ← Nat.pow_add, hexponents]
      _ ≤ num * 2 ^ j := Nat.mul_le_mul_right _ hlow

/-- The leading bit of a greater quotient is no lower one. -/
theorem leadingBit_le_of_le {a b d e : Nat} (ha : a ≠ 0) (hb : b ≠ 0) (hd : d ≠ 0) (he : e ≠ 0)
    (h : a * e ≤ b * d) : leadingBit a d ≤ leadingBit b e := by
  apply Int.not_lt.1
  intro hlt
  obtain ⟨i, i', j, hi, hi'⟩ := exists_shifts (leadingBit a d) (leadingBit b e)
  have hlow := (leadingBit_spec ha hd hi).1
  have hhigh := (leadingBit_spec hb he hi').2
  have hpow : 2 ^ (i' + 1) ≤ 2 ^ i := Nat.pow_le_pow_right (by decide) (by omega)
  have hless : d * e * 2 ^ i < d * e * 2 ^ i := by
    calc
      d * e * 2 ^ i = e * (d * 2 ^ i) := by rw [Nat.mul_comm d e, Nat.mul_assoc]
      _ ≤ e * (a * 2 ^ j) := Nat.mul_le_mul_left e hlow
      _ = a * e * 2 ^ j := by rw [← Nat.mul_assoc, Nat.mul_comm e a]
      _ ≤ b * d * 2 ^ j := Nat.mul_le_mul_right _ h
      _ = d * (b * 2 ^ j) := by rw [Nat.mul_comm b d, Nat.mul_assoc]
      _ < d * (e * 2 ^ (i' + 1)) := Nat.mul_lt_mul_of_pos_left hhigh (Nat.pos_of_ne_zero hd)
      _ ≤ d * (e * 2 ^ i) := Nat.mul_le_mul_left d (Nat.mul_le_mul_left e hpow)
      _ = d * e * 2 ^ i := (Nat.mul_assoc d e _).symm
  exact Nat.lt_irrefl _ hless

/-! ## The rank of a quotient -/

/-- The exponent of the last place to which `nearestRank` rounds a quotient. -/
def lastPlace (num den : Nat) : Int := max (-1074) (leadingBit num den - 52)

/-- The quotient as a multiple of a power of two, rounded by `roundHalfEven`. -/
def significandAt (num den : Nat) (e : Int) : Nat :=
  if 0 ≤ e then roundHalfEven num (den * Finite64.twoTo e.toNat)
  else roundHalfEven (num * Finite64.twoTo (-e).toNat) den

theorem nearestRank_eq_significandAt {num : Nat} (den : Nat) (h : num ≠ 0) :
    nearestRank num den = (lastPlace num den + 1074).toNat * Finite64.hiddenBit +
      significandAt num den (lastPlace num den) := by
  unfold nearestRank
  rw [if_neg h]
  rfl

theorem significandAt_eq {num den i j : Nat} {e : Int} (h : (i : Int) - j = e) :
    significandAt num den e = roundHalfEven (num * 2 ^ j) (den * 2 ^ i) := by
  show (if 0 ≤ e then roundHalfEven num (den * 2 ^ e.toNat)
    else roundHalfEven (num * 2 ^ (-e).toNat) den) = _
  split
  · have hi : i = e.toNat + j := by omega
    rw [hi, Nat.pow_add, ← Nat.mul_assoc]
    exact (roundHalfEven_mul_right num _ (Nat.two_pow_pos j)).symm
  · have hj : j = (-e).toNat + i := by omega
    rw [hj, Nat.pow_add, ← Nat.mul_assoc]
    exact (roundHalfEven_mul_right _ den (Nat.two_pow_pos i)).symm

/-- A rounded significand has 53 bits, or is the least number with 54. -/
theorem significandAt_le {num den : Nat} (hnum : num ≠ 0) (hden : den ≠ 0) :
    significandAt num den (lastPlace num den) ≤ 2 * Finite64.hiddenBit := by
  obtain ⟨i, i', j, hi, hi'⟩ := exists_shifts (lastPlace num den) (leadingBit num den)
  have hplace : leadingBit num den - 52 ≤ lastPlace num den := by
    unfold lastPlace
    omega
  have hpow : 2 ^ (i' + 1) ≤ 2 ^ (53 + i) := Nat.pow_le_pow_right (by decide) (by omega)
  have hnumber : num * 2 ^ j ≤ 2 ^ 53 * (den * 2 ^ i) := by
    calc
      num * 2 ^ j ≤ den * 2 ^ (i' + 1) := Nat.le_of_lt (leadingBit_spec hnum hden hi').2
      _ ≤ den * 2 ^ (53 + i) := Nat.mul_le_mul_left den hpow
      _ = 2 ^ 53 * (den * 2 ^ i) := by rw [Nat.pow_add, Nat.mul_left_comm]
  have hpos : 0 < den * 2 ^ i := Nat.mul_pos (Nat.pos_of_ne_zero hden) (Nat.two_pow_pos i)
  have hrounded := roundHalfEven_mono hnumber (den * 2 ^ i)
  rw [roundHalfEven_mul_self _ hpos] at hrounded
  rw [significandAt_eq hi]
  exact hrounded

/-- The leading bit of a rounded significand is set, unless its place is the last of the format. -/
theorem le_significandAt {num den : Nat} (hnum : num ≠ 0) (hden : den ≠ 0)
    (hplace : -1074 < lastPlace num den) :
    Finite64.hiddenBit ≤ significandAt num den (lastPlace num den) := by
  obtain ⟨i, i', j, hi, hi'⟩ := exists_shifts (lastPlace num den) (leadingBit num den)
  have hexponents : i' = 52 + i := by
    unfold lastPlace at hplace hi
    omega
  have hnumber : 2 ^ 52 * (den * 2 ^ i) ≤ num * 2 ^ j := by
    have hlow := (leadingBit_spec hnum hden hi').1
    rwa [hexponents, Nat.pow_add, Nat.mul_left_comm] at hlow
  have hpos : 0 < den * 2 ^ i := Nat.mul_pos (Nat.pos_of_ne_zero hden) (Nat.two_pow_pos i)
  have hrounded := roundHalfEven_mono hnumber (den * 2 ^ i)
  rw [roundHalfEven_mul_self _ hpos] at hrounded
  rw [significandAt_eq hi]
  exact hrounded

/-- **The rank of a greater quotient is no smaller one.**  At one `lastPlace` the significands are
in order; at different ones `significandAt_le` and `le_significandAt` keep them apart. -/
theorem nearestRank_le_of_le {a b d e : Nat} (hd : d ≠ 0) (he : e ≠ 0) (h : a * e ≤ b * d) :
    nearestRank a d ≤ nearestRank b e := by
  by_cases ha : a = 0
  · rw [ha, nearestRank, if_pos rfl]
    exact Nat.zero_le _
  have hb : b ≠ 0 := by
    rintro rfl
    rw [Nat.zero_mul, Nat.le_zero, Nat.mul_eq_zero] at h
    exact h.elim ha he
  have hbits : leadingBit a d ≤ leadingBit b e := leadingBit_le_of_le ha hb hd he h
  have hplaces : lastPlace a d ≤ lastPlace b e := by
    unfold lastPlace
    omega
  have hleast : -1074 ≤ lastPlace a d := by
    unfold lastPlace
    omega
  rw [nearestRank_eq_significandAt d ha, nearestRank_eq_significandAt e hb]
  rcases Int.lt_or_eq_of_le hplaces with hlt | heq
  · -- the significands differ by a factor of two at most, which the exponents make up for
    have hexponents : ((lastPlace a d + 1074).toNat + 1) * Finite64.hiddenBit ≤
        (lastPlace b e + 1074).toNat * Finite64.hiddenBit := Nat.mul_le_mul_right _ (by omega)
    have hhigh := significandAt_le ha hd
    have hlow := le_significandAt hb he (by omega)
    rw [Nat.add_mul] at hexponents
    omega
  · obtain ⟨i, _, j, hi, -⟩ := exists_shifts (lastPlace b e) 0
    have hshifted : a * 2 ^ j * (e * 2 ^ i) ≤ b * 2 ^ j * (d * 2 ^ i) := by
      rw [Nat.mul_mul_mul_comm, Nat.mul_mul_mul_comm b]
      exact Nat.mul_le_mul_right _ h
    have hsignificands : significandAt a d (lastPlace b e) ≤ significandAt b e (lastPlace b e) := by
      rw [significandAt_eq hi, significandAt_eq hi]
      exact roundHalfEven_le_of_le (Nat.mul_pos (Nat.pos_of_ne_zero hd) (Nat.two_pow_pos i))
        (Nat.mul_pos (Nat.pos_of_ne_zero he) (Nat.two_pow_pos i)) hshifted
    rw [heq]
    exact Nat.add_le_add_left hsignificands _

end RestCase
