/-
# RestCase.Proofs.Binary64.Integers — integers as binary64 numbers

An integer is compared as a number through the number of the format that is nearest to it
(`compare?_ofInt`).  Rounding keeps the order, so a greater integer never becomes a smaller number;
but above `2 ^ 53` the numbers of the format are more than one apart, and integers that lie close
together become one number.  `ofInt_eq_iff` says when two integers do, in terms of `intRank`, and
`intRank_lt` that up to `2 ^ 53` in magnitude different integers have different numbers.
-/
import RestCase.Proofs.Binary64.Rounding

namespace RestCase

/-! ## The rank of a natural number -/

/-- The significand of a positive number, rounded to its 53 leading bits. -/
def roundedSignificand (n : Nat) : Nat :=
  if 52 ≤ n.log2 then roundHalfEven n (Finite64.twoTo (n.log2 - 52))
  else n * Finite64.twoTo (52 - n.log2)

theorem leadingBit_one {n : Nat} (h : n ≠ 0) : leadingBit n 1 = n.log2 := by
  have hself : 2 ^ n.log2 ≤ n := Nat.log2_self_le h
  have hone : Nat.log2 1 = 0 := by decide
  unfold leadingBit
  simp [hone, Finite64.twoTo, Nat.not_lt.2 hself]

/-- The `lastPlace` of a positive number, in units of which it is rounded. -/
theorem lastPlace_one {n : Nat} (h : n ≠ 0) : lastPlace n 1 = (n.log2 : Int) - 52 := by
  unfold lastPlace
  rw [leadingBit_one h]
  omega

theorem significandAt_one {n : Nat} (h : n ≠ 0) :
    significandAt n 1 (lastPlace n 1) = roundedSignificand n := by
  unfold significandAt roundedSignificand
  rw [lastPlace_one h]
  by_cases hlarge : 52 ≤ n.log2
  · have hexponent : ((n.log2 : Int) - 52).toNat = n.log2 - 52 := by omega
    rw [if_pos (by omega), if_pos hlarge, hexponent, Nat.one_mul]
  · have hexponent : (-((n.log2 : Int) - 52)).toNat = 52 - n.log2 := by omega
    rw [if_neg (by omega), if_neg hlarge, hexponent, roundHalfEven_one]

theorem nearestRank_eq {n : Nat} (h : n ≠ 0) :
    nearestRank n 1 = (n.log2 + 1022) * Finite64.hiddenBit + roundedSignificand n := by
  have hshift : (lastPlace n 1 + 1074).toNat = n.log2 + 1022 := by
    rw [lastPlace_one h]
    omega
  rw [nearestRank_eq_significandAt 1 h, significandAt_one h, hshift]

/-- The leading bit of a `roundedSignificand` is set. -/
theorem le_roundedSignificand {n : Nat} (h : n ≠ 0) :
    Finite64.hiddenBit ≤ roundedSignificand n := by
  rw [← significandAt_one h]
  apply le_significandAt h Nat.one_ne_zero
  rw [lastPlace_one h]
  omega

theorem nearestRank_pos {n : Nat} (h : n ≠ 0) : 0 < nearestRank n 1 := by
  have hbit : 0 < Finite64.hiddenBit := by decide
  have hbounds := le_roundedSignificand h
  rw [nearestRank_eq h]
  omega

/-- The rank of a greater number is no smaller one (`nearestRank_le_of_le`). -/
theorem nearestRank_mono {a b : Nat} (h : a ≤ b) : nearestRank a 1 ≤ nearestRank b 1 :=
  nearestRank_le_of_le Nat.one_ne_zero Nat.one_ne_zero (Nat.mul_le_mul_right 1 h)

/-- A number with at most 53 bits is its own significand, moved to the left. -/
theorem roundedSignificand_of_log2_le {n : Nat} (h : n.log2 ≤ 52) :
    roundedSignificand n = n * 2 ^ (52 - n.log2) := by
  unfold roundedSignificand Finite64.twoTo
  split
  · next hlarge =>
    have heq : n.log2 = 52 := by omega
    rw [heq]
    exact (roundHalfEven_one n).trans (Nat.mul_one n).symm
  · rfl

/-- **Up to `2 ^ 53` a greater number has a greater rank**, since `roundedSignificand` is exact
there. -/
theorem nearestRank_lt {a b : Nat} (h : a < b) (hb : b ≤ 2 ^ 53) :
    nearestRank a 1 < nearestRank b 1 := by
  have hbne : b ≠ 0 := by omega
  rcases Nat.eq_zero_or_pos a with rfl | hpos
  · simpa [nearestRank] using nearestRank_pos hbne
  have ha : a ≠ 0 := by omega
  have hfew : a.log2 ≤ 52 := Nat.le_of_lt_succ ((Nat.log2_lt ha).2 (by omega))
  have hlog : a.log2 ≤ b.log2 :=
    (Nat.le_log2 hbne).2 (Nat.le_trans (Nat.log2_self_le ha) (Nat.le_of_lt h))
  rw [nearestRank_eq ha, nearestRank_eq hbne, roundedSignificand_of_log2_le hfew]
  have hfactor : 0 < 2 ^ (52 - a.log2) := Nat.two_pow_pos _
  rcases Nat.lt_or_eq_of_le hlog with hlt | heq
  · have hexponents : (a.log2 + 1022 + 1) * Finite64.hiddenBit ≤
        (b.log2 + 1022) * Finite64.hiddenBit := Nat.mul_le_mul_right _ (by omega)
    have hlow := le_roundedSignificand hbne
    have hhigh : a * 2 ^ (52 - a.log2) < 2 * Finite64.hiddenBit := by
      calc
        a * 2 ^ (52 - a.log2) < 2 ^ (a.log2 + 1) * 2 ^ (52 - a.log2) :=
          Nat.mul_lt_mul_of_pos_right Nat.lt_log2_self hfactor
        _ = 2 ^ 53 := by
          rw [← Nat.pow_add]
          congr 1
          omega
        _ = 2 * Finite64.hiddenBit := by decide
    rw [Nat.add_mul] at hexponents
    omega
  · have hsignificands : a * 2 ^ (52 - b.log2) < b * 2 ^ (52 - b.log2) :=
      Nat.mul_lt_mul_of_pos_right h (Nat.two_pow_pos _)
    rw [roundedSignificand_of_log2_le (heq ▸ hfew), heq]
    omega

theorem Finite64.signedRank_bounds (x : Finite64) :
    -(Finite64.rankLimit : Int) < x.signedRank ∧ x.signedRank < Finite64.rankLimit := by
  have hrank := x.rank_lt
  unfold Finite64.signedRank
  split <;> omega

namespace Binary64

/-! ## The number of an integer -/

/-- The rank of a number with its sign (`Finite64.signedRank`); the infinities stand at the two
ends. -/
def signedRank? : Binary64 → Option Int
  | finite x => some x.signedRank
  | infinite negative =>
    some (if negative then -(Finite64.rankLimit : Int) else Finite64.rankLimit)
  | nan => none

/-- Numbers compare as their ranks do. -/
theorem compare?_of_signedRank? {x y : Binary64} {i j : Int} (hx : x.signedRank? = some i)
    (hy : y.signedRank? = some j) : x.compare? y = some (compare i j) := by
  cases x with
  | nan => cases hx
  | finite x =>
    obtain rfl := Option.some.inj hx
    obtain ⟨hlow, hhigh⟩ := x.signedRank_bounds
    cases y with
    | nan => cases hy
    | finite y =>
      obtain rfl := Option.some.inj hy
      rfl
    | infinite negative =>
      obtain rfl := Option.some.inj hy
      cases negative with
      | true => exact congrArg some (Int.compare_eq_gt.2 hlow).symm
      | false => exact congrArg some (Int.compare_eq_lt.2 hhigh).symm
  | infinite negative =>
    obtain rfl := Option.some.inj hx
    cases y with
    | nan => cases hy
    | finite y =>
      obtain rfl := Option.some.inj hy
      obtain ⟨hlow, hhigh⟩ := y.signedRank_bounds
      cases negative with
      | true => exact congrArg some (Int.compare_eq_lt.2 hlow).symm
      | false => exact congrArg some (Int.compare_eq_gt.2 hhigh).symm
    | infinite other =>
      obtain rfl := Option.some.inj hy
      cases negative <;> cases other <;> rfl

/-- The rank of the number of an integer (`nearestRank`): that of its magnitude, unless it is
beyond the format. -/
def intRank (n : Int) : Int :=
  if n < 0 then -(min (nearestRank n.natAbs 1) Finite64.rankLimit : Nat)
  else (min (nearestRank n.natAbs 1) Finite64.rankLimit : Nat)

theorem signedRank?_ofInt (n : Int) : (ofInt n).signedRank? = some (intRank n) := by
  unfold ofInt ofRatio Finite64.ofRatio? intRank
  by_cases hrank : nearestRank n.natAbs 1 < Finite64.rankLimit
  · have hmin : min (nearestRank n.natAbs 1) Finite64.rankLimit = nearestRank n.natAbs 1 := by
      omega
    simp only [hrank, dif_pos, signedRank?, Finite64.signedRank, hmin, decide_eq_true_eq]
  · have hmin : min (nearestRank n.natAbs 1) Finite64.rankLimit = Finite64.rankLimit := by omega
    simp only [hrank, dif_neg, signedRank?, hmin, decide_eq_true_eq, not_false_eq_true]

/-- **The numbers of two integers compare as their ranks do**, `ofInt` against `intRank`. -/
theorem compare?_ofInt (a b : Int) :
    (ofInt a).compare? (ofInt b) = some (compare (intRank a) (intRank b)) :=
  compare?_of_signedRank? (signedRank?_ofInt a) (signedRank?_ofInt b)

/-- The rank keeps the order of integers, as `nearestRank_mono` does for their magnitudes. -/
theorem intRank_mono {a b : Int} (h : a ≤ b) : intRank a ≤ intRank b := by
  unfold intRank
  by_cases ha : a < 0
  · by_cases hb : b < 0
    · have hmono := nearestRank_mono (a := b.natAbs) (b := a.natAbs) (by omega)
      rw [if_pos ha, if_pos hb]
      omega
    · rw [if_pos ha, if_neg hb]
      omega
  · have hmono := nearestRank_mono (a := a.natAbs) (b := b.natAbs) (by omega)
    rw [if_neg ha, if_neg (by omega)]
    omega

/-- **Two integers have the same number** exactly if they have the same `intRank`. -/
theorem ofInt_eq_iff (a b : Int) : ofInt a = ofInt b ↔ intRank a = intRank b := by
  constructor
  · intro h
    have hranks := signedRank?_ofInt a
    rw [h, signedRank?_ofInt b] at hranks
    exact (Option.some.inj hranks).symm
  · intro h
    have hlimit : 0 < Finite64.rankLimit := by decide
    have hpos : ∀ {n : Int}, n < 0 → 0 < nearestRank n.natAbs 1 := fun hn =>
      nearestRank_pos (by omega)
    -- only zero has rank zero, so the signs agree, and then the ranks of the magnitudes
    have hsigns : a < 0 ↔ b < 0 := by
      unfold intRank at h
      by_cases ha : a < 0 <;> by_cases hb : b < 0
      · simp [ha, hb]
      · have hrank := hpos ha
        simp only [ha, hb, if_true, if_false] at h
        omega
      · have hrank := hpos hb
        simp only [ha, hb, if_true, if_false] at h
        omega
      · simp [ha, hb]
    have hranks : min (nearestRank a.natAbs 1) Finite64.rankLimit =
        min (nearestRank b.natAbs 1) Finite64.rankLimit := by
      unfold intRank at h
      simp only [hsigns] at h
      split at h <;> omega
    unfold ofInt ofRatio Finite64.ofRatio?
    simp only [hsigns]
    by_cases hfits : nearestRank a.natAbs 1 < Finite64.rankLimit
    · have hsame : nearestRank a.natAbs 1 = nearestRank b.natAbs 1 := by omega
      simp only [hsame]
    · have hother : ¬ nearestRank b.natAbs 1 < Finite64.rankLimit := by omega
      simp only [hfits, hother, dif_neg, not_false_eq_true]

/-- **Up to `2 ^ 53` in magnitude** a greater integer has a greater number, by `nearestRank_lt` on
either side of zero. -/
theorem intRank_lt {a b : Int} (h : a < b) (ha : a.natAbs ≤ 2 ^ 53) (hb : b.natAbs ≤ 2 ^ 53) :
    intRank a < intRank b := by
  have hfits : ∀ {n : Nat}, n ≤ 2 ^ 53 → nearestRank n 1 < Finite64.rankLimit := fun hn =>
    Nat.lt_of_le_of_lt (nearestRank_mono hn) (by decide)
  have hafits := hfits ha
  have hbfits := hfits hb
  unfold intRank
  by_cases hneg : a < 0
  · by_cases hbneg : b < 0
    · have hlt := nearestRank_lt (a := b.natAbs) (b := a.natAbs) (by omega) ha
      rw [if_pos hneg, if_pos hbneg]
      omega
    · have hpos := nearestRank_pos (n := a.natAbs) (by omega)
      rw [if_pos hneg, if_neg hbneg]
      omega
  · have hlt := nearestRank_lt (a := a.natAbs) (b := b.natAbs) (by omega) hb
    rw [if_neg hneg, if_neg (by omega)]
    omega

end Binary64

end RestCase
