/-
# RestCase.Proofs.Binary64.Difference — order and nearness of binary64 numbers

Numbers are compared by their ranks, which is comparing their values (`compare_eq_compare_units`):
the magnitudes grow with the ranks.  `compare?_eq_some_lt_iff` and `compare?_eq_some_eq_iff` say
this of `Binary64.compare?`.

Whether two numbers are near each other is decided without rounding, by one bound on the exact
difference.  That is the same as subtracting them, rounding the difference to the format, and asking
whether its magnitude is below the number nearest to one ten-thousandth
(`near_eq_lt_tenThousandth`), since rounding keeps the order.
-/
import RestCase.Proofs.Binary64.Rounding

namespace RestCase

namespace Finite64

/-! ## Ranks and magnitudes -/

theorem rank_eq (x : Finite64) : x.rank = x.place * hiddenBit + x.significand := by
  have hpos : 0 < hiddenBit := by decide
  unfold place significand
  split
  · next hsmall =>
    rw [Nat.div_eq_of_lt hsmall]
    omega
  · next hlarge =>
    have hquotient : 0 < x.rank / hiddenBit := Nat.div_pos (Nat.not_lt.1 hlarge) hpos
    obtain ⟨q, hq⟩ : ∃ q, x.rank / hiddenBit = q + 1 := ⟨x.rank / hiddenBit - 1, by omega⟩
    have hdivision := Nat.div_add_mod x.rank hiddenBit
    rw [hq, Nat.mul_comm, Nat.add_mul] at hdivision
    rw [hq, Nat.add_sub_cancel]
    omega

theorem significand_lt (x : Finite64) : x.significand < 2 * hiddenBit := by
  have hpos : 0 < hiddenBit := by decide
  unfold significand
  split
  · omega
  · have hmod := Nat.mod_lt x.rank hpos
    omega

/-- Above the subnormal numbers the leading bit is set. -/
theorem le_significand {x : Finite64} (h : 0 < x.place) : hiddenBit ≤ x.significand := by
  unfold place at h
  unfold significand
  split
  · next hsmall =>
    rw [Nat.div_eq_of_lt hsmall] at h
    exact absurd h (Nat.lt_irrefl 0)
  · exact Nat.le_add_left _ _

/-- **The magnitudes grow with the ranks**: within one place with the significands, and from one
place to the next by `le_significand`. -/
theorem magnitude_lt {x y : Finite64} (h : x.rank < y.rank) : x.magnitude < y.magnitude := by
  show x.significand * 2 ^ x.place < y.significand * 2 ^ y.place
  rw [rank_eq x, rank_eq y] at h
  have hx := significand_lt x
  have hy := significand_lt y
  rcases Nat.lt_trichotomy x.place y.place with hlt | heq | hgt
  · calc
      x.significand * 2 ^ x.place < 2 * hiddenBit * 2 ^ x.place :=
        Nat.mul_lt_mul_of_pos_right hx (Nat.two_pow_pos _)
      _ = hiddenBit * 2 ^ (x.place + 1) := by rw [Nat.pow_succ, Nat.mul_comm 2, Nat.mul_assoc,
          Nat.mul_comm 2]
      _ ≤ hiddenBit * 2 ^ y.place := Nat.mul_le_mul_left _ (Nat.pow_le_pow_right (by decide) hlt)
      _ ≤ y.significand * 2 ^ y.place := Nat.mul_le_mul_right _ (le_significand (by omega))
  · rw [heq] at h ⊢
    exact Nat.mul_lt_mul_of_pos_right (by omega) (Nat.two_pow_pos _)
  · -- a higher place means a higher rank
    have hplaces : (y.place + 1) * hiddenBit ≤ x.place * hiddenBit := Nat.mul_le_mul_right _ hgt
    have hleading := le_significand (x := x) (by omega)
    rw [Nat.add_mul] at hplaces
    omega

theorem magnitude_lt_iff {x y : Finite64} : x.magnitude < y.magnitude ↔ x.rank < y.rank := by
  constructor
  · intro h
    rcases Nat.lt_trichotomy x.rank y.rank with hlt | heq | hgt
    · exact hlt
    · -- the magnitude is a function of the rank
      have hsame : x.magnitude = y.magnitude := by
        simp only [magnitude, significand, place, heq]
      omega
    · have hless := magnitude_lt hgt
      omega
  · exact magnitude_lt

theorem magnitude_pos_iff {x : Finite64} : 0 < x.magnitude ↔ 0 < x.rank := by
  have hzero : zero.magnitude = 0 := by decide
  have hrank : zero.rank = 0 := rfl
  have hiff := magnitude_lt_iff (x := zero) (y := x)
  rwa [hzero, hrank] at hiff

theorem units_lt_iff {x y : Finite64} : x.units < y.units ↔ x.signedRank < y.signedRank := by
  have hxy := magnitude_lt_iff (x := x) (y := y)
  have hyx := magnitude_lt_iff (x := y) (y := x)
  have hx := magnitude_pos_iff (x := x)
  have hy := magnitude_pos_iff (x := y)
  unfold units signedRank
  cases x.negative <;> cases y.negative <;> simp only [Bool.false_eq_true, if_true, if_false] <;>
    omega

/-- **The order of two numbers is the order of their values**: `compare` goes by ranks, `units`
are the values. -/
theorem compare_eq_compare_units (x y : Finite64) :
    x.compare y = Ord.compare x.units y.units := by
  have hxy := units_lt_iff (x := x) (y := y)
  have hyx := units_lt_iff (x := y) (y := x)
  unfold compare
  rcases Int.lt_trichotomy x.units y.units with hlt | heq | hgt
  · rw [Int.compare_eq_lt.2 hlt, Int.compare_eq_lt.2 (hxy.1 hlt)]
  · have hranks : x.signedRank = y.signedRank := by omega
    rw [Int.compare_eq_eq.2 heq, Int.compare_eq_eq.2 hranks]
  · rw [Int.compare_eq_gt.2 hgt, Int.compare_eq_gt.2 (hyx.1 hgt)]

end Finite64

namespace Binary64

/-! ## The order -/

/-- A number stands before another one on the line. -/
inductive Less : Binary64 → Binary64 → Prop
  | finite {x y : Finite64} : x.units < y.units → Less (.finite x) (.finite y)
  | least (x : Finite64) : Less (.infinite true) (.finite x)
  | greatest (x : Finite64) : Less (.finite x) (.infinite false)
  | ends : Less (.infinite true) (.infinite false)

/-- Two numbers stand at one point of the line; both zeros do. -/
inductive Equal : Binary64 → Binary64 → Prop
  | finite {x y : Finite64} : x.units = y.units → Equal (.finite x) (.finite y)
  | infinite (negative : Bool) : Equal (.infinite negative) (.infinite negative)

theorem compare?_eq_some_lt_iff {x y : Binary64} : x.compare? y = some .lt ↔ Less x y := by
  constructor
  · intro h
    cases x with
    | nan => cases h
    | finite x =>
      cases y with
      | nan => cases h
      | finite y =>
        have hlt : x.compare y = .lt := Option.some.inj h
        rw [Finite64.compare_eq_compare_units, Int.compare_eq_lt] at hlt
        exact .finite hlt
      | infinite b =>
        cases b with
        | true => cases h
        | false => exact .greatest x
    | infinite a =>
      cases y with
      | nan => cases h
      | finite y =>
        cases a with
        | true => exact .least y
        | false => cases h
      | infinite b =>
        cases a with
        | true =>
          cases b with
          | true => cases h
          | false => exact .ends
        | false => cases b <;> cases h
  · intro h
    cases h with
    | finite h =>
      show some (Finite64.compare _ _) = _
      rw [Finite64.compare_eq_compare_units, Int.compare_eq_lt.2 h]
    | least | greatest | ends => rfl

theorem compare?_eq_some_eq_iff {x y : Binary64} : x.compare? y = some .eq ↔ Equal x y := by
  constructor
  · intro h
    cases x with
    | nan => cases h
    | finite x =>
      cases y with
      | nan => cases h
      | finite y =>
        have heq : x.compare y = .eq := Option.some.inj h
        rw [Finite64.compare_eq_compare_units, Int.compare_eq_eq] at heq
        exact .finite heq
      | infinite b => cases b <;> cases h
    | infinite a =>
      cases y with
      | nan => cases h
      | finite y => cases a <;> cases h
      | infinite b =>
        by_cases hab : a = b
        · exact hab ▸ .infinite a
        · have heq : (if a = b then Ordering.eq else if a then .lt else .gt) = .eq :=
            Option.some.inj h
          rw [if_neg hab] at heq
          cases a <;> cases heq
  · intro h
    cases h with
    | finite h =>
      show some (Finite64.compare _ _) = _
      rw [Finite64.compare_eq_compare_units, Int.compare_eq_eq.2 h]
    | infinite negative => cases negative <;> rfl

/-- Comparing the other way round swaps the answer of `compare?`. -/
theorem compare?_swap (x y : Binary64) : (x.compare? y).map Ordering.swap = y.compare? x := by
  cases x with
  | nan => cases y <;> rfl
  | finite x =>
    cases y with
    | nan => rfl
    | finite y => exact congrArg some (x.compare_swap y)
    | infinite b => cases b <;> rfl
  | infinite a =>
    cases y with
    | nan => rfl
    | finite y => cases a <;> rfl
    | infinite b => cases a <;> cases b <;> rfl

/-- Two numbers are compared unless one of them is `nan`. -/
theorem exists_compare? {x y : Binary64} (hx : x ≠ .nan) (hy : y ≠ .nan) :
    ∃ o, x.compare? y = some o := by
  cases x with
  | nan => exact absurd rfl hx
  | finite | infinite =>
    cases y with
    | nan => exact absurd rfl hy
    | finite | infinite => exact ⟨_, rfl⟩

/-! ## The rounded difference -/

/-- The number without its sign. -/
def abs : Binary64 → Binary64
  | .finite x => .finite { x with negative := false }
  | .infinite _ => .infinite false
  | .nan => .nan

/-- The magnitude of a rounded quotient is below a number iff its rank is. -/
theorem abs_ofRatio_lt_iff (negative : Bool) (num den : Nat) {t : Finite64}
    (ht : t.negative = false) :
    (ofRatio negative num den).abs.lt (.finite t) = true ↔ nearestRank num den < t.rank := by
  have hlimit := t.rank_lt
  unfold ofRatio Finite64.ofRatio?
  by_cases hfits : nearestRank num den < Finite64.rankLimit
  · simp [hfits, abs, lt, compare?, Finite64.compare, Finite64.signedRank, Int.compare_eq_lt, ht]
  · have hnot : ¬ nearestRank num den < t.rank := by omega
    simp [hfits, abs, lt, compare?, hnot]

end Binary64

namespace Finite64

/-- The difference of two numbers, rounded to the format. -/
def minus (x y : Finite64) : Binary64 :=
  Binary64.ofRatio (decide (x.units < y.units)) (x.units - y.units).natAbs (twoTo 1074)

theorem twoTo_ne_zero (e : Nat) : twoTo e ≠ 0 := Nat.ne_of_gt (Nat.two_pow_pos e)

/-- The number nearest to one ten-thousandth. -/
def tenThousandth : Binary64 := Binary64.ofRatio false 1 10000

/-- The rank of the number nearest to one ten-thousandth, `tenThousandth` as a literal. -/
def toleranceRank : Nat := 0x3F1A36E2EB1C432D

theorem tenThousandth_eq : tenThousandth = .finite ⟨false, toleranceRank, by decide⟩ := rfl

/-- **Two numbers are `near` each other** iff their difference, rounded to the format (`minus`),
is below the number nearest to one ten-thousandth in magnitude. -/
theorem near_eq_lt_tenThousandth (x y : Finite64) :
    x.near y = (x.minus y).abs.lt tenThousandth := by
  have hunit := twoTo_ne_zero 1074
  have hmono : ∀ {m n : Nat}, m ≤ n → nearestRank m (twoTo 1074) ≤ nearestRank n (twoTo 1074) :=
    fun hle => nearestRank_le_of_le hunit hunit (Nat.mul_le_mul_right (twoTo 1074) hle)
  -- the greatest difference that is rounded below the tolerance, and the next one
  have hbelow : nearestRank (toleranceEdge / 2) (twoTo 1074) < toleranceRank := by decide +kernel
  have habove : toleranceRank ≤ nearestRank (toleranceEdge / 2 + 1) (twoTo 1074) := by
    decide +kernel
  rw [Bool.eq_iff_iff, tenThousandth_eq, minus, Binary64.abs_ofRatio_lt_iff _ _ _ rfl, near,
    decide_eq_true_eq]
  generalize (x.units - y.units).natAbs = n
  constructor
  · intro h
    have hn : n ≤ toleranceEdge / 2 := by omega
    exact Nat.lt_of_le_of_lt (hmono hn) hbelow
  · intro h
    apply Nat.le_of_not_lt
    intro hlarge
    have hn : toleranceEdge / 2 + 1 ≤ n := by omega
    exact Nat.lt_irrefl _ (Nat.lt_of_le_of_lt (Nat.le_trans habove (hmono hn)) h)

end Finite64

end RestCase
