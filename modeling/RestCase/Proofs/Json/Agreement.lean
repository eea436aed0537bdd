/-
# RestCase.Proofs.Json.Agreement — when two values agree

Two values are compared by the first of five rules that applies to them: null agrees with null
alone; two truth values agree when they are the same; two integers when they are equal; two other
numbers when their binary64 numbers lie less than one ten-thousandth apart, the difference being
rounded as every result of the format is; and all other values when their texts are the same.
`Agree` states these rules one by one, and the comparison that runs decides it
(`looselyEqual_iff_agree`).

Each rule treats the two values alike, so it does not matter which of them is the actual and which
the expected one.  `looselyEqual_laws` collects what follows: agreement is reflexive and symmetric,
null agrees with null alone, and two integers agree iff they are equal.

Boundary: agreement is no equivalence.  `0`, `0.00006` and `0.00012` agree in turn, and the first
does not agree with the last.
-/
import RestCase.Json.Coercion
import RestCase.Proofs.Binary64.Difference

namespace RestCase.Json

/-! ## The rules -/

/-- The value is a number. -/
def isNumber : Json → Bool
  | int _ | float _ => true
  | null | bool _ | string _ | array _ | object _ => false

/-- The value is a binary64 number. -/
def isFloat : Json → Bool
  | float _ => true
  | null | bool _ | int _ | string _ | array _ | object _ => false

/-- The value is a truth value. -/
def isTruth : Json → Bool
  | bool _ => true
  | null | int _ | float _ | string _ | array _ | object _ => false

theorem isTruth_iff (v : Json) : v.isTruth = true ↔ ∃ b, v = bool b := by
  cases v <;> simp [isTruth]

/-- A number that is not binary64 is an integer. -/
theorem exists_int_of_isNumber {v : Json} (h : v.isNumber = true) (hfloat : ¬ v.isFloat = true) :
    ∃ n, v = int n := by
  cases v with
  | int n => exact ⟨n, rfl⟩
  | float x => exact absurd rfl hfloat
  | null | bool | string | array | object => cases h

/-- Two numbers of which one is binary64 (`isFloat`): they are compared with a tolerance. -/
structure ByDistance (v w : Json) : Prop where
  left : v.isNumber = true
  right : w.isNumber = true
  float : v.isFloat = true ∨ w.isFloat = true

/-- Two values of which neither is null, and which are neither two numbers nor two truth values:
they are compared by `stringForm`. -/
structure ByText (v w : Json) : Prop where
  left : v ≠ null
  right : w ≠ null
  numbers : ¬ (v.isNumber = true ∧ w.isNumber = true)
  truths : ¬ (v.isTruth = true ∧ w.isTruth = true)

/-- Two values agree: null with null, a truth value or an integer with itself, and others
`ByDistance` or `ByText`. -/
inductive Agree : Json → Json → Prop
  | null : Agree null null
  | bool (b : Bool) : Agree (bool b) (bool b)
  | int (n : Int) : Agree (int n) (int n)
  | distance {v w : Json} {x y : Finite64} :
      ByDistance v w → v.toNumber? = some (.finite x) → w.toNumber? = some (.finite y) →
      (x.minus y).abs.lt Finite64.tenThousandth = true → Agree v w
  | text {v w : Json} : ByText v w → v.stringForm = w.stringForm → Agree v w

/-- One of the rules applies to any two values. -/
theorem rule_cases (v w : Json) :
    (v = null ∨ w = null) ∨ (∃ a b, v = bool a ∧ w = bool b) ∨ (∃ a b, v = int a ∧ w = int b) ∨
      ByDistance v w ∨ ByText v w := by
  by_cases hnull : v = null ∨ w = null
  · exact .inl hnull
  by_cases htruths : v.isTruth = true ∧ w.isTruth = true
  · obtain ⟨a, rfl⟩ := (isTruth_iff v).1 htruths.1
    obtain ⟨b, rfl⟩ := (isTruth_iff w).1 htruths.2
    exact .inr (.inl ⟨a, b, rfl, rfl⟩)
  by_cases hnumbers : v.isNumber = true ∧ w.isNumber = true
  · by_cases hfloat : v.isFloat = true ∨ w.isFloat = true
    · exact .inr (.inr (.inr (.inl ⟨hnumbers.1, hnumbers.2, hfloat⟩)))
    · rw [not_or] at hfloat
      obtain ⟨a, rfl⟩ := exists_int_of_isNumber hnumbers.1 hfloat.1
      obtain ⟨b, rfl⟩ := exists_int_of_isNumber hnumbers.2 hfloat.2
      exact .inr (.inr (.inl ⟨a, b, rfl, rfl⟩))
  · rw [not_or] at hnull
    exact .inr (.inr (.inr (.inr ⟨hnull.1, hnull.2, hnumbers, htruths⟩)))

/-! ## The comparison decides agreement -/

theorem nearInt_iff {n : Int} {x : Finite64} :
    nearInt n x = true ↔ ∃ y, Binary64.ofInt n = .finite y ∧ y.near x = true := by
  unfold nearInt
  split
  · next y hy => simp [hy]
  · next hnone =>
    constructor
    · intro h
      cases h
    · rintro ⟨y, hy, -⟩
      exact absurd hy (hnone y)

/-- Null is compared with nothing but null. -/
theorem looselyEqual_iff_of_null {v w : Json} (h : v = null ∨ w = null) :
    looselyEqual v w = true ↔ v = null ∧ w = null := by
  rcases h with rfl | rfl
  · rw [looselyEqual_null_iff]
    exact (and_iff_right rfl).symm
  · rw [looselyEqual_comm, looselyEqual_null_iff]
    exact (and_iff_left rfl).symm

/-- Numbers are compared by their distance where one of them is binary64. -/
theorem looselyEqual_iff_of_byDistance {v w : Json} (h : ByDistance v w) :
    looselyEqual v w = true ↔ ∃ x y, v.toNumber? = some (.finite x) ∧
      w.toNumber? = some (.finite y) ∧ x.near y = true := by
  obtain ⟨hv, hw, hfloat⟩ := h
  cases v with
  | null | bool | string | array | object => cases hv
  | int a =>
    cases w with
    | null | bool | string | array | object => cases hw
    | int b => exact hfloat.elim nofun nofun
    | float y =>
      show nearInt a y = true ↔ _
      simp [nearInt_iff, toNumber?]
  | float x =>
    cases w with
    | null | bool | string | array | object => cases hw
    | int b =>
      show nearInt b x = true ↔ _
      simp [nearInt_iff, toNumber?, Finite64.near_symm x]
    | float y =>
      show x.near y = true ↔ _
      simp [toNumber?]

/-- Values that no other rule covers are compared by their texts. -/
theorem looselyEqual_iff_of_byText {v w : Json} (h : ByText v w) :
    looselyEqual v w = true ↔ v.stringForm = w.stringForm := by
  obtain ⟨hv, hw, hnumbers, htruths⟩ := h
  unfold looselyEqual
  split
  · exact absurd rfl hv
  · exact absurd rfl hv
  · exact absurd rfl hw
  · exact absurd ⟨rfl, rfl⟩ hnumbers
  · exact absurd ⟨rfl, rfl⟩ hnumbers
  · exact absurd ⟨rfl, rfl⟩ hnumbers
  · exact absurd ⟨rfl, rfl⟩ hnumbers
  · exact absurd ⟨rfl, rfl⟩ htruths
  · exact beq_iff_eq

/-- **The comparison decides agreement**: `looselyEqual` against `Agree`, rule by rule. -/
theorem looselyEqual_iff_agree (v w : Json) : looselyEqual v w = true ↔ Agree v w := by
  constructor
  · intro h
    rcases rule_cases v w with hnull | ⟨a, b, rfl, rfl⟩ | ⟨a, b, rfl, rfl⟩ | hdistance | htext
    · obtain ⟨rfl, rfl⟩ := (looselyEqual_iff_of_null hnull).1 h
      exact .null
    · exact beq_iff_eq.1 h ▸ .bool a
    · exact beq_iff_eq.1 h ▸ .int a
    · obtain ⟨x, y, hx, hy, hnear⟩ := (looselyEqual_iff_of_byDistance hdistance).1 h
      rw [Finite64.near_eq_lt_tenThousandth] at hnear
      exact .distance hdistance hx hy hnear
    · exact .text htext ((looselyEqual_iff_of_byText htext).1 h)
  · intro h
    cases h with
    | null => rfl
    | bool b => exact beq_self_eq_true b
    | int n => exact beq_self_eq_true n
    | distance hdistance hx hy hnear =>
      rw [← Finite64.near_eq_lt_tenThousandth] at hnear
      exact (looselyEqual_iff_of_byDistance hdistance).2 ⟨_, _, hx, hy, hnear⟩
    | text htext heq => exact (looselyEqual_iff_of_byText htext).2 heq

/-- **The laws of agreement.**  Every value agrees with itself, and the order of the two values
does not matter.  Null agrees with null alone, and two integers agree iff they are equal, however
large they are.  Which other values agree is what the rules of `Agree` say. -/
theorem looselyEqual_laws :
    (∀ v : Json, looselyEqual v v = true) ∧
    (∀ v w : Json, looselyEqual v w = looselyEqual w v) ∧
    (∀ v : Json, (looselyEqual null v = true ↔ v = null) ∧
      (looselyEqual v null = true ↔ v = null)) ∧
    (∀ a b : Int, looselyEqual (int a) (int b) = true ↔ a = b) ∧
    (∀ v w : Json, looselyEqual v w = true ↔ Agree v w) := by
  refine ⟨looselyEqual_refl, looselyEqual_comm, fun v => ⟨looselyEqual_null_iff v, ?_⟩,
    looselyEqual_int_iff, looselyEqual_iff_agree⟩
  rw [looselyEqual_comm]
  exact looselyEqual_null_iff v

end RestCase.Json
