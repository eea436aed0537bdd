/-
# RestCase.Proofs.Verification.Order — the order of loosely typed values

Two values are compared by number where both count as numbers, and by text everywhere else.  Which
of the two it is depends on the pair and not on the side that a value stands on (`ordering?_swap`),
and neither way leaves a pair undecided (`exists_ordering?`): texts are totally ordered, and so are
numbers, since nothing counts as what is no number.  `Json.Below` and `Json.Tied` say what the
answer means (`ordering?_eq_lt_iff`, `ordering?_eq_eq_iff`).

Hence of `greaterThan` and `lessThan` one is the other with the sides exchanged, and where both fail
on values other than null the values tie (`Question.ordered`).
-/
import RestCase.Proofs.Binary64.Difference
import RestCase.Proofs.Json.Numerals
import RestCase.Proofs.Verification.Presence

namespace RestCase

/-! ## The order -/

namespace Json

variable {v w : Json} {x y : Binary64}

/-- Both values count as numbers (`Json.CountsAs`). -/
def BothCount (v w : Json) : Prop := (∃ x, CountsAs v x) ∧ ∃ y, CountsAs w y

theorem BothCount.symm (h : BothCount v w) : BothCount w v := ⟨h.2, h.1⟩

/-- The first value comes before the second: as a number if both count as numbers (`BothCount`),
else as a text, unless one is null. -/
inductive Below : Json → Json → Prop
  | numbers {v w : Json} {x y : Binary64} :
      CountsAs v x → CountsAs w y → Binary64.Less x y → Below v w
  | texts {v w : Json} :
      v ≠ null → w ≠ null → ¬ BothCount v w → v.stringForm < w.stringForm → Below v w

/-- Neither value comes before the other: they are equal as numbers if both count as numbers, else
as texts. -/
inductive Tied : Json → Json → Prop
  | numbers {v w : Json} {x y : Binary64} :
      CountsAs v x → CountsAs w y → Binary64.Equal x y → Tied v w
  | texts {v w : Json} :
      v ≠ null → w ≠ null → ¬ BothCount v w → v.stringForm = w.stringForm → Tied v w

/-- Null does not count as a number. -/
theorem CountsAs.ne_null (h : CountsAs v x) : v ≠ null := by
  rintro rfl
  cases h

end Json

namespace Comparison

open Json (CountsAs BothCount Below Tied)

variable {v w : Json} {x y : Binary64}

theorem ordering?_of_ne_null (hv : v ≠ .null) (hw : w ≠ .null) :
    ordering? v w = match v.toNumber?, w.toNumber? with
      | some a, some b => a.compare? b
      | _, _ => some (compareOfLessAndEq v.stringForm w.stringForm) := by
  have hneither : ¬ (v.isNull || w.isNull) = true := by
    rw [Bool.or_eq_true, v.isNull_iff, w.isNull_iff]
    exact not_or.2 ⟨hv, hw⟩
  exact if_neg hneither

/-- Two values that count as numbers are compared by number. -/
theorem ordering?_of_countsAs (hx : CountsAs v x) (hy : CountsAs w y) :
    ordering? v w = x.compare? y := by
  rw [ordering?_of_ne_null hx.ne_null hy.ne_null, Json.toNumber?_eq_some_iff.2 hx,
    Json.toNumber?_eq_some_iff.2 hy]

/-- Any two other values are compared by text. -/
theorem ordering?_of_not_bothCount (hv : v ≠ .null) (hw : w ≠ .null) (h : ¬ BothCount v w) :
    ordering? v w = some (compareOfLessAndEq v.stringForm w.stringForm) := by
  rw [ordering?_of_ne_null hv hw]
  split
  · next a b ha hb =>
    exact absurd ⟨⟨a, Json.toNumber?_eq_some_iff.1 ha⟩, ⟨b, Json.toNumber?_eq_some_iff.1 hb⟩⟩ h
  · rfl

/-- The ways in which a pair is compared. -/
theorem bothCount_cases (hv : v ≠ .null) (hw : w ≠ .null) :
    (∃ x y, CountsAs v x ∧ CountsAs w y ∧ ordering? v w = x.compare? y) ∨
      (¬ BothCount v w ∧
        ordering? v w = some (compareOfLessAndEq v.stringForm w.stringForm)) := by
  by_cases h : BothCount v w
  · obtain ⟨⟨x, hx⟩, y, hy⟩ := h
    exact .inl ⟨x, y, hx, hy, ordering?_of_countsAs hx hy⟩
  · exact .inr ⟨h, ordering?_of_not_bothCount hv hw h⟩

theorem ne_null_of_ordering? {o : Ordering} (h : ordering? v w = some o) :
    v ≠ .null ∧ w ≠ .null := by
  constructor
  · rintro rfl
    rw [ordering?_null_left] at h
    cases h
  · rintro rfl
    rw [ordering?_null_right] at h
    cases h

/-- **Comparing says less** of a value that comes before the other: `ordering?` against `Below`. -/
theorem ordering?_eq_lt_iff : ordering? v w = some .lt ↔ Below v w := by
  constructor
  · intro h
    obtain ⟨hv, hw⟩ := ne_null_of_ordering? h
    rcases bothCount_cases hv hw with ⟨x, y, hx, hy, hnumbers⟩ | ⟨hboth, htexts⟩
    · exact .numbers hx hy (Binary64.compare?_eq_some_lt_iff.1 (hnumbers.symm.trans h))
    · have hlt := Option.some.inj (htexts.symm.trans h)
      exact .texts hv hw hboth (compareOfLessAndEq_eq_lt.1 hlt)
  · intro h
    cases h with
    | numbers hx hy hless =>
      rw [ordering?_of_countsAs hx hy, Binary64.compare?_eq_some_lt_iff]
      exact hless
    | texts hv hw hboth hless =>
      rw [ordering?_of_not_bothCount hv hw hboth, compareOfLessAndEq_eq_lt.2 hless]

/-- **Comparing says equal** of values that tie: `ordering?` against `Tied`. -/
theorem ordering?_eq_eq_iff : ordering? v w = some .eq ↔ Tied v w := by
  have htext : ∀ s t : String, compareOfLessAndEq s t = .eq ↔ s = t := fun s t =>
    compareOfLessAndEq_eq_eq String.le_refl String.not_le
  constructor
  · intro h
    obtain ⟨hv, hw⟩ := ne_null_of_ordering? h
    rcases bothCount_cases hv hw with ⟨x, y, hx, hy, hnumbers⟩ | ⟨hboth, htexts⟩
    · exact .numbers hx hy (Binary64.compare?_eq_some_eq_iff.1 (hnumbers.symm.trans h))
    · have heq := Option.some.inj (htexts.symm.trans h)
      exact .texts hv hw hboth ((htext _ _).1 heq)
  · intro h
    cases h with
    | numbers hx hy hequal =>
      rw [ordering?_of_countsAs hx hy, Binary64.compare?_eq_some_eq_iff]
      exact hequal
    | texts hv hw hboth hequal =>
      rw [ordering?_of_not_bothCount hv hw hboth, (htext _ _).2 hequal]

/-- **Comparing the other way round** swaps the answer of `ordering?`. -/
theorem ordering?_swap (v w : Json) : (ordering? v w).map Ordering.swap = ordering? w v := by
  by_cases hv : v = .null
  · rw [hv, ordering?_null_left, ordering?_null_right]
    rfl
  by_cases hw : w = .null
  · rw [hw, ordering?_null_left, ordering?_null_right]
    rfl
  rcases bothCount_cases hv hw with ⟨x, y, hx, hy, hnumbers⟩ | ⟨hboth, htexts⟩
  · rw [hnumbers, ordering?_of_countsAs hy hx]
    exact Binary64.compare?_swap x y
  · rw [htexts, ordering?_of_not_bothCount hw hv (mt BothCount.symm hboth)]
    exact congrArg some
      (compareOfLessAndEq_eq_swap String.le_antisymm String.le_total String.not_le).symm

theorem ordering?_eq_gt_iff : ordering? v w = some .gt ↔ Below w v := by
  rw [← ordering?_eq_lt_iff, ← ordering?_swap v w, Option.map_eq_some_iff]
  constructor
  · intro h
    exact ⟨.gt, h, rfl⟩
  · rintro ⟨o, ho, hswap⟩
    cases o with
    | gt => exact ho
    | lt | eq => cases hswap

/-- **Any two values but null are compared.** -/
theorem exists_ordering? (hv : v ≠ .null) (hw : w ≠ .null) : ∃ o, ordering? v w = some o := by
  rcases bothCount_cases hv hw with ⟨x, y, hx, hy, hnumbers⟩ | ⟨-, htexts⟩
  · rw [hnumbers]
    exact Binary64.exists_compare? hx.ne_nan hy.ne_nan
  · exact ⟨_, htexts⟩

theorem holds_greaterThan_iff [Pattern.Engine] : greaterThan.holds v w = true ↔ Below w v := by
  rw [← ordering?_eq_gt_iff]
  exact beq_iff_eq

theorem holds_lessThan_iff [Pattern.Engine] : lessThan.holds v w = true ↔ Below v w := by
  rw [← ordering?_eq_lt_iff]
  exact beq_iff_eq

end Comparison

namespace Json

open Comparison (ordering?_eq_lt_iff ordering?_eq_gt_iff ordering?_eq_eq_iff)

variable {v w : Json}

theorem Below.asymm (h : Below v w) : ¬ Below w v := by
  intro hback
  rw [← ordering?_eq_lt_iff] at h
  rw [← ordering?_eq_gt_iff, h] at hback
  cases hback

/-- Of any two values but null one comes before the other (`Below`), or they tie. -/
theorem tied_iff (hv : v ≠ null) (hw : w ≠ null) : Tied v w ↔ ¬ Below v w ∧ ¬ Below w v := by
  obtain ⟨o, ho⟩ := Comparison.exists_ordering? hv hw
  rw [← ordering?_eq_lt_iff, ← ordering?_eq_gt_iff, ← ordering?_eq_eq_iff, ho]
  cases o <;> simp

theorem Below.ne_null (h : Below v w) : v ≠ null ∧ w ≠ null :=
  Comparison.ne_null_of_ordering? (ordering?_eq_lt_iff.2 h)

end Json

/-! ## Assertions about the order -/

/-- An assertion that compares a value found in a document with an expected one. -/
structure Question [Pattern.Engine] (c : Comparison) (actual expected : Json) where
  document : Json
  ctx : Option Context
  assertion : PathAssertion
  asks : assertion.Asks document c (some actual)
  expects : assertion.resolved ctx = expected

namespace Question

open Json (Below Tied)

variable {c : Comparison} {v w : Json}

/-- The assertion passes. -/
def Passes [Pattern.Engine] (q : Question c v w) : Prop := q.assertion.Passes q.document q.ctx

/-- The assertion fails. -/
def Fails [Pattern.Engine] (q : Question c v w) : Prop := q.assertion.Fails q.document q.ctx

theorem passes_iff [Pattern.Engine] (q : Question c v w) : q.Passes ↔ c.holds v w = true := by
  have haccepts : q.Passes ↔ c.Accepts (q.assertion.resolved q.ctx) (some v) := q.asks.passes_iff
  rw [q.expects] at haccepts
  exact haccepts

theorem fails_iff [Pattern.Engine] (q : Question c v w) : q.Fails ↔ ¬ q.Passes := q.asks.fails_iff

/-- **The assertions `greaterThan` and `lessThan` follow a total order.**  Exchanging the two
values exchanges the two assertions, and the two never pass together.  On values other than null
both fail iff the values tie (`Tied`), and on null both fail.  Which value comes before which
(`Below`) is decided by number iff both are numbers or numerals in ASCII digits (`BothCount`), and
else by text. -/
theorem ordered [Pattern.Engine] (greater : Question .greaterThan v w)
    (less : Question .lessThan v w) (mirrored : Question .lessThan w v) :
    (greater.Passes ↔ mirrored.Passes) ∧
    ¬ (greater.Passes ∧ less.Passes) ∧
    (v ≠ .null → w ≠ .null → (greater.Fails ∧ less.Fails ↔ Tied v w)) ∧
    (greater.Passes ↔ Below w v) ∧
    (less.Passes ↔ Below v w) ∧
    (v = .null ∨ w = .null → greater.Fails ∧ less.Fails) := by
  have hgreater : greater.Passes ↔ Below w v :=
    greater.passes_iff.trans Comparison.holds_greaterThan_iff
  have hless : less.Passes ↔ Below v w := less.passes_iff.trans Comparison.holds_lessThan_iff
  have hmirrored : mirrored.Passes ↔ Below w v :=
    mirrored.passes_iff.trans Comparison.holds_lessThan_iff
  refine ⟨hgreater.trans hmirrored.symm, ?_, fun hv hw => ?_, hgreater, hless, fun hnull => ?_⟩
  · rw [hgreater, hless]
    exact fun hboth => hboth.1.asymm hboth.2
  · rw [greater.fails_iff, less.fails_iff, hgreater, hless, Json.tied_iff hv hw]
    exact and_comm
  · rw [greater.fails_iff, less.fails_iff, hgreater, hless]
    rcases hnull with hv | hw
    · exact ⟨fun h => h.ne_null.2 hv, fun h => h.ne_null.1 hv⟩
    · exact ⟨fun h => h.ne_null.1 hw, fun h => h.ne_null.2 hw⟩

/-- The assertion about a whole document. -/
def plain [Pattern.Engine] (c : Comparison) (v w : Json) : Question c v w where
  document := v
  ctx := none
  assertion := ⟨"$", w, c.name⟩
  asks := ⟨Comparison.ofName?_name c, ⟨"$", [.root], true⟩, (rfl : Path.parse "$" = _), rfl⟩
  expects := by cases w <;> rfl

/-- The numeral of ten. -/
def ten : Numeral Chars.isDigit where
  negative := false
  whole := ['1', '0']
  fraction := none
  whole_digits := ⟨List.cons_ne_nil _ _, List.all_eq_true.1 rfl⟩
  fraction_digits := by simp

/-- Ten as a text is greater than nine, although its text comes before the one of nine; a three of
another script does not count, so that its text is compared; null is neither greater nor less. -/
theorem ordered_ten :
    ((plain .greaterThan (.string "10") (.int 9)).Passes ∧
      (plain .lessThan (.int 9) (.string "10")).Passes ∧
      ¬ (plain .lessThan (.string "10") (.int 9)).Passes) ∧
    (plain .greaterThan (.string "٣") (.int 9)).Passes ∧
    (plain .greaterThan .null (.int 9)).Fails := by
  have hten : Json.CountsAs (.string "10") ten.value := .numeral ten
  have hless : Binary64.Less (Binary64.ofInt 9) ten.value :=
    Binary64.compare?_eq_some_lt_iff.1 rfl
  have hother : ¬ Json.BothCount (.int 9) (.string "٣") := by
    rintro ⟨-, x, hx⟩
    have hnone : (Json.string "٣").toNumber? = none := rfl
    rw [← Json.toNumber?_eq_some_iff, hnone] at hx
    cases hx
  have htext : (Json.int 9).stringForm < (Json.string "٣").stringForm := by decide +kernel
  obtain ⟨hmirror, hboth, -, hgreater, -, -⟩ := ordered (plain .greaterThan (.string "10") (.int 9))
    (plain .lessThan (.string "10") (.int 9)) (plain .lessThan (.int 9) (.string "10"))
  obtain ⟨-, -, -, hscript, -, -⟩ := ordered (plain .greaterThan (.string "٣") (.int 9))
    (plain .lessThan (.string "٣") (.int 9)) (plain .lessThan (.int 9) (.string "٣"))
  obtain ⟨-, -, -, -, -, hnull⟩ := ordered (plain .greaterThan .null (.int 9))
    (plain .lessThan .null (.int 9)) (plain .lessThan (.int 9) .null)
  have hpasses := hgreater.2 (.numbers (.int 9) hten hless)
  refine ⟨⟨hpasses, hmirror.1 hpasses, fun hlower => hboth ⟨hpasses, hlower⟩⟩, ?_, ?_⟩
  · exact hscript.2 (.texts nofun nofun hother htext)
  · exact (hnull (.inl rfl)).1

end Question

end RestCase
