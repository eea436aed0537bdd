/-
# RestCase.Proofs.Verification.IntegerOrder — assertions on two integers

Whether two integers are equal is decided exactly, but which of them is greater is decided by the
binary64 numbers nearest to them (`holds_greaterThan_int_iff`, `holds_lessThan_int_iff`).  The two
answers fit together as long as different integers have different numbers.  Where two integers share
one number, neither is greater or less than the other, and they are not equal either: of the three
assertions none passes (`exists_integers_without_order`).

`check_integers` says when exactly the assertion passes that the order calls for.
-/
import RestCase.Proofs.Binary64.Integers
import RestCase.Proofs.Verification.Presence

namespace RestCase

open Binary64 (ofInt intRank)

namespace Comparison

/-- The comparison that the order of an actual and an expected number calls for: one of
`ofOrders`. -/
def ofOrder : Ordering → Comparison
  | .lt => lessThan
  | .eq => equals
  | .gt => greaterThan

/-- The comparisons of which an order calls for one. -/
def ofOrders : List Comparison := [equals, greaterThan, lessThan]

theorem ordering?_int (a b : Int) :
    ordering? (.int a) (.int b) = some (compare (intRank a) (intRank b)) := by
  unfold ordering?
  simp only [Json.isNull, Bool.or_self, Bool.false_eq_true, if_false, Json.toNumber?]
  exact Binary64.compare?_ofInt a b

theorem holds_equals_int_iff [Pattern.Engine] (a b : Int) :
    equals.holds (.int a) (.int b) = true ↔ a = b :=
  Json.looselyEqual_int_iff a b

/-- A rank is less than another iff its integer is and the two numbers differ. -/
theorem intRank_lt_iff (a b : Int) : intRank a < intRank b ↔ a < b ∧ ofInt a ≠ ofInt b := by
  rw [Ne, Binary64.ofInt_eq_iff]
  constructor
  · intro h
    refine ⟨?_, Int.ne_of_lt h⟩
    rcases Int.lt_or_le a b with hlt | hle
    · exact hlt
    · have hmono := Binary64.intRank_mono hle
      omega
  · rintro ⟨hlt, hne⟩
    have hmono := Binary64.intRank_mono (Int.le_of_lt hlt)
    omega

/-- **An integer passes for greater** iff it is and the two have different numbers
(`Binary64.ofInt`). -/
theorem holds_greaterThan_int_iff [Pattern.Engine] (a b : Int) :
    greaterThan.holds (.int a) (.int b) = true ↔ b < a ∧ ofInt a ≠ ofInt b := by
  have hrank := intRank_lt_iff b a
  rw [ne_comm] at hrank
  simp only [holds, ordering?_int, beq_iff_eq, Option.some.injEq, Int.compare_eq_gt, hrank]

/-- **An integer passes for less** iff it is and the two have different numbers
(`Binary64.ofInt`). -/
theorem holds_lessThan_int_iff [Pattern.Engine] (a b : Int) :
    lessThan.holds (.int a) (.int b) = true ↔ a < b ∧ ofInt a ≠ ofInt b := by
  simp only [holds, ordering?_int, beq_iff_eq, Option.some.injEq, Int.compare_eq_lt,
    intRank_lt_iff]

/-- **Where two integers are equal or have different numbers**, and nowhere else, that comparison
alone holds which their order calls for (`ofOrder`). -/
theorem holds_int_iff_ofOrder [Pattern.Engine] (a b : Int) :
    (∀ c ∈ ofOrders, (c.holds (.int a) (.int b) = true ↔ c = ofOrder (compare a b))) ↔
      a = b ∨ ofInt a ≠ ofInt b := by
  simp only [ofOrders, List.forall_mem_cons, holds_equals_int_iff, holds_greaterThan_int_iff,
    holds_lessThan_int_iff, List.not_mem_nil, false_implies, implies_true, and_true]
  rcases Int.lt_trichotomy a b with h | h | h
  · rw [Int.compare_eq_lt.2 h]
    simp [ofOrder, h, Int.ne_of_lt h, Int.not_lt.2 (Int.le_of_lt h)]
  · rw [Int.compare_eq_eq.2 h]
    simp [ofOrder, h]
  · rw [Int.compare_eq_gt.2 h]
    simp [ofOrder, h, (Int.ne_of_lt h).symm, Int.not_lt.2 (Int.le_of_lt h)]

/-- Different integers of magnitude up to `2 ^ 53` have different numbers. -/
theorem eq_or_ofInt_ne {a b : Int} (ha : a.natAbs ≤ 2 ^ 53) (hb : b.natAbs ≤ 2 ^ 53) :
    a = b ∨ ofInt a ≠ ofInt b := by
  rw [Ne, Binary64.ofInt_eq_iff]
  rcases Int.lt_trichotomy a b with h | h | h
  · have hlt := Binary64.intRank_lt h ha hb
    exact .inr (by omega)
  · exact .inl h
  · have hlt := Binary64.intRank_lt h hb ha
    exact .inr (by omega)

end Comparison

namespace PathAssertion

/-- The assertion that compares what a path leads to with an integer. -/
def comparing (path : String) (c : Comparison) (n : Int) : PathAssertion := ⟨path, .int n, c.name⟩

/-- **An assertion on a value that was found passes iff its comparison holds.** -/
theorem check_eq_ok_none_iff [Pattern.Engine] {document actual : Json} {a : PathAssertion}
    {ctx : Option Context}
    {c : Comparison} {path : Path} (hname : Comparison.ofName? a.comparison = some c)
    (hpath : Path.parse a.path = .ok path) (hactual : path.evaluate document = .ok (some actual)) :
    a.check document ctx = .ok none ↔ c.holds actual (a.resolved ctx) = true :=
  Asks.passes_iff ⟨hname, path, hpath, hactual⟩

/-- **When the three assertions on two integers tell their order.**  Of `equals`, `greaterThan`
and `lessThan` exactly the one passes that the order of the integers calls for (`ofOrder`), if and
only if they are equal or have different binary64 numbers (`Binary64.ofInt`); else none of the
three passes.  Up to `2 ^ 53` in magnitude different integers have different numbers. -/
theorem check_integers [Pattern.Engine] {document : Json} {text : String} {path : Path} {a : Int}
    (b : Int) (ctx : Option Context) (hpath : Path.parse text = .ok path)
    (hactual : path.evaluate document = .ok (some (.int a))) :
    ((∀ c ∈ Comparison.ofOrders, ((comparing text c b).check document ctx = .ok none ↔
        c = Comparison.ofOrder (compare a b))) ↔ a = b ∨ ofInt a ≠ ofInt b) ∧
    (a ≠ b → ofInt a = ofInt b → ∀ c ∈ Comparison.ofOrders,
      (comparing text c b).check document ctx ≠ .ok none) ∧
    (a.natAbs ≤ 2 ^ 53 → b.natAbs ≤ 2 ^ 53 → a = b ∨ ofInt a ≠ ofInt b) := by
  have hholds : ∀ c : Comparison, (comparing text c b).check document ctx = .ok none ↔
      c.holds (.int a) (.int b) = true := fun c =>
    check_eq_ok_none_iff (Comparison.ofName?_name c) hpath hactual
  refine ⟨?_, fun hne hsame => ?_, Comparison.eq_or_ofInt_ne⟩
  · simp only [hholds]
    exact Comparison.holds_int_iff_ofOrder a b
  · simp only [Ne, hholds, Comparison.ofOrders, List.forall_mem_cons,
      Comparison.holds_equals_int_iff, Comparison.holds_greaterThan_int_iff,
      Comparison.holds_lessThan_int_iff]
    simp [hne, hsame]

/-- The greatest unsigned word is greater than the least signed one. -/
theorem check_integers_ends :
    (Path.parse "$" = .ok ⟨"$", [.root], true⟩ ∧
      Path.evaluate ⟨"$", [.root], true⟩ (.int 18446744073709551615) =
        .ok (some (.int 18446744073709551615))) ∧
    (comparing "$" .greaterThan (-9223372036854775808)).check (.int 18446744073709551615) none
      = .ok none ∧
    (comparing "$" .equals (-9223372036854775808)).check (.int 18446744073709551615) none
      ≠ .ok none := by
  have hpath : Path.parse "$" = .ok ⟨"$", [.root], true⟩ := rfl
  have hactual : Path.evaluate ⟨"$", [.root], true⟩ (.int 18446744073709551615) =
      .ok (some (.int 18446744073709551615)) := rfl
  have horder := (check_integers (-9223372036854775808) none hpath hactual).1.2
    (.inr (by decide +kernel))
  refine ⟨⟨hpath, hactual⟩, ?_, ?_⟩
  · exact (horder .greaterThan (by decide)).2 (by decide +kernel)
  · rw [Ne, horder .equals (by decide)]
    decide +kernel

/-- **Two integers on which no assertion passes**: `2 ^ 53 + 1` is neither equal to `2 ^ 53` nor
greater nor less. -/
theorem exists_integers_without_order :
    (9007199254740992 : Int) < 9007199254740993 ∧
    (comparing "$" .equals 9007199254740992).check (.int 9007199254740993) none ≠ .ok none ∧
    (comparing "$" .greaterThan 9007199254740992).check (.int 9007199254740993) none ≠ .ok none ∧
    (comparing "$" .lessThan 9007199254740992).check (.int 9007199254740993) none ≠ .ok none := by
  have hpath : Path.parse "$" = .ok ⟨"$", [.root], true⟩ := rfl
  have hholds : ∀ c : Comparison,
      (comparing "$" c 9007199254740992).check (.int 9007199254740993) none = .ok none ↔
        c.holds (.int 9007199254740993) (.int 9007199254740992) = true := fun c =>
    check_eq_ok_none_iff (Comparison.ofName?_name c) hpath rfl
  simp only [Ne, hholds]
  decide +kernel

end PathAssertion

end RestCase
