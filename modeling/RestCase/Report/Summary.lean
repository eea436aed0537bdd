/-
# RestCase.Report.Summary — summaries

How many cases of a run have passed.  Every case has passed or failed (`passed_add_failed`), all
have passed when each one has (`allPassed_iff`), and the rate is a hundred when there are cases and
each one has passed (`successRate_eq_hundred_iff`).

The verdict of a run is `Summary.allPassed`, so a suite without cases passes; whether a run may
begin without any is not asked here.
-/
import RestCase.Case.Result

namespace RestCase.Report

/-- The number of cases, and how many of them have passed (`Summary.ofResults`). -/
structure Summary where
  total : Nat
  passed : Nat
  deriving DecidableEq, Repr

namespace Summary

/-- The summary of results. -/
def ofResults (results : List CaseResult) : Summary :=
  ⟨results.length, results.countP CaseResult.passed⟩

/-- How many have failed. -/
def failed (s : Summary) : Nat := s.total - s.passed

/-- Whole percents of cases that have passed, rounded down. -/
def successRate (s : Summary) : Nat := s.passed * 100 / s.total

/-- No case has failed: what `Command.Verdict.ofResults` goes by. -/
def allPassed (s : Summary) : Bool := s.failed == 0

theorem passed_add_failed (results : List CaseResult) :
    (ofResults results).passed + (ofResults results).failed = results.length := by
  have h : results.countP CaseResult.passed ≤ results.length := List.countP_le_length
  simp only [failed, ofResults]
  omega

theorem allPassed_iff (results : List CaseResult) :
    (ofResults results).allPassed = true ↔ ∀ r ∈ results, r.passed = true := by
  have h : results.countP CaseResult.passed ≤ results.length := List.countP_le_length
  have hall := List.countP_eq_length (p := CaseResult.passed) (l := results)
  rw [← hall]
  simp only [allPassed, failed, ofResults, beq_iff_eq]
  omega

theorem passed_le_total (results : List CaseResult) :
    (ofResults results).passed ≤ (ofResults results).total := List.countP_le_length

theorem successRate_le (results : List CaseResult) : (ofResults results).successRate ≤ 100 :=
  Nat.div_le_of_le_mul (Nat.mul_le_mul_right 100 (passed_le_total results))

theorem successRate_eq_hundred_iff (results : List CaseResult) :
    (ofResults results).successRate = 100 ↔ results ≠ [] ∧ ∀ r ∈ results, r.passed = true := by
  rw [← allPassed_iff, allPassed, failed, beq_iff_eq, Nat.sub_eq_zero_iff_le, successRate]
  constructor
  · intro hrate
    have hsome : results ≠ [] := by
      rintro rfl
      cases hrate
    have htotal : 0 < (ofResults results).total := List.length_pos_iff.2 hsome
    have hall := (Nat.le_div_iff_mul_le htotal).1 (Nat.le_of_eq hrate.symm)
    exact ⟨hsome, by omega⟩
  · rintro ⟨hsome, hall⟩
    have htotal : 0 < (ofResults results).total := List.length_pos_iff.2 hsome
    rw [Nat.le_antisymm (passed_le_total results) hall, Nat.mul_div_cancel_left 100 htotal]

end Summary

end RestCase.Report
